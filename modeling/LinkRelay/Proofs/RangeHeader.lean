import LinkRelay.ByteRange
import LinkRelay.Proofs.Text.Numeral
set_option autoImplicit false

/-!
# Range headers

Which texts are read as a range request, and as which one. Every text that is printed for a request
with a bound, or for a byte range, is among them and gives the same bounds back.
-/

namespace LinkRelay

namespace RangeRequest

/-- One bound as it may be written: nothing, or a numeral within 64 bits, among blanks. -/
inductive WritesBound (s : List Char) : Option Nat → Prop
  | absent (h : Text.trim s = []) : WritesBound s none
  | present {n : Nat} (h : Text.IsNumeral (Text.trim s) n) (hn : n ≤ Text.maxU64) :
    WritesBound s (some n)

/-- The texts that ask for a range: two bounds with a dash between them, of which one may be left
    out. A dash in the second bound would not be a numeral's. -/
def Writes (text : String) (r : RangeRequest) : Prop :=
  ∃ start last, Text.trim text.toList = "bytes=".toList ++ (start ++ '-' :: last) ∧
    ',' ∉ start ∧ ',' ∉ last ∧ '-' ∉ start ∧
    WritesBound start r.start? ∧ WritesBound last r.last? ∧ (r.start?.isSome ∨ r.last?.isSome)

theorem readBound_eq_ok_iff {which : String} {s : List Char} {bound : Option Nat} :
    readBound which s = .ok bound ↔ WritesBound s bound := by
  unfold readBound
  split
  · rename_i hempty
    constructor
    · rintro ⟨⟩
      exact .absent hempty
    · rintro (h | ⟨h, -⟩)
      · rfl
      · rw [hempty] at h
        cases h with
        | plain hne => exact absurd rfl hne
  · rename_i hne
    constructor
    · intro h
      split at h
      · rename_i n hn
        cases h
        obtain ⟨hnumeral, hle⟩ := Text.readNumber_eq_ok_iff.1 hn
        exact .present hnumeral hle
      · cases h
    · rintro (h | ⟨h, hle⟩)
      · exact absurd h hne
      · rw [Text.readU64, Text.readNumber_eq_ok_iff.2 ⟨h, hle⟩]

theorem readBound_error {which : String} {s : List Char} {f : Failure}
    (h : readBound which s = .error f) : ∃ fault, f = .parse fault := by
  unfold readBound at h
  split at h
  · cases h
  · split at h <;> cases h
    exact ⟨_, rfl⟩

theorem writes_of_ofHeader {text : String} {r : RangeRequest} (h : ofHeader text = .ok r) :
    Writes text r := by
  unfold ofHeader at h
  dsimp only [bind, Except.bind, pure, Except.pure, throw, throwThe, MonadExceptOf.throw] at h
  split at h
  case h_2 => cases h
  rename_i range hrange
  split at h
  · cases h
  rename_i hcommas
  split at h
  case h_2 => cases h
  rename_i start last hsplit
  split at h
  · cases h
  rename_i first hfirst
  split at h
  · cases h
  rename_i final hfinal
  split at h
  · cases h
  rename_i hbounds
  cases h
  obtain ⟨rfl, hdash⟩ := Text.splitFirst_eq_some_iff.1 hsplit
  have hcomma : ',' ∉ start ++ '-' :: last := by simpa using hcommas
  rw [List.mem_append, List.mem_cons, not_or, not_or] at hcomma
  refine ⟨start, last, Text.eq_append_of_after? hrange, hcomma.1, hcomma.2.2, hdash,
    readBound_eq_ok_iff.1 hfirst, readBound_eq_ok_iff.1 hfinal, ?_⟩
  cases first <;> cases final <;> simp_all

theorem ofHeader_of_writes {text : String} {r : RangeRequest} (h : Writes text r) :
    ofHeader text = .ok r := by
  obtain ⟨start, last, htext, hstart, hlast, hdash, hfirst, hfinal, hbounds⟩ := h
  have hrange := Text.after?_append "bytes=".toList (start ++ '-' :: last)
  have hcomma : (start ++ '-' :: last).contains ',' = false := by simp [hstart, hlast]
  unfold ofHeader
  dsimp only [bind, Except.bind, pure, Except.pure, throw, throwThe, MonadExceptOf.throw]
  rw [htext, hrange]
  dsimp only
  rw [hcomma, if_neg Bool.false_ne_true, Text.splitFirst_of_notMem last hdash]
  dsimp only
  rw [readBound_eq_ok_iff.2 hfirst]
  dsimp only
  rw [readBound_eq_ok_iff.2 hfinal]
  dsimp only
  have hsome : ¬ (r.start?.isNone && r.last?.isNone) = true := by
    rcases r with ⟨_ | first, _ | final⟩ <;> simp_all
  rw [if_neg hsome]

theorem ofHeader_error {text : String} {f : Failure} (h : ofHeader text = .error f) :
    ∃ fault, f = .parse fault := by
  unfold ofHeader at h
  dsimp only [bind, Except.bind, pure, Except.pure, throw, throwThe, MonadExceptOf.throw] at h
  split at h
  case h_2 => cases h; exact ⟨_, rfl⟩
  split at h
  · cases h; exact ⟨_, rfl⟩
  split at h
  case h_2 => cases h; exact ⟨_, rfl⟩
  split at h
  · rename_i hstart
    cases h
    exact readBound_error hstart
  split at h
  · rename_i hlast
    cases h
    exact readBound_error hlast
  split at h
  · cases h; exact ⟨_, rfl⟩
  · cases h

structure Fits (r : RangeRequest) : Prop where
  start : ∀ n ∈ r.start?, n ≤ Text.maxU64
  last : ∀ n ∈ r.last?, n ≤ Text.maxU64

inductive Prints : RangeRequest → String → Prop
  | closed (a b : Nat) : Prints ⟨some a, some b⟩ s!"bytes={a}-{b}"
  | onward (a : Nat) : Prints ⟨some a, none⟩ s!"bytes={a}-"
  | suffix (n : Nat) : Prints ⟨none, some n⟩ s!"bytes=-{n}"

theorem header_of_prints {r : RangeRequest} {text : String} (h : Prints r text) :
    r.header = text := by
  cases h <;> simp [header, toString]

theorem exists_prints {r : RangeRequest} (h : r.start?.isSome ∨ r.last?.isSome) :
    ∃ text, Prints r text := by
  rcases r with ⟨_ | a, _ | b⟩
  · simp at h
  · exact ⟨_, .suffix b⟩
  · exact ⟨_, .onward a⟩
  · exact ⟨_, .closed a b⟩

def digitsOf (bound : Option Nat) : List Char := (bound.map (Nat.toDigits 10)).getD []

theorem isDigit_of_mem_digitsOf {bound : Option Nat} {c : Char} (h : c ∈ digitsOf bound) :
    c.isDigit = true := by
  cases bound with
  | none => cases h
  | some n => exact Nat.isDigit_of_mem_toDigits (by decide) (by decide) h

theorem toList_header (r : RangeRequest) : r.header.toList =
    "bytes=".toList ++ (digitsOf r.start? ++ '-' :: digitsOf r.last?) := by
  have hbound (bound : Option Nat) :
      ((bound.map toString).getD "").toList = digitsOf bound := by
    cases bound with
    | none => rfl
    | some n => simp [digitsOf]
  have hheader : r.header = "bytes=" ++ (r.start?.map toString).getD "" ++ "-" ++
      (r.last?.map toString).getD "" := rfl
  simp [hheader, hbound]

theorem writesBound_digitsOf {bound : Option Nat} (h : ∀ n ∈ bound, n ≤ Text.maxU64) :
    WritesBound (digitsOf bound) bound := by
  have htrim : Text.trim (digitsOf bound) = digitsOf bound :=
    Text.trim_of_not_blank fun c hc => Text.isBlank_of_isDigit (isDigit_of_mem_digitsOf hc)
  cases bound with
  | none => exact .absent htrim
  | some n =>
    refine .present ?_ (h n rfl)
    rw [htrim]
    exact Text.IsNumeral.toDigits n

theorem writes_header {r : RangeRequest} (h : r.start?.isSome ∨ r.last?.isSome) (hfits : r.Fits) :
    Writes r.header r := by
  have hnot {bound : Option Nat} {c : Char} (hc : c.isDigit = false) : c ∉ digitsOf bound := by
    intro hmem
    rw [isDigit_of_mem_digitsOf hmem] at hc
    cases hc
  refine ⟨digitsOf r.start?, digitsOf r.last?, ?_, hnot rfl, hnot rfl, hnot rfl,
    writesBound_digitsOf hfits.start, writesBound_digitsOf hfits.last, h⟩
  rw [toList_header]
  apply Text.trim_append_of_not_blank (by decide)
  intro c hc
  rw [List.mem_append, List.mem_cons] at hc
  rcases hc with hc | rfl | hc
  · exact Text.isBlank_of_isDigit (isDigit_of_mem_digitsOf hc)
  · rfl
  · exact Text.isBlank_of_isDigit (isDigit_of_mem_digitsOf hc)

end RangeRequest

/-- A text is read as a range request exactly if it writes that request, and fails to parse if it
    writes none. What is printed for a request with a bound, or for a byte range, reads as the same
    bounds. -/
theorem range_headers_read_as_written :
    (∀ text r, RangeRequest.ofHeader text = .ok r ↔ RangeRequest.Writes text r) ∧
    (∀ text, (∀ r, ¬ RangeRequest.Writes text r) →
      ∃ fault, RangeRequest.ofHeader text = .error (.parse fault)) ∧
    (∀ r : RangeRequest, r.start?.isSome ∨ r.last?.isSome → r.Fits →
      RangeRequest.Prints r r.header ∧ RangeRequest.ofHeader r.header = .ok r) ∧
    ∀ r : ByteRange, r.last ≤ Text.maxU64 →
      RangeRequest.ofHeader r.header = .ok ⟨some r.first, some r.last⟩ := by
  have hreads {text : String} {r : RangeRequest} :
      RangeRequest.ofHeader text = .ok r ↔ RangeRequest.Writes text r :=
    ⟨RangeRequest.writes_of_ofHeader, RangeRequest.ofHeader_of_writes⟩
  refine ⟨fun _ _ => hreads, fun text hnone => ?_, fun r hbound hfits => ?_, fun r hlast => ?_⟩
  · cases h : RangeRequest.ofHeader text with
    | ok r => exact absurd (hreads.1 h) (hnone r)
    | error f =>
      obtain ⟨fault, rfl⟩ := RangeRequest.ofHeader_error h
      exact ⟨fault, rfl⟩
  · obtain ⟨text, hprints⟩ := RangeRequest.exists_prints hbound
    refine ⟨?_, hreads.2 (RangeRequest.writes_header hbound hfits)⟩
    rwa [RangeRequest.header_of_prints hprints]
  · have hfits : RangeRequest.Fits ⟨some r.first, some r.last⟩ :=
      ⟨fun n hn => Option.some_inj.1 hn ▸ Nat.le_trans r.first_le_last hlast,
        fun n hn => Option.some_inj.1 hn ▸ hlast⟩
    have hheader := RangeRequest.header_of_prints (.closed r.first r.last)
    rw [ByteRange.header, ← hheader]
    exact hreads.2 (RangeRequest.writes_header (.inl rfl) hfits)

/-- A bound among blanks, a text with a dash too many, and the longest suffix there is. -/
theorem range_headers_read_as_written_among_blanks :
    RangeRequest.Writes "\tbytes= +05 - " ⟨some 5, none⟩ ∧
      (∃ fault, RangeRequest.ofHeader "bytes=0-1-2" = .error (.parse fault)) ∧
      RangeRequest.Prints ⟨none, some Text.maxU64⟩ "bytes=-18446744073709551615" ∧
      RangeRequest.ofHeader "bytes=-18446744073709551615" = .ok ⟨none, some Text.maxU64⟩ := by
  obtain ⟨hreads, hrefused, hprinted, -⟩ := range_headers_read_as_written
  have hspaced : RangeRequest.ofHeader "\tbytes= +05 - " = .ok ⟨some 5, none⟩ := by decide
  have hnone (r : RangeRequest) : ¬ RangeRequest.Writes "bytes=0-1-2" r := fun h => by
    have hread := (hreads _ _).2 h
    have herror : RangeRequest.ofHeader "bytes=0-1-2" =
      .error (.parse (.bound "end" .invalidDigit)) := by decide
    rw [herror] at hread
    cases hread
  have hsuffix := hprinted ⟨none, some Text.maxU64⟩ (.inr rfl)
    ⟨nofun, fun n hn => Option.some_inj.1 hn ▸ Nat.le_refl _⟩
  exact ⟨(hreads _ _).1 hspaced, hrefused _ hnone, hsuffix⟩

end LinkRelay

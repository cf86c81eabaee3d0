import Mathlib.Order.Interval.Finset.Nat
import LinkRelay.Proofs.Relay.Opening
set_option autoImplicit false

/-!
# The bytes a media request asks for

The positions that a range selects decide what becomes of it: whether there is a request, how many
bytes that expects and what its header says. `prepared_by_selected_positions` says so, and that
the arithmetic on the way stays within 64 bits: carried out on words, where a step that leaves
them has no result, it always has one, and the same.
-/

namespace LinkRelay

namespace RangeRequest

def positions (range : Option RangeRequest) (size : Nat) : Finset Nat :=
  (Finset.range size).filter (Selects range size)

theorem mem_positions {range : Option RangeRequest} {size i : Nat} :
    i ∈ positions range size ↔ Selects range size i := by
  rw [positions, Finset.mem_filter, Finset.mem_range]
  exact ⟨And.right, fun h => ⟨h.1, h⟩⟩

theorem positions_none (size : Nat) : positions none size = Finset.range size :=
  Finset.filter_true_of_mem fun _ hi => ⟨Finset.mem_range.1 hi, trivial⟩

theorem selects_iff_of_resolve {request : RangeRequest} {size : Nat} {r : ByteRange}
    (h : request.resolve size = .ok r) (i : Nat) :
    Selects (some request) size i ↔ r.first ≤ i ∧ i ≤ r.last := by
  unfold resolve at h
  split at h
  · cases h
  rename_i hsize
  have upTo {start final : Nat} (h : (if size - 1 < start then .error (.range (.pastEnd start size))
      else ByteRange.between start final) = .ok r) : r.first = start ∧ r.last = final := by
    split at h
    · cases h
    · exact ByteRange.between_eq_ok h
  rcases request with ⟨_ | start, _ | final⟩ <;> dsimp only at h
  · obtain ⟨hfirst, hlast⟩ := upTo h
    change r.first = 0 at hfirst
    change r.last = size - 1 at hlast
    change i < size ∧ True ↔ _
    rw [and_true]
    omega
  · split at h
    · cases h
    · obtain ⟨hfirst, hlast⟩ := upTo h
      simp only [Selects, hfirst, hlast]
      omega
  · obtain ⟨hfirst, hlast⟩ := upTo h
    simp only [Selects, hfirst, hlast, Option.getD_some]
    omega
  · obtain ⟨hfirst, hlast⟩ := upTo h
    simp only [Selects, hfirst, hlast, Option.getD_some]
    omega

theorem positions_of_resolve {request : RangeRequest} {size : Nat} {r : ByteRange}
    (h : request.resolve size = .ok r) :
    positions (some request) size = Finset.Icc r.first r.last := by
  ext i
  rw [mem_positions, selects_iff_of_resolve h, Finset.mem_Icc]

theorem positions_of_resolve_error {request : RangeRequest} {size : Nat} {f : Failure}
    (h : request.resolve size = .error f) :
    positions (some request) size = ∅ ∧ ∃ fault, f = .range fault := by
  have hresolved := request.resolved size
  rw [h] at hresolved
  cases hresolved with
  | nothing fault hnone =>
    exact ⟨Finset.eq_empty_of_forall_notMem fun i hi => hnone i (mem_positions.1 hi), fault, rfl⟩

end RangeRequest

theorem ByteRange.isFull_iff (r : ByteRange) {size : Nat} (h : r.last < size) :
    r.isFull size = true ↔ Finset.Icc r.first r.last = Finset.range size := by
  simp only [isFull, Bool.and_eq_true, decide_eq_true_eq, beq_iff_eq]
  constructor
  · rintro ⟨⟨hpositive, hfirst⟩, hlast⟩
    ext i
    rw [Finset.mem_Icc, Finset.mem_range]
    omega
  · intro hall
    have hfirst : 0 ∈ Finset.Icc r.first r.last := hall ▸ Finset.mem_range.2 (by omega)
    have hlast : size - 1 ∈ Finset.Icc r.first r.last := hall ▸ Finset.mem_range.2 (by omega)
    rw [Finset.mem_Icc] at hfirst hlast
    omega

namespace Word

def sub? (a b : UInt64) : Option UInt64 := if b ≤ a then some (a - b) else none

def succ? (a : UInt64) : Option UInt64 := if a.toNat + 1 < 2 ^ 64 then some (a + 1) else none

def monus (a b : UInt64) : UInt64 := if b ≤ a then a - b else 0

theorem sub?_eq {a b : UInt64} (h : b.toNat ≤ a.toNat) :
    ∃ c, sub? a b = some c ∧ c.toNat = a.toNat - b.toNat :=
  ⟨a - b, if_pos (UInt64.le_iff_toNat_le.2 h),
    UInt64.toNat_sub_of_le _ _ (UInt64.le_iff_toNat_le.2 h)⟩

theorem succ?_eq {a : UInt64} (h : a.toNat + 1 < 2 ^ 64) :
    ∃ c, succ? a = some c ∧ c.toNat = a.toNat + 1 :=
  ⟨a + 1, if_pos h, by rw [UInt64.toNat_add]; exact Nat.mod_eq_of_lt h⟩

theorem monus_toNat (a b : UInt64) : (monus a b).toNat = a.toNat - b.toNat := by
  unfold monus
  split
  · rename_i h
    exact UInt64.toNat_sub_of_le _ _ h
  · rename_i h
    rw [UInt64.le_iff_toNat_le] at h
    exact (Nat.sub_eq_zero_of_le (Nat.le_of_not_le h)).symm

theorem min_toNat (a b : UInt64) : (min a b).toNat = min a.toNat b.toNat := by
  rw [Nat.min_def]
  change (if a ≤ b then a else b).toNat = _
  simp only [UInt64.le_iff_toNat_le]
  split <;> rfl

end Word

/-- A byte range whose bounds are words. -/
structure WordRange where
  first : UInt64
  last : UInt64
  first_le_last : first.toNat ≤ last.toNat

namespace WordRange

def toRange (r : WordRange) : ByteRange := ⟨r.first.toNat, r.last.toNat, r.first_le_last⟩

def between (first last : UInt64) : Except Failure WordRange :=
  if h : first.toNat ≤ last.toNat then .ok ⟨first, last, h⟩
  else .error (.range (.backwards first.toNat last.toNat))

def size (r : WordRange) : Option UInt64 := (Word.sub? r.last r.first).bind Word.succ?

/-- The last position is worked out only where it is compared. -/
def isFull (r : WordRange) (fileSize : UInt64) : Option Bool :=
  if 0 < fileSize ∧ r.first = 0 then (Word.sub? fileSize 1).map (r.last == ·) else some false

theorem between_toRange (first last : UInt64) :
    (between first last).map toRange = ByteRange.between first.toNat last.toNat := by
  unfold between ByteRange.between
  split <;> rfl

theorem size_toNat {r : WordRange} {fileSize : UInt64} (h : r.last.toNat < fileSize.toNat) :
    ∃ n, r.size = some n ∧ n.toNat = r.toRange.size := by
  have hbound := fileSize.toNat_lt
  obtain ⟨d, hd, hdiff⟩ := Word.sub?_eq r.first_le_last
  obtain ⟨n, hn, hsize⟩ := Word.succ?_eq (a := d) (by omega)
  refine ⟨n, ?_, ?_⟩
  · rw [size, hd]
    exact hn
  · rw [hsize, hdiff]
    rfl

theorem isFull_eq (r : WordRange) (fileSize : UInt64) :
    r.isFull fileSize = some (r.toRange.isFull fileSize.toNat) := by
  have hzero : r.first = 0 ↔ r.first.toNat = 0 := UInt64.toNat_inj.symm
  have hpositive : 0 < fileSize ↔ 0 < fileSize.toNat := UInt64.lt_iff_toNat_lt
  unfold isFull ByteRange.isFull
  simp only [hpositive, hzero]
  split
  · rename_i h
    obtain ⟨c, hc, hlast⟩ := Word.sub?_eq (a := fileSize) (b := 1) h.1
    have hsame : (r.last == c) = (r.last.toNat == fileSize.toNat - 1) := by
      rw [Bool.eq_iff_iff, beq_iff_eq, beq_iff_eq, ← UInt64.toNat_inj, hlast]
      rfl
    rw [hc, Option.map_some, hsame]
    simp only [toRange, h.1, h.2, decide_true, beq_self_eq_true, Bool.true_and]
  · rename_i h
    refine congrArg some (Eq.symm ?_)
    simp only [toRange, Bool.and_eq_false_iff, decide_eq_false_iff_not, beq_eq_false_iff_ne]
    exact .inl (Decidable.not_and_iff_or_not.1 h)

end WordRange

structure WordRequest where
  start? : Option UInt64
  last? : Option UInt64

namespace WordRequest

def toRequest (r : WordRequest) : RangeRequest :=
  ⟨r.start?.map UInt64.toNat, r.last?.map UInt64.toNat⟩

def upTo (size last start final : UInt64) : Except Failure WordRange :=
  if last < start then .error (.range (.pastEnd start.toNat size.toNat))
  else WordRange.between start final

/-- `RangeRequest.resolve`, step by step on words. -/
def resolve (r : WordRequest) (size : UInt64) : Option (Except Failure WordRange) :=
  if size = 0 then some (.error (.range .emptyFile))
  else do
    let last ← Word.sub? size 1
    match r.start?, r.last? with
    | none, some suffix =>
      if suffix = 0 then return .error (.range .emptySuffix)
      else return upTo size last (Word.monus size suffix) last
    | start, final => return upTo size last (start.getD 0) (match final with
      | some final => min final last
      | none => last)

theorem upTo_toRange {size last start final : UInt64} {start' final' : Nat}
    (hlast : last.toNat = size.toNat - 1) (hstart : start.toNat = start')
    (hfinal : final.toNat = final') : (upTo size last start final).map WordRange.toRange =
      if size.toNat - 1 < start' then .error (.range (.pastEnd start' size.toNat))
      else ByteRange.between start' final' := by
  subst hstart hfinal
  unfold upTo
  simp only [UInt64.lt_iff_toNat_lt, hlast]
  split
  · rfl
  · exact WordRange.between_toRange start final

theorem resolve_toRequest (r : WordRequest) (size : UInt64) :
    (r.resolve size).map (·.map WordRange.toRange) = some (r.toRequest.resolve size.toNat) := by
  have hzero (n : UInt64) : n = 0 ↔ n.toNat = 0 := UInt64.toNat_inj.symm
  unfold resolve RangeRequest.resolve
  by_cases hsize : size.toNat = 0
  · rw [if_pos ((hzero size).2 hsize), if_pos hsize]
    rfl
  rw [if_neg (mt (hzero size).1 hsize), if_neg hsize]
  obtain ⟨last, hsub, hlast⟩ := Word.sub?_eq (a := size) (b := 1) (Nat.pos_of_ne_zero hsize)
  rw [hsub]
  rcases r with ⟨_ | start, _ | final⟩
  · exact congrArg some (upTo_toRange hlast rfl hlast)
  · change Option.map _ (if final = 0 then _ else _) = some (if final.toNat = 0 then _ else _)
    by_cases hsuffix : final.toNat = 0
    · rw [if_pos ((hzero final).2 hsuffix), if_pos hsuffix]
      rfl
    · rw [if_neg (mt (hzero final).1 hsuffix), if_neg hsuffix]
      exact congrArg some (upTo_toRange hlast (Word.monus_toNat _ _) hlast)
  · exact congrArg some (upTo_toRange hlast rfl hlast)
  · refine congrArg some (upTo_toRange hlast rfl ?_)
    rw [Word.min_toNat, hlast]
    rfl

end WordRequest

structure WordPrepared where
  address : String
  range : Option WordRange
  expected : UInt64

namespace WordPrepared

def toPrepared (p : WordPrepared) : Prepared :=
  ⟨p.address, p.range.map WordRange.toRange, p.expected.toNat⟩

def ofByteRange (link : String) (size : UInt64) (r : WordRange) : Option WordPrepared := do
  if ← r.isFull size then return ⟨link, none, size⟩
  else return ⟨link, some r, ← r.size⟩

def ofRange (link : String) (size : UInt64) :
    Option WordRequest → Option (Except Failure WordPrepared)
  | none => some (.ok ⟨link, none, size⟩)
  | some request => do
    match ← request.resolve size with
    | .error f => return .error f
    | .ok r => return .ok (← ofByteRange link size r)

theorem ofByteRange_toPrepared (file : CachedFile) {size : UInt64} {r : WordRange}
    (h : r.last.toNat < size.toNat) : ∃ p, ofByteRange file.link size r = some p ∧
      p.toPrepared = Prepared.ofByteRange { file with size := size.toNat } r.toRange := by
  unfold ofByteRange Prepared.ofByteRange
  rw [WordRange.isFull_eq]
  change ∃ p, (if r.toRange.isFull size.toNat then _ else _) = _ ∧
    _ = if r.toRange.isFull size.toNat then _ else _
  split
  · exact ⟨_, rfl, rfl⟩
  · obtain ⟨n, hn, hsize⟩ := WordRange.size_toNat h
    rw [hn]
    exact ⟨_, rfl, congrArg (Prepared.mk _ _) hsize⟩

theorem ofRange_toPrepared (file : CachedFile) (size : UInt64) (range : Option WordRequest) :
    (ofRange file.link size range).map (·.map toPrepared) =
      some (Prepared.ofRange { file with size := size.toNat }
        (range.map WordRequest.toRequest)) := by
  cases range with
  | none => rfl
  | some request =>
    obtain ⟨answer, hanswer, hresolve⟩ :=
      Option.map_eq_some_iff.1 (request.resolve_toRequest size)
    change Option.map _ (Option.bind (request.resolve size) _) =
      some (Except.map _ (request.toRequest.resolve size.toNat))
    rw [hanswer, ← hresolve]
    cases answer with
    | error f => rfl
    | ok r =>
      have hlast := RangeRequest.last_lt_of_resolve hresolve.symm
      obtain ⟨p, hp, hprepared⟩ := ofByteRange_toPrepared file hlast
      change Option.map _ (Option.bind (ofByteRange file.link size r) _) = _
      rw [hp]
      exact congrArg (fun p => some (Except.ok p)) hprepared

end WordPrepared

namespace Prepared

/-- What the selected positions of a file make of a request for it. -/
def SelectedBy (file : CachedFile) (ranged : Bool) (selected : Finset Nat) :
    Except Failure Prepared → Prop
  | .error f => ranged ∧ selected = ∅ ∧ ∃ fault, f = .range fault
  | .ok p =>
    (ranged → selected.Nonempty) ∧ p.address = file.link ∧ p.expected = selected.card ∧
    (p.rangeHeader = none ↔ selected = Finset.range file.size) ∧
    ∀ header, p.rangeHeader = some header → ∃ a b, header = s!"bytes={a}-{b}" ∧
      a ≤ b ∧ b < file.size ∧ IsLeast (selected : Set Nat) a ∧ IsGreatest (selected : Set Nat) b ∧
      selected = Finset.Icc a b

theorem selectedBy_ofByteRange (file : CachedFile) {r : ByteRange} (h : r.last < file.size) :
    SelectedBy file true (Finset.Icc r.first r.last) (.ok (ofByteRange file r)) := by
  have hle := r.first_le_last
  have hfull := r.isFull_iff h
  unfold ofByteRange
  split
  · rename_i hr
    have hall := hfull.1 hr
    refine ⟨fun _ => Finset.nonempty_Icc.2 hle, rfl, ?_, iff_of_true rfl hall, nofun⟩
    rw [hall, Finset.card_range]
    rfl
  · rename_i hr
    refine ⟨fun _ => Finset.nonempty_Icc.2 hle, rfl, ?_,
      iff_of_false (Option.some_ne_none _) (mt hfull.2 hr), ?_⟩
    · rw [Nat.card_Icc, Nat.sub_add_comm hle]
      rfl
    · intro header hheader
      rw [Finset.coe_Icc]
      exact ⟨r.first, r.last, (Option.some.inj hheader).symm, hle, h, isLeast_Icc hle,
        isGreatest_Icc hle, rfl⟩

theorem selectedBy_ofRange (file : CachedFile) (range : Option RangeRequest) :
    SelectedBy file range.isSome (RangeRequest.positions range file.size) (ofRange file range) := by
  cases range with
  | none =>
    rw [RangeRequest.positions_none]
    exact ⟨nofun, rfl, (Finset.card_range _).symm, iff_of_true rfl rfl, nofun⟩
  | some request =>
    cases hr : request.resolve file.size with
    | error f =>
      rw [ofRange, hr]
      exact ⟨rfl, RangeRequest.positions_of_resolve_error hr⟩
    | ok r =>
      rw [ofRange, hr, RangeRequest.positions_of_resolve hr]
      exact selectedBy_ofByteRange file (RangeRequest.last_lt_of_resolve hr)

end Prepared

/-- The positions that a range selects decide the request for it, for a file of any size; with the
    size and the bounds as words, no step of the way to it leaves 64 bits. -/
theorem prepared_by_selected_positions (file : CachedFile) :
    (∀ range, Prepared.SelectedBy file range.isSome (RangeRequest.positions range file.size)
      (Prepared.ofRange file range)) ∧
    ∀ (size : UInt64) (range : Option WordRequest),
      (WordPrepared.ofRange file.link size range).map (·.map WordPrepared.toPrepared) =
        some (Prepared.ofRange { file with size := size.toNat }
          (range.map WordRequest.toRequest)) :=
  ⟨Prepared.selectedBy_ofRange file, WordPrepared.ofRange_toPrepared file⟩

end LinkRelay

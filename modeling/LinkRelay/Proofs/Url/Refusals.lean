import LinkRelay.Proofs.Text.Split
import LinkRelay.Proofs.Text.Utf8
import LinkRelay.Url.Host
set_option autoImplicit false

/-!
# Hosts that are refused

A control character or a blank in a host is still there when escapes were undone around it, and no
rules for domains let it pass. So the host is refused.
-/

namespace LinkRelay

def IsBare (c : Char) : Prop := c.toNat ≤ 0x20

theorem IsBare.ne {c d : Char} (h : IsBare c) (hd : 0x20 < d.toNat) : c ≠ d := by
  rintro rfl
  exact absurd h (Nat.not_le.2 hd)

theorem IsBare.not_ge {c d : Char} (h : IsBare c) (hd : 0x20 < d.toNat) : ¬ c.val ≥ d.val :=
  fun hle => absurd (Nat.le_trans hle h) (Nat.not_le.2 hd)

theorem IsBare.not_isDigit {c : Char} (h : IsBare c) : c.isDigit = false := by
  rw [Char.isDigit, decide_eq_false (h.not_ge (by decide)), Bool.false_and]

theorem IsBare.utf8EncodeChar {c : Char} (h : IsBare c) :
    String.utf8EncodeChar c = [UInt8.ofNat c.toNat] := by
  have hsmall : c.val.toNat ≤ 0x7f := Nat.le_trans h (by decide)
  unfold String.utf8EncodeChar
  dsimp only
  rw [if_pos hsmall]
  rfl

namespace Text

theorem isHexDigit_of_isBare {c : Char} (h : IsBare c) : isHexDigit c = false := by
  have ha : ¬ 'a' ≤ c := h.not_ge (by decide)
  have hA : ¬ 'A' ≤ c := h.not_ge (by decide)
  rw [isHexDigit, h.not_isDigit, decide_eq_false ha, decide_eq_false hA]
  rfl

end Text

theorem mem_of_mapM {α β : Type} {f : α → Option β} {l : List α} {l' : List β}
    (h : l.mapM f = some l') {a : α} (ha : a ∈ l) : ∃ b ∈ l', f a = some b := by
  induction l generalizing l' with
  | nil => cases ha
  | cons x rest ih =>
    rw [List.mapM_cons] at h
    obtain ⟨b, hb, h⟩ := Option.bind_eq_some_iff.1 h
    obtain ⟨bs, hbs, h⟩ := Option.bind_eq_some_iff.1 h
    cases h
    rcases List.mem_cons.1 ha with rfl | ha
    · exact ⟨b, List.mem_cons_self, hb⟩
    · obtain ⟨b', hb', hfa⟩ := ih hbs ha
      exact ⟨b', List.mem_cons_of_mem _ hb', hfa⟩

namespace Percent

theorem mem_decode {c : Char} (h : IsBare c) {s : List Char} (hc : c ∈ s) :
    UInt8.ofNat c.toNat ∈ decode s := by
  have hhex := Text.isHexDigit_of_isBare h
  induction s using decode.induct with
  | case1 => cases hc
  | case2 a b rest hdigits ih =>
    have hrest : c ∈ rest := by
      obtain ⟨ha, hb⟩ := (Bool.and_eq_true _ _).mp hdigits
      have hother {d : Char} (hd : Text.isHexDigit d = true) : c ≠ d := by
        rintro rfl
        rw [hhex] at hd
        cases hd
      have hc := (List.mem_cons.1 hc).resolve_left (h.ne (by decide))
      have hc := (List.mem_cons.1 hc).resolve_left (hother ha)
      exact (List.mem_cons.1 hc).resolve_left (hother hb)
    rw [decode, if_pos hdigits]
    exact List.mem_cons_of_mem _ (ih hrest)
  | case3 a b rest hdigits ih =>
    rw [decode, if_neg hdigits]
    exact List.mem_cons_of_mem _ (ih ((List.mem_cons.1 hc).resolve_left (h.ne (by decide))))
  | case4 d rest hnot ih =>
    rw [decode]
    · rcases List.mem_cons.1 hc with rfl | hc
      · rw [h.utf8EncodeChar]
        exact List.mem_append_left _ List.mem_cons_self
      · exact List.mem_append_right _ (ih hc)
    · exact hnot

end Percent

namespace Utf8

theorem low_of_start {b : Nat} {p : Pending} (h : start b = some (.inr p)) : 0x80 ≤ p.low := by
  unfold start at h
  repeat' split at h
  all_goals cases h
  all_goals exact Nat.le_of_ble_eq_true rfl

theorem feed_of_small {pending : Option Pending} (hlow : ∀ p ∈ pending, 0x80 ≤ p.low) {b : UInt8}
    (hb : b.toNat < 0x80) :
    some (Char.ofNat b.toNat) ∈ (feed pending b).1 ∧ (feed pending b).2 = none := by
  have henter : enter b.toNat = ([some (Char.ofNat b.toNat)], none) := by
    rw [enter, start, if_pos hb]
  cases pending with
  | none => exact ⟨by rw [feed, henter]; exact List.mem_cons_self, by rw [feed, henter]⟩
  | some p =>
    have hoff : ¬ (p.low ≤ b.toNat ∧ b.toNat ≤ p.high) := fun h =>
      absurd (Nat.lt_of_lt_of_le hb (hlow p rfl)) (Nat.not_lt.2 h.1)
    rw [feed, if_neg hoff, henter]
    exact ⟨List.mem_cons_of_mem _ List.mem_cons_self, rfl⟩

theorem low_of_feed (pending : Option Pending) (b : UInt8) :
    ∀ p ∈ (feed pending b).2, 0x80 ≤ p.low := by
  have henter (p : Pending) (hp : (enter b.toNat).2 = some p) : 0x80 ≤ p.low := by
    rw [enter] at hp
    split at hp
    next => cases hp
    next hstart =>
      cases hp
      exact low_of_start hstart
    next => cases hp
  intro p hp
  cases pending with
  | none => exact henter p hp
  | some q =>
    rw [feed] at hp
    split at hp
    · split at hp <;> cases hp
      exact Nat.le_refl _
    · exact henter p hp

theorem mem_scanFrom {pending : Option Pending} (hlow : ∀ p ∈ pending, 0x80 ≤ p.low) {b : UInt8}
    (hb : b.toNat < 0x80) {bytes : Bytes} (h : b ∈ bytes) :
    some (Char.ofNat b.toNat) ∈ scanFrom pending bytes := by
  induction bytes generalizing pending with
  | nil => cases h
  | cons d rest ih =>
    rw [scanFrom_cons]
    rcases List.mem_cons.1 h with rfl | h
    · exact List.mem_append_left _ (feed_of_small hlow hb).1
    · exact List.mem_append_right _ (ih (low_of_feed pending d) h)

theorem mem_decode? {bytes : Bytes} {s : String} (h : decode? bytes = some s) {b : UInt8}
    (hb : b.toNat < 0x80) (hmem : b ∈ bytes) : Char.ofNat b.toNat ∈ s.toList := by
  obtain ⟨chars, hchars, rfl⟩ := Option.map_eq_some_iff.1 h
  obtain ⟨c, hc, hsome⟩ := mem_of_mapM hchars (mem_scanFrom (by simp) hb hmem)
  rw [String.toList_ofList]
  rwa [← Option.some.inj hsome] at hc

end Utf8

theorem Host.bracketed?_concat {c : Char} (hc : c ≠ ']') {s : List Char}
    {inside : Except UrlFault (List Char)} (h : bracketed? (s ++ [c]) = some inside) :
    inside = .error .invalidIpv6 := by
  unfold bracketed? at h
  split at h
  next rest hrest =>
    have hlast : (s ++ [c]).getLast? = ('[' :: rest).getLast? := congrArg List.getLast? hrest
    split at h
    next inner hinner =>
      -- then the last character would be the bracket
      have hclosed : rest = inner.reverse ++ [']'] := by
        rw [← List.reverse_reverse rest, hinner, List.reverse_cons]
      rw [hclosed, List.getLast?_concat, ← List.cons_append, List.getLast?_concat] at hlast
      exact absurd (Option.some.inj hlast) hc
    next => exact (Option.some.inj h).symm
  next => cases h

theorem Host.readSpecial_concat (rules : Domain.Rules) {c : Char} (hc : IsBare c) (s : List Char)
    (host : Host) : readSpecial rules (s ++ [c]) ≠ .ok host := by
  intro h
  have hmem : c ∈ s ++ [c] := List.mem_append_right _ List.mem_cons_self
  unfold readSpecial at h
  have hname : (Utf8.decode? (Percent.decode (s ++ [c]))).bind
      (fun name => rules.toAscii? name.toList) = none := by
    cases hdecoded : Utf8.decode? (Percent.decode (s ++ [c])) with
    | none => rfl
    | some name =>
      have hsmall : (UInt8.ofNat c.toNat).toNat = c.toNat :=
        Utf8.toNat_ofNat (Nat.lt_of_le_of_lt hc (by decide))
      have hlow : (UInt8.ofNat c.toNat).toNat < 0x80 := by
        rw [hsmall]
        exact Nat.lt_of_le_of_lt hc (by decide)
      have hin := Utf8.mem_decode? hdecoded hlow (Percent.mem_decode hc hmem)
      rw [hsmall, Char.ofNat_toNat] at hin
      exact rules.refuses hin hc
  rw [hname] at h
  cases hinside : bracketed? (s ++ [c]) with
  | none =>
    rw [hinside] at h
    cases h
  | some inside =>
    rw [hinside, bracketed?_concat (hc.ne (by decide)) hinside] at h
    cases h

theorem Host.readSpecial_of_plain (rules : Domain.Rules) {s : List Char} (name : String)
    (hbracket : bracketed? s = none) (hname : Utf8.decode? (Percent.decode s) = some name)
    (hplain : name.toList.all Domain.isPlain = true) (hempty : name.toList ≠ [])
    (hnumber : endsInNumber name.toList = false) : ∃ host, readSpecial rules s = .ok host := by
  unfold readSpecial
  rw [hbracket, hname, Option.bind_some, rules.keeps hplain]
  cases hchars : name.toList with
  | nil => exact absurd hchars hempty
  | cons c rest =>
    rw [hchars] at hnumber
    dsimp only
    rw [hnumber, if_neg Bool.false_ne_true]
    exact ⟨_, rfl⟩

end LinkRelay

import LinkRelay.Proofs.Text.Split
import LinkRelay.Text.Number
set_option autoImplicit false

/-!
# Numerals

Digits, with or without a plus sign before them, are a numeral. A number is read from a text exactly
if the text is a numeral of a number within the limit.
-/

namespace LinkRelay.Text

/-- Texts that write a number in decimal digits. -/
inductive IsNumeral : List Char → Nat → Prop
  | plain {digits : List Char} (hne : digits ≠ []) (h : ∀ c ∈ digits, c.isDigit = true) :
    IsNumeral digits (Nat.ofDigitChars 10 digits 0)
  | signed {digits : List Char} (hne : digits ≠ []) (h : ∀ c ∈ digits, c.isDigit = true) :
    IsNumeral ('+' :: digits) (Nat.ofDigitChars 10 digits 0)

theorem isDigit_iff {c : Char} : c.isDigit = true ↔ 48 ≤ c.toNat ∧ c.toNat ≤ 57 := by
  rw [Char.isDigit, Bool.and_eq_true, decide_eq_true_eq, decide_eq_true_eq]
  exact Iff.rfl

theorem digitValue_of_isDigit {c : Char} (h : c.isDigit = true) :
    digitValue c = c.toNat - '0'.toNat := if_pos h

theorem digitValue_lt_iff {c : Char} : digitValue c < 10 ↔ c.isDigit = true := by
  constructor
  · intro h
    by_contra hc
    unfold digitValue at h
    split at h
    · contradiction
    · split at h
      · omega
      · split at h <;> omega
  · intro h
    have hbounds := isDigit_iff.1 h
    rw [digitValue_of_isDigit h]
    change c.toNat - 48 < 10
    omega

theorem le_ofDigitChars (digits : List Char) (n : Nat) : n ≤ Nat.ofDigitChars 10 digits n := by
  induction digits generalizing n with
  | nil => exact Nat.le_refl n
  | cons c digits ih =>
    rw [Nat.ofDigitChars_cons]
    have hrest := ih (10 * n + (c.toNat - '0'.toNat))
    omega

theorem readDigits_eq_ok_iff {limit value n : Nat} {s : List Char} (hvalue : value ≤ limit) :
    readDigits 10 limit value s = .ok n ↔
      (∀ c ∈ s, c.isDigit = true) ∧ Nat.ofDigitChars 10 s value = n ∧ n ≤ limit := by
  induction s generalizing value with
  | nil =>
    simp only [readDigits, Except.ok.injEq, Nat.ofDigitChars_nil]
    grind
  | cons c s ih =>
    by_cases hdigit : c.isDigit = true
    · have hnext : value * 10 + digitValue c = 10 * value + (c.toNat - '0'.toNat) := by
        rw [digitValue_of_isDigit hdigit, Nat.mul_comm]
      rw [readDigits, if_pos (digitValue_lt_iff.2 hdigit), Nat.ofDigitChars_cons, ← hnext]
      by_cases hle : value * 10 + digitValue c ≤ limit
      · simp [hle, ih hle, hdigit]
      · have hgrows := le_ofDigitChars s (value * 10 + digitValue c)
        simp only [hle, if_false, reduceCtorEq, false_iff]
        omega
    · simp [readDigits, digitValue_lt_iff, hdigit]

theorem readNumber_eq_ok_iff {limit n : Nat} {s : List Char} :
    readNumber limit s = .ok n ↔ IsNumeral s n ∧ n ≤ limit := by
  have hplus {digits : List Char} : ¬ ∀ c ∈ '+' :: digits, c.isDigit = true :=
    fun h => absurd (h '+' List.mem_cons_self) (by decide)
  unfold readNumber
  split
  · refine iff_of_false nofun ?_
    rintro ⟨⟨hne, -⟩, -⟩
    exact hne rfl
  · refine iff_of_false nofun ?_
    rintro ⟨⟨-, h⟩ | ⟨hne, -⟩, -⟩
    · exact hplus h
    · exact hne rfl
  · rename_i digits hdigits
    rw [readDigits_eq_ok_iff (Nat.zero_le limit)]
    constructor
    · rintro ⟨h, rfl, hle⟩
      exact ⟨.signed (fun hnil => hdigits hnil) h, hle⟩
    · rintro ⟨hnumeral, hle⟩
      cases hnumeral with
      | plain hne h => exact absurd h hplus
      | signed hne h => exact ⟨h, rfl, hle⟩
  · rename_i hempty hsign hsigned
    rw [readDigits_eq_ok_iff (Nat.zero_le limit)]
    constructor
    · rintro ⟨h, rfl, hle⟩
      exact ⟨.plain hempty h, hle⟩
    · rintro ⟨hnumeral, hle⟩
      cases hnumeral with
      | plain hne h => exact ⟨h, rfl, hle⟩
      | signed hne h => exact absurd rfl (hsigned _)

namespace IsNumeral

variable {s : List Char} {n : Nat} {c : Char}

theorem toDigits (n : Nat) : IsNumeral (Nat.toDigits 10 n) n := by
  have h := plain Nat.toDigits_ne_nil fun c hc =>
    Nat.isDigit_of_mem_toDigits (b := 10) (n := n) (by decide) (by decide) hc
  rwa [Nat.ofDigitChars_ten_toDigits] at h

theorem isDigit_of_mem (h : IsNumeral s n) (hc : c ∈ s) (hplus : c ≠ '+') : c.isDigit = true := by
  cases h with
  | plain _ h => exact h c hc
  | signed _ h => exact h c ((List.mem_cons.1 hc).resolve_left hplus)

theorem notMem_of_trim (h : IsNumeral (trim s) n) (hblank : isBlank c = false) (hplus : c ≠ '+')
    (hdigit : c.isDigit = false) : c ∉ s := by
  intro hc
  rcases isBlank_or_mem_trim hc with hc | hc
  · simp [hblank] at hc
  · simp [h.isDigit_of_mem hc hplus] at hdigit

end IsNumeral

theorem isBlank_of_isDigit {c : Char} (h : c.isDigit = true) : isBlank c = false := by
  have hbounds := isDigit_iff.1 h
  simp [isBlank]
  omega

end LinkRelay.Text

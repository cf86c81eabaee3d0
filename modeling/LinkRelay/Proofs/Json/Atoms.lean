import LinkRelay.Json.Printer
import LinkRelay.Json.Reader
import Mathlib.Tactic.SplitIfs
set_option autoImplicit false

/-!
# Written strings and numbers

What the printer writes for a text or for a whole number that is not negative, the reader takes for
just that, whatever follows in a document.
-/

namespace LinkRelay.Json

def chars (s : List Char) : Input := s.map some

theorem chars_cons (c : Char) (s : List Char) : chars (c :: s) = some c :: chars s := rfl

theorem chars_append (s t : List Char) : chars (s ++ t) = chars s ++ chars t := List.map_append

def Ends (rest : List Char) : Prop := ∀ c ∈ rest.head?, c = ',' ∨ c = '\n'

section Numbers

variable {rest : List Char}

theorem takeDigits_ends (h : Ends rest) : takeDigits (chars rest) = ([], chars rest) := by
  cases rest with
  | nil => rfl
  | cons c rest =>
    rcases h c rfl with rfl | rfl <;> rfl

theorem takeDigits_append {digits : List Char} (hdigits : ∀ c ∈ digits, c.isDigit = true)
    (h : Ends rest) : takeDigits (chars (digits ++ rest)) = (digits, chars rest) := by
  induction digits with
  | nil => exact takeDigits_ends h
  | cons c digits ih =>
    have hc := hdigits c List.mem_cons_self
    rw [List.cons_append, chars_cons, takeDigits, if_pos hc,
      ih fun x hx => hdigits x (List.mem_cons_of_mem _ hx)]

theorem fraction?_ends (h : Ends rest) : fraction? (chars rest) = some ([], chars rest) := by
  cases rest with
  | nil => rfl
  | cons c rest =>
    rcases h c rfl with rfl | rfl <;> rfl

theorem exponent?_ends (h : Ends rest) : exponent? (chars rest) = some ([], chars rest) := by
  cases rest with
  | nil => rfl
  | cons c rest =>
    rcases h c rfl with rfl | rfl <;> rfl

theorem digitValue_digitChar : ∀ d < 10, Text.digitValue d.digitChar = d := by decide

theorem valueOf_toDigits (n : Nat) : valueOf (Nat.toDigits 10 n) = n := by
  induction n using Nat.strongRecOn with
  | ind n ih =>
    by_cases hn : n < 10
    · rw [Nat.toDigits_of_lt_base hn]
      change 0 * 10 + Text.digitValue n.digitChar = n
      rw [digitValue_digitChar n hn, Nat.zero_mul, Nat.zero_add]
    · have hdiv := ih (n / 10) (by omega)
      rw [Nat.toDigits_of_base_le (by decide) (by omega), valueOf, List.foldl_append, ← valueOf, hdiv]
      change n / 10 * 10 + Text.digitValue (n % 10).digitChar = n
      rw [digitValue_digitChar _ (Nat.mod_lt n (by decide))]
      omega

theorem head?_toDigits {n : Nat} (hn : 0 < n) : (Nat.toDigits 10 n).head? ≠ some '0' := by
  induction n using Nat.strongRecOn with
  | ind n ih =>
    by_cases hlt : n < 10
    · have hnonzero : ∀ d < 10, 0 < d → d.digitChar ≠ '0' := by decide
      rw [Nat.toDigits_of_lt_base hlt]
      exact fun h => hnonzero n hlt hn (Option.some_inj.mp h)
    · have hhead := ih (n / 10) (by omega) (by omega)
      rw [Nat.toDigits_of_base_le (by decide) (by omega), List.head?_append]
      cases hc : (Nat.toDigits 10 (n / 10)).head? with
      | none => exact absurd (List.head?_eq_none_iff.mp hc) Nat.toDigits_ne_nil
      | some c => rwa [hc] at hhead

theorem wholePart?_toDigits (n : Nat) (h : Ends rest) :
    wholePart? (chars (Nat.toDigits 10 n ++ rest)) = some (Nat.toDigits 10 n, chars rest) := by
  have hdigits : ∀ c ∈ Nat.toDigits 10 n, c.isDigit = true :=
    fun c hc => Nat.isDigit_of_mem_toDigits (by decide) (by decide) hc
  rw [wholePart?, takeDigits_append hdigits h]
  rcases Nat.eq_zero_or_pos n with rfl | hn
  · rfl
  · have hhead := head?_toDigits hn
    cases hc : Nat.toDigits 10 n with
    | nil => exact absurd hc Nat.toDigits_ne_nil
    | cons c digits =>
      rw [hc] at hhead
      split
      · rename_i heq
        cases heq
      · rename_i heq
        cases heq
        exact absurd rfl hhead
      · rename_i heq
        cases heq
        exact absurd rfl hhead
      · rename_i heq
        cases heq
        rfl

theorem toDigits_eq_cons (n : Nat) :
    ∃ c s, Nat.toDigits 10 n = c :: s ∧ c.isDigit = true := by
  obtain ⟨c, s, hc⟩ := List.exists_cons_of_ne_nil (Nat.toDigits_ne_nil (n := n) (b := 10))
  have hmem : c ∈ Nat.toDigits 10 n := hc ▸ List.mem_cons_self
  exact ⟨c, s, hc, Nat.isDigit_of_mem_toDigits (by decide) (by decide) hmem⟩

theorem number?_toDigits (n : Nat) (h : Ends rest) :
    number? (chars (Nat.toDigits 10 n ++ rest)) = some (.nat n, chars rest) := by
  have hwhole := wholePart?_toDigits n h
  obtain ⟨c, digits, hc, hdigit⟩ := toDigits_eq_cons n
  have hminus : c ≠ '-' := by
    rintro rfl
    exact absurd hdigit (by decide)
  rw [hc] at hwhole
  rw [hc]
  rw [List.cons_append, chars_cons] at hwhole ⊢
  rw [number?]
  · simp only [hwhole, fraction?_ends h, exponent?_ends h, Option.bind_eq_bind, Option.bind_some,
      List.isEmpty_nil, Bool.and_self, Bool.false_and, Bool.not_false, if_true]
    rw [← hc, valueOf_toDigits]
    rfl
  · intro rest heq
    cases heq
    exact hminus rfl

end Numbers

section Texts

theorem hexDigit_spec : ∀ n < 16,
    Text.isHexDigit (hexDigit n) = true ∧ Text.digitValue (hexDigit n) = n := by decide

theorem hex4?_control {n : Nat} (hn : n < 0x20) (s : List Char) :
    hex4? (chars ('0' :: '0' :: hexDigit (n / 16) :: hexDigit (n % 16) :: s)) =
      some (n, chars s) := by
  obtain ⟨hhigh, hhighValue⟩ := hexDigit_spec (n / 16) (by omega)
  obtain ⟨hlow, hlowValue⟩ := hexDigit_spec (n % 16) (by omega)
  have hzero : Text.isHexDigit '0' = true ∧ Text.digitValue '0' = 0 := by decide
  simp only [chars_cons, hex4?, List.all_cons, List.all_nil, hzero, hhigh, hlow, Bool.and_self,
    if_true, List.foldl_cons, List.foldl_nil, hhighValue, hlowValue]
  rw [show (((0 * 16 + 0) * 16 + 0) * 16 + n / 16) * 16 + n % 16 = n by omega]

theorem units?_quoteChar (c : Char) (fuel : Nat) (s : List Char) :
    units? (fuel + 1) (chars (quoteChar c ++ s)) =
      (units? fuel (chars s)).map fun (pieces, after) => (.char c :: pieces, after) := by
  have hescape {x : Char} (body : List Char)
      (h : escape? (chars (body ++ s)) = some (.char x, chars s)) :
      units? (fuel + 1) (chars ('\\' :: body ++ s)) =
        (units? fuel (chars s)).map fun (pieces, after) => (.char x :: pieces, after) := by
    rw [List.cons_append, chars_cons, units?, h]
    simp only [Option.bind_eq_bind, Option.bind_some]
    cases units? fuel (chars s) <;> rfl
  unfold quoteChar
  split
  · subst_vars
    exact hescape ['"'] rfl
  split
  · subst_vars
    exact hescape ['\\'] rfl
  split
  · subst_vars
    exact hescape ['b'] rfl
  split
  · subst_vars
    exact hescape ['t'] rfl
  split
  · subst_vars
    exact hescape ['n'] rfl
  split
  · subst_vars
    exact hescape ['f'] rfl
  split
  · subst_vars
    exact hescape ['r'] rfl
  split
  · rename_i hcontrol
    apply hescape ['u', '0', '0', hexDigit (c.toNat / 16), hexDigit (c.toNat % 16)]
    simp only [List.cons_append, List.nil_append]
    rw [chars_cons, escape?, hex4?_control hcontrol]
    simp only [Option.bind_eq_bind, Option.bind_some]
    rw [if_neg (by omega), if_neg (by omega), Char.ofNat_toNat]
    rfl
  · rename_i hquote hbackslash _ _ _ _ _ hplain
    rw [List.cons_append, List.nil_append, chars_cons, units?]
    · rw [if_neg hplain]
      cases units? fuel (chars s) <;> rfl
    · exact hquote
    · exact hbackslash

theorem units?_quote (text : List Char) {fuel : Nat} (hfuel : text.length < fuel) (s : List Char) :
    units? fuel (chars (text.flatMap quoteChar ++ '"' :: s)) =
      some (text.map .char, chars s) := by
  induction text generalizing fuel with
  | nil =>
    obtain ⟨fuel, rfl⟩ := Nat.exists_eq_succ_of_ne_zero (Nat.ne_of_gt hfuel)
    rfl
  | cons c text ih =>
    obtain ⟨fuel, rfl⟩ := Nat.exists_eq_succ_of_ne_zero (Nat.ne_of_gt (Nat.zero_lt_of_lt hfuel))
    rw [List.flatMap_cons, List.append_assoc, units?_quoteChar, ih (Nat.lt_of_succ_lt_succ hfuel)]
    rfl

theorem textOf_map_char (text : List Char) : textOf (text.map .char) = some text := by
  induction text with
  | nil => rfl
  | cons c text ih =>
    rw [List.map_cons, textOf, ih]
    rfl

theorem length_le_flatMap_quoteChar (text : List Char) :
    text.length ≤ (text.flatMap quoteChar).length := by
  have hpos : ∀ c, 0 < (quoteChar c).length := by
    intro c
    unfold quoteChar
    split_ifs <;> exact Nat.zero_lt_succ _
  induction text with
  | nil => exact Nat.le_refl 0
  | cons c text ih =>
    have := hpos c
    rw [List.flatMap_cons, List.length_append, List.length_cons]
    omega

theorem string?_quote (text : String) (s : List Char) :
    string? (chars (text.toList.flatMap quoteChar ++ '"' :: s)) = some (some text, chars s) := by
  have hlength := length_le_flatMap_quoteChar text.toList
  rw [string?, units?_quote]
  · simp only [Option.bind_eq_bind, Option.bind_some, textOf_map_char, Option.map_some,
      String.ofList_toList]
    rfl
  · rw [chars, List.length_map, List.length_append, List.length_cons]
    omega

end Texts

end LinkRelay.Json

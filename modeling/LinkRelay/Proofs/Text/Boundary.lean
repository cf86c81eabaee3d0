import LinkRelay.Proofs.Text.Utf8
import Mathlib.Data.List.Infix
set_option autoImplicit false

/-!
# Where encoded text can be cut

Encoded text can be cut exactly where some of its leading characters end. No character has more than
four bytes, so a walk back to such a place takes at most three steps, and what stands before it is
the longest start of the text that is short enough.
-/

namespace LinkRelay.Utf8

def encodeChars (cs : List Char) : Bytes := cs.flatMap String.utf8EncodeChar

variable {c : Char} {cs ds : List Char} {bytes : Bytes} {i j : Nat}

theorem encode_eq (s : String) : encode s = encodeChars s.toList := rfl

theorem encodeChars_cons (c : Char) (cs : List Char) :
    encodeChars (c :: cs) = String.utf8EncodeChar c ++ encodeChars cs :=
  List.flatMap_cons

theorem encodeChars_append (cs ds : List Char) :
    encodeChars (cs ++ ds) = encodeChars cs ++ encodeChars ds :=
  List.flatMap_append

theorem length_encodeChars_cons (c : Char) (cs : List Char) :
    (encodeChars (c :: cs)).length = c.utf8Size + (encodeChars cs).length := by
  rw [encodeChars_cons, List.length_append, String.length_utf8EncodeChar]

theorem length_encodeChars_replicate (n : Nat) (c : Char) :
    (encodeChars (List.replicate n c)).length = n * c.utf8Size := by
  induction n with
  | zero => exact (Nat.zero_mul _).symm
  | succ n ih => rw [List.replicate_succ, length_encodeChars_cons, ih, Nat.succ_mul, Nat.add_comm]

theorem eq_nil_of_length_encodeChars (h : (encodeChars cs).length = 0) : cs = [] := by
  cases cs with
  | nil => rfl
  | cons c cs =>
    have hpos := c.utf8Size_pos
    rw [length_encodeChars_cons] at h
    omega

theorem eq_of_starts (h : cs <+: ds) (hlength : (encodeChars ds).length ≤ (encodeChars cs).length) :
    cs = ds := by
  obtain ⟨rest, rfl⟩ := h
  rw [encodeChars_append, List.length_append] at hlength
  have hrest : rest = [] := eq_nil_of_length_encodeChars (by omega)
  rw [hrest, List.append_nil]

theorem isBoundary_iff : isBoundary bytes i = true ↔
    i = 0 ∨ i = bytes.length ∨ ∃ b, bytes[i]? = some b ∧ b.IsUTF8FirstByte := by
  simp [isBoundary, or_assoc, Option.any_eq_true]

theorem isUTF8FirstByte_iff {b : UInt8} {rest : Bytes} (hi : i < c.utf8Size)
    (hb : (String.utf8EncodeChar c ++ rest)[i]? = some b) : b.IsUTF8FirstByte ↔ i = 0 := by
  have hlength : i < (String.utf8EncodeChar c).length := by
    rw [String.length_utf8EncodeChar]
    exact hi
  rw [List.getElem?_append_left hlength, List.getElem?_eq_getElem hlength] at hb
  cases hb
  exact UInt8.isUTF8FirstByte_getElem_utf8EncodeChar

theorem isBoundary_encodeChars : isBoundary (encodeChars cs) i = true ↔
    i = (encodeChars cs).length ∨ ∃ b, (encodeChars cs)[i]? = some b ∧ b.IsUTF8FirstByte := by
  rw [isBoundary_iff]
  constructor
  · rintro (rfl | h)
    · cases cs with
      | nil => exact .inl rfl
      | cons c cs =>
        have hpos := c.utf8Size_pos
        have hlength : 0 < (encodeChars (c :: cs)).length := by
          rw [length_encodeChars_cons]
          omega
        have hfirst := List.getElem?_eq_getElem hlength
        exact .inr ⟨_, hfirst, (isUTF8FirstByte_iff hpos hfirst).2 rfl⟩
    · exact h
  · exact .inr

theorem isBoundary_cons : isBoundary (encodeChars (c :: cs)) i = true ↔
    i = 0 ∨ ∃ j, i = c.utf8Size + j ∧ isBoundary (encodeChars cs) j = true := by
  by_cases hi : i < c.utf8Size
  · have hnone (j : Nat) : i ≠ c.utf8Size + j := by omega
    have hlength : i ≠ (encodeChars (c :: cs)).length := by
      rw [length_encodeChars_cons]
      omega
    simp only [hnone, false_and, exists_false, or_false]
    rw [isBoundary_encodeChars, or_iff_right hlength]
    constructor
    · rintro ⟨b, hb, hfirst⟩
      exact (isUTF8FirstByte_iff hi hb).1 hfirst
    · intro h
      have hbyte := List.getElem?_eq_getElem (l := encodeChars (c :: cs)) (i := i) (by
        rw [length_encodeChars_cons]
        omega)
      exact ⟨_, hbyte, (isUTF8FirstByte_iff hi hbyte).2 h⟩
  · obtain ⟨j, rfl⟩ := Nat.exists_eq_add_of_le (Nat.le_of_not_lt hi)
    have hpos := c.utf8Size_pos
    have hzero : c.utf8Size + j ≠ 0 := by omega
    have hbyte : (encodeChars (c :: cs))[c.utf8Size + j]? = (encodeChars cs)[j]? := by
      rw [encodeChars_cons, ← String.length_utf8EncodeChar c,
        List.getElem?_append_right (Nat.le_add_right _ _), Nat.add_sub_cancel_left]
    rw [isBoundary_encodeChars, hbyte, length_encodeChars_cons, Nat.add_left_cancel_iff,
      ← isBoundary_encodeChars, or_iff_right hzero]
    simp

/-- Text can be cut exactly where some of its leading characters end. -/
theorem isBoundary_iff_start : isBoundary (encodeChars cs) i = true ↔
    ∃ start, start <+: cs ∧ (encodeChars start).length = i := by
  induction cs generalizing i with
  | nil =>
    rw [isBoundary_encodeChars]
    constructor
    · rintro (rfl | ⟨b, hb, -⟩)
      · exact ⟨[], List.nil_prefix, rfl⟩
      · cases hb
    · rintro ⟨start, hstart, rfl⟩
      rw [List.prefix_nil.1 hstart]
      exact .inl rfl
  | cons c cs ih =>
    rw [isBoundary_cons]
    constructor
    · rintro (rfl | ⟨j, rfl, hj⟩)
      · exact ⟨[], List.nil_prefix, rfl⟩
      · obtain ⟨start, hstart, rfl⟩ := ih.1 hj
        exact ⟨c :: start, List.cons_prefix_cons.2 ⟨rfl, hstart⟩, length_encodeChars_cons ..⟩
    · rintro ⟨start, hstart, rfl⟩
      cases start with
      | nil => exact .inl rfl
      | cons d start =>
        obtain ⟨rfl, hrest⟩ := List.cons_prefix_cons.1 hstart
        exact .inr ⟨_, length_encodeChars_cons .., ih.2 ⟨start, hrest, rfl⟩⟩

theorem walkBack?_eq_some (h : walkBack? bytes i = some j) :
    j ≤ i ∧ isBoundary bytes j = true ∧ ∀ k, isBoundary bytes k = true → k ≤ i → k ≤ j := by
  induction i with
  | zero =>
    cases h
    exact ⟨Nat.le_refl 0, rfl, fun k _ hk => hk⟩
  | succ i ih =>
    rw [walkBack?] at h
    split at h
    next hstop =>
      cases h
      exact ⟨Nat.le_refl _, hstop, fun k _ hk => hk⟩
    next hgo =>
      obtain ⟨hle, hboundary, hlast⟩ := ih h
      refine ⟨Nat.le_succ_of_le hle, hboundary, fun k hk hki => hlast k hk ?_⟩
      have hne : k ≠ i + 1 := by
        rintro rfl
        exact hgo hk
      omega

theorem walkBack?_boundaryUpTo (bytes : Bytes) (i : Nat) :
    walkBack? bytes i = some (boundaryUpTo bytes i) :=
  (Option.some_get _).symm

theorem exists_boundary (h : i ≤ (encodeChars cs).length) :
    ∃ j, j ≤ i ∧ i ≤ j + 3 ∧ isBoundary (encodeChars cs) j = true := by
  induction cs generalizing i with
  | nil =>
    obtain rfl := Nat.le_zero.1 h
    exact ⟨0, Nat.le_refl 0, Nat.zero_le 3, rfl⟩
  | cons c cs ih =>
    have hsize := c.utf8Size_le_four
    by_cases hi : i < c.utf8Size
    · exact ⟨0, Nat.zero_le i, by omega, rfl⟩
    · obtain ⟨k, rfl⟩ := Nat.exists_eq_add_of_le (Nat.le_of_not_lt hi)
      rw [length_encodeChars_cons, Nat.add_le_add_iff_left] at h
      obtain ⟨j, hle, hnear, hboundary⟩ := ih h
      exact ⟨c.utf8Size + j, by omega, by omega, isBoundary_cons.2 (.inr ⟨j, rfl, hboundary⟩)⟩

/-- The longest start of a text, in whole characters, whose encoding has at most `limit` bytes. -/
structure IsLongestStart (limit : Nat) (text kept : String) : Prop where
  starts : kept.toList <+: text.toList
  within : (encode kept).length ≤ limit
  longest {start : String} (h : start.toList <+: text.toList)
    (hwithin : (encode start).length ≤ limit) : start.toList <+: kept.toList

variable {limit cut : Nat} {text : String}

theorem isLongestStart_self (h : (encode text).length ≤ limit) : IsLongestStart limit text text :=
  ⟨List.prefix_rfl, h, fun hstart _ => hstart⟩

theorem exists_start (h : isBoundary (encode text) cut = true) :
    ∃ kept : String, kept.toList <+: text.toList ∧ (encode text).take cut = encode kept ∧
      (encode kept).length = cut := by
  obtain ⟨start, hstart, rfl⟩ := isBoundary_iff_start.1 h
  obtain ⟨rest, hrest⟩ := hstart
  have hkept : encode (String.ofList start) = encodeChars start := by
    rw [encode_eq, String.toList_ofList]
  have htext : encode text = encodeChars start ++ encodeChars rest := by
    rw [encode_eq, ← hrest, encodeChars_append]
  refine ⟨String.ofList start, ⟨rest, ?_⟩, ?_, ?_⟩
  · rw [String.toList_ofList, hrest]
  · rw [hkept, htext, List.take_left]
  · rw [hkept]

theorem isLongestStart_of_last {kept : String} (hstart : kept.toList <+: text.toList)
    (hwithin : (encode kept).length ≤ limit)
    (hlast : ∀ k, isBoundary (encode text) k = true → k ≤ limit → k ≤ (encode kept).length) :
    IsLongestStart limit text kept := by
  refine ⟨hstart, hwithin, fun {other} hother hlimit => ?_⟩
  have hle := hlast _ (isBoundary_iff_start.2 ⟨other.toList, hother, rfl⟩) hlimit
  rcases List.prefix_or_prefix_of_prefix hother hstart with hshorter | hlonger
  · exact hshorter
  · rw [eq_of_starts hlonger hle]

end LinkRelay.Utf8

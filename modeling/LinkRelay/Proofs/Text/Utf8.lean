import LinkRelay.Text.Utf8
import Mathlib.Tactic.SplitIfs
set_option autoImplicit false

/-!
# Reading encoded text back

The encoding of a text is read back character by character, with nothing ill-formed in between.
-/

namespace LinkRelay.Utf8

variable {v : Nat}

theorem toNat_ofNat {n : Nat} (h : n < 256) : (UInt8.ofNat n).toNat = n := by
  rw [UInt8.toNat_ofNat']
  exact Nat.mod_eq_of_lt h

theorem scanFrom_cons (pending : Option Pending) (b : UInt8) (rest : Bytes) :
    scanFrom pending (b :: rest) = (feed pending b).1 ++ scanFrom (feed pending b).2 rest := by
  cases pending <;> rfl

theorem feed_some {p : Pending} {n : Nat} (hlow : p.low ≤ n) (hhigh : n ≤ p.high) (hn : n < 256) :
    feed (some p) (UInt8.ofNat n) =
      if p.owed ≤ 1 then ([some (Char.ofNat (p.value * 64 + (n - 0x80)))], none)
      else ([], some ⟨p.owed - 1, 0x80, 0xBF, p.value * 64 + (n - 0x80)⟩) := by
  simp only [feed]
  rw [toNat_ofNat hn, if_pos ⟨hlow, hhigh⟩]

theorem scanFrom_last {low high value n : Nat} (hlow : low ≤ n) (hhigh : n ≤ high) (hn : n < 256)
    (rest : Bytes) : scanFrom (some ⟨1, low, high, value⟩) (UInt8.ofNat n :: rest) =
      some (Char.ofNat (value * 64 + (n - 0x80))) :: scanFrom none rest := by
  rw [scanFrom_cons, feed_some hlow hhigh hn, if_pos (Nat.le_refl 1)]
  rfl

theorem scanFrom_middle {owed low high value n : Nat} (hlow : low ≤ n) (hhigh : n ≤ high)
    (hn : n < 256) (rest : Bytes) :
    scanFrom (some ⟨owed + 2, low, high, value⟩) (UInt8.ofNat n :: rest) =
      scanFrom (some ⟨owed + 1, 0x80, 0xBF, value * 64 + (n - 0x80)⟩) rest := by
  have howed : ¬ owed + 2 ≤ 1 := by omega
  rw [scanFrom_cons, feed_some hlow hhigh hn, if_neg howed]
  rfl

theorem scanFrom_first {p : Pending} {n : Nat} (hn : n < 256) (hstart : start n = some (.inr p))
    (rest : Bytes) : scanFrom none (UInt8.ofNat n :: rest) = scanFrom (some p) rest := by
  rw [scanFrom_cons, feed, toNat_ofNat hn, enter, hstart]
  rfl

theorem start_two (hlow : 0x7f < v) (hhigh : v ≤ 0x7ff) :
    start (v / 64 % 32 + 0xC0) = some (.inr ⟨1, 0x80, 0xBF, v / 64⟩) := by
  unfold start
  rw [if_neg (by omega), if_pos (by omega), show v / 64 % 32 + 0xC0 - 0xC0 = v / 64 by omega]

theorem start_three (hlow : 0x7ff < v) (hhigh : v ≤ 0xffff) (hvalid : v < 0xD800 ∨ 0xDFFF < v) :
    ∃ low high, start (v / 4096 % 16 + 0xE0) = some (.inr ⟨2, low, high, v / 4096⟩) ∧
      low ≤ v / 64 % 64 + 0x80 ∧ v / 64 % 64 + 0x80 ≤ high := by
  unfold start
  split_ifs with h1 h2 h3 h4 h5
  all_goals first | omega | skip
  · rw [show v / 4096 = 0 by omega]
    exact ⟨_, _, rfl, by omega, by omega⟩
  · rw [show v / 4096 = 0xD by omega]
    exact ⟨_, _, rfl, by omega, by omega⟩
  · rw [show v / 4096 % 16 + 0xE0 - 0xE0 = v / 4096 by omega]
    exact ⟨_, _, rfl, by omega, by omega⟩

theorem start_four (hlow : 0xffff < v) (hvalid : v < 0x110000) :
    ∃ low high, start (v / 262144 % 8 + 0xF0) = some (.inr ⟨3, low, high, v / 262144⟩) ∧
      low ≤ v / 4096 % 64 + 0x80 ∧ v / 4096 % 64 + 0x80 ≤ high := by
  unfold start
  split_ifs with h1 h2 h3 h4 h5 h6 h7 h8
  all_goals first | omega | skip
  · rw [show v / 262144 = 0 by omega]
    exact ⟨_, _, rfl, by omega, by omega⟩
  · rw [show v / 262144 % 8 + 0xF0 - 0xF0 = v / 262144 by omega]
    exact ⟨_, _, rfl, by omega, by omega⟩
  · rw [show v / 262144 = 4 by omega]
    exact ⟨_, _, rfl, by omega, by omega⟩

theorem scanFrom_encodeChar (c : Char) (rest : Bytes) :
    scanFrom none (String.utf8EncodeChar c ++ rest) = some c :: scanFrom none rest := by
  have hvalid : c.val.toNat < 0xD800 ∨ 0xDFFF < c.val.toNat ∧ c.val.toNat < 0x110000 := c.valid
  have hchar {n : Nat} (h : n = c.val.toNat) : some (Char.ofNat n) = some c := by
    rw [h]
    exact congrArg some (Char.ofNat_toNat c)
  unfold String.utf8EncodeChar
  generalize c.val.toNat = v at *
  dsimp only
  split
  · rename_i hone
    have hstart : start v = some (.inl (Char.ofNat v)) := if_pos (by omega)
    rw [List.cons_append, scanFrom_cons, feed, toNat_ofNat (by omega), enter, hstart]
    exact congrArg (· :: scanFrom none rest) (hchar rfl)
  · split
    · rename_i hlow hhigh
      rw [List.cons_append, scanFrom_first (by omega) (start_two (by omega) hhigh), List.cons_append,
        scanFrom_last (by omega) (by omega) (by omega)]
      exact congrArg (· :: scanFrom none rest) (hchar (by omega))
    · split
      · rename_i hlow hhigh
        obtain ⟨low, high, hstart, hle, hge⟩ := start_three (Nat.lt_of_not_le hlow) hhigh (by omega)
        rw [List.cons_append, scanFrom_first (by omega) hstart, List.cons_append,
          scanFrom_middle hle hge (by omega), List.cons_append,
          scanFrom_last (by omega) (by omega) (by omega)]
        exact congrArg (· :: scanFrom none rest) (hchar (by omega))
      · rename_i hlow
        obtain ⟨low, high, hstart, hle, hge⟩ := start_four (Nat.lt_of_not_le hlow) (by omega)
        rw [List.cons_append, scanFrom_first (by omega) hstart, List.cons_append,
          scanFrom_middle hle hge (by omega), List.cons_append,
          scanFrom_middle (by omega) (by omega) (by omega), List.cons_append,
          scanFrom_last (by omega) (by omega) (by omega)]
        exact congrArg (· :: scanFrom none rest) (hchar (by omega))

theorem scan_encode (s : String) : scan (encode s) = s.toList.map some := by
  unfold scan encode
  induction s.toList with
  | nil => rfl
  | cons c cs ih =>
    rw [List.flatMap_cons, scanFrom_encodeChar, ih]
    rfl

theorem decode?_encode (s : String) : decode? (encode s) = some s := by
  rw [decode?, scan_encode, List.mapM_map]
  change Option.map String.ofList (s.toList.mapM pure) = some s
  rw [List.mapM_pure, List.map_id']
  exact congrArg some String.ofList_toList

theorem decodeLossy_encode (s : String) : decodeLossy (encode s) = s := by
  rw [decodeLossy, scan_encode, List.map_map]
  exact (congrArg String.ofList (List.map_id _)).trans String.ofList_toList

end LinkRelay.Utf8

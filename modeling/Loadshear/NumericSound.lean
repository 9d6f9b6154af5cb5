import Loadshear.Payload
import Mathlib.Data.Nat.Digits.Defs

/-!
# Numbers on the wire

`write_numeric` writes the low bytes of a number, in the byte order it is asked
for.
-/

namespace Loadshear

/-! ## Bits of bytes -/

theorem byteAt_testBit (v : UInt64) {i : Nat} (hi : i < 8) (j : Nat) :
    (byteAt v i).toNat.testBit j = (decide (j < 8) && v.toNat.testBit (8 * i + j)) := by
  have h8 : (UInt64.ofNat (8 * i)).toNat = 8 * i := UInt64.toNat_ofNat_of_lt' (by simp [UInt64.size]; omega)
  have hm : 8 * i % 64 = 8 * i := Nat.mod_eq_of_lt (by omega)
  rw [byteAt, UInt64.toNat_toUInt8, Nat.testBit_mod_two_pow, UInt64.toNat_shiftRight, h8, hm, Nat.testBit_shiftRight]

/-- Of `n` bytes the first `k` have been put in their places. -/
theorem bswap_testBit (v : UInt64) {n : Nat} (hn : n ≤ 8) : ∀ {k : Nat}, k ≤ n → ∀ j : Nat,
    ((List.range k).foldl
      (fun acc i => acc ||| ((byteAt v i).toUInt64 <<< UInt64.ofNat (8 * (n - 1 - i)))) 0).toNat.testBit j =
      (decide (n - k ≤ j / 8 ∧ j / 8 < n) && v.toNat.testBit (8 * (n - 1 - j / 8) + j % 8))
  | 0, _, j => by
    have : ¬ (n ≤ j / 8 ∧ j / 8 < n) := by omega
    simp [this]
  | k + 1, hk, j => by
    have ih := bswap_testBit v hn (Nat.le_of_succ_le hk) j
    have h8 : (UInt64.ofNat (8 * (n - 1 - k))).toNat = 8 * (n - 1 - k) :=
      UInt64.toNat_ofNat_of_lt' (by simp [UInt64.size]; omega)
    have hm : 8 * (n - 1 - k) % 64 = 8 * (n - 1 - k) := Nat.mod_eq_of_lt (by omega)
    rw [List.range_succ, List.foldl_append, List.foldl_cons, List.foldl_nil, UInt64.toNat_or, Nat.testBit_or, ih,
      UInt64.toNat_shiftLeft, h8, hm, Nat.testBit_mod_two_pow, Nat.testBit_shiftLeft, UInt8.toNat_toUInt64,
      byteAt_testBit v (by omega)]
    by_cases hj : j / 8 = n - 1 - k
    · -- byte k of the number is byte `n - 1 - k` of the result
      have hsub : j - 8 * (n - 1 - k) = j % 8 := by omega
      have hk' : n - 1 - (n - 1 - k) = k := by omega
      have hlt : j < 64 := by omega
      have hge : 8 * (n - 1 - k) ≤ j := by omega
      have hn' : ¬ (n - k ≤ n - 1 - k ∧ n - 1 - k < n) := by omega
      have hn'' : n - (k + 1) ≤ n - 1 - k ∧ n - 1 - k < n := by omega
      have h8' : j % 8 < 8 := Nat.mod_lt _ (by decide)
      rw [hj, hsub, hk', decide_eq_false hn', decide_eq_true hn'', decide_eq_true hlt, decide_eq_true hge,
        decide_eq_true h8']
      simp
    · have hiff : (n - k ≤ j / 8 ∧ j / 8 < n) ↔ (n - (k + 1) ≤ j / 8 ∧ j / 8 < n) := by omega
      have hno : ¬ (8 * (n - 1 - k) ≤ j ∧ j - 8 * (n - 1 - k) < 8) := by omega
      simp only [hiff]
      rcases not_and_or.mp hno with h | h <;> simp [h]

theorem byteAt_bswap (v : UInt64) {n i : Nat} (hn : n ≤ 8) (hi : i < n) : byteAt (bswap n v) i = byteAt v (n - 1 - i) := by
  refine UInt8.toNat_inj.mp (Nat.eq_of_testBit_eq fun j => ?_)
  rw [byteAt_testBit _ (by omega), byteAt_testBit _ (by omega), bswap, bswap_testBit v hn (Nat.le_refl n)]
  by_cases hj : j < 8
  · have hd : (8 * i + j) / 8 = i := by omega
    have hm : (8 * i + j) % 8 = j := by omega
    simp [hj, hd, hm, hi]
  · simp [hj]

/-! ## What is written -/

theorem storeBytes_bswap (v : UInt64) {n : Nat} (hn : n ≤ 8) : storeBytes (bswap n v) n = (storeBytes v n).reverse := by
  apply List.ext_getElem (by simp [storeBytes])
  intro i h₁ h₂
  have hi : i < n := by simpa [storeBytes] using h₁
  simp [storeBytes, byteAt_bswap v hn hi]

theorem byteAt_low (v : UInt64) {i : Nat} (hi : i < 4) : byteAt v.toUInt32.toUInt64 i = byteAt v i := by
  refine UInt8.toNat_inj.mp (Nat.eq_of_testBit_eq fun j => ?_)
  rw [byteAt_testBit _ (by omega), byteAt_testBit _ (by omega), UInt32.toNat_toUInt64, UInt64.toNat_toUInt32,
    Nat.testBit_mod_two_pow]
  by_cases hj : j < 8
  · have hlt : 8 * i + j < 32 := by omega
    simp [hj, hlt]
  · simp [hj]

theorem storeBytes_low (v : UInt64) : storeBytes v.toUInt32.toUInt64 4 = storeBytes v 4 :=
  List.map_congr_left fun _ hi => byteAt_low v (List.mem_range.mp hi)

/-- The low bytes of the number, or the same in reverse. -/
theorem writeNumeric_eq (v : UInt64) {length : UInt32} (h : length.toNat ≤ 8) (littleEndian : Bool) :
    writeNumeric v length littleEndian =
      if littleEndian then storeBytes v length.toNat else (storeBytes v length.toNat).reverse := by
  unfold writeNumeric
  by_cases h8 : length = 8
  · subst h8
    cases littleEndian
    · simpa using storeBytes_bswap v (Nat.le_refl 8)
    · rfl
  · rw [if_neg h8]
    by_cases h4 : length = 4
    · subst h4
      cases littleEndian
      · exact (storeBytes_bswap _ (by decide)).trans (congrArg List.reverse (storeBytes_low v))
      · simpa using storeBytes_low v
    · rw [if_neg h4]
      cases littleEndian
      · apply List.ext_getElem (by simp [storeBytes])
        intro i h₁ h₂
        simp [storeBytes]
      · rfl

theorem writeNumeric_length (v : UInt64) {length : UInt32} (h : length.toNat ≤ 8) (littleEndian : Bool) :
    (writeNumeric v length littleEndian).length = length.toNat := by
  rw [writeNumeric_eq v h]
  split <;> simp [storeBytes]

/-! ## What is read -/

/-- The number that bytes stand for in a byte order. -/
def readNumeric (littleEndian : Bool) (bytes : List UInt8) : Nat :=
  Nat.ofDigits 256 ((if littleEndian then bytes else bytes.reverse).map UInt8.toNat)

theorem byteAt_toNat (v : UInt64) {i : Nat} (hi : i < 8) : (byteAt v i).toNat = v.toNat / 256 ^ i % 256 := by
  apply Nat.eq_of_testBit_eq
  intro j
  have hpow : 256 ^ i = 2 ^ (8 * i) := by rw [Nat.pow_mul]
  rw [byteAt_testBit v hi, hpow, ← Nat.shiftRight_eq_div_pow, show (256 : Nat) = 2 ^ 8 from rfl,
    Nat.testBit_mod_two_pow, Nat.testBit_shiftRight]

theorem ofDigits_range (x : Nat) : ∀ n : Nat,
    Nat.ofDigits 256 ((List.range n).map fun i => x / 256 ^ i % 256) = x % 256 ^ n
  | 0 => by simp [Nat.mod_one]
  | n + 1 => by
    have hsucc : ∀ i, x / 256 ^ (i + 1) = x / 256 / 256 ^ i := fun i => by
      rw [Nat.pow_succ', Nat.div_div_eq_div_mul]
    have ih := ofDigits_range (x / 256) n
    rw [List.range_succ_eq_map, List.map_cons, List.map_map, Nat.ofDigits_cons]
    simp only [Function.comp_def, hsucc, Nat.pow_zero, Nat.div_one, ih]
    rw [Nat.pow_succ', Nat.mod_mul]

/-- Reading gives back the number modulo `2 ^ (8 * length)`. -/
theorem readNumeric_writeNumeric (v : UInt64) {length : UInt32} (h : length.toNat ≤ 8) (littleEndian : Bool) :
    readNumeric littleEndian (writeNumeric v length littleEndian) = v.toNat % 2 ^ (8 * length.toNat) := by
  have hbytes : Nat.ofDigits 256 ((storeBytes v length.toNat).map UInt8.toNat) = v.toNat % 2 ^ (8 * length.toNat) := by
    rw [Nat.pow_mul, show (2 : Nat) ^ 8 = 256 from rfl, ← ofDigits_range, storeBytes, List.map_map]
    congr 1
    refine List.map_congr_left fun i hi => byteAt_toNat v ?_
    have := List.mem_range.mp hi
    omega
  rw [readNumeric, writeNumeric_eq v h]
  cases littleEndian <;> simpa using hbytes

end Loadshear

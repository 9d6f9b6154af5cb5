import Loadshear.NumericSound
import Mathlib.Logic.Function.Basic

/-!
# Writing a number through a pointer

`write_numeric` as it runs on a little endian host: the two copies and the
shift loop, over the memory that `start` points into.
-/

namespace Loadshear

def storeFrom (start : Nat) (byte : Nat → UInt8) (mem : Nat → UInt8) : Nat → Nat → UInt8
  | 0 => mem
  | n + 1 => Function.update (storeFrom start byte mem n) (start + n) (byte n)

def memcpy (mem : Nat → UInt8) (start : Nat) (v : UInt64) (n : Nat) : Nat → UInt8 :=
  storeFrom start (byteAt v) mem n

def shiftOf (length : UInt32) (littleEndian : Bool) (i : UInt32) : UInt32 :=
  if littleEndian then i * 8 else (length - 1 - i) * 8

def shiftByte (rawNumeric : UInt64) (length : UInt32) (littleEndian : Bool) (i : Nat) : UInt8 :=
  ((rawNumeric >>> (shiftOf length littleEndian (UInt32.ofNat i)).toUInt64) &&& 0xFF).toUInt8

def shiftLoop (mem : Nat → UInt8) (start : Nat) (rawNumeric : UInt64) (length : UInt32) (littleEndian : Bool) :
    Nat → UInt8 :=
  storeFrom start (shiftByte rawNumeric length littleEndian) mem length.toNat

/-- `PayloadManager::write_numeric`. -/
def writeNumericTo (mem : Nat → UInt8) (start : Nat) (rawNumeric : UInt64) (length : UInt32) (littleEndian : Bool) :
    Nat → UInt8 :=
  if length = 8 then
    let val64Bit := if littleEndian then rawNumeric else bswap 8 rawNumeric
    memcpy mem start val64Bit 8
  else if length = 4 then
    let val32Bit := rawNumeric.toUInt32.toUInt64
    memcpy mem start (if littleEndian then val32Bit else bswap 4 val32Bit) 4
  else
    shiftLoop mem start rawNumeric length littleEndian

def bytesFrom (mem : Nat → UInt8) (start n : Nat) : List UInt8 := (List.range n).map fun i => mem (start + i)

/-! ## Stores -/

section
variable (start : Nat) (byte : Nat → UInt8) (mem : Nat → UInt8)

theorem storeFrom_outside {a : Nat} : ∀ {n : Nat}, a < start ∨ start + n ≤ a → storeFrom start byte mem n a = mem a
  | 0, _ => rfl
  | n + 1, h => by
    have hne : a ≠ start + n := by omega
    have ih : storeFrom start byte mem n a = mem a := storeFrom_outside (by omega)
    rw [storeFrom, Function.update_of_ne hne, ih]

theorem storeFrom_inside {i : Nat} : ∀ {n : Nat}, i < n → storeFrom start byte mem n (start + i) = byte i
  | n + 1, h => by
    by_cases hi : i = n
    · subst hi
      rw [storeFrom, Function.update_self]
    · have hne : start + i ≠ start + n := by omega
      have ih : storeFrom start byte mem n (start + i) = byte i := storeFrom_inside (by omega)
      rw [storeFrom, Function.update_of_ne hne, ih]

theorem bytesFrom_storeFrom (n : Nat) :
    bytesFrom (storeFrom start byte mem n) start n = (List.range n).map byte := by
  apply List.map_congr_left
  intro i hi
  exact storeFrom_inside start byte mem (List.mem_range.mp hi)

theorem storeFrom_congr {byte' : Nat → UInt8} {n : Nat} (h : ∀ i < n, byte i = byte' i) :
    storeFrom start byte mem n = storeFrom start byte' mem n := by
  funext a
  by_cases ha : a < start ∨ start + n ≤ a
  · rw [storeFrom_outside start byte mem ha, storeFrom_outside start byte' mem ha]
  · obtain ⟨i, rfl⟩ : ∃ i, a = start + i := ⟨a - start, by omega⟩
    have hi : i < n := by omega
    rw [storeFrom_inside start byte mem hi, storeFrom_inside start byte' mem hi, h i hi]

theorem bytesFrom_append (m n : Nat) :
    bytesFrom mem start (m + n) = bytesFrom mem start m ++ bytesFrom mem (start + m) n := by
  simp [bytesFrom, List.range_add, Nat.add_assoc]

end

/-! ## The shift loop -/

def sourceIndex (length : UInt32) (littleEndian : Bool) (i : Nat) : Nat :=
  if littleEndian then i else length.toNat - 1 - i

theorem shiftOf_toNat {length : UInt32} (h : length.toNat ≤ 8) (littleEndian : Bool) {i : Nat} (hi : i < length.toNat) :
    (shiftOf length littleEndian (UInt32.ofNat i)).toNat = 8 * sourceIndex length littleEndian i := by
  have hof : (UInt32.ofNat i).toNat = i := UInt32.toNat_ofNat_of_lt' (by simp [UInt32.size]; omega)
  unfold shiftOf sourceIndex
  by_cases hle : littleEndian = true
  · have hmul : (UInt32.ofNat i * 8).toNat = i * 8 := by
      rw [UInt32.toNat_mul, hof]
      exact Nat.mod_eq_of_lt (by simp; omega)
    rw [if_pos hle, if_pos hle, hmul, Nat.mul_comm]
  · -- neither subtraction wraps, as `i` is below the length
    have hone : (length - 1).toNat = length.toNat - 1 :=
      UInt32.toNat_sub_of_le _ _ (UInt32.le_iff_toNat_le.mpr (by simp; omega))
    have hsub : (length - 1 - UInt32.ofNat i).toNat = length.toNat - 1 - i := by
      rw [UInt32.toNat_sub_of_le _ _ (UInt32.le_iff_toNat_le.mpr (by rw [hone, hof]; omega)), hone, hof]
    have hmul : ((length - 1 - UInt32.ofNat i) * 8).toNat = (length.toNat - 1 - i) * 8 := by
      rw [UInt32.toNat_mul, hsub]
      exact Nat.mod_eq_of_lt (by simp; omega)
    rw [if_neg hle, if_neg hle, hmul, Nat.mul_comm]

theorem shiftByte_eq (v : UInt64) {length : UInt32} (h : length.toNat ≤ 8) (littleEndian : Bool) {i : Nat}
    (hi : i < length.toNat) : shiftByte v length littleEndian i = byteAt v (sourceIndex length littleEndian i) := by
  have hshift : (shiftOf length littleEndian (UInt32.ofNat i)).toUInt64 =
      UInt64.ofNat (8 * sourceIndex length littleEndian i) := by
    apply UInt64.toNat_inj.mp
    have hlt : 8 * sourceIndex length littleEndian i < UInt64.size := by
      unfold sourceIndex UInt64.size
      split <;> omega
    rw [UInt32.toNat_toUInt64, shiftOf_toNat h littleEndian hi, UInt64.toNat_ofNat_of_lt' hlt]
  have hmask : ∀ x : UInt64, (x &&& 0xFF).toUInt8 = x.toUInt8 := by
    intro x
    apply UInt8.toNat_inj.mp
    have hand : x.toNat &&& 255 = x.toNat % 256 := Nat.and_two_pow_sub_one_eq_mod x.toNat 8
    have h255 : (0xFF : UInt64).toNat = 255 := rfl
    rw [UInt64.toNat_toUInt8, UInt64.toNat_toUInt8, UInt64.toNat_and, h255, hand, Nat.mod_mod]
  rw [shiftByte, hshift, hmask, byteAt]

/-! ## The three paths -/

theorem bytesFrom_shiftLoop (mem : Nat → UInt8) (start : Nat) (v : UInt64) {length : UInt32} (h : length.toNat ≤ 8)
    (littleEndian : Bool) :
    bytesFrom (shiftLoop mem start v length littleEndian) start length.toNat = writeNumeric v length littleEndian := by
  have hloop : (List.range length.toNat).map (shiftByte v length littleEndian) =
      if littleEndian then storeBytes v length.toNat else (storeBytes v length.toNat).reverse := by
    apply List.ext_getElem (by split <;> simp [storeBytes])
    intro i h₁ h₂
    have hi : i < length.toNat := by simpa using h₁
    cases littleEndian <;> simp [storeBytes, shiftByte_eq v h _ hi, sourceIndex]
  rw [shiftLoop, bytesFrom_storeFrom, hloop, writeNumeric_eq v h]

/-- A copy of the right bytes is the loop. -/
theorem memcpy_eq_shiftLoop (mem : Nat → UInt8) (start : Nat) {v w : UInt64} {length : UInt32} (h : length.toNat ≤ 8)
    {littleEndian : Bool} (hw : ∀ i < length.toNat, byteAt w i = byteAt v (sourceIndex length littleEndian i)) :
    memcpy mem start w length.toNat = shiftLoop mem start v length littleEndian := by
  apply storeFrom_congr
  intro i hi
  rw [hw i hi, shiftByte_eq v h littleEndian hi]

theorem writeNumericTo_eq_shiftLoop (mem : Nat → UInt8) (start : Nat) (v : UInt64) {length : UInt32}
    (h : length.toNat ≤ 8) (littleEndian : Bool) :
    writeNumericTo mem start v length littleEndian = shiftLoop mem start v length littleEndian := by
  unfold writeNumericTo
  by_cases h8 : length = 8
  · subst h8
    rw [if_pos rfl]
    apply memcpy_eq_shiftLoop mem start h
    intro i hi
    cases littleEndian
    · exact byteAt_bswap v (by decide) hi
    · rfl
  · rw [if_neg h8]
    by_cases h4 : length = 4
    · subst h4
      rw [if_pos rfl]
      apply memcpy_eq_shiftLoop mem start h
      intro i hi
      have hi4 : i < 4 := hi
      cases littleEndian
      · -- the cast keeps the low half, which the swap reverses
        have hswap : byteAt (bswap 4 v.toUInt32.toUInt64) i = byteAt v.toUInt32.toUInt64 (4 - 1 - i) :=
          byteAt_bswap _ (by decide) hi4
        have hlow : byteAt v.toUInt32.toUInt64 (4 - 1 - i) = byteAt v (4 - 1 - i) := byteAt_low v (by omega)
        exact hswap.trans hlow
      · exact byteAt_low v hi4
    · rw [if_neg h4]

/-- The bytes that the payloads hold are the ones written. -/
theorem bytesFrom_writeNumericTo (mem : Nat → UInt8) (start : Nat) (v : UInt64) {length : UInt32}
    (h : length.toNat ≤ 8) (littleEndian : Bool) :
    bytesFrom (writeNumericTo mem start v length littleEndian) start length.toNat =
      writeNumeric v length littleEndian := by
  rw [writeNumericTo_eq_shiftLoop mem start v h, bytesFrom_shiftLoop mem start v h]

theorem writeNumericTo_outside (mem : Nat → UInt8) (start : Nat) (v : UInt64) {length : UInt32}
    (h : length.toNat ≤ 8) (littleEndian : Bool) {a : Nat} (ha : a < start ∨ start + length.toNat ≤ a) :
    writeNumericTo mem start v length littleEndian a = mem a := by
  rw [writeNumericTo_eq_shiftLoop mem start v h]
  exact storeFrom_outside start _ mem ha

/-- Exactly the bytes at `start` are written, they stand for the low part of
the number, and the loop alone would have written the same. -/
theorem writeNumericTo_spec (mem : Nat → UInt8) (start : Nat) (v : UInt64) {length : UInt32} (h : length.toNat ≤ 8)
    (littleEndian : Bool) :
    (∀ a, a < start ∨ start + length.toNat ≤ a → writeNumericTo mem start v length littleEndian a = mem a) ∧
      readNumeric littleEndian (bytesFrom (writeNumericTo mem start v length littleEndian) start length.toNat) =
        v.toNat % 2 ^ (8 * length.toNat) ∧
      writeNumericTo mem start v length littleEndian = shiftLoop mem start v length littleEndian := by
  refine ⟨?_, ?_, ?_⟩
  · intro a ha
    exact writeNumericTo_outside mem start v h littleEndian ha
  · rw [bytesFrom_writeNumericTo mem start v h]
    exact readNumeric_writeNumeric v h littleEndian
  · exact writeNumericTo_eq_shiftLoop mem start v h littleEndian

theorem writeNumericTo_spec_four :
    (4 : UInt32).toNat ≤ 8 ∧
      bytesFrom (writeNumericTo (fun _ => 0xEE) 16 0x0102030405060708 4 false) 15 6 = [0xEE, 5, 6, 7, 8, 0xEE] ∧
      readNumeric false (bytesFrom (writeNumericTo (fun _ => 0xEE) 16 0x0102030405060708 4 false) 16 4) =
        0x0102030405060708 % 2 ^ 32 ∧
      writeNumericTo (fun _ => 0xEE) 16 0x0102030405060708 4 false =
        shiftLoop (fun _ => 0xEE) 16 0x0102030405060708 4 false := by
  obtain ⟨_, hread, hloop⟩ := @writeNumericTo_spec (fun _ => 0xEE) 16 0x0102030405060708 4 (by decide) false
  exact ⟨by decide, by decide, hread, hloop⟩

/-! ## Into `temps` -/

/-- `temps.data()` points at the bytes `temps` has, and stays so when a number
is written behind them. -/
theorem pushNumeric_bytesFrom (mem : Nat → UInt8) (data : Nat) (s : FillState) (op : PacketOperation) (value : UInt64)
    (h : op.length.toNat ≤ 8) (hmem : bytesFrom mem data s.temps.length = s.temps) :
    bytesFrom (writeNumericTo mem (data + s.temps.length) value op.length op.littleEndian) data
      (s.pushNumeric op value).temps.length = (s.pushNumeric op value).temps := by
  have hkeep : bytesFrom (writeNumericTo mem (data + s.temps.length) value op.length op.littleEndian) data
      s.temps.length = bytesFrom mem data s.temps.length := by
    apply List.map_congr_left
    intro i hi
    have hi' := List.mem_range.mp hi
    exact writeNumericTo_outside mem _ value h op.littleEndian (by omega)
  rw [FillState.pushNumeric, List.length_append, writeNumeric_length value h, bytesFrom_append, hkeep, hmem,
    bytesFrom_writeNumericTo mem _ value h]

end Loadshear

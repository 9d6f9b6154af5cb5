import Mathlib.Data.Int.Log
import Mathlib.Algebra.Order.Floor.Ring
import Mathlib.Tactic.Ring

/-!
# Rounding to a number of bits

Binary floating point without bounds on the exponent: `round p q` keeps `p`
significant bits of `q`. What has no more of them stays (`round_of_fits`), so
scaling by a power of two is exact (`Fits.scale`).
-/

namespace Rounding

/-- The number has `p` significant bits. -/
def Fits {K : Type*} [Field K] (p : ℕ) (q : K) : Prop := ∃ m e : ℤ, |m| < 2 ^ p ∧ q = m * 2 ^ e

section
variable {K : Type*} [Field K] {p : ℕ} {q : K}

theorem Fits.scale [NeZero (2 : K)] (h : Fits p q) (k : ℤ) : Fits p (q * 2 ^ k) := by
  obtain ⟨m, e, hm, rfl⟩ := h
  refine ⟨m, e + k, hm, ?_⟩
  rw [zpow_add₀ two_ne_zero, mul_assoc]

theorem fits_zero : Fits p (0 : K) := ⟨0, 0, by simp, by simp⟩

theorem fits_intCast {z : ℤ} (h : |z| < 2 ^ p) : Fits p (z : K) := ⟨z, 0, h, by simp⟩

end

section
variable {K : Type*} [Field K] [LinearOrder K] [FloorRing K]

/-- The nearest integer; of two, the even one. -/
def nearest (q : K) : ℤ :=
  if Int.fract q < 1 / 2 then ⌊q⌋
  else if 1 / 2 < Int.fract q then ⌊q⌋ + 1
  else if ⌊q⌋ % 2 = 0 then ⌊q⌋ else ⌊q⌋ + 1

theorem floor_le_nearest (q : K) : ⌊q⌋ ≤ nearest q := by
  unfold nearest
  split_ifs <;> omega

theorem nearest_le_floor (q : K) : nearest q ≤ ⌊q⌋ + 1 := by
  unfold nearest
  split_ifs <;> omega

variable {p : ℕ} {q : K}

theorem le_nearest {z : ℤ} (h : (z : K) ≤ q) : z ≤ nearest q :=
  (Int.le_floor.mpr h).trans (floor_le_nearest q)

variable [IsStrictOrderedRing K]

@[simp] theorem nearest_intCast (z : ℤ) : nearest (z : K) = z := by
  simp [nearest]

theorem nearest_le {z : ℤ} (h : q ≤ z) : nearest q ≤ z := by
  by_cases he : q = z
  · rw [he, nearest_intCast]
  · have hf : ⌊q⌋ < z := Int.floor_lt.mpr (lt_of_le_of_ne h he)
    have := nearest_le_floor q
    omega

theorem nearest_mono {r : K} (h : q ≤ r) : nearest q ≤ nearest r := by
  rcases (Int.floor_mono h).lt_or_eq with hlt | heq
  · have := nearest_le_floor q
    have := floor_le_nearest r
    omega
  · have hf : Int.fract q ≤ Int.fract r := by
      unfold Int.fract
      rw [heq]
      exact sub_le_sub_right h _
    unfold nearest
    rw [heq]
    split_ifs <;> first | omega | (exfalso; linarith)

/-- The error is at most one half. -/
theorem abs_nearest_sub_le (q : K) : |(nearest q : K) - q| ≤ 1 / 2 := by
  have hq : q = ⌊q⌋ + Int.fract q := (Int.floor_add_fract q).symm
  have h0 := Int.fract_nonneg q
  have h1 := (Int.fract_lt_one q).le
  rw [abs_le]
  unfold nearest
  split_ifs with h₁ h₂ <;> push_cast <;> constructor <;> linarith

/-- The exponent of the last of the `p` bits. -/
def lastBit (p : ℕ) (q : K) : ℤ := Int.log 2 |q| - p + 1

def round (p : ℕ) (q : K) : K := nearest (q / 2 ^ lastBit p q) * 2 ^ lastBit p q

theorem lastBit_pos (p : ℕ) (q : K) : (0 : K) < 2 ^ lastBit p q := zpow_pos two_pos _

/-- A number that fits has no bit below its last one. -/
theorem lastBit_le {m e : ℤ} (hm : |m| < 2 ^ p) (h0 : m ≠ 0) : lastBit p ((m : K) * 2 ^ e) ≤ e := by
  have hpos : 0 < |(m : K) * 2 ^ e| := by
    apply abs_pos.mpr
    apply mul_ne_zero (Int.cast_ne_zero.mpr h0)
    exact zpow_ne_zero _ two_ne_zero
  have hlt : |(m : K) * 2 ^ e| < ((2 : ℕ) : K) ^ ((p : ℤ) + e) := by
    have hm' : |(m : K)| < 2 ^ p := by exact_mod_cast hm
    rw [abs_mul, abs_of_pos (zpow_pos (two_pos : (0 : K) < 2) e), Nat.cast_ofNat, zpow_add₀ two_ne_zero, zpow_natCast]
    exact mul_lt_mul_of_pos_right hm' (zpow_pos two_pos e)
  have hlog := (Int.lt_zpow_iff_log_lt Nat.one_lt_two hpos).mp hlt
  unfold lastBit
  omega

/-- What fits is a whole number of last bits. -/
theorem Fits.exists_scaled (h : Fits p q) : ∃ z : ℤ, q / 2 ^ lastBit p q = z := by
  obtain ⟨m, e, hm, rfl⟩ := h
  by_cases h0 : m = 0
  · exact ⟨0, by simp [h0]⟩
  · obtain ⟨n, hn⟩ := Int.eq_ofNat_of_zero_le (Int.sub_nonneg_of_le (lastBit_le (K := K) hm h0))
    refine ⟨m * 2 ^ n, ?_⟩
    rw [mul_div_assoc, ← zpow_sub₀ two_ne_zero, hn]
    simp

theorem round_of_fits (h : Fits p q) : round p q = q := by
  obtain ⟨z, hz⟩ := h.exists_scaled
  rw [round, hz, nearest_intCast, ← hz, div_mul_cancel₀ _ (lastBit_pos p q).ne']

theorem abs_scaled_lt (p : ℕ) (q : K) : |q / 2 ^ lastBit p q| < 2 ^ p := by
  have hlt : |q| < (2 : K) ^ (Int.log 2 |q| + 1) := by
    simpa using Int.lt_zpow_succ_log_self (b := 2) (by decide) |q|
  have he : (p : ℤ) + lastBit p q = Int.log 2 |q| + 1 := by
    unfold lastBit
    omega
  rwa [abs_div, abs_of_pos (lastBit_pos p q), div_lt_iff₀ (lastBit_pos p q), ← zpow_natCast,
    ← zpow_add₀ two_ne_zero, he]

theorem abs_nearest_le {z : ℤ} (h : |q| ≤ z) : |nearest q| ≤ z := by
  obtain ⟨hl, hu⟩ := abs_le.mp h
  refine abs_le.mpr ⟨le_nearest ?_, nearest_le hu⟩
  simpa using hl

/-- A rounded number fits; one that carries into another bit is a power of two. -/
theorem fits_round (hp : 0 < p) (q : K) : Fits p (round p q) := by
  have hle : |nearest (q / 2 ^ lastBit p q)| ≤ 2 ^ p := by
    apply abs_nearest_le
    exact_mod_cast (abs_scaled_lt p q).le
  by_cases hlt : |nearest (q / 2 ^ lastBit p q)| < 2 ^ p
  · exact ⟨_, _, hlt, rfl⟩
  · have hpow : (1 : ℤ) < 2 ^ p := one_lt_pow₀ (by decide) hp.ne'
    obtain he | he := eq_or_eq_neg_of_abs_eq (le_antisymm hle (not_lt.mp hlt))
    · refine ⟨1, p + lastBit p q, by simpa using hpow, ?_⟩
      rw [round, he, zpow_add₀ two_ne_zero]
      simp
    · refine ⟨-1, p + lastBit p q, by simpa using hpow, ?_⟩
      rw [round, he, zpow_add₀ two_ne_zero]
      simp

theorem pow_le_round {k : ℤ} (hp : 0 < p) (h : 2 ^ k ≤ q) : 2 ^ k ≤ round p q := by
  have hq : 0 < q := lt_of_lt_of_le (zpow_pos two_pos k) h
  have hlog : k ≤ Int.log 2 q := by
    apply (Int.zpow_le_iff_le_log (by decide) hq).mp
    simpa using h
  have hself : (2 : K) ^ Int.log 2 q ≤ q := by simpa using Int.zpow_log_le_self (b := 2) (by decide) hq
  have he : Int.log 2 q = (p - 1 : ℕ) + lastBit p q := by
    rw [lastBit, abs_of_pos hq]
    omega
  have hscaled : ((2 ^ (p - 1) : ℤ) : K) ≤ q / 2 ^ lastBit p q := by
    rw [le_div_iff₀ (lastBit_pos p q)]
    rw [he, zpow_add₀ two_ne_zero] at hself
    simpa using hself
  calc (2 : K) ^ k ≤ 2 ^ Int.log 2 q := zpow_le_zpow_right₀ one_le_two hlog
    _ = ((2 ^ (p - 1) : ℤ) : K) * 2 ^ lastBit p q := by
      conv_lhs => rw [he, zpow_add₀ two_ne_zero]
      simp
    _ ≤ round p q := by
      apply mul_le_mul_of_nonneg_right _ (lastBit_pos p q).le
      exact_mod_cast le_nearest hscaled

/-- Rounding does not go over a number that fits. -/
theorem round_le {r : K} (hr : Fits p r) (h0 : 0 < q) (h : q ≤ r) : round p q ≤ r := by
  obtain ⟨z, hz⟩ := hr.exists_scaled
  have hlog : lastBit p q ≤ lastBit p r := by
    have := Int.log_mono_right (b := 2) h0 h
    rw [lastBit, lastBit, abs_of_pos h0, abs_of_pos (h0.trans_le h)]
    omega
  obtain ⟨n, hn⟩ := Int.eq_ofNat_of_zero_le (Int.sub_nonneg_of_le hlog)
  have hwhole : r / 2 ^ lastBit p q = ((z * 2 ^ n : ℤ) : K) := by
    have hsplit : lastBit p r = lastBit p q + n := by omega
    rw [div_eq_iff (lastBit_pos p r).ne', hsplit, zpow_add₀ two_ne_zero] at hz
    rw [div_eq_iff (lastBit_pos p q).ne', hz]
    push_cast
    rw [zpow_natCast]
    ring
  have hle : nearest (q / 2 ^ lastBit p q) ≤ z * 2 ^ n := by
    apply nearest_le
    rw [← hwhole]
    exact div_le_div_of_nonneg_right h (lastBit_pos p q).le
  calc round p q ≤ ((z * 2 ^ n : ℤ) : K) * 2 ^ lastBit p q := by
        apply mul_le_mul_of_nonneg_right _ (lastBit_pos p q).le
        exact_mod_cast hle
    _ = r := by rw [← hwhole, div_mul_cancel₀ _ (lastBit_pos p q).ne']

theorem round_nonpos (p : ℕ) (h : q ≤ 0) : round p q ≤ 0 := by
  have hn : nearest (q / 2 ^ lastBit p q) ≤ 0 := by
    apply nearest_le
    simpa using div_nonpos_of_nonpos_of_nonneg h (lastBit_pos p q).le
  apply mul_nonpos_of_nonpos_of_nonneg _ (lastBit_pos p q).le
  exact_mod_cast hn

theorem round_nonneg (p : ℕ) (h : 0 ≤ q) : 0 ≤ round p q := by
  have hn : 0 ≤ nearest (q / 2 ^ lastBit p q) := by
    apply le_nearest
    simpa using div_nonneg h (lastBit_pos p q).le
  apply mul_nonneg _ (lastBit_pos p q).le
  exact_mod_cast hn

theorem round_mono {r : K} (hp : 0 < p) (h0 : 0 ≤ q) (h : q ≤ r) : round p q ≤ round p r := by
  rcases h0.eq_or_lt with rfl | hq
  · rw [round_of_fits fits_zero]
    exact round_nonneg p h
  · have hr := hq.trans_le h
    rcases (Int.log_mono_right (b := 2) hq h).lt_or_eq with hlt | heq
    · -- a power of two lies between
      have hbelow : q < 2 ^ Int.log 2 r := by simpa using (Int.lt_zpow_iff_log_lt Nat.one_lt_two hq).mpr hlt
      have habove : 2 ^ Int.log 2 r ≤ r := by simpa using Int.zpow_log_le_self (b := 2) (by decide) hr
      have hpow : Fits p ((2 : K) ^ Int.log 2 r) :=
        ⟨1, Int.log 2 r, by simpa using one_lt_pow₀ (by decide) hp.ne', by simp⟩
      exact (round_le hpow hq hbelow.le).trans (pow_le_round hp habove)
    · have hbit : lastBit p q = lastBit p r := by rw [lastBit, lastBit, abs_of_pos hq, abs_of_pos hr, heq]
      unfold round
      rw [hbit]
      apply mul_le_mul_of_nonneg_right _ (lastBit_pos p r).le
      exact_mod_cast nearest_mono (div_le_div_of_nonneg_right h (lastBit_pos p r).le)

theorem abs_round_sub_le (p : ℕ) (q : K) : |round p q - q| ≤ |q| / 2 ^ p := by
  by_cases hq : q = 0
  · rw [hq, round_of_fits fits_zero]
    simp
  · have hbit := lastBit_pos p q
    have hself : (2 : K) ^ Int.log 2 |q| ≤ |q| := by
      simpa using Int.zpow_log_le_self (b := 2) (by decide) (abs_pos.mpr hq)
    have hlog : Int.log 2 |q| = lastBit p q - 1 + p := by
      unfold lastBit
      omega
    calc |round p q - q| = |(nearest (q / 2 ^ lastBit p q) : K) - q / 2 ^ lastBit p q| * 2 ^ lastBit p q := by
          rw [← abs_of_pos hbit, ← abs_mul, sub_mul, abs_of_pos hbit, div_mul_cancel₀ _ hbit.ne', round]
      _ ≤ 1 / 2 * 2 ^ lastBit p q := mul_le_mul_of_nonneg_right (abs_nearest_sub_le _) hbit.le
      _ = 2 ^ Int.log 2 |q| / 2 ^ p := by
        rw [hlog, zpow_add₀ two_ne_zero, zpow_sub₀ two_ne_zero, zpow_natCast, mul_div_assoc, div_self (by positivity)]
        ring
      _ ≤ |q| / 2 ^ p := by gcongr

/-- The quotient of two numbers within `u` of their size, where the first is the
smaller. -/
theorem abs_div_sub_div_le {a b v m u : K} (hm : 0 < m) (hv : 0 ≤ v) (hvm : v ≤ m) (hu : u ≤ 1 / 3)
    (ha : |a - v| ≤ v * u) (hb : |b - m| ≤ m * u) : |a / b - v / m| ≤ 3 * u := by
  have hu0 : 0 ≤ u := nonneg_of_mul_nonneg_right ((abs_nonneg _).trans hb) hm
  have hlow : 2 * m ≤ 3 * b := by
    have := (abs_le.mp hb).1
    have := mul_le_mul_of_nonneg_left hu hm.le
    linarith
  have hb0 : 0 < b := by linarith
  rw [div_sub_div _ _ hb0.ne' hm.ne', abs_div, abs_of_pos (mul_pos hb0 hm), div_le_iff₀ (mul_pos hb0 hm)]
  have hsplit : a * m - b * v = (a - v) * m - (b - m) * v := by ring
  calc |a * m - b * v| ≤ |(a - v) * m| + |(b - m) * v| := by
        rw [hsplit]
        exact abs_sub _ _
    _ = |a - v| * m + |b - m| * v := by rw [abs_mul, abs_mul, abs_of_pos hm, abs_of_nonneg hv]
    _ ≤ v * u * m + m * u * v := add_le_add (mul_le_mul_of_nonneg_right ha hm.le) (mul_le_mul_of_nonneg_right hb hv)
    _ = 2 * v * (u * m) := by ring
    _ ≤ 3 * b * (u * m) := mul_le_mul_of_nonneg_right (by linarith) (mul_nonneg hu0 hm.le)
    _ = 3 * u * (b * m) := by ring

end

end Rounding

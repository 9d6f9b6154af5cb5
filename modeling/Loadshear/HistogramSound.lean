import Loadshear.DisplaySound
import Loadshear.Histogram
import Loadshear.MeteredSound
import Mathlib.Tactic.Linarith
import Mathlib.Tactic.Positivity

/-!
# What the histograms show

The bars of a histogram are in the order of their counts and have the heights
that integer arithmetic gives them (`scaled_fillOf`). The counts of a reported
histogram are those of the samples that lie where its labels say
(`reports_drawn`).
-/

namespace Loadshear

/-- Bars over counts: in their order, the largest over the whole height, and as
near to their share of it as rounding to a row, and dividing doubles, allow. -/
structure Scaled (counts : Fin numBuckets → UInt64) (bars : Fin numBuckets → Nat) : Prop where
  inside : ∀ i, bars i ≤ histogramHeight
  ordered : ∀ i j, counts i ≤ counts j → bars i ≤ bars j
  full : ∀ j, counts j ≠ 0 → (∀ k, counts k ≤ counts j) → bars j = histogramHeight
  near : ∀ i j, (∀ k, counts k ≤ counts j) →
    |(bars i : ℚ) - histogramHeight * (counts i).toNat / (counts j).toNat| ≤ 1 / 2 + 1 / 2 ^ 48
  exact_below : ∀ i j, (∀ k, counts k ≤ counts j) → counts j < 2 ^ 49 →
    bars i = (2 * histogramHeight * (counts i).toNat + (counts j).toNat) / (2 * (counts j).toNat)

/-! ## Doubles -/

theorem double_mono {q r : ℚ} (h0 : 0 ≤ q) (h : q ≤ r) : double q ≤ double r := Rounding.round_mono (by decide) h0 h

theorem double_pos {n : Nat} (h : 0 < n) : 0 < double n := by
  have hone : (1 : ℚ) = 2 ^ (0 : ℤ) := by simp
  apply lt_of_lt_of_le one_pos
  rw [hone]
  apply Rounding.pow_le_round (by decide)
  rw [zpow_zero]
  exact_mod_cast h

theorem abs_double_sub_le (q : ℚ) : |double q - q| ≤ |q| / 2 ^ 53 := Rounding.abs_round_sub_le 53 q

def fraction (maxV val : UInt64) : ℚ := double (double val.toNat / double maxV.toNat)

variable {maxV val val' : UInt64}

theorem fraction_nonneg (maxV val : UInt64) : 0 ≤ fraction maxV val :=
  double_nonneg (div_nonneg (double_nonneg (Nat.cast_nonneg _)) (double_nonneg (Nat.cast_nonneg _)))

theorem fraction_mono (maxV : UInt64) (h : val ≤ val') : fraction maxV val ≤ fraction maxV val' := by
  apply double_mono (div_nonneg (double_nonneg (Nat.cast_nonneg _)) (double_nonneg (Nat.cast_nonneg _)))
  apply div_le_div_of_nonneg_right _ (double_nonneg (Nat.cast_nonneg _))
  apply double_mono (Nat.cast_nonneg _)
  exact_mod_cast UInt64.le_iff_toNat_le.mp h

theorem fraction_self (h : 0 < maxV.toNat) : fraction maxV maxV = 1 := by
  have hone : double ((1 : ℤ) : ℚ) = (1 : ℤ) := double_intCast (by norm_num)
  rw [fraction, div_self (double_pos h).ne']
  simpa using hone

theorem fraction_le_one (h : 0 < maxV.toNat) (hv : val ≤ maxV) : fraction maxV val ≤ 1 :=
  (fraction_mono maxV hv).trans_eq (fraction_self h)

theorem abs_fraction_sub_le (h : 0 < maxV.toNat) (hv : val ≤ maxV) :
    |fraction maxV val - val.toNat / maxV.toNat| ≤ 1 / 2 ^ 51 := by
  have hm : (0 : ℚ) < maxV.toNat := by exact_mod_cast h
  have hvm : (val.toNat : ℚ) ≤ maxV.toNat := by exact_mod_cast UInt64.le_iff_toNat_le.mp hv
  have hv0 : (0 : ℚ) ≤ val.toNat := Nat.cast_nonneg _
  have hquot : |double val.toNat / double maxV.toNat - val.toNat / maxV.toNat| ≤ 3 * (1 / 2 ^ 53) := by
    apply Rounding.abs_div_sub_div_le hm hv0 hvm (by norm_num)
    · simpa [abs_of_nonneg hv0, div_eq_mul_inv] using abs_double_sub_le val.toNat
    · simpa [abs_of_pos hm, div_eq_mul_inv] using abs_double_sub_le maxV.toNat
  have hdiv := abs_double_sub_le (double val.toNat / double maxV.toNat)
  have hle : |double val.toNat / double maxV.toNat| ≤ 1 := by
    rw [abs_of_nonneg (div_nonneg (double_nonneg hv0) (double_pos h).le), div_le_one (double_pos h)]
    exact double_mono hv0 hvm
  have hlast : |double val.toNat / double maxV.toNat| / 2 ^ 53 ≤ 1 / 2 ^ 53 := by gcongr
  calc |fraction maxV val - val.toNat / maxV.toNat|
      ≤ |fraction maxV val - double val.toNat / double maxV.toNat| +
        |double val.toNat / double maxV.toNat - val.toNat / maxV.toNat| := abs_sub_le _ _ _
    _ ≤ 1 / 2 ^ 53 + 3 * (1 / 2 ^ 53) := add_le_add (hdiv.trans hlast) hquot
    _ = 1 / 2 ^ 51 := by norm_num

/-! ## Bars -/

/-- Taking eight rows of a fraction is exact. -/
theorem double_rows (maxV val : UInt64) :
    double (fraction maxV val * histogramHeight) = fraction maxV val * histogramHeight := by
  have height : (histogramHeight : ℚ) = 2 ^ (3 : ℤ) := by norm_num [histogramHeight]
  rw [height]
  exact Rounding.round_of_fits ((Rounding.fits_round (by decide) _).scale 3)

/-- The bar is never cut to the height. -/
theorem fillOf_eq (h : 0 < maxV.toNat) (hv : val ≤ maxV) :
    (fillOf maxV val : ℤ) = ⌊fraction maxV val * histogramHeight + 1 / 2⌋ ∧ fillOf maxV val ≤ histogramHeight := by
  have h0 : 0 ≤ ⌊fraction maxV val * histogramHeight + 1 / 2⌋ := by
    have := fraction_nonneg maxV val
    positivity
  have h8 : ⌊fraction maxV val * histogramHeight + 1 / 2⌋ < histogramHeight + 1 := by
    rw [Int.floor_lt]
    have := fraction_le_one h hv
    norm_num [histogramHeight]
    linarith
  have hpos : 0 < maxV := UInt64.lt_iff_toNat_lt.mpr h
  rw [fillOf, if_pos hpos, ← fraction, double_rows]
  dsimp only
  rw [if_neg (by omega)]
  omega

theorem fillOf_le (maxV val : UInt64) : fillOf maxV val ≤ histogramHeight := by
  unfold fillOf
  dsimp only
  split_ifs <;> omega

theorem fillOf_none (h : maxV.toNat = 0) : fillOf maxV val = 0 := by
  have hno : ¬ 0 < maxV := fun hpos => (UInt64.lt_iff_toNat_lt.mp hpos).ne' h
  rw [fillOf, if_neg hno]

theorem fillOf_mono (h : val ≤ val') (hv : val' ≤ maxV) : fillOf maxV val ≤ fillOf maxV val' := by
  by_cases hm : 0 < maxV.toNat
  · have hl := (fillOf_eq hm (UInt64.le_trans h hv)).1
    have hr := (fillOf_eq hm hv).1
    have hfrac := fraction_mono maxV h
    have hfloor : ⌊fraction maxV val * histogramHeight + 1 / 2⌋ ≤ ⌊fraction maxV val' * histogramHeight + 1 / 2⌋ := by
      gcongr
    omega
  · rw [fillOf_none (Nat.eq_zero_of_not_pos hm)]
    exact Nat.zero_le _

theorem fillOf_self (h : 0 < maxV.toNat) : fillOf maxV maxV = histogramHeight := by
  have hfill := (fillOf_eq h UInt64.le_rfl).1
  rw [fraction_self h] at hfill
  norm_num [histogramHeight] at hfill ⊢
  omega

theorem abs_fillOf_sub_le (hv : val ≤ maxV) :
    |(fillOf maxV val : ℚ) - histogramHeight * val.toNat / maxV.toNat| ≤ 1 / 2 + 1 / 2 ^ 48 := by
  by_cases h : 0 < maxV.toNat
  · have hfill : ((fillOf maxV val : ℤ) : ℚ) = _ := congrArg _ (fillOf_eq h hv).1
    have hl := Int.floor_le (fraction maxV val * histogramHeight + 1 / 2)
    have hr := Int.lt_floor_add_one (fraction maxV val * histogramHeight + 1 / 2)
    have hdiv := abs_le.mp (abs_fraction_sub_le h hv)
    rw [← hfill, Int.cast_natCast] at hl hr
    rw [mul_div_assoc]
    norm_num [histogramHeight, abs_le] at *
    constructor <;> linarith
  · have h0 := Nat.eq_zero_of_not_pos h
    rw [fillOf_none h0, h0]
    norm_num

theorem fraction_of_small (hv : val ≤ maxV) (hlt : maxV.toNat < 2 ^ 53) :
    fraction maxV val = double (val.toNat / maxV.toNat) := by
  have hle := UInt64.le_iff_toNat_le.mp hv
  have hval : double val.toNat = val.toNat := double_intCast (z := val.toNat) (by rw [abs_of_nonneg] <;> omega)
  have hmax : double maxV.toNat = maxV.toNat := double_intCast (z := maxV.toNat) (by rw [abs_of_nonneg] <;> omega)
  rw [fraction, hval, hmax]

theorem double_sixteenths {n : Nat} (h : n < 2 ^ 53) : double (n / 16) = n / 16 := by
  have hscale : (n / 16 : ℚ) = ((n : ℤ) : ℚ) * 2 ^ (-4 : ℤ) := by norm_num [div_eq_mul_inv]
  rw [hscale]
  apply Rounding.round_of_fits
  apply (Rounding.fits_intCast _).scale
  rw [abs_of_nonneg] <;> omega

theorem le_fraction {n : Nat} (h : 0 < maxV.toNat) (hv : val ≤ maxV) (hlt : maxV.toNat < 2 ^ 53)
    (hn : n * maxV.toNat ≤ 16 * val.toNat) : n / 16 ≤ fraction maxV val := by
  have hm : (0 : ℚ) < maxV.toNat := by exact_mod_cast h
  have hle := UInt64.le_iff_toNat_le.mp hv
  have hsmall : n ≤ 16 := Nat.le_of_mul_le_mul_right (hn.trans (Nat.mul_le_mul_left _ hle)) h
  rw [fraction_of_small hv hlt, ← double_sixteenths (by omega)]
  apply double_mono (by positivity)
  rw [div_le_div_iff₀ (by norm_num) hm, mul_comm (val.toNat : ℚ)]
  exact_mod_cast hn

theorem fraction_lt {n : Nat} (h : 0 < maxV.toNat) (hv : val ≤ maxV) (hlt : maxV.toNat < 2 ^ 49)
    (hn : 16 * val.toNat < n * maxV.toNat) : fraction maxV val < n / 16 := by
  have hm : (0 : ℚ) < maxV.toNat := by exact_mod_cast h
  have hx0 : (0 : ℚ) ≤ val.toNat / maxV.toNat := by positivity
  have hx1 : (val.toNat / maxV.toNat : ℚ) ≤ 1 := by
    rw [div_le_one hm]
    exact_mod_cast UInt64.le_iff_toNat_le.mp hv
  have hgap : (val.toNat / maxV.toNat : ℚ) + 1 / (16 * maxV.toNat) ≤ n / 16 := by
    rw [div_add_div _ _ hm.ne' (by positivity), div_le_div_iff₀ (by positivity) (by norm_num)]
    have hnat : 16 * val.toNat + 1 ≤ n * maxV.toNat := hn
    have hcast : (16 * val.toNat + 1 : ℚ) ≤ n * maxV.toNat := by exact_mod_cast hnat
    nlinarith
  have hulp : 1 / 2 ^ 53 < 1 / (16 * maxV.toNat : ℚ) := by
    apply one_div_lt_one_div_of_lt (by positivity)
    have hnat : 16 * maxV.toNat < 2 ^ 53 := by omega
    exact_mod_cast hnat
  have hround := abs_double_sub_le (val.toNat / maxV.toNat : ℚ)
  rw [abs_of_nonneg hx0] at hround
  have hone : (val.toNat / maxV.toNat : ℚ) / 2 ^ 53 ≤ 1 / 2 ^ 53 := by gcongr
  rw [fraction_of_small hv (by omega)]
  linarith [(abs_le.mp (hround.trans hone)).2]

/-- Below `2 ^ 49` no count comes so near to half a row that the doubles lose it. -/
theorem fillOf_exact (hv : val ≤ maxV) (hlt : maxV.toNat < 2 ^ 49) :
    fillOf maxV val = (2 * histogramHeight * val.toNat + maxV.toNat) / (2 * maxV.toNat) := by
  by_cases h : 0 < maxV.toNat
  · have hfill := (fillOf_eq h hv).1
    set k := (2 * histogramHeight * val.toNat + maxV.toNat) / (2 * maxV.toNat) with hk
    have hbelow : k * (2 * maxV.toNat) ≤ 2 * histogramHeight * val.toNat + maxV.toNat := Nat.div_mul_le_self _ _
    have habove : 2 * histogramHeight * val.toNat + maxV.toNat < (k + 1) * (2 * maxV.toNat) :=
      Nat.lt_mul_of_div_lt (Nat.lt_succ_self _) (by omega)
    unfold histogramHeight at hbelow habove
    have hfloor : ⌊fraction maxV val * histogramHeight + 1 / 2⌋ = (k : ℤ) := by
      have hlow : ((2 * k - 1 : ℕ) : ℚ) / 16 ≤ fraction maxV val := by
        apply le_fraction h hv (by omega)
        rw [Nat.sub_mul]
        grind
      have hup : fraction maxV val < ((2 * k + 1 : ℕ) : ℚ) / 16 := by
        apply fraction_lt h hv hlt
        grind
      rw [Int.floor_eq_iff]
      have hsub : (2 * k : ℚ) ≤ (2 * k - 1 : ℕ) + 1 := by
        have hnat : 2 * k ≤ 2 * k - 1 + 1 := by omega
        exact_mod_cast hnat
      push_cast [histogramHeight] at hup ⊢
      constructor <;> linarith
    omega
  · have h0 := Nat.eq_zero_of_not_pos h
    rw [fillOf_none h0, h0]
    simp

/-! ## Columns -/

variable {buckets : Vector UInt64 numBuckets}

instance lawfulOrderMaxUInt64 : Std.LawfulOrderMax UInt64 where
  max_le_iff a b c := by
    simp only [Max.max, UInt64.le_iff_toNat_le]
    split <;> omega
  max_eq_or a b := by
    simp only [Max.max]
    split
    · exact .inr rfl
    · exact .inl rfl

theorem maxElement_spec (buckets : Vector UInt64 numBuckets) :
    maxElement buckets ∈ buckets.toList ∧ ∀ v ∈ buckets.toList, v ≤ maxElement buckets := by
  have hne : buckets.toList ≠ [] := fun h => absurd (congrArg List.length h) (by simp)
  obtain ⟨v, hv⟩ := Option.isSome_iff_exists.mp (List.isSome_max?_of_ne_nil hne)
  rw [maxElement, hv, Option.getD_some]
  exact List.max?_eq_some_iff.mp hv

theorem maxElement_mem (buckets : Vector UInt64 numBuckets) : ∃ j, maxElement buckets = buckets.get j := by
  obtain ⟨j, hj, he⟩ := Vector.getElem_of_mem (Vector.mem_toList_iff.mp (maxElement_spec buckets).1)
  exact ⟨⟨j, hj⟩, he.symm⟩

theorem le_maxElement (buckets : Vector UInt64 numBuckets) (i : Fin numBuckets) : buckets.get i ≤ maxElement buckets :=
  (maxElement_spec buckets).2 _ (Vector.mem_toList_iff.mpr (Vector.getElem_mem i.isLt))

theorem scaled_fillOf (buckets : Vector UInt64 numBuckets) :
    Scaled buckets.get fun i => fillOf (maxElement buckets) (buckets.get i) := by
  have hmax : ∀ j, (∀ k, buckets.get k ≤ buckets.get j) → maxElement buckets = buckets.get j := by
    intro j hj
    obtain ⟨k, hk⟩ := maxElement_mem buckets
    exact UInt64.le_antisymm (hk ▸ hj k) (le_maxElement buckets j)
  refine ⟨fun i => fillOf_le _ _, ?_, ?_, ?_, ?_⟩
  · intro i j hij
    exact fillOf_mono hij (le_maxElement buckets j)
  · intro j h0 hj
    rw [hmax j hj]
    apply fillOf_self
    exact Nat.pos_of_ne_zero fun h => h0 (UInt64.toNat_inj.mp h)
  · intro i j hj
    rw [← hmax j hj]
    exact abs_fillOf_sub_le (le_maxElement buckets i)
  · intro i j hj hlt
    rw [← hmax j hj] at hlt ⊢
    exact fillOf_exact (le_maxElement buckets i) (UInt64.lt_iff_toNat_lt.mp hlt)

/-! ## Drawing -/

variable {Color : Type} {interpolate : ℚ → Color → Color → Color} {histColors : Vector Color 5}

def padded (text : String) : String := text ++ String.ofList (List.replicate (3 - text.length) ' ')

def upperBound (i : Fin numBuckets) : Option Nat := if i.val < 15 then some (64 * 2 ^ i.val) else none

/-- A bound is written in units of 1024; the last column is above that of the one before. -/
def boundText : Option Nat → String × String
  | some us =>
    if us < 2 ^ 10 then (padded (toString us), padded "us")
    else if us < 2 ^ 20 then (padded (toString (us / 2 ^ 10)), padded "ms")
    else (padded (toString (us / 2 ^ 20)), padded "s")
  | none => (padded ">1", padded "s")

theorem labels_bound (i : Fin numBuckets) :
    (latencyLabels.get i, unitLabels.get i) = boundText (upperBound i) := by
  revert i
  decide

def standing (color : Color) (bar : Nat) (label : String × String) : List (Row Color) :=
  List.replicate (histogramHeight - bar) { text := blankText } ++
    List.replicate bar { text := blockText, color := some color } ++
    [{ text := blankText }, { text := label.1 }, { text := label.2 }]

theorem columnRows_eq {fill : Nat} (h : fill ≤ histogramHeight) (color : Color) (label : String × String) :
    columnRows color fill label.1 label.2 = standing color fill label := by
  obtain ⟨blanks, hb⟩ := Nat.exists_eq_add_of_le h
  have hrows : histogramHeight - fill = blanks := by omega
  rw [columnRows, standing, hrows, hb, List.range_add, List.reverse_append, List.map_append]
  congr 2
  · rw [List.eq_replicate_iff]
    refine ⟨by simp, ?_⟩
    simp
  · rw [List.eq_replicate_iff]
    refine ⟨by simp, ?_⟩
    simp +contextual

def Shaded (interpolate : ℚ → Color → Color → Color) (histColors : Vector Color 5) (color : Color) : Prop :=
  ∃ (i : Nat) (t : ℚ), ∃ h : i < 4, 0 ≤ t ∧ t ≤ 1 ∧ color = interpolate t histColors[i] histColors[i + 1]

theorem segment_between {t lo hi : ℚ} (hl : lo ≤ t) (hr : t ≤ hi) :
    0 ≤ double (double (t - lo) / double (hi - lo)) ∧ double (double (t - lo) / double (hi - lo)) ≤ 1 := by
  have h0 : 0 ≤ double (t - lo) := double_nonneg (sub_nonneg.mpr hl)
  have hle : double (t - lo) ≤ double (hi - lo) := double_mono (sub_nonneg.mpr hl) (sub_le_sub_right hr lo)
  have hdiv : 0 ≤ double (t - lo) / double (hi - lo) := div_nonneg h0 (h0.trans hle)
  refine ⟨double_nonneg hdiv, ?_⟩
  have hone := double_le (n := 1) hdiv (by simpa using div_le_one_of_le₀ hle (h0.trans hle)) (by decide)
  simpa using hone

/-- The loop stops at the stops that `t` lies between. -/
theorem stopIndex_between {t : ℚ} (h0 : 0 ≤ t) (h1 : t ≤ 1) :
    ∃ h : stopIndex t < 4, histStops[stopIndex t] ≤ t ∧ t ≤ histStops[stopIndex t + 1] := by
  have hstops : histStops.toList.tail = [11744051 / 2 ^ 25, 9227469 / 2 ^ 24, 13421773 / 2 ^ 24, 1] := rfl
  rcases le_or_gt t (11744051 / 2 ^ 25) with h₁ | h₁
  · have hi : stopIndex t = 0 := by simp [stopIndex, hstops, h₁]
    simp only [hi]
    exact ⟨by decide, h0, h₁⟩
  rcases le_or_gt t (9227469 / 2 ^ 24) with h₂ | h₂
  · have hi : stopIndex t = 1 := by simp [stopIndex, hstops, h₁, h₂]
    simp only [hi]
    exact ⟨by decide, h₁.le, h₂⟩
  rcases le_or_gt t (13421773 / 2 ^ 24) with h₃ | h₃
  · have hi : stopIndex t = 2 := by simp [stopIndex, hstops, h₁, h₂, h₃]
    simp only [hi]
    exact ⟨by decide, h₂.le, h₃⟩
  · have hi : stopIndex t = 3 := by simp [stopIndex, hstops, h₁, h₂, h₃, h1]
    simp only [hi]
    exact ⟨by decide, h₃.le, h1⟩

theorem columnPosition_between (column : Nat) : 0 ≤ columnPosition column ∧ columnPosition column ≤ 1 := by
  unfold columnPosition
  dsimp only
  split_ifs with hr hl
  · exact ⟨zero_le_one, le_rfl⟩
  · exact ⟨le_rfl, zero_le_one⟩
  · exact ⟨not_lt.mp hl, not_lt.mp hr⟩

/-- No color is read behind the last. -/
theorem rgbInterp_shaded (column : Nat) : Shaded interpolate histColors (rgbInterp interpolate histColors column) := by
  obtain ⟨h0, h1⟩ := columnPosition_between column
  obtain ⟨h, hl, hr⟩ := stopIndex_between h0 h1
  obtain ⟨ht0, ht1⟩ := segment_between hl hr
  refine ⟨_, _, h, ht0, ht1, ?_⟩
  rw [rgbInterp, dif_pos h]

theorem generateHistogram_scaled {title : String} {hist : Histogram Color}
    (h : generateHistogram interpolate histColors buckets title = some hist) :
    ∃ (colors : Fin numBuckets → Color) (bars : Fin numBuckets → Nat),
      hist.columns = (List.finRange numBuckets).map
          (fun i => standing (colors i) (bars i) (boundText (upperBound i))) ∧
        (∀ i, Shaded interpolate histColors (colors i)) ∧ Scaled buckets.get bars := by
  obtain ⟨yRows, -, rfl⟩ := Option.map_eq_some_iff.mp h
  refine ⟨fun i => rgbInterp interpolate histColors i, _, ?_, fun i => rgbInterp_shaded i, scaled_fillOf buckets⟩
  apply List.map_congr_left
  intro i _
  rw [← columnRows_eq (fillOf_le _ _), ← labels_bound]

theorem generateHistogram_drawn (title : String) (h : (maxElement buckets).toNat < 10 ^ 4) :
    ∃ hist, generateHistogram interpolate histColors buckets title = some hist := by
  obtain ⟨yRows, hy, -⟩ := yAxis_drawn h
  rw [generateHistogram, hy]
  exact ⟨_, rfl⟩

/-! ## Reports -/

/-- The sample lies where the label of a column, and that of the one before, say. -/
def LiesIn (i : Fin numBuckets) (us : Nat) : Prop :=
  (0 < i.val → 64 * 2 ^ (i.val - 1) ≤ us) ∧ ∀ bound ∈ upperBound i, us < bound

instance (i : Fin numBuckets) (us : Nat) : Decidable (LiesIn i us) := inferInstanceAs (Decidable (_ ∧ _))

theorem latencyIndex_eq_iff {us : UInt64} {i : Fin numBuckets} : latencyIndex us = i ↔ LiesIn i us.toNat := by
  have hlast : i.val < 16 := i.isLt
  have hlow : (0 < i.val → 64 * 2 ^ (i.val - 1) ≤ us.toNat) ↔ i.val ≤ latencyIndex us := by
    by_cases h0 : 0 < i.val
    · have hle : (latencyIndex us : Nat) ≤ i.val - 1 ↔ us.toNat < 64 * 2 ^ (i.val - 1) :=
        latencyIndex_le_iff (by omega)
      rw [← not_lt, ← hle]
      omega
    · simp only [h0, false_implies, true_iff]
      omega
  have hup : (∀ bound ∈ upperBound i, us.toNat < bound) ↔ (latencyIndex us : Nat) ≤ i := by
    unfold upperBound
    by_cases h15 : i.val < 15
    · simpa [h15] using (latencyIndex_le_iff h15).symm
    · simp only [h15, if_false, Option.mem_def, reduceCtorEq, false_implies, implies_true, true_iff]
      have hindex : (latencyIndex us : Nat) < 16 := (latencyIndex us).isLt
      omega
  rw [LiesIn, hlow, hup, Fin.ext_iff]
  omega

theorem tally_bucket (kind : LatencyKind) (i : Fin numBuckets) (ms : List Metric) :
    tally (kind.bucket i) ms = (latencies kind ms).countP fun us => LiesIn i (UInt64.ofNat us).toNat := by
  induction ms with
  | nil => simp [latencies]
  | cons m ms ih =>
    rw [tally_cons, ih, weight_bucket, latencies_cons, List.countP_append]
    cases m.latency? kind with
    | none => rfl
    | some us => simp [latencyIndex_eq_iff]

namespace Metered

open Runs (Run)
open Dispatcher (free reports)

variable {env : OrchestratorEnv} {m : Metered} {n : Nat}

theorem tallies_bucket (kind : LatencyKind) (i : Fin numBuckets) : ∀ pools : List Pool,
    tallies (kind.bucket i) pools = (samples kind pools).countP fun us => LiesIn i (UInt64.ofNat us).toNat
  | [] => rfl
  | p :: pools => by
    have hsamples : samples kind (p :: pools) = latencies kind p.recordedSoFar ++ samples kind pools := rfl
    rw [tallies_cons, tally_bucket, tallies_bucket kind i pools, hsamples, List.countP_append]

/-- A histogram of a report's totals has a column for each range of latencies, with
its upper bound for a label; the bars are in the order of the samples' numbers and
have, up to the rounding to rows, their proportions. -/
theorem reports_drawn {es : List Dispatcher.Event} (r : Run (step env) free (init n) es m) {j : Nat}
    {data : MetricsAggregate} (hj : (reports m.dispatcher.log)[j]? = some data) (kind : LatencyKind) {title : String}
    {hist : Histogram Color} (hh : generateHistogram interpolate histColors
      (kind.buckets data.currentSnapshotAggregate) title = some hist) :
    ∃ (colors : Fin numBuckets → Color) (bars : Fin numBuckets → Nat),
      hist.columns = (List.finRange numBuckets).map
          (fun i => standing (colors i) (bars i) (boundText (upperBound i))) ∧
        (∀ i, Shaded interpolate histColors (colors i)) ∧
        Scaled (fun i => UInt64.ofNat ((samples kind (m.round j)).countP fun us =>
          LiesIn i (UInt64.ofNat us).toNat)) bars := by
  obtain ⟨colors, bars, hcolumns, hshaded, hscaled⟩ := generateHistogram_scaled hh
  refine ⟨colors, bars, hcolumns, hshaded, ?_⟩
  have hcounts : (kind.buckets data.currentSnapshotAggregate).get = fun i =>
      UInt64.ofNat ((samples kind (m.round j)).countP fun us => LiesIn i (UInt64.ofNat us).toNat) := by
    funext i
    have hget : (kind.buckets data.currentSnapshotAggregate).get i =
        data.currentSnapshotAggregate.get (kind.bucket i) := by
      cases kind <;> rfl
    rw [hget, (reports_tally r hj).2.2 _ (by cases kind <;> exact nofun), tallies_bucket]
  rwa [← hcounts]

theorem drawn_runs : ∃ m data hist, Run (step meteredEnv) free (init 1) meteredRun m ∧
    (reports m.dispatcher.log)[1]? = some data ∧
    generateHistogram (fun _ color _ => color) #v[0, 1, 2, 3, 4]
      data.currentSnapshotAggregate.connectionLatencyBuckets "Connection Latency (totals)" = some hist := by
  have hrun : ∃ m ∈ Runs.guarded (step meteredEnv) free (init 1) meteredRun,
      ∃ data ∈ (reports m.dispatcher.log)[1]?,
        (maxElement data.currentSnapshotAggregate.connectionLatencyBuckets).toNat < 10 ^ 4 := by
    decide +kernel
  obtain ⟨m, hm, data, hj, hmax⟩ := hrun
  obtain ⟨hist, hh⟩ := generateHistogram_drawn "Connection Latency (totals)" hmax
  exact ⟨m, data, hist, Runs.run_of_guarded hm, hj, hh⟩

theorem reports_drawn_second : ∃ m data hist, Run (step meteredEnv) free (init 1) meteredRun m ∧
    (reports m.dispatcher.log)[1]? = some data ∧
    generateHistogram (fun _ color _ => color) #v[0, 1, 2, 3, 4]
      data.currentSnapshotAggregate.connectionLatencyBuckets "Connection Latency (totals)" = some hist ∧
    hist.columns.length = numBuckets := by
  obtain ⟨m, data, hist, r, hj, hh⟩ := drawn_runs
  obtain ⟨colors, bars, hcolumns, -, -⟩ := reports_drawn r hj .connection hh
  refine ⟨m, data, hist, r, hj, hh, ?_⟩
  rw [hcolumns]
  rfl

end Metered

end Loadshear

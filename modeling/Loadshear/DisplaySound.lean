import Mathlib.Data.UInt
import Loadshear.NumericStrings

/-!
# What the display has room for

The units end below a pebibyte (`unitInRange_iff`); a label is as wide as its
axis up to four digits and for six or seven (`labelInRange_iff`), and the axis
stands where its two labels do (`yAxis_iff`).
-/

namespace Loadshear

/-- `units` is read where it has a unit. -/
def UnitInRange (value : Int64) : Prop := (unitOf value).2 < units.length

/-- The padding is no negative number, and the label has the axis's width. -/
def LabelInRange (value : UInt64) : Prop :=
  (∀ padding ∈ yAxisPadding value, 0 ≤ padding) ∧ ∃ label, yAxisText value = some label ∧ label.length = yLabelWidth

/-! ## Units -/

theorem double_intCast {z : ℤ} (h : |z| < 2 ^ 53) : double z = z :=
  Rounding.round_of_fits (Rounding.fits_intCast h)

theorem double_kibi {v : ℚ} (h : Rounding.Fits 53 v) :
    Rounding.Fits 53 (v / 1024) ∧ double (v / 1024) = v / 1024 := by
  have hv : v / 1024 = v * 2 ^ (-10 : ℤ) := by norm_num [div_eq_mul_inv]
  rw [hv]
  exact ⟨h.scale _, Rounding.round_of_fits (h.scale _)⟩

/-- The loop divides exactly, so the number it shows is the one it was given. -/
theorem unitLoop_value : ∀ (left : Nat) {v : ℚ} (indx : Nat), Rounding.Fits 53 v →
    (unitLoop left v indx).1 * 1024 ^ (unitLoop left v indx).2 = v * 1024 ^ indx
  | 0, v, indx, _ => rfl
  | left + 1, v, indx, h => by
    rw [unitLoop]
    by_cases hv : 1024 ≤ v
    · obtain ⟨hf, he⟩ := double_kibi h
      rw [if_pos hv, he, unitLoop_value left (indx + 1) hf, pow_succ]
      ring
    · rw [if_neg hv]

theorem unitLoop_le : ∀ (left : Nat) (v : ℚ) (indx : Nat), (unitLoop left v indx).2 ≤ indx + left
  | 0, v, indx => Nat.le_refl _
  | left + 1, v, indx => by
    rw [unitLoop]
    by_cases hv : 1024 ≤ v
    · rw [if_pos hv]
      have := unitLoop_le left (double (v / 1024)) (indx + 1)
      omega
    · rw [if_neg hv]
      exact Nat.le_add_right _ _

theorem unitLoop_lt : ∀ (left : Nat) (v : ℚ) (indx : Nat), (unitLoop left v indx).2 < indx + left →
    (unitLoop left v indx).1 < 1024
  | 0, v, indx, h => absurd h (Nat.lt_irrefl _)
  | left + 1, v, indx, h => by
    rw [unitLoop] at h ⊢
    by_cases hv : 1024 ≤ v
    · rw [if_pos hv] at h ⊢
      apply unitLoop_lt left
      omega
    · rw [if_neg hv]
      exact not_le.mp hv

/-- All the steps are taken by a number that has all the units. -/
theorem unitLoop_last : ∀ (left : Nat) {v : ℚ} (indx : Nat), Rounding.Fits 53 v →
    ((unitLoop left v indx).2 = indx + left ↔ left = 0 ∨ 1024 ^ left ≤ v)
  | 0, v, indx, _ => by simp [unitLoop]
  | left + 1, v, indx, h => by
    rw [unitLoop]
    by_cases hv : 1024 ≤ v
    · obtain ⟨hf, he⟩ := double_kibi h
      have hstep : 1024 ^ left ≤ v / 1024 ↔ 1024 ^ (left + 1) ≤ v := by
        rw [le_div_iff₀ (by norm_num), pow_succ]
      rw [if_pos hv, he, ← hstep, show indx + (left + 1) = indx + 1 + left by omega, unitLoop_last left (indx + 1) hf]
      refine ⟨?_, ?_⟩
      · rintro (rfl | hl)
        · exact .inr (hstep.mpr (by simpa using hv))
        · exact .inr hl
      · rintro (hl | hl)
        · cases hl
        · exact .inr hl
    · have hpow : (1024 : ℚ) ≤ 1024 ^ (left + 1) := le_self_pow₀ (by norm_num) (Nat.succ_ne_zero _)
      rw [if_neg hv]
      refine iff_of_false ?_ ?_
      · simp
      · rintro (h | h)
        · cases h
        · exact hv (hpow.trans h)

/-- A value's double reaches a pebibyte when the value does. -/
theorem pebi_le_double (z : ℤ) : 1024 ^ 5 ≤ double z ↔ 2 ^ 50 ≤ z := by
  have hpebi : (1024 : ℚ) ^ 5 = 2 ^ (50 : ℤ) := by norm_num
  by_cases h : |z| < 2 ^ 53
  · rw [double_intCast h]
    norm_num
    exact_mod_cast Iff.rfl
  rw [hpebi]
  by_cases hz : 0 ≤ z
  · rw [abs_of_nonneg hz, not_lt] at h
    have h50 : (2 : ℤ) ^ 50 ≤ z := le_trans (by norm_num) h
    refine iff_of_true (Rounding.pow_le_round (by decide) ?_) h50
    exact_mod_cast h50
  · have hneg : double z ≤ 0 := Rounding.round_nonpos 53 (by exact_mod_cast (not_le.mp hz).le)
    refine iff_of_false ?_ ?_
    · exact not_le.mpr (lt_of_le_of_lt hneg (by norm_num))
    · intro h50
      exact hz (le_trans (by norm_num) h50)

theorem unitInRange_iff (value : Int64) : UnitInRange value ↔ value.toInt < 2 ^ 50 := by
  have hle := unitLoop_le maxIndex (double value.toInt) 0
  have hlast := unitLoop_last maxIndex 0 (Rounding.fits_round (by decide) (value.toInt : ℚ))
  have hpebi := pebi_le_double value.toInt
  rw [Nat.zero_add] at hle hlast
  have hin : UnitInRange value ↔ (unitOf value).2 ≠ maxIndex := by
    refine ⟨Nat.ne_of_lt, ?_⟩
    exact lt_of_le_of_ne hle
  rw [hin, ← not_le, ← hpebi, not_iff_not]
  exact hlast.trans (or_iff_right (by decide))

/-- A number in range is shown below 1024, in the largest unit that it has. -/
theorem unitOf_shown {value : Int64} (h : UnitInRange value) : (unitOf value).1 < 1024 ∧
    (unitOf value).1 * 1024 ^ (unitOf value).2 = double value.toInt := by
  have hvalue := unitLoop_value maxIndex 0 (Rounding.fits_round (by decide) (value.toInt : ℚ))
  refine ⟨?_, ?_⟩
  · apply unitLoop_lt maxIndex _ 0
    rw [Nat.zero_add]
    exact h
  · rwa [pow_zero, mul_one] at hvalue

theorem bytesDisplayString_none_iff {value : Int64} : bytesDisplayString value = none ↔ ¬ UnitInRange value := by
  rw [bytesDisplayString, Option.map_eq_none_iff, List.getElem?_eq_none_iff, UnitInRange, not_lt]

/-! ## Labels -/

theorem digits_le_iff {n k : Nat} (hk : 0 < k) : (toString n).length ≤ k ↔ n < 10 ^ k := Nat.length_repr_le_iff hk

theorem digits_pos (n : Nat) : 0 < (toString n).length := Nat.length_repr_pos

theorem digit_length {n : Nat} (h : n < 10) : (toString n).length = 1 := by
  have hle := (digits_le_iff Nat.one_pos).mpr h
  have := digits_pos n
  omega

theorem suffixText_none {n : Nat} : suffixText n = none ↔ n < 1000 ∨ 10 ^ 7 ≤ n := by
  unfold suffixText
  split_ifs
  · simp
    omega
  · simp
    omega
  · simp
    omega
  · simp
    omega

/-- The two digits of tens of thousands leave a column free. -/
theorem suffixText_length {n : Nat} {text : String} (h : suffixText n = some text) :
    text.length = 4 ↔ n < 10 ^ 4 ∨ 10 ^ 5 ≤ n := by
  unfold suffixText at h
  split_ifs at h with hm hk ht
  · cases h
    have hl := digit_length (n := n / (1000 * 1000)) (by omega)
    have hr := digit_length (n := n % (1000 * 1000) / (100 * 1000)) (by omega)
    simp only [String.length_append, hl, hr]
    refine iff_of_true rfl ?_
    omega
  · cases h
    have h1 := digits_le_iff (n := n / 1000) (k := 1) (by decide)
    have h2 := digits_le_iff (n := n / 1000) (k := 2) (by decide)
    have h3 := digits_le_iff (n := n / 1000) (k := 3) (by decide)
    have hk : "k".length = 1 := rfl
    simp only [String.length_append, hk]
    omega
  · cases h
    have hl := digit_length (n := n / 1000) (by omega)
    have hr := digit_length (n := n % 1000 / 100) (by omega)
    simp only [String.length_append, hl, hr]
    refine iff_of_true rfl ?_
    omega

theorem spaces_of_nonneg {n : Int} (h0 : 0 ≤ n) (h : n < 2 ^ 63) :
    spaces n = some (String.ofList (List.replicate n.toNat ' ')) := by
  have hmod : n % 2 ^ 64 = n := Int.emod_eq_of_lt h0 (by omega)
  rw [spaces, hmod, if_pos]
  unfold maxSize
  omega

/-- As a `size_t` a negative length is far too large. -/
theorem spaces_of_neg {n : Int} (h0 : n < 0) (h : -2 ^ 63 ≤ n) : spaces n = none := by
  rw [spaces, if_neg]
  unfold maxSize
  omega

theorem labelInRange_iff (value : UInt64) :
    LabelInRange value ↔ value.toNat < 10 ^ 4 ∨ 10 ^ 5 ≤ value.toNat ∧ value.toNat < 10 ^ 7 := by
  have hlt := value.toNat_lt
  have hspace : " ".length = 1 := rfl
  unfold LabelInRange yAxisPadding yAxisText
  cases hs : suffixText value.toNat with
  | some text =>
    have hrange : ¬ (value.toNat < 1000 ∨ 10 ^ 7 ≤ value.toNat) := by
      rw [← suffixText_none, hs]
      simp
    have hlen := suffixText_length hs
    simp only [Option.mem_def, reduceCtorEq, false_implies, implies_true, true_and, Option.some.injEq, exists_eq_left',
      String.length_append, hspace, yLabelWidth]
    omega
  | none =>
    rw [suffixText_none] at hs
    have h3 := digits_le_iff (n := value.toNat) (k := 3) (by decide)
    have h4 := digits_le_iff (n := value.toNat) (k := 4) (by decide)
    have h20 := digits_le_iff (n := value.toNat) (k := 20) (by decide)
    have hpos := digits_pos value.toNat
    simp only [Option.mem_def, Option.some.injEq, forall_eq', String.length_append, hspace]
    by_cases hsmall : value.toNat < 1000
    · have hd : (toString value.toNat).length ≤ 3 := h3.mpr hsmall
      refine iff_of_true ⟨by omega, ?_⟩ (.inl (by omega))
      rw [spaces_of_nonneg (by omega) (by omega)]
      refine ⟨_, rfl, ?_⟩
      simp only [String.length_append, String.length_ofList, List.length_replicate, hspace, yLabelWidth]
      omega
    · refine iff_of_false ?_ (by omega)
      rintro ⟨h0, -⟩
      omega

/-! ## The axis -/

/-- A label that is drawn has not been padded with less than nothing. -/
theorem LabelInRange.of_text {value : UInt64} {label : String} (h : yAxisText value = some label)
    (hl : label.length = yLabelWidth) : LabelInRange value := by
  refine ⟨?_, label, h, hl⟩
  intro padding hp
  unfold yAxisPadding at hp
  unfold yAxisText at h
  cases hs : suffixText value.toNat with
  | some text =>
    rw [hs] at hp
    cases hp
  | none =>
    rw [hs] at hp h
    obtain rfl := Option.some.inj hp
    by_contra hneg
    have h20 := (digits_le_iff (n := value.toNat) (k := 20) (by decide)).mpr (lt_trans value.toNat_lt (by decide))
    have hlow : -2 ^ 63 ≤ (5 : Int) - (" " ++ toString value.toNat).length := by
      rw [String.length_append]
      have hspace : " ".length = 1 := rfl
      omega
    simp only [spaces_of_neg (not_le.mp hneg) hlow] at h
    cases h

def ticks : Nat → Nat → List Nat
  | 0, _ => []
  | row + 1, counter + 1 => ticks row counter
  | row + 1, 0 => row :: ticks row 3

def RowInRange (maxV : UInt64) (row : Nat) : Prop := ∃ value, labelVal maxV row = some value ∧ LabelInRange value

def Drawn (rows : Option (List String)) : Prop := ∃ rs, rows = some rs ∧ ∀ r ∈ rs, r.length = yLabelWidth

theorem drawn_cons {row : String} {rows : Option (List String)} (h : row.length = yLabelWidth) :
    Drawn (rows.map (row :: ·)) ↔ Drawn rows := by
  cases rows with
  | none => simp [Drawn]
  | some rs => simp [Drawn, h]

theorem yAxisRows_drawn (maxV : UInt64) : ∀ row counter : Nat,
    Drawn (yAxisRows maxV row counter) ↔ ∀ tick ∈ ticks row counter, RowInRange maxV tick
  | 0, counter => by simp [yAxisRows, ticks, Drawn]
  | row + 1, counter + 1 => by
    rw [yAxisRows, ticks, drawn_cons rfl]
    exact yAxisRows_drawn maxV row counter
  | row + 1, 0 => by
    have ih := yAxisRows_drawn maxV row 3
    rw [ticks, List.forall_mem_cons, ← ih, yAxisRows, RowInRange]
    cases hv : labelVal maxV row with
    | none => simp [Drawn]
    | some value =>
      cases ht : yAxisText value with
      | none =>
        have hno : ¬ LabelInRange value := by
          rintro ⟨-, label, hlabel, -⟩
          rw [ht] at hlabel
          cases hlabel
        simp [Drawn, ht, hno]
      | some label =>
        have hlabel : LabelInRange value ↔ label.length = yLabelWidth := by
          refine ⟨?_, LabelInRange.of_text ht⟩
          rintro ⟨-, text, htext, hlen⟩
          rw [ht] at htext
          cases htext
          exact hlen
        cases hr : yAxisRows maxV row 3 with
        | none => simp [Drawn]
        | some rows => simp [Drawn, ht, hlabel]

/-- A histogram has its axis when the labels of its two ticks are in range. -/
theorem yAxis_drawn_iff {maxV : UInt64} : Drawn (yAxis maxV) ↔ RowInRange maxV 7 ∧ RowInRange maxV 3 := by
  have hrows := yAxisRows_drawn maxV histogramHeight 0
  have hblank : blankRow.length = yLabelWidth := rfl
  have hgap : Drawn (yAxis maxV) ↔ Drawn (yAxisRows maxV histogramHeight 0) := by
    rw [yAxis]
    cases yAxisRows maxV histogramHeight 0 with
    | none => simp [Drawn]
    | some rows => simp [Drawn, or_imp, forall_and, hblank]
  have hticks : ticks histogramHeight 0 = [7, 3] := rfl
  rw [hgap, hrows, hticks]
  simp

theorem double_nonneg {v : ℚ} (h : 0 ≤ v) : 0 ≤ double v := Rounding.round_nonneg 53 h

theorem double_le {v : ℚ} {n : Nat} (h0 : 0 ≤ v) (h : v ≤ n) (hn : n < 2 ^ 53) : double v ≤ n := by
  by_cases hv : v = 0
  · subst hv
    exact (Rounding.round_nonpos 53 le_rfl).trans h
  · have hfits : Rounding.Fits 53 (((n : ℤ)) : ℚ) := Rounding.fits_intCast (by rw [abs_of_nonneg] <;> omega)
    exact Rounding.round_le hfits (lt_of_le_of_ne h0 (Ne.symm hv)) h

/-- No label is above the largest bucket. -/
theorem labelVal_le {maxV : UInt64} {row : Nat} (h : maxV.toNat < 2 ^ 53) (hr : row < histogramHeight) :
    ∃ value, labelVal maxV row = some value ∧ value ≤ maxV := by
  have hmax : double maxV.toNat ≤ maxV.toNat := double_le (Nat.cast_nonneg _) le_rfl h
  have hmax0 : 0 ≤ double maxV.toNat := double_nonneg (Nat.cast_nonneg _)
  have hfrac0 : 0 ≤ double (row / (histogramHeight - 1 : Nat)) := double_nonneg (by positivity)
  have hfrac : double (row / (histogramHeight - 1 : Nat)) ≤ (1 : Nat) := by
    apply double_le (by positivity) _ (by decide)
    have hrow : row ≤ histogramHeight - 1 := by omega
    rw [Nat.cast_one, div_le_one (by norm_num [histogramHeight])]
    exact_mod_cast hrow
  have hprod : double (double (row / (histogramHeight - 1 : Nat)) * double maxV.toNat) ≤ maxV.toNat := by
    apply double_le (mul_nonneg hfrac0 hmax0) _ h
    calc _ ≤ 1 * double maxV.toNat := mul_le_mul_of_nonneg_right (by simpa using hfrac) hmax0
      _ ≤ maxV.toNat := by rwa [one_mul]
  have hround : ⌊double (double (row / (histogramHeight - 1 : Nat)) * double maxV.toNat) + 1 / 2⌋ <
      (maxV.toNat : ℤ) + 1 := by
    rw [Int.floor_lt]
    push_cast
    linarith
  rw [labelVal, if_pos (by omega)]
  refine ⟨_, rfl, ?_⟩
  rw [UInt64.le_iff_toNat_le, UInt64.toNat_ofNat']
  refine (Nat.mod_le _ _).trans ?_
  omega

/-- A histogram whose buckets hold less than ten thousand has its axis. -/
theorem yAxis_drawn {maxV : UInt64} (h : maxV.toNat < 10 ^ 4) : Drawn (yAxis maxV) := by
  have hrow : ∀ row < histogramHeight, RowInRange maxV row := by
    intro row hr
    have h53 : maxV.toNat < 2 ^ 53 := by omega
    obtain ⟨value, hv, hle⟩ := labelVal_le h53 hr
    refine ⟨value, hv, (labelInRange_iff value).mpr (.inl ?_)⟩
    exact lt_of_le_of_lt (UInt64.le_iff_toNat_le.mp hle) h
  exact yAxis_drawn_iff.mpr ⟨hrow 7 (by decide), hrow 3 (by decide)⟩

/-- The display stays in range below a pebibyte, and at labels of up to four, of six or of seven digits. -/
theorem display_in_range_iff (bytes : Int64) (value : UInt64) : (UnitInRange bytes ↔ bytes.toInt < 2 ^ 50) ∧
    (LabelInRange value ↔ value.toNat < 10 ^ 4 ∨ 10 ^ 5 ≤ value.toNat ∧ value.toNat < 10 ^ 7) :=
  ⟨unitInRange_iff bytes, labelInRange_iff value⟩

/-- A pebibyte has no unit; ten thousand leaves a column free, and ten million is padded with less than nothing. -/
theorem display_out_of_range : ¬ UnitInRange (Int64.ofInt (2 ^ 50)) ∧
    bytesDisplayString (Int64.ofInt (2 ^ 50)) = none ∧ yAxisText 10000 = some " 10k " ∧ ¬ LabelInRange 10000 ∧
    yAxisPadding 10000000 = some (-4) ∧ yAxisText 10000000 = none ∧ ¬ LabelInRange 10000000 := by
  refine ⟨?_, ?_, by decide +kernel, ?_, by decide +kernel, by decide +kernel, ?_⟩
  · rw [unitInRange_iff]
    decide
  · rw [bytesDisplayString_none_iff, unitInRange_iff]
    decide
  · rw [labelInRange_iff]
    decide
  · rw [labelInRange_iff]
    decide

end Loadshear

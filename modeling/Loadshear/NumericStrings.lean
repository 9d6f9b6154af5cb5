import Mathlib.Data.Rat.Floor
import Loadshear.Rounding

/-!
# The numbers on the display

`numeric-strings.h` and the vertical axis of `create-histogram.h`. A `double` is
the rational number it holds; nothing the display computes with comes near the
ends of the exponent's range.
-/

namespace Loadshear

/-- An operation on doubles has its exact result rounded. -/
def double (q : ℚ) : ℚ := Rounding.round 53 q

/-! ## Bytes -/

/-- `std::fixed` with `std::setprecision(1)`. -/
def fixedText (v : ℚ) : String :=
  let tenths := (Rounding.nearest (|v| * 10)).toNat
  (if v < 0 then "-" else "") ++ toString (tenths / 10) ++ "." ++ toString (tenths % 10)

def units : List String := ["B", "KiB", "MiB", "GiB", "TiB"]

def maxIndex : Nat := 5

/-- The loop over the units, `left` steps before `indx` is `max_index`. -/
def unitLoop : Nat → ℚ → Nat → ℚ × Nat
  | 0, v, indx => (v, indx)
  | left + 1, v, indx => if 1024 ≤ v then unitLoop left (double (v / 1024)) (indx + 1) else (v, indx)

/-- `v` and `indx` behind the loop. -/
def unitOf (value : Int64) : ℚ × Nat := unitLoop maxIndex (double value.toInt) 0

/-- There is no text where `units` is read behind its end. -/
def bytesDisplayString (value : Int64) : Option String :=
  units[(unitOf value).2]?.map fun unit =>
    if (unitOf value).2 = 0 then toString ((unitOf value).1.num.tdiv (unitOf value).1.den) ++ " " ++ unit
    else fixedText (unitOf value).1 ++ " " ++ unit

/-! ## Labels -/

/-- The branches that end in `M` or `k`. -/
def suffixText (value : Nat) : Option String :=
  if 1000 * 1000 ≤ value ∧ value < 10 * 1000 * 1000 then
    some (toString (value / (1000 * 1000)) ++ "." ++ toString (value % (1000 * 1000) / (100 * 1000)) ++ "M")
  else if 10 * 1000 ≤ value ∧ value < 1000 * 1000 then some (toString (value / 1000) ++ "k")
  else if 1000 ≤ value ∧ value < 10000 then
    some (toString (value / 1000) ++ "." ++ toString (value % 1000 / 100) ++ "k")
  else none

/-- The most characters a `std::string` has. -/
def maxSize : Nat := 2 ^ 63 - 1

/-- `std::string(n, ' ')`, whose length is a `size_t`; it throws where that is too much. -/
def spaces (n : Int) : Option String :=
  if (n % 2 ^ 64).toNat ≤ maxSize then some (String.ofList (List.replicate (n % 2 ^ 64).toNat ' ')) else none

/-- `5 - res.size()`, where the number is shown as it is. -/
def yAxisPadding (value : UInt64) : Option Int :=
  match suffixText value.toNat with
  | some _ => none
  | none => some (5 - (" " ++ toString value.toNat).length)

def yAxisText (value : UInt64) : Option String :=
  match suffixText value.toNat with
  | some text => some (" " ++ text ++ " ")
  | none =>
    let res := " " ++ toString value.toNat
    (spaces (5 - res.length)).map fun padding => res ++ padding ++ " "

/-! ## The axis -/

/-- The default, which every histogram has. -/
def histogramHeight : Nat := 8

def yLabelWidth : Nat := 6

/-- `label_val`; a number that is no `uint64_t` cannot be cast to one. -/
def labelVal (maxV : UInt64) (row : Nat) : Option UInt64 :=
  let frac := double (row / (histogramHeight - 1 : Nat))
  let rounded := ⌊double (frac * double maxV.toNat) + 1 / 2⌋
  if rounded < 2 ^ 64 then some (UInt64.ofNat rounded.toNat) else none

def blankRow : String := String.ofList (List.replicate yLabelWidth ' ')

/-- The rows below `row`, from the top, with `row_tick_counter`. -/
def yAxisRows (maxV : UInt64) : Nat → Nat → Option (List String)
  | 0, _ => some []
  | row + 1, counter + 1 => (yAxisRows maxV row counter).map (blankRow :: ·)
  | row + 1, 0 => do
    let label ← yAxisText (← labelVal maxV row)
    let rows ← yAxisRows maxV row 3
    some (label :: rows)

/-- `y_rows`, with the gap and the two rows of bucket labels. -/
def yAxis (maxV : UInt64) : Option (List String) :=
  (yAxisRows maxV histogramHeight 0).map (· ++ List.replicate 3 blankRow)

end Loadshear

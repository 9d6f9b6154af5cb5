import Loadshear.Metrics
import Loadshear.NumericStrings

/-!
# The histograms on the display

`generate_histogram` of `create-histogram.h`, a column for each bucket. The
library that draws it is a type of colours with its `Color::Interpolate`.
-/

namespace Loadshear

def latencyLabels : Vector String numBuckets :=
  #v["64 ", "128", "256", "512", "1  ", "2  ", "4  ", "8  ", "16 ", "32 ", "64 ", "128", "256", "512", "1  ", ">1 "]

def unitLabels : Vector String numBuckets :=
  #v["us ", "us ", "us ", "us ", "ms ", "ms ", "ms ", "ms ", "ms ", "ms ", "ms ", "ms ", "ms ", "ms ", "s  ", "s  "]

/-- The doubles nearest to what the `float` literals hold. -/
def histStops : Vector ℚ 5 := #v[0, 11744051 / 2 ^ 25, 9227469 / 2 ^ 24, 13421773 / 2 ^ 24, 1]

/-- The default, which every histogram has. -/
def binWidth : Nat := 4

def blockText : String := String.ofList (List.replicate binWidth '█')

def blankText : String := String.ofList (List.replicate binWidth ' ')

variable {Color : Type}

/-- What is drawn, and how it is coloured. -/
structure Row (Color : Type) where
  text : String
  color : Option Color := none

structure Histogram (Color : Type) where
  title : String
  yRows : List String
  columns : List (List (Row Color))

/-- `i` behind the loop over the stops. -/
def stopIndex (t : ℚ) : Nat := (histStops.toList.tail.takeWhile (· < t)).length

/-- `t`, clamped. -/
def columnPosition (column : Nat) : ℚ :=
  let t := double (column / max 1 (numBuckets - 1) : ℚ)
  if 1 < t then 1 else if t < 0 then 0 else t

def rgbInterp (interpolate : ℚ → Color → Color → Color) (histColors : Vector Color 5) (column : Nat) : Color :=
  let t := columnPosition column
  if h : stopIndex t < 4 then
    let i := stopIndex t
    let tSegment := double (double (t - histStops[i]) / double (histStops[i + 1] - histStops[i]))
    interpolate tSegment histColors[i] histColors[i + 1]
  else histColors.back

/-- The characters to fill; `std::round` takes halves away from zero. -/
def fillOf (maxV val : UInt64) : Nat :=
  if 0 < maxV then
    let fill := ⌊double (double (double val.toNat / double maxV.toNat) * histogramHeight) + 1 / 2⌋.toNat
    if histogramHeight < fill then histogramHeight else fill
  else 0

/-- The rows of a column, from the top. -/
def columnRows (color : Color) (fill : Nat) (latency unit : String) : List (Row Color) :=
  (List.range histogramHeight).reverse.map (fun r =>
      if r < fill then { text := blockText, color := some color } else { text := blankText }) ++
    [{ text := blankText }, { text := latency }, { text := unit }]

/-- `*std::max_element`, of buckets that are never none. -/
def maxElement (buckets : Vector UInt64 numBuckets) : UInt64 := buckets.toList.max?.getD 0

def histogramColumns (interpolate : ℚ → Color → Color → Color) (histColors : Vector Color 5)
    (buckets : Vector UInt64 numBuckets) : List (List (Row Color)) :=
  (List.finRange numBuckets).map fun i : Fin numBuckets => columnRows (rgbInterp interpolate histColors i)
    (fillOf (maxElement buckets) (buckets.get i)) (latencyLabels.get i) (unitLabels.get i)

/-- There is no histogram where a label of its axis is too long. -/
def generateHistogram (interpolate : ℚ → Color → Color → Color) (histColors : Vector Color 5)
    (buckets : Vector UInt64 numBuckets) (title : String) : Option (Histogram Color) :=
  (yAxis (maxElement buckets)).map fun yRows =>
    { title := title, yRows := yRows, columns := histogramColumns interpolate histColors buckets }

end Loadshear

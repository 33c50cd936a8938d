import PostLisp.Number.Shortest

/-!
# How numbers are written

An integer is written with its decimal digits. A float is written with the digits of its shortest
decimal, laid out by one record of decisions: where the point stands, when an exponent is used,
and the words for what is no finite number.
-/

namespace PostLisp.Number

/-- The decisions of a float format. A decimal is written positionally when the place of its
point, counted from its first digit, is one of `leastPoint`, …, `mostPoint`. -/
structure Layout where
  leastPoint : Int
  mostPoint : Int
  wholeEnding : String
  exponentMark : String
  infinite : String
  nan : String

/-- Positional from `0.0001` up to, and without, `10 ^ 16`; a whole number keeps one decimal
place; an exponent has neither a plus sign nor padding. -/
def Layout.standard : Layout where
  leastPoint := -3
  mostPoint := 16
  wholeEnding := ".0"
  exponentMark := "e"
  infinite := "inf"
  nan := "NaN"

def zeros (n : Nat) : String := String.ofList (List.replicate n '0')

namespace Layout

/-- Digits with the point behind the place `point`, which may lie outside them. -/
def positional (l : Layout) (ds : List Char) (point : Int) : String :=
  if point ≤ 0 then "0." ++ zeros (-point).toNat ++ String.ofList ds
  else
    let n := point.toNat
    if n < ds.length then String.ofList (ds.take n) ++ "." ++ String.ofList (ds.drop n)
    else String.ofList ds ++ zeros (n - ds.length) ++ l.wholeEnding

/-- One digit before the point, then the power of ten that the first digit counts. -/
def scientific (l : Layout) (ds : List Char) (point : Int) : String :=
  let places := ds.drop 1
  String.ofList (ds.take 1) ++ (if places.isEmpty then "" else "." ++ String.ofList places) ++
    l.exponentMark ++ toString (point - 1)

def decimal (l : Layout) (d : Decimal) : String :=
  if d.digits = 0 then "0" ++ l.wholeEnding
  else
    let ds := (toString d.digits).toList
    let point := d.exponent + ds.length
    if l.leastPoint ≤ point ∧ point ≤ l.mostPoint then l.positional ds point
    else l.scientific ds point

def magnitude (l : Layout) : Magnitude → String
  | .finite m q => l.decimal (if m = 0 then ⟨0, 0⟩ else shortest m q)
  | .infinite => l.infinite
  | .nan => l.nan

/-- A minus sign stands before every negative float, zero included, and before no other. -/
def float (l : Layout) (x : Float) : String :=
  match Binary64.magnitude x with
  | .nan => l.nan
  | m => (if Binary64.isNegative x then "-" else "") ++ l.magnitude m

end Layout

def renderFloat (x : Float) : String := Layout.standard.float x

def renderInt64 (n : Int64) : String := toString n.toInt

end PostLisp.Number

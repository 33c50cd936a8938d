import PostLisp.Number.Binary64

/-!
# Decimals

A decimal is a natural number times a power of ten. It is what a float numeral writes; the value
of the numeral is the float nearest to its decimal. Numerals are digits with at most one point
among or beside them, then perhaps an exponent; `inf`, `infinity` and `nan` count as numerals too,
in any case.
-/

namespace PostLisp.Number

/-- `digits · 10 ^ exponent`. -/
structure Decimal where
  digits : Nat
  exponent : Int
  deriving DecidableEq, Repr

def infinity : Float := Float.ofBits 0x7FF0000000000000

def notANumber : Float := Float.ofBits 0x7FF8000000000000

namespace Decimal

/-- The nearest float, ties to even. Beyond `10 ^ 400` every decimal but zero overflows; since `10
^ e ≤ 8 ^ e` for negative `e`, the bound on the other side leaves out only what is less than half
the smallest float. -/
def toFloat (d : Decimal) : Float :=
  if d.digits = 0 then 0
  else if 400 < d.exponent then infinity
  else if d.digits.log2 + 1 + 3 * d.exponent < -1100 then 0
  else Float.ofScientific d.digits (d.exponent < 0) d.exponent.natAbs

/-- Reads digits with at most one point; either side of the point may be missing, not both. -/
def mantissa? (cs : List Char) : Option Decimal :=
  let whole := cs.takeWhile Char.isDigit
  match cs.dropWhile Char.isDigit with
  | [] => (natural? whole).map (⟨·, 0⟩)
  | '.' :: places =>
    if places.all Char.isDigit then (natural? (whole ++ places)).map (⟨·, -places.length⟩) else none
  | _ => none

/-- Reads the exponent that stands behind its mark. -/
def exponent? (cs : List Char) : Option Int :=
  let (negative, ds) := splitSign cs
  (natural? ds).map fun n => if negative then -n else n

def isExponentMark (c : Char) : Bool := c == 'e' || c == 'E'

/-- Reads a decimal without a sign. -/
def read? (cs : List Char) : Option Decimal := do
  let d ← mantissa? (cs.takeWhile (!isExponentMark ·))
  match cs.dropWhile (!isExponentMark ·) with
  | [] => some d
  | _ :: es => (exponent? es).map fun e => ⟨d.digits, d.exponent + e⟩

end Decimal

/-- Reads a float without a sign. -/
def magnitudeOf? (cs : List Char) : Option Float :=
  let name := cs.map Char.toLower
  if name = "inf".toList ∨ name = "infinity".toList then some infinity
  else if name = "nan".toList then some notANumber
  else (Decimal.read? cs).map Decimal.toFloat

/-- A numeral of a float. -/
def readFloat? (cs : List Char) : Option Float :=
  let (negative, ms) := splitSign cs
  (magnitudeOf? ms).map fun x => if negative then -x else x

end PostLisp.Number

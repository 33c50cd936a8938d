import PostLisp.Number.Numeral

/-!
# The number that a float denotes

A float of 64 bits is a sign together with a magnitude: a finite one `m · 2 ^ q` with natural `m`,
the infinite one, or no number at all. The bits decide; nothing here rounds.
-/

namespace PostLisp.Number

inductive Magnitude where
  | finite (m : Nat) (q : Int)
  | infinite
  | nan
  deriving DecidableEq, Repr

namespace Binary64

/-- Two to the power 52: a float of normal size has this many of its last places, and its fraction
more. -/
def hiddenBit : Nat := Nat.pow 2 52

/-- The exponent of the last place of the smallest floats. -/
def leastExponent : Int := -1074

def isNegative (x : Float) : Bool := int64Bound ≤ x.toBits.toNat

/-- The eleven bits of the exponent. -/
def biased (x : Float) : Nat := x.toBits.toNat / hiddenBit % 2048

/-- The fifty-two bits of the fraction. -/
def fraction (x : Float) : Nat := x.toBits.toNat % hiddenBit

def magnitude (x : Float) : Magnitude :=
  match biased x with
  | 0 => .finite (fraction x) leastExponent
  | 2047 => if fraction x = 0 then .infinite else .nan
  | e => .finite (hiddenBit + fraction x) (leastExponent + e - 1)

/-- `m · 2 ^ q` when that is a natural number. -/
def natural? (m : Nat) (q : Int) : Option Nat :=
  if 0 ≤ q then some (m * Nat.pow 2 q.toNat)
  else
    let unit := Nat.pow 2 (-q).toNat
    if m % unit = 0 then some (m / unit) else none

/-- The integer that `x` denotes, if it denotes one. -/
def integer? (x : Float) : Option Int :=
  match magnitude x with
  | .finite m q => (natural? m q).map fun n => if isNegative x then -n else n
  | _ => none

end Binary64

/-- The float nearest to a word, ties to even. -/
def ofInt64 (n : Int64) : Float := Float.ofInt n.toInt

end PostLisp.Number

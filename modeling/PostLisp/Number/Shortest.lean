import PostLisp.Number.Decimal

/-!
# The shortest decimal of a float

Every decimal close enough to a float reads back as that float. Among the grids of multiples of a
power of ten, the coarsest one with such a decimal gives the fewest digits; of its points next to
the float the nearer one is chosen, and of two equally near the greater.

The float is `m · 2 ^ q` with `0 < m`. All comparisons are between natural numbers, in quarters of
the float's last place.
-/

namespace PostLisp.Number

/-- The decimals that read back as one float: those from `low` to `high`, in units of `2 ^
exponent`, around `mid`; `closed` says whether the ends belong to them. -/
structure Surroundings where
  low : Nat
  mid : Nat
  high : Nat
  exponent : Int
  closed : Bool
  deriving DecidableEq, Repr

namespace Surroundings

/-- A float reaches half way to its neighbours, and the one below a power of two is nearer. A
decimal half way between two floats reads as the one with even `m`. -/
def of (m : Nat) (q : Int) : Surroundings where
  low := if m = Binary64.hiddenBit ∧ Binary64.leastExponent < q then 4 * m - 1 else 4 * m - 2
  mid := 4 * m
  high := 4 * m + 2
  exponent := q - 2
  closed := m % 2 = 0

/-- Puts both sides of `a · 2 ^ s.exponent` against `b · 10 ^ e` over one common unit: the factors
of `a` and of `b`. -/
def scale (s : Surroundings) (e : Int) : Nat × Nat :=
  (Nat.pow 2 s.exponent.toNat * Nat.pow 10 (-e).toNat,
    Nat.pow 2 (-s.exponent).toNat * Nat.pow 10 e.toNat)

/-- Whether `n · 10 ^ e` reads back. -/
def contains (s : Surroundings) (n : Nat) (e : Int) : Bool :=
  let (binary, decimal) := s.scale e
  if s.closed then s.low * binary ≤ n * decimal && n * decimal ≤ s.high * binary
  else s.low * binary < n * decimal && n * decimal < s.high * binary

/-- The decimal chosen on the grid of multiples of `10 ^ e`, if one of the two points next to the
float reads back. -/
def onGrid? (s : Surroundings) (e : Int) : Option Decimal :=
  let (binary, decimal) := s.scale e
  let value := s.mid * binary
  let below := value / decimal
  let above := below + 1
  match s.contains below e, s.contains above e with
  | true, true => if 2 * value < (below + above) * decimal then some ⟨below, e⟩ else some ⟨above, e⟩
  | true, false => some ⟨below, e⟩
  | false, true => some ⟨above, e⟩
  | false, false => none

/-- The grids to try, from the coarsest: the first power of ten is above every decimal that reads
back, and nineteen places below it the grid is finer than the distance between floats. -/
def grids (s : Surroundings) : List Int :=
  let top := (s.exponent + s.high.log2 + 1) * 30103 / 100000 + 1
  (List.range 20).map fun (k : Nat) => top - k

end Surroundings

/-- The decimal that is `m · 2 ^ q`. -/
def exactDecimal (m : Nat) (q : Int) : Decimal :=
  if 0 ≤ q then ⟨m * Nat.pow 2 q.toNat, 0⟩ else ⟨m * Nat.pow 5 (-q).toNat, q⟩

/-- The shortest decimal that reads back as `m · 2 ^ q`. -/
def shortest (m : Nat) (q : Int) : Decimal :=
  let s := Surroundings.of m q
  (s.grids.findSome? s.onGrid?).getD (exactDecimal m q)

end PostLisp.Number

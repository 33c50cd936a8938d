/-!
# Whole numerals

Reading digits: a non-empty run of decimal digits denotes a natural number. With a sign in front
it may denote a signed integer of 64 bits; a size takes no sign but `+`. A numeral out of range is
none.
-/

namespace PostLisp.Number

def digitValue (c : Char) : Nat := c.toNat - '0'.toNat

/-- The number that a run of digits denotes, the empty run denoting zero. -/
def ofDigits (ds : List Char) : Nat := ds.foldl (fun n d => 10 * n + digitValue d) 0

def natural? (cs : List Char) : Option Nat :=
  if cs.isEmpty || !cs.all Char.isDigit then none else some (ofDigits cs)

/-- Takes an optional sign off the front; `true` is a minus. -/
def splitSign : List Char → Bool × List Char
  | '-' :: cs => (true, cs)
  | '+' :: cs => (false, cs)
  | cs => (false, cs)

/-- Two to the power 63: signed integers of 64 bits are less, and not less than its negation. -/
def int64Bound : Int := 9223372036854775808

/-- Two to the power 64: sizes are less. -/
def sizeBound : Nat := 18446744073709551616

/-- Whether `n` is one of the signed integers of 64 bits. -/
def fitsInt64 (n : Int) : Bool := -int64Bound ≤ n && n < int64Bound

/-- The word that holds `n`, if one does. -/
def int64? (n : Int) : Option Int64 := if fitsInt64 n then some (Int64.ofInt n) else none

/-- A numeral of a signed integer of 64 bits. -/
def readInt64? (cs : List Char) : Option Int64 := do
  let (negative, ds) := splitSign cs
  let n ← natural? ds
  int64? (if negative then -n else n)

/-- A numeral of a size. -/
def readSize? (cs : List Char) : Option Nat :=
  let ds := match cs with
    | '+' :: ds => ds
    | ds => ds
  (natural? ds).filter (· < sizeBound)

theorem ofDigits_concat (ds : List Char) (c : Char) :
    ofDigits (ds ++ [c]) = 10 * ofDigits ds + digitValue c := by
  rw [ofDigits, List.foldl_append]
  rfl

theorem fitsInt64_iff {n : Int} : fitsInt64 n ↔ -int64Bound ≤ n ∧ n < int64Bound := by
  simp only [fitsInt64, Bool.and_eq_true, decide_eq_true_eq]

theorem int64?_toInt (n : Int64) : int64? n.toInt = some n := by
  have hLow := n.le_toInt
  have hHigh := n.toInt_lt
  have hFits : fitsInt64 n.toInt = true := by
    rw [fitsInt64_iff]
    unfold int64Bound
    omega
  simp [int64?, hFits]

theorem toInt_of_int64? {n : Int} {w : Int64} (hWord : int64? n = some w) : w.toInt = n := by
  unfold int64? at hWord
  split at hWord
  · rename_i hFits
    rw [fitsInt64_iff] at hFits
    unfold int64Bound at hFits
    obtain rfl := Option.some.inj hWord
    exact Int64.toInt_ofInt_of_le (by omega) (by omega)
  · cases hWord

end PostLisp.Number

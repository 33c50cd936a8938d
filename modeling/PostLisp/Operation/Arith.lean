import PostLisp.Fault

/-!
# Arithmetic

An operator combines its operands from left to right; a single operand is the result as it is. Two
integers give the exact integer, or an overflow when 64 bits cannot hold it, but their quotient is
always a float. An integer beside a float becomes a float. Two lists can be added: one behind the
other.
-/

namespace PostLisp.Arith

def floats (op : ArithOp) (x y : Float) : Except Fault Value :=
  match op with
  | .add => .ok (.float (x + y))
  | .subtract => .ok (.float (x - y))
  | .multiply => .ok (.float (x * y))
  | .divide => if y == 0 then .error .divisionByZero else .ok (.float (x / y))

/-- The exact result of an operator on integers, where it is an integer by itself. -/
def exactResult? (op : ArithOp) (a b : Int) : Option Int :=
  match op with
  | .add => some (a + b)
  | .subtract => some (a - b)
  | .multiply => some (a * b)
  | .divide => none

def integers (op : ArithOp) (a b : Int64) : Except Fault Value :=
  match exactResult? op a.toInt b.toInt with
  | none => floats op (Number.ofInt64 a) (Number.ofInt64 b)
  | some n =>
    match Number.int64? n with
    | some w => .ok (.integer w)
    | none => .error (.overflow op)

/-- Operands that are not two integers or two lists must be numbers; the left one is blamed first.
-/
def mixed (op : ArithOp) (v w : Value) : Except Fault Value :=
  match v.number?, w.number? with
  | some x, some y => floats op x y
  | none, _ => .error (.mismatch (.arith op) v.kind)
  | some _, none => .error (.mismatch (.arith op) w.kind)

def combine (op : ArithOp) (v w : Value) : Except Fault Value :=
  match v, w with
  | .integer a, .integer b => integers op a b
  | .list as, .list bs => if op = .add then .ok (.list (as ++ bs)) else mixed op v w
  | _, _ => mixed op v w

/-- Combines all operands from left to right. -/
def fold (op : ArithOp) : List Value → Except Fault Value
  | [] => .error (.arguments (.noOperands op))
  | v :: vs => vs.foldlM (combine op) v

end PostLisp.Arith

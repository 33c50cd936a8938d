import PostLisp.Fault

/-!
# Lists and pairs

Putting a value in front of a list gives a longer list; in front of anything else it gives a pair.
Taking apart undoes this: `car` is the first value of either, `cdr` what stands behind it. Behind
an empty list stands the empty list, before it nothing.
-/

namespace PostLisp.Value

def cons (head : Value) : Value → Value
  | .list items => .list (head :: items)
  | tail => .pair head tail

def car : Value → Except Fault Value
  | .list [] => .error (.arguments .carOfEmpty)
  | .list (head :: _) => .ok head
  | .pair head _ => .ok head
  | v => .error (.mismatch .car v.kind)

def cdr : Value → Except Fault Value
  | .list items => .ok (.list items.tail)
  | .pair _ tail => .ok tail
  | v => .error (.mismatch .cdr v.kind)

/-- Every value but a list is an atom. -/
def isAtom : Value → Bool
  | .list _ => false
  | _ => true

theorem car_cons (head tail : Value) : (cons head tail).car = .ok head := by
  cases tail <;> rfl

theorem cdr_cons (head tail : Value) : (cons head tail).cdr = .ok tail := by
  cases tail <;> rfl

end PostLisp.Value

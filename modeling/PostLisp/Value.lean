import PostLisp.Bindings
import PostLisp.Syntax.Node

/-!
# Values

What evaluation produces. A function value keeps its identity, its parameters, its body and a
frozen copy of the bindings around the place where it was made. A pair holds two values; a list is
a value of its own kind and not a chain of pairs.
-/

namespace PostLisp

/-- The contents of a function whose captured bindings hold values of type `α`. -/
structure Closure (α : Type) where
  id : Nat
  params : List String
  body : List Node
  captured : Bindings α

inductive Value where
  | integer (n : Int64)
  | float (x : Float)
  | boolean (b : Bool)
  | symbol (name : String)
  | list (items : List Value)
  | pair (head tail : Value)
  | function (f : Closure Value)
  | void

inductive Kind where
  | integer
  | float
  | boolean
  | symbol
  | list
  | pair
  | function
  | void
  deriving DecidableEq, Repr

def Kind.name : Kind → String
  | .integer => "integer"
  | .float => "float"
  | .boolean => "boolean"
  | .symbol => "symbol"
  | .list => "list"
  | .pair => "pair"
  | .function => "function"
  | .void => "void"

namespace Value

instance : Inhabited Value := ⟨.void⟩

def kind : Value → Kind
  | .integer _ => .integer
  | .float _ => .float
  | .boolean _ => .boolean
  | .symbol _ => .symbol
  | .list _ => .list
  | .pair _ _ => .pair
  | .function _ => .function
  | .void => .void

/-- The number that a numeric value stands for, as a float. -/
def number? : Value → Option Float
  | .integer n => some (Number.ofInt64 n)
  | .float x => some x
  | _ => none

def ofAtom : Atom → Value
  | .int n => .integer n
  | .float x => .float x
  | .symbol name => .symbol name

mutual

/-- A node as data, its symbols unresolved. -/
def ofNode : Node → Value
  | .atom a _ => ofAtom a
  | .list items _ => .list (ofNodes items)

def ofNodes : List Node → List Value
  | [] => []
  | n :: ns => ofNode n :: ofNodes ns

end

mutual

/-- Equality as programs see it: numbers are equal when their floats are, two integers when they
are the same integer, functions when they are one function. -/
def same : Value → Value → Bool
  | .integer a, .integer b => a == b
  | .integer a, .float y => Number.ofInt64 a == y
  | .float x, .integer b => x == Number.ofInt64 b
  | .float x, .float y => x == y
  | .boolean a, .boolean b => a == b
  | .symbol a, .symbol b => a == b
  | .list as, .list bs => sameAll as bs
  | .pair h t, .pair h' t' => same h h' && same t t'
  | .function f, .function g => f.id == g.id
  | .void, .void => true
  | _, _ => false

def sameAll : List Value → List Value → Bool
  | [], [] => true
  | v :: vs, w :: ws => same v w && sameAll vs ws
  | _, _ => false

end

instance : BEq Value := ⟨same⟩

mutual

/-- A value as the program shows it. -/
def render : Value → String
  | .integer n => Number.renderInt64 n
  | .float x => Number.renderFloat x
  | .boolean b => if b then "#t" else "#f"
  | .symbol name => name
  | .list items => "(" ++ String.intercalate " " (renderAll items) ++ ")"
  | .pair head tail => "(" ++ head.render ++ " . " ++ tail.render ++ ")"
  | .function f => "#<lambda:" ++ toString f.id ++ ">"
  | .void => "#<void>"

def renderAll : List Value → List String
  | [] => []
  | v :: vs => v.render :: renderAll vs

end

theorem ofNodes_eq_map (ns : List Node) : ofNodes ns = ns.map ofNode := by
  induction ns with
  | nil => rfl
  | cons n ns ih => simp [ofNodes, ih]

theorem renderAll_eq_map (vs : List Value) : renderAll vs = vs.map render := by
  induction vs with
  | nil => rfl
  | cons v vs ih => simp [renderAll, ih]

end Value

end PostLisp

/-!
# Keywords

The words that end a list and are not looked up: four arithmetic operators and nine special forms.
Beside them the word `else` is reserved, as a condition that always holds.
-/

namespace PostLisp

inductive ArithOp where
  | add
  | subtract
  | multiply
  | divide
  deriving DecidableEq, Repr

namespace ArithOp

def all : List ArithOp := [.add, .subtract, .multiply, .divide]

def symbol : ArithOp → String
  | .add => "+"
  | .subtract => "-"
  | .multiply => "*"
  | .divide => "/"

def ofSymbol? (s : String) : Option ArithOp := all.find? (·.symbol == s)

theorem ofSymbol?_symbol (op : ArithOp) : ofSymbol? op.symbol = some op := by
  cases op <;> decide

end ArithOp

inductive SpecialForm where
  | define
  | lambda
  | eq
  | atom
  | quote
  | cons
  | car
  | cdr
  | cond
  deriving DecidableEq, Repr

namespace SpecialForm

def all : List SpecialForm := [.define, .lambda, .eq, .atom, .quote, .cons, .car, .cdr, .cond]

def symbol : SpecialForm → String
  | .define => "define"
  | .lambda => "lambda"
  | .eq => "eq?"
  | .atom => "atom?"
  | .quote => "quote"
  | .cons => "cons"
  | .car => "car"
  | .cdr => "cdr"
  | .cond => "cond"

def ofSymbol? (s : String) : Option SpecialForm := all.find? (·.symbol == s)

theorem ofSymbol?_symbol (form : SpecialForm) : ofSymbol? form.symbol = some form := by
  cases form <;> decide

end SpecialForm

def elseSymbol : String := "else"

/-- Every reserved word. -/
def reservedWords : List String :=
  SpecialForm.all.map (·.symbol) ++ ArithOp.all.map (·.symbol) ++ [elseSymbol]

end PostLisp

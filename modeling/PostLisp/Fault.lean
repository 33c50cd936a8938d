import PostLisp.Syntax.Keyword
import PostLisp.Value

/-!
# Faults of evaluation

What can go wrong while a program runs, by cause. A fault becomes an error by the span of the node
it is blamed on. The wording of every fault is here.
-/

namespace PostLisp

/-- A special form that is written wrongly. -/
inductive FormFault where
  | operandCount (form : SpecialForm) (expected found : Nat)
  | lambdaWithoutParameters
  | lambdaWithoutBody
  | lambdaParameters (found : String)
  | condClause (found : String)
  deriving DecidableEq, Repr

/-- A call whose arguments do not suit what is called. -/
inductive ArgumentFault where
  | noOperands (op : ArithOp)
  | carOfEmpty
  | arity (expected found : Nat)
  deriving DecidableEq, Repr

/-- An operation that takes values of some kinds only. -/
inductive Operation where
  | arith (op : ArithOp)
  | car
  | cdr
  deriving DecidableEq, Repr

inductive Fault where
  | unbound (name : String)
  | unknownOperation (name : String)
  | notAFunction (found : Kind)
  | emptyForm
  | notASymbol (found : String)
  | form (f : FormFault)
  | arguments (f : ArgumentFault)
  | mismatch (operation : Operation) (found : Kind)
  | divisionByZero
  | overflow (op : ArithOp)
  | noClause
  | tooDeep (limit : Nat)
  deriving DecidableEq, Repr

structure EvalError where
  fault : Fault
  span : Span
  deriving DecidableEq, Repr

def FormFault.message : FormFault → String
  | .operandCount form expected found =>
    "'" ++ form.symbol ++ "' expects exactly " ++ toString expected ++ " operand(s), got " ++
      toString found
  | .lambdaWithoutParameters => "'lambda' expects a parameter list and a body"
  | .lambdaWithoutBody => "'lambda' body cannot be empty"
  | .lambdaParameters found => "'lambda' expects a parameter list, got " ++ found
  | .condClause found => "'cond' clause must be a (condition value) list, got " ++ found

def ArgumentFault.message : ArgumentFault → String
  | .noOperands op => "'" ++ op.symbol ++ "' expects at least one operand, got 0"
  | .carOfEmpty => "'car' of an empty list"
  | .arity expected found =>
    "function expects " ++ toString expected ++ " argument(s), got " ++ toString found

namespace Operation

def symbol : Operation → String
  | .arith op => op.symbol
  | .car => SpecialForm.car.symbol
  | .cdr => SpecialForm.cdr.symbol

def expectation : Operation → String
  | .arith _ => "numbers"
  | .car | .cdr => "a list or pair"

end Operation

def Fault.message : Fault → String
  | .unbound name => "Unbound symbol: '" ++ name ++ "'"
  | .unknownOperation name => failed ("unknown operation '" ++ name ++ "'")
  | .notAFunction found => failed ("expected a function, but got a " ++ found.name)
  | .emptyForm => failed "cannot evaluate an empty form"
  | .notASymbol found => failed ("expected a symbol, but got: " ++ found)
  | .form f => failed ("invalid special form - " ++ f.message)
  | .arguments f => failed ("invalid arguments - " ++ f.message)
  | .mismatch operation found =>
    failed ("'" ++ operation.symbol ++ "' expects " ++ operation.expectation ++ ", got " ++
      found.name)
  | .divisionByZero => failed "division by zero"
  | .overflow op => failed ("integer overflow in '" ++ op.symbol ++ "'")
  | .noClause => failed "no cond clause matched"
  | .tooDeep limit => failed ("recursion limit of " ++ toString limit ++ " exceeded")
where
  failed (reason : String) : String := "Evaluation Error: " ++ reason

def EvalError.message (e : EvalError) : String := e.fault.message

end PostLisp

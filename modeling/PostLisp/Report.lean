import PostLisp.Eval.Run
import PostLisp.Text.Place

/-!
# Reports

A report tells a reader of the program text what went wrong, and where: a headline, the place of
the error, and a label that belongs to the place. The offsets of the error's span are taken as
counts of characters, so a span may end behind the text. A span within the text has its place and
its label shown, a span that ends one character behind the text its place alone, and any other
leaves the report with its headline only.
-/

namespace PostLisp

structure Report where
  headline : String
  place : Option Text.Place
  label : Option String
  deriving DecidableEq, Repr

namespace Span

/-- Whether a span, its offsets taken as counts of characters, lies within the text. -/
def FitsIn (s : Span) (cs : List Char) : Prop := s.start ≤ cs.length ∧ s.stop ≤ cs.length

instance (s : Span) (cs : List Char) : Decidable (s.FitsIn cs) :=
  inferInstanceAs (Decidable (_ ∧ _))

/-- The place where a span starts, its offsets taken as counts of characters. The last character
of the span may stand right behind the text, but no further. -/
def placeIn? (s : Span) (cs : List Char) : Option Text.Place :=
  if s.stop ≤ cs.length + 1 then Text.placeAt cs s.start else none

theorem isSome_placeIn? (s : Span) (cs : List Char) :
    (s.placeIn? cs).isSome ↔ s.start ≤ cs.length ∧ s.stop ≤ cs.length + 1 := by
  unfold placeIn? Text.placeAt
  split <;> simp_all [Text.isSome_after]

/-- A span that fits has a place: a label never stands alone. -/
theorem FitsIn.isSome_placeIn? {s : Span} {cs : List Char} (h : s.FitsIn cs) :
    (s.placeIn? cs).isSome := by
  rw [Span.isSome_placeIn?]
  exact ⟨h.1, Nat.le_succ_of_le h.2⟩

end Span

namespace ParseFault

def headline : ParseFault → String
  | .unmatchedClosing | .unclosedOpening => "Unbalanced expression"
  | .danglingQuote => "Misplaced quote"

def label : ParseFault → String
  | .unmatchedClosing => "This ')' closes nothing"
  | .unclosedOpening => "This '(' is never closed"
  | .danglingQuote => "Nothing precedes this quote mark"

end ParseFault

namespace Fault

def headline : Fault → String
  | .unbound name => "Unbound symbol `" ++ name ++ "`"
  | .unknownOperation name => "Unknown operation `" ++ name ++ "`"
  | .notAFunction _ => "Not a function"
  | .emptyForm => "Empty form"
  | .notASymbol found => "Not a symbol: " ++ found
  | .form _ => "Invalid special form"
  | .arguments _ => "Invalid arguments"
  | .mismatch operation _ => "Type mismatch in `" ++ operation.symbol ++ "`"
  | .divisionByZero => "Division by zero"
  | .overflow op => "Integer overflow in `" ++ op.symbol ++ "`"
  | .noClause => "No cond clause matched"
  | .tooDeep limit => "Recursion limit of " ++ toString limit ++ " exceeded"

def label : Fault → String
  | .unbound _ => "Not defined locally, in the closure, or globally"
  | .unknownOperation _ => "Not a special form, an arithmetic operator, or a bound function"
  | .notAFunction found => "This evaluates to a " ++ found.name ++ ", which cannot be called"
  | .emptyForm => "An empty list has no operator to apply"
  | .notASymbol _ => "Expected a bare symbol here"
  | .form f => f.message
  | .arguments f => f.message
  | .mismatch operation found => "Expected " ++ operation.expectation ++ ", found " ++ found.name
  | .divisionByZero => "The divisor evaluates to zero"
  | .overflow _ => "The result does not fit in 64 bits"
  | .noClause => "Add an `else` clause to cover the remaining cases"
  | .tooDeep _ => "Evaluation nested too deeply here"

end Fault

namespace RunError

def headline : RunError → String
  | .parse e => e.fault.headline
  | .eval e => e.fault.headline

def label : RunError → String
  | .parse e => e.fault.label
  | .eval e => e.fault.label

/-- The report of an error against a text, which need not be the one in which the error arose. -/
def report (e : RunError) (text : String) : Report :=
  let cs := text.toList
  ⟨e.headline, e.span.placeIn? cs, if e.span.FitsIn cs then some e.label else none⟩

end RunError

/-- The place of a report in the text of a given name. -/
def Report.location? (r : Report) (name : String) : Option String :=
  r.place.map fun p => name ++ ":" ++ toString p.line ++ ":" ++ toString p.column

end PostLisp

import PostLisp.Eval.Evaluate
import PostLisp.Syntax.Program

/-!
# Running programs

What a session offers: running a program or its text, evaluating one node in a given frame, and
calling a function. Each gives the result, or the error, and the session afterwards.
-/

namespace PostLisp

/-- Whatever keeps a text from having a value. -/
inductive RunError where
  | parse (e : ParseError)
  | eval (e : EvalError)
  deriving DecidableEq, Repr

namespace RunError

def span : RunError → Span
  | .parse e => e.span
  | .eval e => e.span

def message : RunError → String
  | .parse e => e.message
  | .eval e => e.message

end RunError

namespace Session

/-- Does something in a session, from a given frame. -/
def perform {α : Type} (s : Session) (frame : Frame) (act : EvalM α) :
    Except EvalError α × EvalState :=
  match act ⟨s, frame⟩ with
  | .ok v t => (.ok v, t)
  | .error e t => (.error e, t)

/-- Evaluates a node; the frame afterwards holds what the node defined. -/
def evaluate (s : Session) (frame : Frame) (n : Node) : Except EvalError Value × EvalState :=
  s.perform frame (Eval.evaluate n)

def apply (s : Session) (f : Closure Value) (args : List Value) (span : Span) :
    Except EvalError Value × Session :=
  let (result, t) := s.perform .top (Eval.apply Eval.evaluate f args span)
  (result, t.session)

/-- Evaluates the nodes of a program at top level; the last value is the result. -/
def run (s : Session) (program : List Node) : Except EvalError Value × Session :=
  let (result, t) := s.perform .top (Eval.inOrder Eval.evaluate .void program)
  (result, t.session)

/-- Reads a text and runs it. A text that cannot be read changes nothing. -/
def runText (s : Session) (text : String) : Except RunError Value × Session :=
  match Program.ofString text with
  | .error e => (.error (.parse e), s)
  | .ok program =>
    let (result, t) := s.run program
    (result.mapError .eval, t)

/-- A run fails to read a text just as reading alone does. -/
theorem runText_eq_parse {s : Session} {text : String} {e : ParseError} :
    (s.runText text).1 = .error (.parse e) ↔ Program.ofString text = .error e := by
  rw [runText]
  cases Program.ofString text with
  | error e' => simp
  | ok program =>
    dsimp only
    cases (s.run program).1 <;> constructor <;> intro h <;> cases h

end Session

end PostLisp

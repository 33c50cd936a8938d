import PostLisp.Command.Invocation
import PostLisp.Report

/-!
# Batch runs

Running one program from a file: the value of the program and the number of calls that were run
are its output. What goes wrong is told on the side, and by the exit code: 2 when the command line
makes no sense, 1 when the program cannot be read or fails.
-/

namespace PostLisp

/-- Something told on the side: a whole line, a piece of a line, or the report of an error in the
text of the given name. -/
inductive Diagnostic where
  | line (content : String)
  | fragment (content : String)
  | report (name : String) (r : Report)
  deriving DecidableEq, Repr

/-- What a run of the command leaves behind. -/
structure Outcome where
  code : Nat
  output : String
  diagnostics : List Diagnostic
  deriving DecidableEq, Repr

namespace Outcome

def usageError (e : UsageError) : Outcome where
  code := 2
  output := ""
  diagnostics := [.line e.message, .line Invocation.usage]

def unreadable (path reason : String) : Outcome where
  code := 1
  output := ""
  diagnostics := [.line ("Could not read '" ++ path ++ "': " ++ reason)]

/-- Runs the text of the program that was asked for. -/
def ofText (i : Invocation) (text : String) : Outcome :=
  match (Session.new i.options).runText text with
  | (.ok v, s) =>
    ⟨0, v.render ++ "\n" ++ "profiler - times called: " ++ toString s.calls ++ "\n", []⟩
  | (.error e, _) => ⟨1, "", [.report i.path (e.report text)]⟩

/-- What an invocation leads to, given the text of its program or the reason why it has none. -/
def ofInvocation (i : Invocation) : Except String String → Outcome
  | .ok text => ofText i text
  | .error reason => unreadable i.path reason

end Outcome

end PostLisp

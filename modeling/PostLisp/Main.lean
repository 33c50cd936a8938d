import PostLisp.Command.Batch
import PostLisp.Repl.Dialogue

/-!
# The programs

The command runs a program from a file; the dialogue reads programs from the standard input. Both
do here what only the outside can do: read files and lines, and print.
-/

namespace PostLisp

/-- Prints a diagnostic; a report as its headline, place and label. -/
def Diagnostic.print : Diagnostic → IO Unit
  | .line content => IO.eprintln content
  | .fragment content => IO.eprint content
  | .report name r => do
    IO.eprintln ("Error: " ++ r.headline)
    for line in (r.location? name).toList ++ r.label.toList do
      IO.eprintln ("  " ++ line)

/-- A reason of the system with its number, which may come negated. Number 36 says that a name is
too long; here it is always the name of a file. -/
def systemReason (code : UInt32) (details : String) : String :=
  let number := if code < 2147483648 then code else 0 - code
  let reason := if number = 36 then "File name too long" else details.capitalize
  reason ++ " (os error " ++ toString number ++ ")"

/-- Why a file cannot be read. -/
def readFailure : IO.Error → String
  | .noFileOrDirectory _ code details | .inappropriateType _ code details
  | .permissionDenied _ code details | .invalidArgument _ code details =>
    systemReason code details
  | e => toString e

/-- The text of a file, or the reason why it has none. -/
def readText (path : String) : IO (Except String String) := do
  try
    let bytes ← IO.FS.readBinFile path
    match String.fromUTF8? bytes with
    | some text => pure (.ok text)
    | none => pure (.error "stream did not contain valid UTF-8")
  catch e => pure (.error (readFailure e))

def Outcome.print (o : Outcome) : IO UInt32 := do
  IO.print o.output
  o.diagnostics.forM Diagnostic.print
  pure o.code.toUInt32

namespace Repl

def historyPath : String := "psil_history.txt"

def Reply.print (r : Reply) : IO Unit := do
  IO.print r.output
  r.diagnostics.forM Diagnostic.print
  (← IO.getStdout).flush

/-- Answers line after line until the dialogue is over or the input ends. -/
partial def converse (input : IO.FS.Stream) (d : Dialogue) : IO Dialogue := do
  let line ← input.getLine
  if line.isEmpty then
    Dialogue.farewell.print
    pure d
  else
    let (d, reply) := d.receive line.toList
    reply.print
    if d.ended then pure d else converse input d

/-- A dialogue on the standard streams. -/
def interact : IO UInt32 := do
  let hasHistory ← (IO.FS.readFile historyPath *> pure true) <|> pure false
  (Dialogue.greeting hasHistory).print
  let d ← converse (← IO.getStdin) .start
  if d.remembers && !hasHistory then IO.FS.writeFile historyPath ""
  pure 0

end Repl

end PostLisp

open PostLisp in
def main (args : List String) : IO UInt32 := do
  match Invocation.ofArgs args with
  | .error e => (Outcome.usageError e).print
  | .ok i => (Outcome.ofInvocation i (← readText i.path)).print

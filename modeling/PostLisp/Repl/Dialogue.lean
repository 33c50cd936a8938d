import PostLisp.Command.Batch
import PostLisp.Repl.Brackets
import PostLisp.Repl.Typed
import PostLisp.Text.Blank

/-!
# Dialogues

A dialogue runs the texts that are typed, one after the other, in one session. Lines gather until
their brackets are balanced; then all of them are one text. Input with an unmatched closing
bracket waits too, and each further line repeats the complaint unless backspaces take the bracket
back. The dialogue is over at the word `exit`, in any case, or at the end of the input.
-/

namespace PostLisp.Repl

/-- What is said in answer to a line. -/
structure Reply where
  output : String
  diagnostics : List Diagnostic
  deriving DecidableEq, Repr

def Reply.silent : Reply := ⟨"", []⟩

/-- `pending` are the lines that wait for more; `remembers` says whether any text that was handed
over is worth keeping in the history. -/
structure Dialogue where
  session : Session
  pending : List Char
  remembers : Bool
  ended : Bool

namespace Dialogue

def start : Dialogue := ⟨.new .standard, [], false, false⟩

/-- The name of the typed text in reports. -/
def sourceName : String := "REPL"

def isExit (text : List Char) : Bool := text.map Char.toLower == "exit".toList

/-- Runs a text. -/
def run (d : Dialogue) (text : String) : Dialogue × Reply :=
  match d.session.runText text with
  | (.ok v, s) =>
    ({ d with session := s }, ⟨v.render ++ "\n; calls: " ++ toString s.calls ++ "\n", []⟩)
  | (.error e, s) => ({ d with session := s }, ⟨"", [.report sourceName (e.report text)]⟩)

/-- Takes balanced input, without the blanks around it. -/
def handOver (d : Dialogue) (input : List Char) : Dialogue × Reply :=
  let d := { d with pending := [], remembers := d.remembers || !input.isEmpty }
  let text := Text.trim input
  if text.isEmpty then (d, .silent)
  else if isExit text then ({ d with ended := true }, .silent)
  else d.run (String.ofList text)

/-- Takes one typed line, with the characters that end it. -/
def receive (d : Dialogue) (line : List Char) : Dialogue × Reply :=
  let typed := Typed.ofChars (d.pending ++ line)
  let input := corrected typed.text
  match Balance.ofChars input with
  | .balanced => d.handOver input
  | .incomplete => ({ d with pending := input ++ typed.ending }, .silent)
  | .unmatched position =>
    ({ d with pending := input }, ⟨"", [.fragment (Balance.complaint position)]⟩)

/-- What is said at the beginning. -/
def greeting (hasHistory : Bool) : Reply where
  output := "psil REPL v0.1.0\nType 'exit' or press Ctrl-D to quit.\n" ++
    (if hasHistory then "" else "No previous history.\n")
  diagnostics := []

/-- What is said when the input ends before the dialogue is over. -/
def farewell : Reply := ⟨"\nExiting.\n", []⟩

/-- All replies to the lines of an input, to its end or the end of the dialogue. -/
def receiveAll (d : Dialogue) : List (List Char) → Dialogue × List Reply
  | [] => (d, [farewell])
  | l :: ls =>
    let (d, reply) := d.receive l
    if d.ended then (d, [reply])
    else
      let (d, replies) := d.receiveAll ls
      (d, reply :: replies)

end Dialogue

/-- A whole dialogue: what was said, and whether a history is there afterwards. -/
structure Transcript where
  outcome : Outcome
  hasHistory : Bool
  deriving DecidableEq, Repr

def Transcript.ofInput (hasHistory : Bool) (input : String) : Transcript :=
  let (d, replies) := Dialogue.start.receiveAll (splitLines input.toList)
  let said := Dialogue.greeting hasHistory :: replies
  { outcome :=
      { code := 0
        output := String.join (said.map (·.output))
        diagnostics := said.flatMap (·.diagnostics) }
    hasHistory := hasHistory || d.remembers }

end PostLisp.Repl

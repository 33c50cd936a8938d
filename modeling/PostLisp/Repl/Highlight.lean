import PostLisp.Text.Span

/-!
# Highlighting

A line is shown with colours that help with its brackets: quote marks are yellow, a closing
bracket that matches nothing is red, and the pair of brackets whose closing one ends at the cursor
is blue, the opening one in bold. Everything else stays as it is.
-/

namespace PostLisp.Repl

/-- A terminal style, by the codes that switch it on. -/
inductive Style where
  | yellow
  | red
  | blue
  | boldBlue
  deriving DecidableEq, Repr

namespace Style

def codes : Style → String
  | .yellow => "33"
  | .red => "31"
  | .blue => "34"
  | .boldBlue => "1;34"

/-- A character in a style; the style ends behind it. -/
def wrap (s : Style) (c : Char) : List Char :=
  ("\x1b[" ++ s.codes ++ "m").toList ++ c :: "\x1b[0m".toList

end Style

/-- A line that is shown up to some character. The opening brackets that wait for their match
split it: `tail` is what is shown behind the last of them, the last character first, and
`segments` what is shown before each of them, the last bracket first and each segment backwards
too. -/
structure Shown where
  tail : List Char
  segments : List (List Char)
  deriving DecidableEq, Repr

namespace Shown

def start : Shown := ⟨[], []⟩

def add (s : Shown) (cs : List Char) : Shown := { s with tail := cs.reverse ++ s.tail }

def openBracket (s : Shown) : Shown := ⟨[], s.tail :: s.segments⟩

/-- Shows a closing bracket and, in a style of its own, the opening one that it matches. -/
def closeBracket (s : Shown) (atCursor : Bool) : Shown :=
  match s.segments with
  | [] => s.add (Style.red.wrap ')')
  | segment :: segments =>
    let opening := if atCursor then Style.boldBlue.wrap '(' else ['(']
    let closing := if atCursor then Style.blue.wrap ')' else [')']
    ⟨closing.reverse ++ (s.tail ++ (opening.reverse ++ segment)), segments⟩

/-- Shows one character more; `stop` is the byte behind it. -/
def step (cursor stop : Nat) (s : Shown) (c : Char) : Shown :=
  match c with
  | '(' => s.openBracket
  | ')' => s.closeBracket (stop = cursor)
  | '\'' => s.add (Style.yellow.wrap '\'')
  | c => s.add [c]

/-- Shows the characters from the byte `offset` on. -/
def steps (cursor : Nat) (s : Shown) (offset : Nat) : List Char → Shown
  | [] => s
  | c :: cs =>
    let stop := offset + c.utf8Size
    steps cursor (s.step cursor stop c) stop cs

/-- All that is shown; brackets that still wait are shown plain. -/
def finish (s : Shown) : List Char :=
  (s.segments.foldl (fun shown segment => shown ++ '(' :: segment) s.tail).reverse

end Shown

/-- A line with its colours, the cursor standing behind the byte `cursor`. -/
def highlight (line : String) (cursor : Nat) : String :=
  String.ofList (Shown.start.steps cursor 0 line.toList).finish

end PostLisp.Repl

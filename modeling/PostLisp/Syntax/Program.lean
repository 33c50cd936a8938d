import PostLisp.Syntax.Node

/-!
# Reading programs

The nodes of a text are built in one pass over its tokens, which keeps the lists that are still
open. A text can fail in three ways. A closing bracket that matches nothing ends the reading at
once. A text that ends inside a list fails at the opening bracket of the innermost one. Only a
text whose brackets match can fail by a quote mark that nothing precedes in its list; the first
such mark is reported.
-/

namespace PostLisp

inductive ParseFault where
  | unmatchedClosing
  | unclosedOpening
  | danglingQuote
  deriving DecidableEq, Repr

structure ParseError where
  fault : ParseFault
  span : Span
  deriving DecidableEq, Repr

namespace ParseFault

def message : ParseFault → String
  | .unmatchedClosing => "unbalanced expression, ')' has no matching '('"
  | .unclosedOpening => "unbalanced expression, '(' is never closed"
  | .danglingQuote => "misplaced quote, nothing precedes it"

end ParseFault

def ParseError.message (e : ParseError) : String :=
  "Parse Error [at " ++ e.span.render ++ "]: " ++ e.fault.message

/-- A list that waits for its closing bracket: the span of its opening bracket, and the nodes
before it in the list around it, the last one first. -/
structure OpenList where
  opening : Span
  before : List Node

/-- How far a program is read: the nodes of the innermost open list, the last one first, the open
lists from the innermost outwards, and the first quote mark that had nothing before it. -/
structure Reading where
  items : List Node
  enclosing : List OpenList
  dangling : Option Span

namespace Reading

def start : Reading := ⟨[], [], none⟩

def add (r : Reading) (n : Node) : Reading := { r with items := n :: r.items }

def openList (r : Reading) (s : Span) : Reading :=
  { r with items := [], enclosing := ⟨s, r.items⟩ :: r.enclosing }

def closeList (r : Reading) (s : Span) : Except ParseError Reading :=
  match r.enclosing with
  | [] => .error ⟨.unmatchedClosing, s⟩
  | l :: ls =>
    .ok { r with items := .list r.items.reverse (l.opening.join s) :: l.before, enclosing := ls }

def quoteLast (r : Reading) (s : Span) : Reading :=
  match r.items with
  | [] => { r with dangling := r.dangling <|> some s }
  | n :: ns => { r with items := n.quoted s :: ns }

def step (r : Reading) (t : Token) : Except ParseError Reading :=
  match t.kind with
  | .atom a => .ok (r.add (.atom a t.span))
  | .mark .opening => .ok (r.openList t.span)
  | .mark .closing => r.closeList t.span
  | .mark .quote => .ok (r.quoteLast t.span)

def finish (r : Reading) : Except ParseError (List Node) :=
  match r.enclosing with
  | l :: _ => .error ⟨.unclosedOpening, l.opening⟩
  | [] =>
    match r.dangling with
    | some s => .error ⟨.danglingQuote, s⟩
    | none => .ok r.items.reverse

end Reading

/-- The nodes that a list of tokens spells. -/
def Program.ofTokens (ts : List Token) : Except ParseError (List Node) := do
  let r ← ts.foldlM Reading.step Reading.start
  r.finish

/-- The nodes that a text spells. -/
def Program.ofString (s : String) : Except ParseError (List Node) :=
  Program.ofTokens (Token.ofString s)

end PostLisp

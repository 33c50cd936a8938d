import PostLisp.Syntax.Token

/-!
# Nodes

A program is a list of nodes. A node is an atom or a list of nodes, and carries the span of the
text it was read from. The last node of a list says what the list does. A quoted node is the list
of the node and the symbol `quote`; the quote mark is the short way to write it.
-/

namespace PostLisp

inductive Node where
  | atom (a : Atom) (span : Span)
  | list (items : List Node) (span : Span)

namespace Node

def span : Node → Span
  | .atom _ s | .list _ s => s

def symbol? : Node → Option String
  | .atom a _ => a.symbol?
  | .list _ _ => none

def list? : Node → Option (List Node)
  | .atom _ _ => none
  | .list items _ => some items

def quoteSymbol : String := "quote"

/-- What the quote mark at `mark` makes of the node before it. -/
def quoted (n : Node) (mark : Span) : Node :=
  .list [n, .atom (.symbol quoteSymbol) mark] (n.span.join mark)

mutual

/-- A node as a program text writes it, the items of a list apart by one space. -/
def render : Node → String
  | .atom a _ => a.render
  | .list items _ => "(" ++ String.intercalate " " (renderAll items) ++ ")"

def renderAll : List Node → List String
  | [] => []
  | n :: ns => n.render :: renderAll ns

end

theorem renderAll_eq_map (ns : List Node) : renderAll ns = ns.map render := by
  induction ns with
  | nil => rfl
  | cons n ns ih => simp [renderAll, ih]

end Node

end PostLisp

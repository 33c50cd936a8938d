import PostLisp.Eval.Session

/-!
# Completion

The word before the cursor, if it is a symbol, is completed to the global names and reserved words
that it begins. What is offered is the rest of each name, in order and without repetition.
-/

namespace PostLisp.Repl

/-- The characters of a text that lie wholly within its first `n` bytes. -/
def takeBytes (n : Nat) : List Char → List Char
  | [] => []
  | c :: cs => if c.utf8Size ≤ n then c :: takeBytes (n - c.utf8Size) cs else []

/-- The symbol that ends at the byte `position` of a text, which is cut there. -/
def symbolBefore? (position : Nat) (line : String) : Option String :=
  match (Token.ofChars (takeBytes position line.toList)).getLast? with
  | some ⟨.atom (.symbol name), span⟩ => if span.stop = position then some name else none
  | _ => none

/-- What `name` has behind `start`, if it begins with it and goes on. -/
def remainder? (start name : String) : Option String :=
  match List.isPrefixOf? start.toList name.toList with
  | some (c :: cs) => some (String.ofList (c :: cs))
  | _ => none

/-- Puts a word into an ascending list that does not hold it yet. -/
def insertWord (w : String) : List String → List String
  | [] => [w]
  | v :: vs => if w = v then v :: vs else if w < v then w :: v :: vs else v :: insertWord w vs

/-- Words in ascending order, each once. -/
def ascending (ws : List String) : List String := ws.foldr insertWord []

/-- The ways to go on at the byte `position` of a line. -/
def completions (globals : Bindings Value) (line : String) (position : Nat) : List String :=
  match symbolBefore? position line with
  | none => []
  | some start => ascending ((globals.names ++ reservedWords).filterMap (remainder? start))

/-- Where a completion goes into the line, and what there is to choose from. -/
def complete (globals : Bindings Value) (line : String) (position : Nat) : Nat × List String :=
  (position, completions globals line position)

end PostLisp.Repl

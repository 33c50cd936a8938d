import PostLisp.Text.Blank
import PostLisp.Text.Span
import PostLisp.Syntax.Atom

/-!
# Tokens

A text falls into marks, which are the brackets and the quote mark, and words, which are the
longest stretches of other characters that are not blank. A token is a mark or the atom that a
word spells, with its span in bytes. Every text has tokens; nothing is rejected here.
-/

namespace PostLisp

inductive Mark where
  | opening
  | closing
  | quote
  deriving DecidableEq, Repr

namespace Mark

def ofChar? : Char → Option Mark
  | '(' => some .opening
  | ')' => some .closing
  | '\'' => some .quote
  | _ => none

def char : Mark → Char
  | .opening => '('
  | .closing => ')'
  | .quote => '\''

theorem ofChar?_char (m : Mark) : ofChar? m.char = some m := by
  cases m <;> rfl

end Mark

/-- A token before its word is read. -/
inductive Lexeme where
  | mark (m : Mark) (span : Span)
  | word (cs : List Char) (span : Span)
  deriving DecidableEq, Repr

namespace Lexeme

def span : Lexeme → Span
  | .mark _ s | .word _ s => s

/-- Puts the character at `offset` before the lexemes of the text behind it: a word that starts
right behind it grows, otherwise a new word starts. -/
def extend (offset : Nat) (c : Char) (rest : List Lexeme) : List Lexeme :=
  let next := offset + c.utf8Size
  match rest with
  | .word cs s :: more =>
    if s.start = next then .word (c :: cs) ⟨offset, s.stop⟩ :: more
    else .word [c] ⟨offset, next⟩ :: rest
  | _ => .word [c] ⟨offset, next⟩ :: rest

/-- The lexemes of a text that starts at the byte `offset`. -/
def ofChars (offset : Nat) : List Char → List Lexeme
  | [] => []
  | c :: cs =>
    let next := offset + c.utf8Size
    let rest := ofChars next cs
    match Mark.ofChar? c with
    | some m => .mark m ⟨offset, next⟩ :: rest
    | none => if Text.isBlank c then rest else extend offset c rest

end Lexeme

inductive TokenKind where
  | mark (m : Mark)
  | atom (a : Atom)

structure Token where
  kind : TokenKind
  span : Span

namespace Token

def ofLexeme : Lexeme → Token
  | .mark m s => ⟨.mark m, s⟩
  | .word cs s => ⟨.atom (Atom.ofWord cs), s⟩

/-- The tokens of a text, from left to right. -/
def ofChars (cs : List Char) : List Token := (Lexeme.ofChars 0 cs).map ofLexeme

def ofString (s : String) : List Token := ofChars s.toList

def render (t : Token) : String :=
  match t.kind with
  | .mark m => m.char.toString
  | .atom a => a.render

end Token

end PostLisp

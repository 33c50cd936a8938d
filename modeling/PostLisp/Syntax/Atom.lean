import PostLisp.Number.Layout

/-!
# Atoms

An atom is an integer, a float or a symbol. A word is read as the first of these that it can be.
-/

namespace PostLisp

inductive Atom where
  | int (n : Int64)
  | float (x : Float)
  | symbol (name : String)

namespace Atom

def ofWord (cs : List Char) : Atom :=
  match Number.readInt64? cs with
  | some n => .int n
  | none =>
    match Number.readFloat? cs with
    | some x => .float x
    | none => .symbol (String.ofList cs)

def ofString (s : String) : Atom := ofWord s.toList

def render : Atom → String
  | .int n => Number.renderInt64 n
  | .float x => Number.renderFloat x
  | .symbol name => name

def symbol? : Atom → Option String
  | .symbol name => some name
  | _ => none

end Atom

end PostLisp

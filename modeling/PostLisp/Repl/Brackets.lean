/-!
# Balance of brackets

Typed input is handed over only when its brackets are balanced. As long as one is open the input
is incomplete; a closing bracket too many makes it wrong at the first such character, whatever
follows. Brackets count wherever they stand.
-/

namespace PostLisp.Repl

inductive Balance where
  | balanced
  | incomplete
  | unmatched (position : Nat)
  deriving DecidableEq, Repr

namespace Balance

/-- The balance of the characters from `position` on, with `depth` brackets open before them. -/
def ofCharsFrom (position depth : Nat) : List Char → Balance
  | [] => if depth = 0 then .balanced else .incomplete
  | c :: cs =>
    match c, depth with
    | '(', _ => ofCharsFrom (position + 1) (depth + 1) cs
    | ')', 0 => .unmatched position
    | ')', depth + 1 => ofCharsFrom (position + 1) depth cs
    | _, _ => ofCharsFrom (position + 1) depth cs

def ofChars (cs : List Char) : Balance := ofCharsFrom 0 0 cs

/-- What is said of an unmatched bracket. -/
def complaint (position : Nat) : String :=
  "  - Unmatched ')' at position " ++ toString position

end Balance

end PostLisp.Repl

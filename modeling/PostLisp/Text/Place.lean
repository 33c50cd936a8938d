/-!
# Places in a text

A place is a line and a column, both counted from one. A line ends after a line feed, a carriage
return, the pair of both, a vertical tab, a form feed, or one of the characters NEL, LINE
SEPARATOR and PARAGRAPH SEPARATOR. A terminator at the very end of the text starts no further
line, so the place behind the last character is on the line of that character.
-/

namespace PostLisp.Text

structure Place where
  line : Nat
  column : Nat
  deriving DecidableEq, Repr

/-- Whether a line ends after `c` when `rest` follows it: a carriage return leaves the end of its
line to a line feed behind it. -/
def endsLine (c : Char) (rest : List Char) : Bool :=
  match c.toNat with
  | 0x0D => rest.head? != some '\n'
  | 0x0A | 0x0B | 0x0C | 0x85 | 0x2028 | 0x2029 => true
  | _ => false

namespace Place

def first : Place := ⟨1, 1⟩

/-- The place behind `c`, which stands at `p` with `rest` behind it. -/
def advance (p : Place) (c : Char) (rest : List Char) : Place :=
  if endsLine c rest && !rest.isEmpty then ⟨p.line + 1, 1⟩ else ⟨p.line, p.column + 1⟩

/-- The place `n` characters further on, if the text reaches that far. -/
def after (p : Place) : List Char → Nat → Option Place
  | _, 0 => some p
  | [], _ + 1 => none
  | c :: cs, n + 1 => (p.advance c cs).after cs n

end Place

/-- The place of the character with index `n`; the end of the text is a place too. -/
def placeAt (cs : List Char) (n : Nat) : Option Place := Place.first.after cs n

theorem isSome_after (p : Place) (cs : List Char) (n : Nat) :
    (p.after cs n).isSome ↔ n ≤ cs.length := by
  induction cs generalizing p n with
  | nil => cases n <;> simp [Place.after]
  | cons c cs ih => cases n <;> simp [Place.after, ih]

end PostLisp.Text

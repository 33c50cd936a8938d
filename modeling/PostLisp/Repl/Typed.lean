import PostLisp.Text.Cluster

/-!
# Typed text

Typed text comes in lines. A backspace in it takes back the cluster before it, which may be the
end of an earlier line; where nothing is left to take back it does nothing. The size of a cluster
is kept in one byte, so of a cluster of 256 bytes or more only an end is taken back. Text without
backspaces stays as it is.
-/

namespace PostLisp.Repl

/-- The stretches of a text that end with a line feed, and what stands behind the last one. -/
def splitLines : List Char → List (List Char)
  | [] => []
  | '\n' :: cs => ['\n'] :: splitLines cs
  | c :: cs =>
    match splitLines cs with
    | [] => [[c]]
    | l :: ls => (c :: l) :: ls

def backspace : Char := '\x08'

/-- A text under way. What is kept of it comes last character first, and so do the sizes of its
clusters; a size is kept in one byte. -/
structure Draft where
  kept : List Char
  sizes : List Nat

namespace Draft

def empty : Draft := ⟨[], []⟩

/-- The size of a cluster in bytes, as far as one byte can hold it. -/
def sizeByte (cluster : List Char) : Nat :=
  cluster.foldl (fun size c => size + c.utf8Size) 0 % 256

/-- What is left when the first `n` bytes are taken away. -/
def dropBytes (n : Nat) : List Char → List Char
  | [] => []
  | c :: cs => if c.utf8Size ≤ n then dropBytes (n - c.utf8Size) cs else c :: cs

/-- Types a cluster. A backspace takes away as many bytes as the last size says. -/
def type (d : Draft) (cluster : List Char) : Draft :=
  if cluster = [backspace] then
    match d.sizes with
    | [] => d
    | size :: sizes => ⟨dropBytes size d.kept, sizes⟩
  else ⟨cluster.reverse ++ d.kept, sizeByte cluster :: d.sizes⟩

theorem kept_foldl_type {clusters : List (List Char)} (hNone : backspace ∉ clusters.flatten)
    (d : Draft) : (clusters.foldl type d).kept = clusters.flatten.reverse ++ d.kept := by
  induction clusters generalizing d with
  | nil => simp
  | cons cluster clusters ih =>
    rw [List.flatten_cons, List.mem_append, not_or] at hNone
    have hCluster : cluster ≠ [backspace] := by
      rintro rfl
      exact hNone.1 List.mem_cons_self
    simp [ih hNone.2, type, hCluster]

end Draft

/-- What is left of a text when every backspace in it has had its effect. -/
def corrected (cs : List Char) : List Char :=
  ((Text.clusters cs).foldl Draft.type .empty).kept.reverse

theorem corrected_of_notMem {cs : List Char} (hNone : backspace ∉ cs) : corrected cs = cs := by
  have hFree : backspace ∉ (Text.clusters cs).flatten := by rwa [Text.flatten_clusters]
  simp [corrected, Draft.kept_foldl_type hFree, Draft.empty]

/-- Typed text and the characters that end its last line; only the end of all input may lack
them. -/
structure Typed where
  text : List Char
  ending : List Char
  deriving DecidableEq, Repr

/-- Takes the line feed off the end of a text, and a carriage return before it. -/
def Typed.ofChars (cs : List Char) : Typed :=
  match cs.reverse with
  | '\n' :: '\r' :: rest => ⟨rest.reverse, ['\r', '\n']⟩
  | '\n' :: rest => ⟨rest.reverse, ['\n']⟩
  | _ => ⟨cs, []⟩

end PostLisp.Repl

/-!
# Spans

A span is a stretch of a text, given by the byte offsets where it starts and where it stops (the
stop is not part of it). Joining two spans gives the least span that covers both.
-/

namespace PostLisp

/-- The bytes of a text from `start` up to, and without, `stop`. -/
structure Span where
  start : Nat
  stop : Nat
  deriving DecidableEq, Repr

namespace Span

/-- The empty span at the beginning of a text. -/
def origin : Span := ⟨0, 0⟩

instance : Inhabited Span := ⟨origin⟩

/-- The least span that covers both. -/
def join (a b : Span) : Span := ⟨min a.start b.start, max a.stop b.stop⟩

def render (s : Span) : String := toString s.start ++ ".." ++ toString s.stop

theorem join_comm (a b : Span) : a.join b = b.join a := by
  simp [join, Nat.min_comm, Nat.max_comm]

theorem join_assoc (a b c : Span) : (a.join b).join c = a.join (b.join c) := by
  simp [join, Nat.min_assoc, Nat.max_assoc]

@[simp] theorem join_self (a : Span) : a.join a = a := by
  simp [join]

/-- Whether `a` lies within `b`. -/
def Within (a b : Span) : Prop := b.start ≤ a.start ∧ a.stop ≤ b.stop

theorem within_join_left (a b : Span) : a.Within (a.join b) :=
  ⟨Nat.min_le_left _ _, Nat.le_max_left _ _⟩

theorem within_join_right (a b : Span) : b.Within (a.join b) :=
  ⟨Nat.min_le_right _ _, Nat.le_max_right _ _⟩

end Span

end PostLisp

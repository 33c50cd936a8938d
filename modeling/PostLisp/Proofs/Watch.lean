import PostLisp.Proofs.Effect

/-!
# Watched evaluation

A watch looks at every node right before it is evaluated, and may stop the evaluation there with an
error of its own.  It is the way to speak of what never happens in the course of a run: nothing of
a kind happened if a watch for it, whatever error it stops with, makes no difference to the run.
-/

namespace PostLisp

/-- When to stop before a node, given the room for it and the state, and with which error. -/
structure Watch where
  alarm : Nat → Node → EvalState → Bool
  error : EvalError

namespace Watch

/-- The watch that never stops anything. -/
def never : Watch where
  alarm _ _ _ := false
  error := ⟨.emptyForm, .origin⟩

/-- Evaluates a node unless the watch stops it. -/
def guard (watch : Watch) (room : Nat) (n : Node) (act : EvalM Value) : EvalM Value := fun s =>
  if watch.alarm room n s then .error watch.error s else act s

theorem guard_of_alarm {watch : Watch} {room : Nat} {n : Node} {act : EvalM Value} {s : EvalState}
    (h : watch.alarm room n s = true) : watch.guard room n act s = .error watch.error s :=
  if_pos h

theorem guard_of_quiet {watch : Watch} {room : Nat} {n : Node} {act : EvalM Value} {s : EvalState}
    (h : watch.alarm room n s = false) : watch.guard room n act s = act s :=
  if_neg (by rw [h]; exact Bool.false_ne_true)

/-- What a watch lets through, it lets through whatever error it would have stopped with. -/
theorem guard_of_ok {alarm : Nat → Node → EvalState → Bool} {e e' : EvalError} {room : Nat}
    {n : Node} {act act' : EvalM Value} {s t : EvalState} {v : Value}
    (hAct : act s = .ok v t → act' s = .ok v t) (h : guard ⟨alarm, e⟩ room n act s = .ok v t) :
    guard ⟨alarm, e'⟩ room n act' s = .ok v t := by
  cases hAlarm : alarm room n s with
  | false =>
    rw [guard_of_quiet hAlarm] at h ⊢
    exact hAct h
  | true =>
    rw [guard_of_alarm hAlarm] at h
    cases h

end Watch

namespace Eval

/-- The evaluation of a node under a watch. -/
def watchedWithin (watch : Watch) : (room : Nat) → Evaluator
  | room, .atom a span => watch.guard room (.atom a span) (atom a span)
  | 0, .list items span => watch.guard 0 (.list items span) do
    let s ← get
    throw ⟨.tooDeep s.session.options.maxDepth, span⟩
  | room + 1, .list items span =>
    watch.guard (room + 1) (.list items span)
      (EvalM.nested (form (watchedWithin watch room) items span))

theorem watchedWithin_never (room : Nat) : watchedWithin .never room = evaluateWithin room := by
  induction room with
  | zero =>
    funext n
    cases n <;> rfl
  | succ room ih =>
    funext n
    cases n with
    | atom a span => rfl
    | list items span =>
      rw [watchedWithin, ih, evaluateWithin]
      rfl

end Eval

end PostLisp

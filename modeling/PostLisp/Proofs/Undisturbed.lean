import PostLisp.Proofs.Simulation

/-!
# What a watch leaves alone

A watched run is the plain run, or the watch has stopped it.  So a watch that could have stopped a
session with any error, and never did, has seen the very run that the session makes without it: the
session is undisturbed by what sets the watch off.
-/

namespace PostLisp

open Eval EvalM

/-- Equality of states; what the watch stops is pardoned. -/
def watching (watch : Watch) : Correspondence Still where
  floats := True
  spans := Eq
  functions _ := Eq
  states _ := Eq
  rooms := Eq
  watch := watch
  pardoned e := e = watch.error
  pardoned' _ := False

namespace watching

variable {watch : Watch} {w : Still} {s : EvalState}

theorem outcome_same {α : Type} {values : Still → α → α → Prop} (hValues : ∀ v, values w v v)
    (r : EStateM.Result EvalError EvalState α) : (watching watch).Outcome w values r r := by
  cases r with
  | ok v t => exact .ok (le_refl w) (hValues v) rfl
  | error e t => exact .error (le_refl w) rfl rfl rfl

theorem alike_refl (v : Value) : (watching watch).Alike w v v := Value.Like.refl trivial (fun _ => rfl) v

/-- Equality up to what the watch stops. -/
theorem eq_or_stopped {r r' : EStateM.Result EvalError EvalState Value}
    (h : (watching watch).Outcome w (watching watch).Alike r r') :
    r = r' ∨ ∃ t, r = .error watch.error t := by
  cases h with
  | @pardoned e t _ h => exact Or.inr ⟨t, by rw [show e = watch.error from h]⟩
  | pardoned' h => exact h.elim
  | ok _ hValue hStates => exact Or.inl (by rw [hValue.eq, show _ = _ from hStates])
  | @error _ e e' t t' _ hFault hSpan hStates =>
    cases EvalError.eq_of_parts hFault hSpan
    exact Or.inl (by rw [show t = t' from hStates])

theorem outcome_apply {ev ev' : Evaluator} (hEv : (watching watch).Simulates ev ev')
    (f : Closure Value) (args : List Value) (span : Span) :
    (watching watch).Outcome w (watching watch).Alike (apply ev f args span s)
      (apply ev' f args span s) := by
  by_cases hArity : args.length = f.params.length
  · cases hFound : (s.session.keyOf f args).bind s.session.cache.find? with
    | some v =>
      rw [apply_remembered hArity hFound, apply_remembered hArity hFound]
      exact outcome_same alike_refl _
    | none =>
      refine Comparison.outcome_apply_run hArity hArity hFound hFound ?_ ?_ ?_
      · exact Comparison.outcome_inOrder hEv
          (Node.LikeAll.refl trivial (fun _ => rfl) _) .void rfl
      · intro w' v v' t t' _ _ _ hValue hStates
        show EvalState.mk _ _ = EvalState.mk _ _
        rw [hValue.eq, show t = t' from hStates]
      · intro w' t t' _ hStates
        show EvalState.mk _ _ = EvalState.mk _ _
        rw [show t = t' from hStates]
  · rw [apply_arity hArity, apply_arity hArity]
    exact outcome_same alike_refl _

theorem laws (watch : Watch) : (watching watch).Laws where
  functions_mono _ h := h
  alarm _ _ := rfl
  rooms_succ h := Nat.succ.inj h
  rooms_zero h := Or.inr ⟨h.symm, fun _ _ _ hStates => by rw [show _ = _ from hStates]⟩
  rooms_zero' h := by cases h
  enterForm h := congrArg EvalState.enterForm h
  leaveForm h := congrArg EvalState.leaveForm h
  lookup := by
    rintro _ _ _ name s _ _ _ rfl
    refine .alike ?_
    cases s.frame.lookup s.session.globals name with
    | none => exact .none
    | some v => exact .some (alike_refl v)
  define := by
    rintro _ _ _ _ _ _ name _ t _ v v' _ _ _ hValue rfl
    rw [← hValue.eq]
    exact outcome_same (fun _ => trivial) _
  compare _ _ _ _ hValue hNext := by rw [hValue.eq, hNext.eq]
  makeFunction := by
    rintro _ params body body' s _ hBody rfl
    rw [← hBody.eq]
    exact outcome_same alike_refl _
  apply := by
    rintro _ room room' f _ args args' span _ s _ hRooms hEv rfl - hArgs rfl rfl
    rw [← hArgs.eq]
    exact outcome_apply (hEv _ hRooms) f args span

end watching

namespace Eval

/-- **A watched evaluation is the plain one, or the watch has stopped it.** -/
theorem watchedWithin_or (watch : Watch) (room : Nat) (n : Node) (s : EvalState) :
    watchedWithin watch room n s = evaluateWithin room n s ∨
      ∃ t, watchedWithin watch room n s = .error watch.error t :=
  watching.eq_or_stopped ((watching.laws watch).simulates rfl n n
    (Node.Like.refl trivial (fun _ => rfl) n) ⟨⟩ s s rfl)

theorem inOrder_watchedWithin_or (watch : Watch) (room : Nat) (last : Value) (ns : List Node)
    (s : EvalState) :
    inOrder (watchedWithin watch room) last ns s = inOrder (evaluateWithin room) last ns s ∨
      ∃ t, inOrder (watchedWithin watch room) last ns s = .error watch.error t :=
  watching.eq_or_stopped (w := ⟨⟩) (Comparison.outcome_inOrder
    ((watching.laws watch).simulates rfl) (Node.LikeAll.refl trivial (fun _ => rfl) ns)
    (watching.alike_refl last) rfl)

theorem evaluateWithin_of_watched {watch : Watch} {room : Nat} {n : Node} {s t : EvalState}
    {v : Value} (h : watchedWithin watch room n s = .ok v t) : evaluateWithin room n s = .ok v t := by
  rcases watchedWithin_or watch room n s with hSame | ⟨t', hStopped⟩
  · rw [← hSame, h]
  · rw [hStopped] at h
    cases h

theorem inOrder_of_watched {watch : Watch} {room : Nat} {last : Value} {ns : List Node}
    {s t : EvalState} {v : Value} (h : inOrder (watchedWithin watch room) last ns s = .ok v t) :
    inOrder (evaluateWithin room) last ns s = .ok v t := by
  rcases inOrder_watchedWithin_or watch room last ns s with hSame | ⟨t', hStopped⟩
  · rw [← hSame, h]
  · rw [hStopped] at h
    cases h

/-- A run that a watch has not stopped is not stopped with another error either. -/
theorem watchedWithin_of_ok {alarm : Nat → Node → EvalState → Bool} {e : EvalError} (e' : EvalError)
    {room : Nat} {n : Node} {s t : EvalState} {v : Value}
    (h : watchedWithin ⟨alarm, e⟩ room n s = .ok v t) :
    watchedWithin ⟨alarm, e'⟩ room n s = .ok v t := by
  induction room generalizing n s t v with
  | zero => cases n <;> exact Watch.guard_of_ok id h
  | succ room ih =>
    cases n with
    | atom a span => exact Watch.guard_of_ok id h
    | list items span =>
      refine Watch.guard_of_ok (fun hNested => ?_) h
      obtain ⟨m, hForm, rfl⟩ := of_nested_ok hNested
      refine nested_ok ?_
      have hEv := fun n s v t => ih (n := n) (s := s) (v := v) (t := t)
      rw [← formBy_apply] at hForm ⊢
      rcases formBy_cases items span with ⟨act, hAsks, hBy⟩ | ⟨act, hAsks, hBy⟩
      · rw [hBy] at hForm ⊢
        exact hAsks.ok hEv hForm
      · rw [hBy] at hForm ⊢
        obtain ⟨c, u, hCalling, hCall⟩ := of_bind_ok hForm
        exact (bind_ok (hAsks.ok hEv hCalling)).trans (apply_of_ok hEv hCall)

end Eval

/-! ### Sessions of several texts -/

namespace Session

/-- Some error is not the one that something has ended in. -/
theorem exists_other_error (r : Except RunError Value) : ∃ e, r ≠ .error (.eval e) := by
  by_cases h : r = .error (.eval ⟨.emptyForm, .origin⟩)
  · refine ⟨⟨.divisionByZero, .origin⟩, ?_⟩
    rw [h]
    exact nofun
  · exact ⟨_, h⟩

/-- Reads a text and runs it with a given evaluator. -/
def runTextBy (ev : Evaluator) (s : Session) (text : String) : Except RunError Value × Session :=
  match Program.ofString text with
  | .error e => (.error (.parse e), s)
  | .ok program =>
    let (result, t) := s.perform .top (inOrder ev .void program)
    (result.mapError .eval, t.session)

theorem runTextBy_evaluate (s : Session) (text : String) :
    s.runTextBy Eval.evaluate text = s.runText text := rfl

/-- Runs texts one after the other, each in the session that the one before it has left. -/
def runAllBy (ev : Evaluator) : Session → List String → List (Except RunError Value × Session)
  | _, [] => []
  | s, text :: texts => s.runTextBy ev text :: runAllBy ev (s.runTextBy ev text).2 texts

/-- The result and the session after each of the texts. -/
def runAll (s : Session) (texts : List String) : List (Except RunError Value × Session) :=
  s.runAllBy Eval.evaluate texts

/-- Evaluates a node under a watch, with what room the session has left. -/
def watched (watch : Watch) : Evaluator := fun n s => watchedWithin watch s.session.room n s

/-- In the course of the texts nothing sets off the alarm: whatever error a watch for it stops
with, the session does not differ. -/
def Undisturbed (alarm : Nat → Node → EvalState → Bool) (s : Session) (texts : List String) : Prop :=
  ∀ e, s.runAllBy (watched ⟨alarm, e⟩) texts = s.runAll texts

/-- Evaluators that make no difference to several texts make none to the first and, after it, to the
others. -/
theorem runAllBy_of_cons {ev : EvalError → Evaluator} {s : Session} {text : String}
    {texts : List String} (h : ∀ e, s.runAllBy (ev e) (text :: texts) = s.runAll (text :: texts)) :
    (∀ e, s.runTextBy (ev e) text = s.runText text) ∧
      ∀ e, (s.runText text).2.runAllBy (ev e) texts = (s.runText text).2.runAll texts := by
  have hBoth : ∀ e, s.runTextBy (ev e) text = s.runText text ∧
      (s.runTextBy (ev e) text).2.runAllBy (ev e) texts = (s.runText text).2.runAll texts :=
    fun e => List.cons.inj (h e)
  refine ⟨fun e => (hBoth e).1, fun e => ?_⟩
  obtain ⟨hFirst, hRest⟩ := hBoth e
  rwa [hFirst] at hRest

/-- What is undisturbed by several texts is so by the first and, after it, by the others. -/
theorem Undisturbed.of_cons {alarm : Nat → Node → EvalState → Bool} {s : Session} {text : String}
    {texts : List String} (h : s.Undisturbed alarm (text :: texts)) :
    (∀ e, s.runTextBy (watched ⟨alarm, e⟩) text = s.runText text) ∧
      (s.runText text).2.Undisturbed alarm texts :=
  runAllBy_of_cons h

end Session

end PostLisp

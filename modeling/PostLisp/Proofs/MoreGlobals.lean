import PostLisp.Proofs.Recursion
import PostLisp.Proofs.Undisturbed

/-!
# More globals change nothing inside a call

A call looks a name up among the globals only when neither its locals nor what its function captured
binds it, an unknown name ends the run, and a function made in a call captures locals.  So code in a
call that ends in a value does the same when the globals bind more names, and keep the values of the
names that they bound (`evaluate_withGlobals`, `apply_withGlobals`).  At top level it is not so: a
function made there captures the globals, the new ones included.
-/

namespace PostLisp

/-- Every binding is kept, and there may be more. -/
def Bindings.Extends {α : Type} (c b : Bindings α) : Prop :=
  ∀ name v, b.find? name = some v → c.find? name = some v

theorem Bindings.extends_insert {α : Type} (b : Bindings α) {name : String}
    (hNew : b.find? name = none) (v : α) : (b.insert name v).Extends b := by
  intro other x h
  rw [find?_insert]
  split
  · rename_i hSame
    rw [← hSame, hNew] at h
    cases h
  · exact h

theorem Frame.lookup_extends {g g' : Bindings Value} (hExtends : g'.Extends g) {frame : Frame}
    {name : String} {v : Value} (h : frame.lookup g name = some v) :
    frame.lookup g' name = some v := by
  cases frame with
  | top => exact hExtends name v h
  | call locals captured =>
    rw [lookup] at h ⊢
    cases hLocals : locals.find? name with
    | some x => rwa [hLocals] at h
    | none =>
      cases hCaptured : captured.find? name with
      | some x => rwa [hLocals, hCaptured] at h
      | none =>
        rw [hLocals, hCaptured] at h
        exact hExtends name v h

namespace Session

/-- The session with other globals. -/
def withGlobals (s : Session) (g : Bindings Value) : Session := { s with globals := g }

theorem returned_withGlobals (s : Session) (g : Bindings Value) (key : Option CallKey) (v : Value) :
    (s.withGlobals g).returned key v = (s.returned key v).withGlobals g := by
  cases key <;> rfl

end Session

open Eval EvalM

/-- States inside a call that are equal but for the globals, `g` in the first one and `g'` in the
second.  A first run that fails is of no interest. -/
def widening (g g' : Bindings Value) : Correspondence Still where
  floats := True
  spans := Eq
  functions _ := Eq
  states _ s s' :=
    s.session.globals = g ∧ s.frame.isTop = false ∧ s' = ⟨s.session.withGlobals g', s.frame⟩
  rooms := Eq
  watch := .never
  pardoned _ := True
  pardoned' _ := False

namespace widening

variable {g g' : Bindings Value} {w : Still} {s t : EvalState} {v : Value}

theorem alike_refl (v : Value) : (widening g g').Alike w v v :=
  Value.Like.refl trivial (fun _ => rfl) v

/-- A run that ends in a value is matched by the run with the other globals. -/
theorem eq_of_outcome {r : EStateM.Result EvalError EvalState Value}
    (h : (widening g g').Outcome w (widening g g').Alike (.ok v t) r) :
    t.session.globals = g ∧ r = .ok v ⟨t.session.withGlobals g', t.frame⟩ := by
  cases h with
  | ok _ hValue hStates =>
    obtain ⟨hGlobals, -, rfl⟩ := hStates
    exact ⟨hGlobals, by rw [hValue.eq]⟩
  | pardoned' h => exact h.elim

/-- A call that ends in a value, from any frame. -/
theorem apply_ok {ev ev' : Evaluator} (hEv : (widening g g').Simulates ev ev')
    {f : Closure Value} {args : List Value} {span : Span} (hGlobals : s.session.globals = g)
    (h : apply ev f args span s = .ok v t) :
    t.session.globals = g ∧ t.frame = s.frame ∧
      apply ev' f args span ⟨s.session.withGlobals g', s.frame⟩ =
        .ok v ⟨t.session.withGlobals g', t.frame⟩ := by
  by_cases hArity : args.length = f.params.length
  · cases hFound : (s.session.keyOf f args).bind s.session.cache.find? with
    | some x =>
      rw [apply_remembered hArity hFound] at h
      cases h
      exact ⟨hGlobals, rfl, apply_remembered hArity hFound⟩
    | none =>
      have hInside : (widening g g').Outcome ⟨⟩ (widening g g').Alike
          (inOrder ev .void f.body
            ⟨s.session.entered f (s.session.keyOf f args).isSome, f.frame args⟩)
          (inOrder ev' .void f.body
            ⟨(s.session.entered f (s.session.keyOf f args).isSome).withGlobals g', f.frame args⟩) :=
        Comparison.outcome_inOrder hEv (Node.LikeAll.refl trivial (fun _ => rfl) f.body) .void
          ⟨hGlobals, rfl, rfl⟩
      cases hBody : inOrder ev .void f.body
          ⟨s.session.entered f (s.session.keyOf f args).isSome, f.frame args⟩ with
      | error e u =>
        rw [apply_run_error hArity hFound hBody] at h
        cases h
      | ok x u =>
        rw [hBody] at hInside
        obtain ⟨hKept, hBody'⟩ := eq_of_outcome hInside
        rw [apply_run_ok hArity hFound hBody] at h
        cases h
        refine ⟨?_, rfl, ?_⟩
        · cases s.session.keyOf f args <;> exact hKept
        · rw [← Session.returned_withGlobals]
          exact apply_run_ok (s := ⟨s.session.withGlobals g', s.frame⟩) hArity hFound hBody'
  · rw [apply_arity hArity] at h
    cases h

theorem laws (hExtends : g'.Extends g) : (widening g g').Laws where
  functions_mono _ h := h
  alarm _ h := by cases h
  rooms_succ h := Nat.succ.inj h
  rooms_zero _ := Or.inl fun _ _ => trivial
  rooms_zero' h := by cases h
  enterForm := by
    rintro _ s _ ⟨hGlobals, hFrame, rfl⟩
    exact ⟨hGlobals, hFrame, rfl⟩
  leaveForm := by
    rintro _ s _ ⟨hGlobals, hFrame, rfl⟩
    exact ⟨hGlobals, hFrame, rfl⟩
  lookup := by
    rintro _ _ _ name s _ - - ⟨hGlobals, -, rfl⟩
    rw [hGlobals]
    cases hFound : s.frame.lookup g name with
    | none => exact .missing fun _ => trivial
    | some v =>
      have hFound' : s.frame.lookup (s.session.withGlobals g').globals name = some v :=
        Frame.lookup_extends hExtends hFound
      rw [hFound']
      exact .alike (.some (alike_refl v))
  define := by
    rintro _ _ _ _ _ _ name _ t _ v v' - - - hValue ⟨hGlobals, hFrame, rfl⟩
    rw [← hValue.eq]
    obtain ⟨session, frame⟩ := t
    cases frame with
    | top => cases hFrame
    | call locals captured => exact .ok (le_refl _) trivial ⟨hGlobals, rfl, rfl⟩
  compare _ _ _ _ hValue hNext := by rw [hValue.eq, hNext.eq]
  makeFunction := by
    rintro _ params body body' s _ hBody ⟨hGlobals, hFrame, rfl⟩
    rw [← hBody.eq]
    obtain ⟨session, frame⟩ := s
    cases frame with
    | top => cases hFrame
    | call locals captured => exact .ok (le_refl _) (alike_refl _) ⟨hGlobals, rfl, rfl⟩
  apply := by
    rintro _ room room' f _ args args' span _ s _ hRooms hEv rfl - hArgs rfl ⟨hGlobals, hFrame, rfl⟩
    rw [← hArgs.eq]
    cases h : apply (watchedWithin (widening g g').watch room) f args span s with
    | error e t => exact .pardoned trivial
    | ok v t =>
      obtain ⟨hKept, hBack, h'⟩ := apply_ok (hEv _ hRooms) hGlobals h
      rw [h']
      exact .ok (le_refl _) (alike_refl v) ⟨hKept, by rwa [hBack], rfl⟩

/-- Evaluation with what room there is. -/
theorem simulates_evaluate (hExtends : g'.Extends g) :
    (widening g g').Simulates evaluate evaluate := by
  rintro n n' hNodes w s s' ⟨hGlobals, hFrame, rfl⟩
  have hAll := (laws hExtends).simulates (Eq.refl s.session.room)
  rw [show (widening g g').watch = .never from rfl, watchedWithin_never] at hAll
  exact hAll n n' hNodes w s _ ⟨hGlobals, hFrame, rfl⟩

end widening

namespace Session

variable {s : Session} {g' : Bindings Value}

theorem evaluate_withGlobals (hExtends : g'.Extends s.globals) {locals captured : Bindings Value}
    {n : Node} {v : Value} {t : EvalState}
    (h : s.evaluate (.call locals captured) n = (.ok v, t)) :
    (s.withGlobals g').evaluate (.call locals captured) n =
      (.ok v, ⟨t.session.withGlobals g', t.frame⟩) := by
  have hStates : (widening s.globals g').states ⟨⟩ ⟨s, .call locals captured⟩
      ⟨s.withGlobals g', .call locals captured⟩ := ⟨rfl, rfl, rfl⟩
  have hOutcome := widening.simulates_evaluate hExtends n n (Node.Like.refl trivial (fun _ => rfl) n)
    ⟨⟩ _ _ hStates
  rw [evaluate, perform] at h ⊢
  cases hRun : Eval.evaluate n ⟨s, .call locals captured⟩ with
  | error e u =>
    rw [hRun] at h
    cases h
  | ok x u =>
    rw [hRun] at h hOutcome
    cases h
    rw [(widening.eq_of_outcome hOutcome).2]

theorem apply_withGlobals (hExtends : g'.Extends s.globals) {f : Closure Value} {args : List Value}
    {span : Span} {v : Value} {t : Session} (h : s.apply f args span = (.ok v, t)) :
    (s.withGlobals g').apply f args span = (.ok v, t.withGlobals g') := by
  rw [apply, perform] at h ⊢
  cases hRun : Eval.apply Eval.evaluate f args span ⟨s, .top⟩ with
  | error e u =>
    rw [hRun] at h
    cases h
  | ok x u =>
    rw [hRun] at h
    cases h
    obtain ⟨-, -, hRun'⟩ := widening.apply_ok (widening.simulates_evaluate hExtends) rfl hRun
    rw [hRun']

/-- **More globals change nothing for code that works.**  What a node has as its value in a call, or
a function for some arguments, it still has when the globals bind more names, and all that is left
behind, in the frame and in the session, is the same but for these globals. -/
theorem more_globals_change_nothing (s : Session) {g' : Bindings Value}
    (hExtends : g'.Extends s.globals) :
    (∀ locals captured n v t, s.evaluate (.call locals captured) n = (.ok v, t) →
      (s.withGlobals g').evaluate (.call locals captured) n =
        (.ok v, ⟨t.session.withGlobals g', t.frame⟩)) ∧
    ∀ f args span v t, s.apply f args span = (.ok v, t) →
      (s.withGlobals g').apply f args span = (.ok v, t.withGlobals g') :=
  ⟨fun _ _ _ _ _ => evaluate_withGlobals hExtends, fun _ _ _ _ _ => apply_withGlobals hExtends⟩

/-- A call that reads a global, with one global more. -/
theorem more_globals_change_nothing_for_call :
    let s := ((new .standard).runText "(y 2 define) (f ((x) (x y +) lambda) define)").2
    let g := s.globals.insert "z" (.integer 3)
    let frame := Frame.call (Bindings.empty.insert "x" (.integer 1)) .empty
    let n := Node.list [.atom (.symbol "x") .origin, .atom (.symbol "f") .origin] .origin
    g.Extends s.globals ∧ ∃ v t, s.evaluate frame n = (.ok v, t) ∧ t.session.calls = 1 ∧
      (s.withGlobals g).evaluate frame n = (.ok v, ⟨t.session.withGlobals g, t.frame⟩) := by
  intro s g frame n
  have hNew : (s.globals.find? "z").isNone = true := by decide +kernel
  have hExtends : g.Extends s.globals :=
    s.globals.extends_insert (Option.isNone_iff_eq_none.1 hNew) (.integer 3)
  have hOk : (s.evaluate frame n).1.toOption.isSome = true := by decide +kernel
  have hCalls : (s.evaluate frame n).2.session.calls = 1 := by decide +kernel
  have hEvaluate := (more_globals_change_nothing s hExtends).1 (Bindings.empty.insert "x" (.integer 1))
    .empty n
  cases hRun : s.evaluate frame n with
  | mk r t =>
    rw [hRun] at hOk hCalls
    cases r with
    | error e => cases hOk
    | ok v => exact ⟨hExtends, v, t, rfl, hCalls, hEvaluate v t hRun⟩

end Session

end PostLisp

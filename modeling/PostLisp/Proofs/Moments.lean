import PostLisp.Proofs.WriteOnce

/-!
# What a run passes through

A run can be interrupted at the first moment, right before a call or right after it, at which the
state meets a condition (`Caller.interrupted`).  The states in which such runs end are the ones that
the run passes through.  Between two calls nothing is remembered, so these are all the states that
matter for what is.

Of a run in which no call would replace a result, every state keeps what the ones before it remember
(`interrupts_evaluateBy`).
-/

namespace PostLisp

open EvalM

namespace EvalM

variable {α : Type} {stop : EvalState → Prop} {e e' : EvalError} {act : EvalM α} {s t : EvalState}
  {v : α}

open Classical in
/-- The action fails if the state before it or after it meets the condition. -/
noncomputable def interrupted (stop : EvalState → Prop) (e : EvalError) (act : EvalM α) : EvalM α :=
  fun s =>
    if stop s then .error e s
    else match act s with
      | .ok v t => if stop t then .error e t else .ok v t
      | .error e' t => .error e' t

theorem interrupted_before (hStop : stop s) : act.interrupted stop e s = .error e s := if_pos hStop

theorem interrupted_after (hBefore : ¬ stop s) (hRun : act s = .ok v t) (hStop : stop t) :
    act.interrupted stop e s = .error e t := by
  rw [interrupted, if_neg hBefore, hRun]
  exact if_pos hStop

theorem interrupted_ok (hBefore : ¬ stop s) (hRun : act s = .ok v t) (hAfter : ¬ stop t) :
    act.interrupted stop e s = .ok v t := by
  rw [interrupted, if_neg hBefore, hRun]
  exact if_neg hAfter

theorem interrupted_error (hBefore : ¬ stop s) (hRun : act s = .error e' t) :
    act.interrupted stop e s = .error e' t := by
  rw [interrupted, if_neg hBefore, hRun]

theorem final_interrupted (hBefore : ¬ stop s) : (act.interrupted stop e).final s = act.final s := by
  cases hRun : act s with
  | error e' t => rw [final_error hRun, final_error (interrupted_error hBefore hRun)]
  | ok v t =>
    by_cases hStop : stop t
    · rw [final_ok hRun, final_error (interrupted_after hBefore hRun hStop)]
    · rw [final_ok hRun, final_ok (interrupted_ok hBefore hRun hStop)]

end EvalM

namespace Eval

variable {α β : Type} {e refused : EvalError} {s : EvalState}

/-- A call fails if the state before it or after it meets the condition. -/
noncomputable def Caller.interrupted (stop : EvalState → Prop) (e : EvalError) : Caller :=
  fun pending ev f args span => (apply (ev pending) f args span).interrupted stop e

theorem Caller.interrupted_never (e : EvalError) : Caller.interrupted (fun _ => False) e = .plain := by
  funext pending ev f args span s
  rw [Caller.interrupted, Caller.plain]
  cases hRun : apply (ev pending) f args span s with
  | error e' t => exact interrupted_error id hRun
  | ok v t => exact interrupted_ok id hRun id

/-- What becomes of an action that is interrupted sooner or later.  It keeps the results of the
start.  The one interrupted sooner has come to a state whose results the other keeps, and the other
is the whole action if it is not interrupted. -/
structure Interrupts (e : EvalError) (whole sooner later : EvalM α) (s : EvalState) : Prop where
  start : s.session.Keeps (later.final s).session
  sooner : sooner s = later s ∨
    ∃ t, sooner s = .error e t ∧ t.session.Keeps (later.final s).session
  later : later s = whole s ∨ ∃ t, later s = .error e t

namespace Interrupts

variable {whole sooner later : EvalM α}

/-- What is remembered when an action is interrupted sooner is so when it is later. -/
theorem keeps (h : Interrupts e whole sooner later s) :
    (sooner.final s).session.Keeps (later.final s).session := by
  rcases h.sooner with hSame | ⟨t, hStopped, hKeeps⟩
  · rw [final, hSame]
    exact .refl _
  · rw [final_error hStopped]
    exact hKeeps

/-- What is not interrupted. -/
theorem of_keeps {act : EvalM α} (h : s.session.Keeps (act.final s).session) :
    Interrupts e act act act s :=
  ⟨h, Or.inl rfl, Or.inl rfl⟩

/-- What ends as it does when it is not interrupted. -/
theorem of_same (hSooner : sooner s = whole s) (hLater : later s = whole s)
    (h : s.session.Keeps (whole.final s).session) : Interrupts e whole sooner later s := by
  refine ⟨?_, Or.inl (hSooner.trans hLater.symm), Or.inl hLater⟩
  rw [final] at h ⊢
  rwa [hLater]

/-- Actions that go on as others do from a later state. -/
theorem of_eq {whole' sooner' later' : EvalM α} {m : EvalState} (hStart : s.session.Keeps m.session)
    (hWhole : whole s = whole' m) (hSooner : sooner s = sooner' m) (hLater : later s = later' m)
    (h : Interrupts e whole' sooner' later' m) : Interrupts e whole sooner later s := by
  have hFinal : later.final s = later'.final m := by rw [final, final, hLater]
  refine ⟨?_, ?_, ?_⟩
  · rw [hFinal]
    exact hStart.trans h.start
  · rw [hFinal, hSooner, hLater]
    exact h.sooner
  · rw [hWhole, hLater]
    exact h.later

theorem bind {next next' next'' : α → EvalM β} (h : Interrupts e whole sooner later s)
    (hNext : ∀ v t, whole s = .ok v t → Interrupts e (next v) (next' v) (next'' v) t) :
    Interrupts e (whole >>= next) (sooner >>= next') (later >>= next'') s := by
  have hStart := h.start
  have hSooner := h.sooner
  cases hLater : later s with
  | error e' t =>
    have hRun : (later >>= next'') s = .error e' t := bind_error hLater
    rw [final_error hLater] at hStart hSooner
    refine ⟨by rwa [final_error hRun], ?_, ?_⟩
    · rw [hRun, final_error hRun]
      rcases hSooner with hSame | ⟨u, hStopped, hKeeps⟩
      · exact Or.inl (bind_error (hSame.trans hLater))
      · exact Or.inr ⟨u, bind_error hStopped, hKeeps⟩
    · rcases h.later with hSame | ⟨u, hStopped⟩
      · exact Or.inl (hRun.trans (bind_error (hSame.symm.trans hLater)).symm)
      · exact Or.inr ⟨u, bind_error hStopped⟩
  | ok v t =>
    have hWhole : whole s = .ok v t := by
      rcases h.later with hSame | ⟨u, hStopped⟩
      · exact hSame.symm.trans hLater
      · cases hStopped.symm.trans hLater
    have hRest := hNext v t hWhole
    have hFinal : (later >>= next'').final s = (next'' v).final t := by
      rw [final, final, bind_ok hLater]
    rw [final_ok hLater] at hStart hSooner
    refine ⟨?_, ?_, ?_⟩
    · rw [hFinal]
      exact hStart.trans hRest.start
    · rw [hFinal, bind_ok hLater]
      rcases hSooner with hSame | ⟨u, hStopped, hKeeps⟩
      · rw [bind_ok (hSame.trans hLater)]
        exact hRest.sooner
      · exact Or.inr ⟨u, bind_error hStopped, hKeeps.trans hRest.start⟩
    · rw [bind_ok hLater, bind_ok hWhole]
      exact hRest.later

/-- What is done before and after leaves the cache alone. -/
theorem around {before after : EvalState → EvalState}
    (hBefore : ∀ s : EvalState, s.session.Keeps (before s).session)
    (hAfter : ∀ s t : EvalState, s.session.Keeps t.session →
      (after s).session.Keeps (after t).session ∧ s.session.Keeps (after t).session)
    (h : Interrupts e whole sooner later (before s)) :
    Interrupts e (EvalM.around before after whole) (EvalM.around before after sooner)
      (EvalM.around before after later) s := by
  have hFinal : (EvalM.around before after later).final s = after (later.final (before s)) := by
    rw [final, final, EvalM.around]
    cases later (before s) <;> rfl
  have hError {act : EvalM α} {t : EvalState} (hRun : act (before s) = .error e t) :
      EvalM.around before after act s = .error e (after t) := by
    rw [EvalM.around, hRun]
  refine ⟨?_, ?_, ?_⟩
  · rw [hFinal]
    exact (hBefore s).trans (hAfter _ _ h.start).2
  · rw [hFinal]
    rcases h.sooner with hSame | ⟨t, hStopped, hKeeps⟩
    · exact Or.inl (by rw [EvalM.around, EvalM.around, hSame])
    · exact Or.inr ⟨_, hError hStopped, (hAfter _ _ hKeeps).1⟩
  · rcases h.later with hSame | ⟨t, hStopped⟩
    · exact Or.inl (by rw [EvalM.around, EvalM.around, hSame])
    · exact Or.inr ⟨_, hError hStopped⟩

theorem nested (h : Interrupts e whole sooner later s.enterForm) :
    Interrupts e (EvalM.nested whole) (EvalM.nested sooner) (EvalM.nested later) s :=
  .around (fun _ => .of_cache rfl (Nat.le_refl _))
    (fun _ _ hKeeps => ⟨⟨hKeeps.entries, hKeeps.nextId⟩, ⟨hKeeps.entries, hKeeps.nextId⟩⟩) h

theorem inFrame {frame : Frame} (h : Interrupts e whole sooner later ⟨s.session, frame⟩) :
    Interrupts e (EvalM.inFrame frame whole) (EvalM.inFrame frame sooner)
      (EvalM.inFrame frame later) s := by
  have hAround (act : EvalM α) : EvalM.inFrame frame act s =
      EvalM.around (fun s => { s with frame }) (fun t => { t with frame := s.frame }) act s := rfl
  refine .of_eq (.refl _) (hAround whole) (hAround sooner) (hAround later) (.around ?_ ?_ h)
  · exact fun _ => .refl _
  · exact fun _ _ hKeeps => ⟨hKeeps, hKeeps⟩

/-- The condition that is met later is met sooner. -/
theorem interrupted {stop stop' : EvalState → Prop} (hStop : ∀ t, stop' t → stop t)
    (h : Interrupts e whole sooner later s) :
    Interrupts e whole (sooner.interrupted stop e) (later.interrupted stop' e) s := by
  by_cases hBefore' : stop' s
  · have hLater : later.interrupted stop' e s = .error e s := interrupted_before hBefore'
    refine ⟨by rw [final_error hLater]; exact .refl _, Or.inl ?_, Or.inr ⟨s, hLater⟩⟩
    exact (interrupted_before (hStop s hBefore')).trans hLater.symm
  · have hFinal : (later.interrupted stop' e).final s = later.final s := final_interrupted hBefore'
    refine ⟨by rw [hFinal]; exact h.start, ?_, ?_⟩
    · rw [hFinal]
      by_cases hBefore : stop s
      · exact Or.inr ⟨s, interrupted_before hBefore, h.start⟩
      rcases h.sooner with hSame | ⟨t, hStopped, hKeeps⟩
      · cases hRun : later s with
        | error e' t =>
          exact Or.inl ((interrupted_error hBefore (hSame.trans hRun)).trans
            (interrupted_error hBefore' hRun).symm)
        | ok v t =>
          by_cases hAfter : stop t
          · refine Or.inr ⟨t, interrupted_after hBefore (hSame.trans hRun) hAfter, ?_⟩
            rw [final_ok hRun]
            exact .refl _
          · exact Or.inl ((interrupted_ok hBefore (hSame.trans hRun) hAfter).trans
              (interrupted_ok hBefore' hRun fun h => hAfter (hStop t h)).symm)
      · exact Or.inr ⟨t, interrupted_error hBefore hStopped, hKeeps⟩
    · rcases h.later with hSame | ⟨t, hStopped⟩
      · cases hRun : whole s with
        | error e' t => exact Or.inl (interrupted_error hBefore' (hSame.trans hRun))
        | ok v t =>
          by_cases hAfter : stop' t
          · exact Or.inr ⟨t, interrupted_after hBefore' (hSame.trans hRun) hAfter⟩
          · exact Or.inl (interrupted_ok hBefore' (hSame.trans hRun) hAfter)
      · exact Or.inr ⟨t, interrupted_error hBefore' hStopped⟩

end Interrupts

section

variable {whole sooner later : Evaluator}

/-- Actions are interrupted as the evaluators are that they ask. -/
theorem Asks.interrupts {act : Evaluator → EvalM α} (h : Asks act)
    (hEv : ∀ n s, (∀ t, whole n s ≠ .error refused t) →
      Interrupts e (whole n) (sooner n) (later n) s)
    (hRun : ∀ t, act whole s ≠ .error refused t) :
    Interrupts e (act whole) (act sooner) (act later) s := by
  induction h generalizing s with
  | const hAside =>
    exact .of_keeps (.of_cache (hAside s).cache (hAside s).counted.nextId)
  | node n => exact hEv n s hRun
  | bind _ _ ihFirst ihRest =>
    refine (ihFirst fun t hFirst => hRun t (bind_error hFirst)).bind fun v t hFirst => ?_
    exact ihRest v fun u hRest => hRun u ((bind_ok hFirst).trans hRest)

/-- A call that replaces no result is interrupted when its body is. -/
theorem interrupts_apply {f : Closure Value} {args : List Value} {span : Span}
    (hEv : ∀ n s, (∀ t, whole n s ≠ .error refused t) →
      Interrupts e (whole n) (sooner n) (later n) s)
    (hNew : ¬ Replaces whole f args s)
    (hRun : ∀ t, apply whole f args span s ≠ .error refused t) :
    Interrupts e (apply whole f args span) (apply sooner f args span) (apply later f args span) s := by
  by_cases hArity : args.length = f.params.length
  · cases hFound : (s.session.keyOf f args).bind s.session.cache.find? with
    | some v =>
      refine .of_same ((apply_remembered hArity hFound).trans (apply_remembered hArity hFound).symm)
        ((apply_remembered hArity hFound).trans (apply_remembered hArity hFound).symm) ?_
      rw [final_ok (apply_remembered hArity hFound)]
      exact .of_cache rfl (Nat.le_refl _)
    | none =>
      have hEntered (cacheable : Bool) : s.session.Keeps (s.session.entered f cacheable) :=
        .of_cache rfl (Nat.le_refl _)
      have hBody : Interrupts e (inOrder whole .void f.body) (inOrder sooner .void f.body)
          (inOrder later .void f.body)
          ⟨s.session.entered f (s.session.keyOf f args).isSome, f.frame args⟩ :=
        (asks_inOrder .void f.body).interrupts hEv fun t hFails =>
          hRun _ (apply_run_error hArity hFound hFails)
      refine .of_eq (hEntered _) (apply_run hArity hFound) (apply_run hArity hFound)
        (apply_run hArity hFound) (.bind (.inFrame hBody) fun v t hEnds => .of_keeps ?_)
      have hRemember : (do remember (s.session.keyOf f args) v; pure v : EvalM Value) t =
          .ok v ⟨t.session.returned (s.session.keyOf f args) v, t.frame⟩ := by
        cases s.session.keyOf f args <;> rfl
      rw [final_ok hRemember]
      refine .returned t.session (fun key hKey => ?_) v
      rw [EvalM.inFrame, EvalM.around] at hEnds
      split at hEnds
      · rename_i hInside
        cases hEnds
        have hFree := new_of_not_replaces hNew hArity hFound hKey hInside
        exact hFree
      · cases hEnds
  · refine .of_same ((apply_arity hArity).trans (apply_arity hArity).symm)
      ((apply_arity hArity).trans (apply_arity hArity).symm) ?_
    rw [final_error (apply_arity hArity)]
    exact .refl _

/-- A call that replaces no result, interrupted sooner or later. -/
theorem interrupts_call {pending : List Pending} {wholes sooners laters : List Pending → Evaluator}
    (hEv : ∀ n s, (∀ t, wholes pending n s ≠ .error refused t) →
      Interrupts e (wholes pending n) (sooners pending n) (laters pending n) s)
    {stop stop' : EvalState → Prop} (hStop : ∀ t, stop' t → stop t)
    {f : Closure Value} {args : List Value} {span : Span}
    (hRun : ∀ t, Caller.once refused pending wholes f args span s ≠ .error refused t) :
    Interrupts e (Caller.once refused pending wholes f args span)
      (Caller.interrupted stop e pending sooners f args span)
      (Caller.interrupted stop' e pending laters f args span) s := by
  have hNew : ¬ Replaces (wholes pending) f args s := fun hReplaces =>
    hRun s (Caller.once_refused hReplaces)
  have hOnce : Caller.once refused pending wholes f args span s =
      apply (wholes pending) f args span s := Caller.once_eq hNew
  have hApply := interrupts_apply (e := e) hEv hNew fun t hFails => hRun t (hOnce.trans hFails)
  exact .of_eq (.refl _) hOnce rfl rfl (hApply.interrupted hStop)

end

/-- **A run in which no call would replace a result** keeps, at every moment, what was remembered at
an earlier one. -/
theorem interrupts_evaluateBy {stop stop' : EvalState → Prop} (hStop : ∀ t, stop' t → stop t)
    {pending : List Pending} {room : Nat} {n : Node}
    (hRun : ∀ t, evaluateBy (.once refused) pending room n s ≠ .error refused t) :
    Interrupts e (evaluateBy (.once refused) pending room n)
      (evaluateBy (.interrupted stop e) pending room n)
      (evaluateBy (.interrupted stop' e) pending room n) s := by
  have hAtom (a : Atom) (span : Span) : Moves (fun s t => s.session.Keeps t.session) (atom a span) :=
    moves_atom a span
  induction room generalizing pending n s with
  | zero =>
    cases n with
    | atom a span => exact .of_keeps (hAtom a span s)
    | list items span => exact .of_keeps (.refl _)
  | succ room ih =>
    cases n with
    | atom a span => exact .of_keeps (hAtom a span s)
    | list items span =>
      have hInside : ∀ t, formBy (Caller.once refused pending (evaluateBy (.once refused) · room))
          (evaluateBy (.once refused) pending room) items span s.enterForm ≠ .error refused t := by
        intro t hFails
        exact hRun t.leaveForm (EvalM.nested_error hFails)
      have hEv (n : Node) (s : EvalState)
          (hRun : ∀ t, evaluateBy (.once refused) pending room n s ≠ .error refused t) :
          Interrupts e (evaluateBy (.once refused) pending room n)
            (evaluateBy (.interrupted stop e) pending room n)
            (evaluateBy (.interrupted stop' e) pending room n) s := ih hRun
      refine .nested ?_
      rcases formBy_cases items span with ⟨act, hAsks, hForm⟩ | ⟨act, hAsks, hForm⟩
      · simp only [hForm] at hInside ⊢
        exact hAsks.interrupts hEv hInside
      · simp only [hForm] at hInside ⊢
        have hCallee : ∀ t, act (evaluateBy (.once refused) pending room) s.enterForm ≠
            .error refused t := fun t hFails => hInside t (bind_error hFails)
        refine (hAsks.interrupts hEv hCallee).bind fun c t hCalling => ?_
        exact interrupts_call hEv hStop fun u hFails =>
          hInside u ((bind_ok hCalling).trans hFails)

end Eval

end PostLisp

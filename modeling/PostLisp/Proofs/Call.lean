import PostLisp.Proofs.Effect

/-!
# Calls, step by step

A call ends in one of three ways: with the wrong number of arguments, with a value that is
remembered, or with the run of the body.  One lemma for each says what becomes of the state; what
later modules prove of calls rests on these three and never opens `apply`.
-/

namespace PostLisp

/-- The function that a value is. -/
def Value.function? : Value → Option (Closure Value)
  | .function f => some f
  | _ => none

theorem Value.eq_function {v : Value} {f : Closure Value} (h : v.function? = some f) :
    v = .function f := by
  cases v <;> cases h
  rfl

namespace Session

/-- The function that a name means among the globals. -/
def function? (s : Session) (name : String) : Option (Closure Value) :=
  (s.globals.find? name).bind Value.function?

theorem find?_of_function? {s : Session} {name : String} {f : Closure Value}
    (h : s.function? name = some f) : s.globals.find? name = some (.function f) := by
  obtain ⟨v, hFound, hFunction⟩ := Option.bind_eq_some_iff.1 h
  rw [hFound, Value.eq_function hFunction]

/-- The key of a call, when calls are remembered and this one can be. -/
def keyOf (s : Session) (f : Closure Value) (args : List Value) : Option CallKey :=
  if s.options.memoize then CallKey.of? f.id args else none

/-- The session after the cache has answered a call. -/
def answered (s : Session) (f : Closure Value) : Session :=
  { s with events := .cacheHit f.id :: s.events }

/-- The session when the body of a call starts. -/
def entered (s : Session) (f : Closure Value) (cacheable : Bool) : Session :=
  { s with calls := s.calls + 1, events := .cacheMiss f.id cacheable :: s.events }

/-- The session when a call that ran its body returns. -/
def returned (s : Session) (key : Option CallKey) (v : Value) : Session :=
  match key with
  | none => s
  | some k => { s with cache := s.cache.insert k v }

/-- What is remembered after a call was so before it, or is the result of the call. -/
theorem find?_returned {s : Session} {key : Option CallKey} {other : CallKey} {v x : Value}
    (h : (s.returned key v).cache.find? other = some x) :
    s.cache.find? other = some x ∨ key = some other ∧ v = x := by
  cases key with
  | none => exact Or.inl h
  | some k =>
    change (s.cache.insert k v).find? other = some x at h
    rw [Cache.find?_insert] at h
    split at h
    · rename_i hSame
      exact Or.inr ⟨congrArg some hSame, Option.some.inj h⟩
    · exact Or.inl h

/-- What a key tells of the call. -/
theorem keyOf_eq_some {s : Session} {f : Closure Value} {args : List Value} {key : CallKey}
    (h : s.keyOf f args = some key) :
    key.function = f.id ∧ ArgKey.ofValues? args = some key.args := by
  rw [keyOf] at h
  split at h
  · rw [CallKey.of?] at h
    obtain ⟨keys, hKeys, rfl⟩ := Option.map_eq_some_iff.1 h
    exact ⟨rfl, hKeys⟩
  · cases h

/-- Where calls are not remembered, no call has a key. -/
theorem keyOf_eq_none {s : Session} (h : s.options.memoize = false) (f : Closure Value)
    (args : List Value) : s.keyOf f args = none := by
  rw [keyOf, h]
  exact if_neg Bool.false_ne_true

end Session

open EvalM

namespace Eval

variable {ev : Evaluator} {f : Closure Value} {args : List Value} {span : Span} {s t : EvalState}
  {v : Value}

theorem apply_arity (hArity : args.length ≠ f.params.length) :
    apply ev f args span s = .error ⟨.arguments (.arity f.params.length args.length), span⟩ s := by
  rw [apply, if_neg hArity]
  rfl

theorem apply_remembered (hArity : args.length = f.params.length)
    (hFound : (s.session.keyOf f args).bind s.session.cache.find? = some v) :
    apply ev f args span s = .ok v { s with session := s.session.answered f } := by
  have hKey : callKey? f args s = .ok (s.session.keyOf f args) s := rfl
  have hRemembered : remembered? (s.session.keyOf f args) s = .ok (some v) s := by
    show EStateM.Result.ok _ s = _
    rw [hFound]
  rw [apply, if_pos hArity, bind_ok hKey, bind_ok hRemembered]
  rfl

/-- The body of a call starts in the session that counts the call, and the frame comes back. -/
theorem apply_run (hArity : args.length = f.params.length)
    (hMissing : (s.session.keyOf f args).bind s.session.cache.find? = none) :
    apply ev f args span s =
      (inFrame (f.frame args) (inOrder ev .void f.body) >>= fun v => do
        remember (s.session.keyOf f args) v
        pure v)
      { s with session := s.session.entered f (s.session.keyOf f args).isSome } := by
  have hKey : callKey? f args s = .ok (s.session.keyOf f args) s := rfl
  have hRemembered : remembered? (s.session.keyOf f args) s = .ok none s := by
    show EStateM.Result.ok _ s = _
    rw [hMissing]
  rw [apply, if_pos hArity, bind_ok hKey, bind_ok hRemembered]
  rfl

theorem apply_run_ok (hArity : args.length = f.params.length)
    (hMissing : (s.session.keyOf f args).bind s.session.cache.find? = none)
    (hBody : inOrder ev .void f.body
      ⟨s.session.entered f (s.session.keyOf f args).isSome, f.frame args⟩ = .ok v t) :
    apply ev f args span s =
      .ok v ⟨t.session.returned (s.session.keyOf f args) v, s.frame⟩ := by
  have hFrame : inFrame (f.frame args) (inOrder ev .void f.body)
      { s with session := s.session.entered f (s.session.keyOf f args).isSome } =
        .ok v { t with frame := s.frame } := by
    rw [inFrame, around, hBody]
  rw [apply_run hArity hMissing, bind_ok hFrame]
  cases s.session.keyOf f args <;> rfl

theorem apply_run_error {e : EvalError} (hArity : args.length = f.params.length)
    (hMissing : (s.session.keyOf f args).bind s.session.cache.find? = none)
    (hBody : inOrder ev .void f.body
      ⟨s.session.entered f (s.session.keyOf f args).isSome, f.frame args⟩ = .error e t) :
    apply ev f args span s = .error e ⟨t.session, s.frame⟩ := by
  have hFrame : inFrame (f.frame args) (inOrder ev .void f.body)
      { s with session := s.session.entered f (s.session.keyOf f args).isSome } =
        .error e { t with frame := s.frame } := by
    rw [inFrame, around, hBody]
  rw [apply_run hArity hMissing, bind_error hFrame]

/-- The ways in which a call ends. -/
inductive ApplyEnds (ev : Evaluator) (f : Closure Value) (args : List Value) (span : Span)
    (s : EvalState) : EStateM.Result EvalError EvalState Value → Prop
  | arity (hArity : args.length ≠ f.params.length) : ApplyEnds ev f args span s
      (.error ⟨.arguments (.arity f.params.length args.length), span⟩ s)
  | remembered {v : Value} (hArity : args.length = f.params.length)
      (hFound : (s.session.keyOf f args).bind s.session.cache.find? = some v) :
      ApplyEnds ev f args span s (.ok v { s with session := s.session.answered f })
  | returned {v : Value} {t : EvalState} (hArity : args.length = f.params.length)
      (hMissing : (s.session.keyOf f args).bind s.session.cache.find? = none)
      (hBody : inOrder ev .void f.body
        ⟨s.session.entered f (s.session.keyOf f args).isSome, f.frame args⟩ = .ok v t) :
      ApplyEnds ev f args span s (.ok v ⟨t.session.returned (s.session.keyOf f args) v, s.frame⟩)
  | failed {e : EvalError} {t : EvalState} (hArity : args.length = f.params.length)
      (hMissing : (s.session.keyOf f args).bind s.session.cache.find? = none)
      (hBody : inOrder ev .void f.body
        ⟨s.session.entered f (s.session.keyOf f args).isSome, f.frame args⟩ = .error e t) :
      ApplyEnds ev f args span s (.error e ⟨t.session, s.frame⟩)

theorem apply_ends (ev : Evaluator) (f : Closure Value) (args : List Value) (span : Span)
    (s : EvalState) : ApplyEnds ev f args span s (apply ev f args span s) := by
  by_cases hArity : args.length = f.params.length
  · cases hFound : (s.session.keyOf f args).bind s.session.cache.find? with
    | some v =>
      rw [apply_remembered hArity hFound]
      exact .remembered hArity hFound
    | none =>
      cases hBody : inOrder ev .void f.body
          ⟨s.session.entered f (s.session.keyOf f args).isSome, f.frame args⟩ with
      | ok v t =>
        rw [apply_run_ok hArity hFound hBody]
        exact .returned hArity hFound hBody
      | error e t =>
        rw [apply_run_error hArity hFound hBody]
        exact .failed hArity hFound hBody
  · rw [apply_arity hArity]
    exact .arity hArity

/-- A call that succeeds leaves the frame around it, and its result is remembered. -/
theorem of_apply_ok (hCall : apply ev f args span s = .ok v t) : t.frame = s.frame ∧
    ∀ key, s.session.keyOf f args = some key → t.session.cache.find? key = some v := by
  have hEnds := apply_ends ev f args span s
  rw [hCall] at hEnds
  cases hEnds with
  | remembered _ hFound =>
    refine ⟨rfl, fun key hKey => ?_⟩
    rwa [hKey] at hFound
  | @returned _ u _ _ _ =>
    refine ⟨rfl, fun key hKey => ?_⟩
    rw [hKey]
    show (u.session.cache.insert key v).find? key = some v
    rw [Cache.find?_insert, if_pos rfl]

/-- A call moves the state as its ways to end do: answered, run with an error, run with a value that
is remembered. -/
theorem moves_apply_ends {T : EvalState → EvalState → Prop} [IsPreorder EvalState T]
    (hAnswered : ∀ s : EvalState, T s { s with session := s.session.answered f })
    (hError : ∀ (s t : EvalState) cacheable e, inOrder ev .void f.body
      ⟨s.session.entered f cacheable, f.frame args⟩ = .error e t → T s ⟨t.session, s.frame⟩)
    (hOk : ∀ (s t : EvalState) v, inOrder ev .void f.body
      ⟨s.session.entered f (s.session.keyOf f args).isSome, f.frame args⟩ = .ok v t →
        T s ⟨t.session.returned (s.session.keyOf f args) v, s.frame⟩) :
    Moves T (apply ev f args span) := by
  intro s
  have hEnds := apply_ends ev f args span s
  rw [final]
  generalize apply ev f args span s = r at hEnds
  cases hEnds with
  | arity => exact refl_of T s
  | remembered => exact hAnswered s
  | returned _ _ hBody => exact hOk s _ _ hBody
  | failed _ _ hBody => exact hError s _ _ _ hBody

/-- A call moves the state as its body does, if remembering a result does so too. -/
theorem moves_apply {T : EvalState → EvalState → Prop} [IsPreorder EvalState T]
    (hAnswered : ∀ s : EvalState, T s { s with session := s.session.answered f })
    (hBody : ∀ (s : EvalState) cacheable, T s ⟨((inOrder ev .void f.body).final
      ⟨s.session.entered f cacheable, f.frame args⟩).session, s.frame⟩)
    (hReturned : ∀ (s : EvalState) key v, T s { s with session := s.session.returned key v }) :
    Moves T (apply ev f args span) := by
  refine moves_apply_ends hAnswered (fun s t cacheable e h => ?_) fun s t v h => ?_
  · have hRun := hBody s cacheable
    rwa [final_error h] at hRun
  · have hRun := hBody s (s.session.keyOf f args).isSome
    rw [final_ok h] at hRun
    exact trans_of T hRun (hReturned ⟨t.session, s.frame⟩ _ v)

end Eval

end PostLisp

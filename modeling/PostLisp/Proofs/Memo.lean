import PostLisp.Proofs.Replay

/-!
# Remembering calls is only a matter of speed

Two sessions run the same texts, the first one without remembering calls.  The functions of the
two differ in identity: where the second session answers a call from its cache, the first makes new
functions.  A registry keeps the functions of the second session by identity, and a function of the
first stands for one that is registered.  The invariant is that every cached result was recorded:
the first session made such a call, unalarmed, among globals that have stayed, and ended in a value
that stands for the cached one.  A cached answer is then the answer that the first session finds by
replaying the call.
-/

namespace PostLisp

open Eval EvalM

/-! ### Registries -/

/-- Functions by identity. -/
def Registry : Type := Nat → Option (Closure Value)

namespace Registry

instance : Preorder Registry where
  le w w' := ∀ i f, w i = some f → w' i = some f
  le_refl _ _ _ h := h
  le_trans _ _ _ h h' i f hf := h' i f (h i f hf)

def empty : Registry := fun _ => none

def insert (w : Registry) (f : Closure Value) : Registry := fun i =>
  if i = f.id then some f else w i

theorem insert_id (w : Registry) (f : Closure Value) : w.insert f f.id = some f := if_pos rfl

theorem le_insert {w : Registry} {f : Closure Value} (hFree : w f.id = none) : w ≤ w.insert f := by
  intro i g hg
  show (if i = f.id then some f else w i) = some g
  rw [if_neg]
  · exact hg
  · rintro rfl
    rw [hFree] at hg
    cases hg

end Registry

/-- `f` stands for the registered function `g`. -/
def Closure.StandsFor (w : Registry) (f g : Closure Value) : Prop :=
  f.SameCode g ∧ w g.id = some g

theorem Closure.StandsFor.mono {w w' : Registry} (hWorld : w ≤ w') {f g : Closure Value}
    (h : f.StandsFor w g) : f.StandsFor w' g :=
  ⟨h.1, hWorld _ _ h.2⟩

/-! ### Recorded results -/

/-- The call with this key was made without remembering calls and without alarm, among globals that
are still there, and ended in a value that stands for `v'`. -/
inductive Recorded (w : Registry) (globals : Bindings Value) (key : CallKey) (v' : Value) : Prop
  | intro (f f' : Closure Value) (args args' : List Value) (room : Nat) (s t : EvalState)
      (v : Value) (hRegistered : w key.function = some f') (hCode : f.SameCode f')
      (hCaptured : f.captured.Like False (Closure.StandsFor w) f'.captured)
      (hKeys : ArgKey.ofValues? args = some key.args)
      (hArgs : Value.LikeAll False (Closure.StandsFor w) args args')
      (hPlain : s.session.options.memoize = false) (hFrame : s.frame = f.frame args)
      (hGlobals : ∀ name x, s.session.globals.find? name = some x → globals.find? name = some x)
      (hRun : inOrder (watchedWithin cautious room) .void f.body s = .ok v t)
      (hValue : Value.Like False (Closure.StandsFor w) v v')

theorem Recorded.mono {w w' : Registry} {globals globals' : Bindings Value} {key : CallKey}
    {v' : Value} (hWorld : w ≤ w')
    (hMore : ∀ name x, globals.find? name = some x → globals'.find? name = some x)
    (h : Recorded w globals key v') : Recorded w' globals' key v' := by
  obtain ⟨f, f', args, args', room, s, t, v, hRegistered, hCode, hCaptured, hKeys, hArgs, hPlain,
    hFrame, hGlobals, hRun, hValue⟩ := h
  have hMono := fun f g => Closure.StandsFor.mono (f := f) (g := g) hWorld
  exact ⟨f, f', args, args', room, s, t, v, hWorld _ _ hRegistered, hCode, hCaptured.mono hMono,
    hKeys, hArgs.mono hMono, hPlain, hFrame, fun name x hx => hMore name x (hGlobals name x hx),
    hRun, hValue.mono hMono⟩

/-! ### Corresponding sessions -/

/-- The first session is the second one without its cache, up to functions that stand for others
and to counters. -/
structure Memoizes (w : Registry) (s s' : Session) : Prop where
  plain : s.options.memoize = false
  maxDepth : s.options.maxDepth = s'.options.maxDepth
  depth : s.depth = s'.depth
  globals : s.globals.Like False (Closure.StandsFor w) s'.globals
  calls : s'.calls ≤ s.calls
  registered : ∀ i f, w i = some f → i < s'.nextId
  cache : ∀ key v', s'.cache.find? key = some v' → Recorded w s.globals key v'

/-- The second session answers a call from its cache, and the first one makes it. -/
theorem Memoizes.answered {w : Registry} {s s' t : Session} (h : Memoizes w s s')
    (hGlobals : t.globals = s.globals) (hCounted : s.Counted t) (f : Closure Value) :
    Memoizes w t (s'.answered f) where
  plain := by rw [hCounted.options, h.plain]
  maxDepth := by
    rw [hCounted.options]
    exact h.maxDepth
  depth := hCounted.depth.trans h.depth
  globals := by
    rw [hGlobals]
    exact h.globals
  calls := Nat.le_trans h.calls hCounted.calls
  registered := h.registered
  cache := by
    rw [hGlobals]
    exact h.cache

/-- Sessions without and with remembered calls; hazards and the limit of depth are pardoned. -/
def memo : Correspondence Registry where
  floats := False
  spans := Eq
  functions := Closure.StandsFor
  states w s s' :=
    Memoizes w s.session s'.session ∧ s.frame.Like False (Closure.StandsFor w) s'.frame
  rooms := Eq
  watch := cautious
  pardoned e := ∃ limit, e.fault = .tooDeep limit
  pardoned' _ := False

namespace memo

variable {w : Registry} {s s' : EvalState}

theorem outcome_define {name : String} {v v' : Value} (hValue : memo.Alike w v v')
    (hStates : memo.states w s s')
    (hFresh : s.frame.isTop = true → s.session.globals.find? name = none) :
    memo.Outcome w (fun _ _ _ => True) ((do announce name v; EvalM.define name v : EvalM Unit) s)
      ((do announce name v'; EvalM.define name v' : EvalM Unit) s') := by
  obtain ⟨session, frame⟩ := s
  obtain ⟨session', frame'⟩ := s'
  obtain ⟨hSession, hFrame⟩ := hStates
  cases hFrame.tiers with
  | top =>
    rw [announce_define_top, announce_define_top]
    refine .ok (le_refl w) trivial ⟨?_, trivial⟩
    refine { hSession with
      globals := hSession.globals.insert name hValue
      cache := fun key x hFound => ?_ }
    refine (hSession.cache key x hFound).mono (le_refl w) fun other y hOther => ?_
    show (session.globals.insert name v).find? other = some y
    rw [Bindings.find?_insert, if_neg]
    · exact hOther
    · rintro rfl
      rw [hFresh rfl] at hOther
      cases hOther
  | call hLocals hCaptured =>
    rw [announce_define_call, announce_define_call]
    exact .ok (le_refl w) trivial ⟨hSession, hLocals.insert name hValue, hCaptured⟩

theorem outcome_makeFunction {params : List String} {body body' : List Node}
    (hBody : Node.LikeAll False Eq body body') (hStates : memo.states w s s') :
    memo.Outcome w memo.Alike (makeFunction params body s) (makeFunction params body' s') := by
  obtain ⟨hSession, hFrame⟩ := hStates
  have hCaptured := hFrame.innermost hSession.globals
  let g : Closure Value :=
    ⟨s'.session.nextId, params, body', s'.frame.innermost s'.session.globals⟩
  have hFree : w g.id = none := by
    cases hTaken : w g.id with
    | none => rfl
    | some f => exact absurd (hSession.registered _ f hTaken) (Nat.lt_irrefl _)
  have hWorld := Registry.le_insert hFree
  have hMono := fun f k => Closure.StandsFor.mono (f := f) (g := k) hWorld
  rw [makeFunction_apply, makeFunction_apply]
  refine .ok hWorld (.function ⟨⟨rfl, hBody⟩, w.insert_id g⟩ (hCaptured.mono hMono))
    ⟨?_, hFrame.mono hMono⟩
  refine { hSession with
    globals := hSession.globals.mono hMono
    registered := fun i f hf => ?_
    cache := fun key x hFound => (hSession.cache key x hFound).mono hWorld fun _ _ h => h }
  show i < s'.session.nextId + 1
  change (if i = g.id then some g else w i) = some f at hf
  split at hf
  · rename_i hi
    exact Nat.lt_succ_of_le (Nat.le_of_eq hi)
  · exact Nat.lt_succ_of_lt (hSession.registered i f hf)

end memo

/-! ### Calls -/

/-- A value that stands for another is made of the same code as itself. -/
theorem Value.Like.sameCode_self {w : Registry} {v v' : Value}
    (h : Value.Like False (Closure.StandsFor w) v v') : Value.Like False Closure.SameCode v v := by
  have hLeft : Value.Like False Closure.SameCode v v' := h.mono fun _ _ hf => hf.1
  exact hLeft.trans (fun _ _ _ hf hg => hf.trans hg) (hLeft.symm fun _ _ hf => hf.symm)

/-- What a call leaves of the session around it, when calls are not remembered. -/
theorem Eval.inOrder_call {room : Nat} {last : Value} {ns : List Node} {s t : EvalState}
    {locals captured : Bindings Value} {v : Value} (hFrame : s.frame = .call locals captured)
    (hRun : inOrder (evaluateWithin room) last ns s = .ok v t) :
    t.session.globals = s.session.globals ∧ s.session.Counted t.session := by
  have hEv : ∀ n ∈ ns, Moves (Innermost fun _ => True) (evaluateWithin room n) := fun n _ s =>
    (evaluateWithin_innermost room n s).mono fun _ _ => trivial
  have hInnermost := moves_inOrder hEv last s
  have hCounted := moves_inOrder (fun n (_ : n ∈ ns) => evaluateWithin_counted room n) last s
  rw [final_ok hRun] at hInnermost hCounted
  exact ⟨hInnermost.globals_of_call hFrame, hCounted⟩

/-- **A recorded result is what the call gives now**, unless the watch or the limit of depth ends
it. -/
theorem Recorded.replay {w : Registry} {s : Session} {globals' : Bindings Value}
    {f f' : Closure Value} {args args' : List Value} {keys : List ArgKey} {v' : Value} {room : Nat}
    (h : Recorded w s.globals ⟨f'.id, keys⟩ v') (hPlain : s.options.memoize = false)
    (hGlobals : s.globals.Like False (Closure.StandsFor w) globals') (hFunction : f.StandsFor w f')
    (hCaptured : f.captured.Like False (Closure.StandsFor w) f'.captured)
    (hArgs : Value.LikeAll False (Closure.StandsFor w) args args')
    (hKeys : ArgKey.ofValues? args = some keys) :
    (∃ v t, inOrder (evaluateWithin room) .void f.body ⟨s, f.frame args⟩ = .ok v t ∧
      Value.Like False (Closure.StandsFor w) v v') ∨
    ∃ limit span t, inOrder (evaluateWithin room) .void f.body ⟨s, f.frame args⟩ =
      .error ⟨.tooDeep limit, span⟩ t := by
  obtain ⟨f₀, g, args₀, args₀', room₀, ⟨session₀, frame₀⟩, t₀, v₀, hRegistered, hCode, hCaptured₀,
    hKeys₀, hArgs₀, hPlain₀, hFrame₀, hGlobals₀, hRun₀, hValue₀⟩ := h
  -- both functions stand for the one that is registered
  obtain rfl : g = f' := Option.some.inj (hRegistered.symm.trans hFunction.2)
  have hSame : f₀.SameCode f := hCode.trans hFunction.1.symm
  have hCapturedSame : f₀.captured.Like False Closure.SameCode f.captured :=
    Value.LikeEntries.trans (fun _ _ _ hf hg => hf.1.trans hg) hCaptured₀
      (Value.LikeEntries.symm (fun _ _ hf => hf.1.symm) hCaptured)
  have hArgsSame : Value.LikeAll False Closure.SameCode args₀ args :=
    hArgs₀.of_keys_eq hArgs hKeys₀ hKeys
  have hReplays : Replays ⟨session₀, frame₀⟩ ⟨s, f.frame args⟩ := by
    cases hFrame₀
    refine ⟨hPlain₀, hPlain, rfl, Frame.like_closure hSame.1 hCapturedSame hArgsSame, ?_⟩
    intro name x hx
    have hNow := hGlobals₀ name x hx
    refine ⟨x, hNow, ?_⟩
    have hFound := hGlobals.find? name
    rw [show s.globals.find? name = some x from hNow] at hFound
    generalize globals'.find? name = r at hFound
    cases hFound with
    | some hLike => exact hLike.sameCode_self
  rcases replay_inOrder hSame.2 hReplays hRun₀ with ⟨v, t, hRun, hValue⟩ | hDeep
  · refine Or.inl ⟨v, t, hRun, ?_⟩
    exact (hValue.symm fun _ _ hf => hf.symm).trans (fun _ _ _ hf hg => ⟨hf.trans hg.1, hg.2⟩) hValue₀
  · exact Or.inr hDeep

namespace memo

variable {w : Registry} {s s' : EvalState} {f f' : Closure Value} {args args' : List Value}
  {span : Span} {room : Nat} {ev' : Evaluator}

/-- The second run finds the result of a call that the first run has to make. -/
theorem outcome_remembered (hFunction : f.StandsFor w f')
    (hCaptured : f.captured.Like False (Closure.StandsFor w) f'.captured)
    (hArgs : memo.AlikeAll w args args') (hStates : memo.states w s s')
    (hArity : args.length = f.params.length) (hArity' : args'.length = f'.params.length)
    {v' : Value} (hFound : (s'.session.keyOf f' args').bind s'.session.cache.find? = some v') :
    memo.Outcome w memo.Alike (apply (watchedWithin cautious room) f args span s)
      (apply ev' f' args' span s') := by
  obtain ⟨hSession, hFrame⟩ := hStates
  have hMissing : (s.session.keyOf f args).bind s.session.cache.find? = none := by
    rw [Session.keyOf_eq_none hSession.plain]
    rfl
  obtain ⟨key, hKey, hCached⟩ := Option.bind_eq_some_iff.1 hFound
  have hRecorded := hSession.cache key v' hCached
  obtain ⟨hId, hKeys⟩ := Session.keyOf_eq_some hKey
  rw [← hArgs.keys_eq] at hKeys
  rw [show key = ⟨f'.id, key.args⟩ by rw [← hId]] at hRecorded
  rw [apply_remembered hArity' hFound]
  let entered := s.session.entered f (s.session.keyOf f args).isSome
  have hEntered : Recorded w entered.globals ⟨f'.id, key.args⟩ v' := hRecorded
  rcases inOrder_watchedWithin_or cautious room .void f.body ⟨entered, f.frame args⟩ with
    hSame | ⟨t, hStopped⟩
  · rcases hEntered.replay hSession.plain hSession.globals hFunction hCaptured hArgs hKeys with
      ⟨v, t, hRun, hValue⟩ | ⟨limit, span', t, hRun⟩
    · obtain ⟨hGlobals, hCounted⟩ := inOrder_call rfl hRun
      rw [hRun] at hSame
      rw [apply_run_ok hArity hMissing hSame]
      refine .ok (le_refl w) hValue ⟨?_, hFrame⟩
      rw [Session.keyOf_eq_none hSession.plain]
      have hEnter : s.session.Counted entered := ⟨rfl, rfl, Nat.le_succ _, Nat.le_refl _⟩
      exact hSession.answered hGlobals (hEnter.trans hCounted) f'
    · rw [hRun] at hSame
      rw [apply_run_error hArity hMissing hSame]
      exact .pardoned ⟨limit, rfl⟩
  · rw [apply_run_error hArity hMissing hStopped]
    exact .pardoned ⟨0, rfl⟩

/-- The result of a call that both runs have made is recorded. -/
theorem returned {w' : Registry} {cacheable : Bool} {t t' : EvalState} {v v' : Value}
    (hSession : Memoizes w s.session s'.session) (hFunction : f.StandsFor w f')
    (hCaptured : f.captured.Like False (Closure.StandsFor w) f'.captured)
    (hArgs : memo.AlikeAll w args args') (hWorld : w ≤ w')
    (hRun : inOrder (watchedWithin cautious room) .void f.body
      ⟨s.session.entered f cacheable, f.frame args⟩ = .ok v t)
    (hValue : memo.Alike w' v v') (hInside : Memoizes w' t.session t'.session) :
    Memoizes w' t.session (t'.session.returned (s'.session.keyOf f' args') v') := by
  cases hKey : s'.session.keyOf f' args' with
  | none => exact hInside
  | some key =>
    refine { hInside with cache := fun other x hCached => ?_ }
    rcases Session.find?_returned hCached with hBefore | ⟨hSame, rfl⟩
    · exact hInside.cache other x hBefore
    · cases hSame
      obtain ⟨hId, hKeys⟩ := Session.keyOf_eq_some hKey
      have hKept := (inOrder_call rfl (inOrder_of_watched hRun)).1
      have hMono := fun f g => Closure.StandsFor.mono (f := f) (g := g) hWorld
      refine .intro f f' args args' room ⟨s.session.entered f _, _⟩ t v ?_ hFunction.1
        (hCaptured.mono hMono) (hArgs.keys_eq.trans hKeys) (hArgs.mono hMono) hSession.plain rfl
        ?_ hRun hValue
      · rw [hId]
        exact hWorld _ _ hFunction.2
      · intro name y hy
        rw [hKept]
        exact hy

theorem outcome_apply (hEv : memo.Simulates (watchedWithin cautious room) ev')
    (hFunction : f.StandsFor w f')
    (hCaptured : f.captured.Like False (Closure.StandsFor w) f'.captured)
    (hArgs : memo.AlikeAll w args args') (hStates : memo.states w s s') :
    memo.Outcome w memo.Alike (apply (watchedWithin cautious room) f args span s)
      (apply ev' f' args' span s') := by
  by_cases hArity : args.length = f.params.length
  · have hArity' : args'.length = f'.params.length := by
      rw [← hArgs.length_eq, ← hFunction.1.1, hArity]
    cases hFound : (s'.session.keyOf f' args').bind s'.session.cache.find? with
    | some v' => exact outcome_remembered hFunction hCaptured hArgs hStates hArity hArity' hFound
    | none =>
      obtain ⟨hSession, hFrame⟩ := hStates
      have hKey := Session.keyOf_eq_none hSession.plain f args
      refine Comparison.outcome_apply_run hArity hArity' ?_ hFound ?_ ?_ ?_
      · rw [hKey]
        rfl
      · refine Comparison.outcome_inOrder hEv hFunction.1.2 .void ⟨?_, ?_⟩
        · exact { hSession with calls := Nat.succ_le_succ hSession.calls }
        · exact Frame.like_closure hFunction.1.1 hCaptured hArgs
      · intro w' v v' t t' hWorld hRun _ hValue hInside
        have hNext := returned hSession hFunction hCaptured hArgs hWorld hRun hValue hInside.1
        refine ⟨?_, hFrame.mono fun f g => Closure.StandsFor.mono (f := f) (g := g) hWorld⟩
        rw [hKey]
        exact hNext
      · intro w' t t' hWorld hInside
        exact ⟨hInside.1, hFrame.mono fun f g => Closure.StandsFor.mono (f := f) (g := g) hWorld⟩
  · exact Comparison.outcome_apply_arity hFunction.1.1 hArgs.length_eq rfl hStates hArity

theorem laws : memo.Laws where
  functions_mono hWorld h := Closure.StandsFor.mono hWorld h
  alarm _ _ := ⟨0, rfl⟩
  rooms_succ h := Nat.succ.inj h
  rooms_zero _ := Or.inl fun limit _ => ⟨limit, rfl⟩
  rooms_zero' h := by cases h
  enterForm h := ⟨{ h.1 with depth := congrArg (· + 1) h.1.depth }, h.2⟩
  leaveForm h := ⟨{ h.1 with depth := congrArg (· - 1) h.1.depth }, h.2⟩
  lookup _ _ h := .alike (h.2.lookup h.1.globals _)
  define := by
    intro w room span target expression operator name s t t' v v' hTarget hQuiet hRun hValue hStates
    have hCalm : hazard (room + 1) (.list [target, expression, operator] span) s = false := hQuiet
    exact outcome_define hValue hStates
      (unbound_of_quiet hTarget hCalm (evaluateWithin_of_watched hRun))
  compare := by
    intro w room span left right operator s t u v v' x x' hOperator hQuiet hLeft hRight hValue hNext
    have hCalm : hazard (room + 1) (.list [left, right, operator] span) s = false := hQuiet
    obtain ⟨hNone, hNone'⟩ := no_function_of_quiet hOperator hCalm
      (evaluateWithin_of_watched hLeft) (evaluateWithin_of_watched hRight)
    exact hValue.same_eq_of_no_function hNext hNone hNone'
  makeFunction := outcome_makeFunction
  apply := by
    rintro w room room' f f' args args' span span' s s' hRooms hEv hFunction hCaptured hArgs rfl hStates
    exact outcome_apply (hEv _ hRooms) hFunction hCaptured hArgs hStates

/-- Evaluation under the watch corresponds to evaluation with remembered calls. -/
theorem simulates_evaluate : memo.Simulates (Session.watched cautious) evaluate := by
  intro n n' hNodes w s s' hStates
  have hRoom : s.session.room = s'.session.room := by
    rw [Session.room, Session.room, hStates.1.maxDepth, hStates.1.depth]
  exact laws.simulates hRoom n n' hNodes w s s' hStates

end memo

/-! ### Sessions -/

/-- The functions have the same parameters and the same body. -/
def Closure.SameButId (f g : Closure Value) : Prop := f.params = g.params ∧ f.body = g.body

namespace Session

/-- The results are the same error, or the same value but for the identities of functions. -/
inductive SameResult : Except RunError Value → Except RunError Value → Prop
  | ok {v v' : Value} (h : Value.Like True Closure.SameButId v v') : SameResult (.ok v) (.ok v')
  | error (e : RunError) : SameResult (.error e) (.error e)

/-- A step of a session without remembered calls, and the same step with them. -/
structure StepAgrees (step step' : Except RunError Value × Session) : Prop where
  result : SameResult step.1 step'.1
  globals : step.2.globals.Like True Closure.SameButId step'.2.globals
  calls : step'.2.calls ≤ step.2.calls

/-- The steps agree one by one, as long as none of the first session ended at the limit of depth. -/
inductive AgreeUntilDeep : List (Except RunError Value × Session) →
    List (Except RunError Value × Session) → Prop
  | nil : AgreeUntilDeep [] []
  | deep {limit : Nat} {span : Span} {s : Session} {steps steps' : _} :
      AgreeUntilDeep ((.error (.eval ⟨.tooDeep limit, span⟩), s) :: steps) steps'
  | step {step step' : Except RunError Value × Session} {steps steps' : _}
      (h : StepAgrees step step') (rest : AgreeUntilDeep steps steps') :
      AgreeUntilDeep (step :: steps) (step' :: steps')

theorem sameButId_of_standsFor {w : Registry} {f g : Closure Value} (h : f.StandsFor w g) :
    f.SameButId g :=
  ⟨h.1.1, h.1.2.eq⟩

/-- One text, run under the watch and with remembered calls. -/
theorem runText_agrees {w : Registry} {s s' : Session} (h : Memoizes w s s') {text : String}
    (hFloats : ∀ program, Program.ofString text = .ok program →
      Node.anyUsesFloats program = false) :
    (∃ limit span t, s.runTextBy (watched cautious) text =
      (.error (.eval ⟨.tooDeep limit, span⟩), t)) ∨
    StepAgrees (s.runTextBy (watched cautious) text) (s'.runText text) ∧
      ∃ w', Memoizes w' (s.runTextBy (watched cautious) text).2 (s'.runText text).2 := by
  have hGlobals : ∀ {w t t'}, Memoizes w t t' →
      t.globals.Like True Closure.SameButId t'.globals := fun h =>
    Value.LikeEntries.imp (fun hf => hf.elim) (fun _ _ => sameButId_of_standsFor) h.globals
  rw [runTextBy, runText]
  cases hProgram : Program.ofString text with
  | error e => exact Or.inr ⟨⟨.error _, hGlobals h, h.calls⟩, w, h⟩
  | ok program =>
    have hNodes : Node.LikeAll False Eq program program :=
      Node.likeAll_of_usesFloats (fun _ => rfl) program (hFloats program hProgram)
    have hStates : memo.states w ⟨s, .top⟩ ⟨s', .top⟩ := ⟨h, trivial⟩
    have hOutcome := Comparison.outcome_inOrder memo.simulates_evaluate hNodes .void hStates
    dsimp only
    rw [run, perform, perform]
    generalize inOrder (watched cautious) .void program ⟨s, .top⟩ = r at hOutcome ⊢
    generalize inOrder Eval.evaluate .void program ⟨s', .top⟩ = r' at hOutcome ⊢
    cases hOutcome with
    | @pardoned e t _ hDeep =>
      obtain ⟨fault, span⟩ := e
      obtain ⟨limit, rfl⟩ := hDeep
      exact Or.inl ⟨limit, span, t.session, rfl⟩
    | pardoned' hNever => exact hNever.elim
    | @ok w' _ _ _ _ _ hValue hStates =>
      refine Or.inr ⟨⟨.ok ?_, hGlobals hStates.1, hStates.1.calls⟩, w', hStates.1⟩
      exact hValue.imp (fun hf => hf.elim) fun _ _ => sameButId_of_standsFor
    | @error w' e e' _ _ _ hFault hSpan hStates =>
      cases EvalError.eq_of_parts hFault hSpan
      exact Or.inr ⟨⟨.error _, hGlobals hStates.1, hStates.1.calls⟩, w', hStates.1⟩

theorem runAll_agrees {w : Registry} {s s' : Session} (h : Memoizes w s s') {texts : List String}
    (hFloats : ∀ text ∈ texts, ∀ program, Program.ofString text = .ok program →
      Node.anyUsesFloats program = false)
    (hQuiet : s.runAllBy (watched cautious) texts = s.runAll texts) :
    AgreeUntilDeep (s.runAll texts) (s'.runAll texts) := by
  induction texts generalizing w s s' with
  | nil => exact .nil
  | cons text texts ih =>
    obtain ⟨hStep, hRest⟩ := List.cons.inj hQuiet
    have hText := runText_agrees h (hFloats text List.mem_cons_self)
    rw [hStep] at hText hRest
    show AgreeUntilDeep (s.runText text :: (s.runText text).2.runAll texts)
      (s'.runText text :: (s'.runText text).2.runAll texts)
    rw [runTextBy_evaluate] at hText hRest
    rcases hText with ⟨limit, span, t, hDeep⟩ | ⟨hAgrees, w', hNext⟩
    · rw [hDeep]
      exact .deep
    · exact .step hAgrees (ih hNext
        (fun other hOther => hFloats other (List.mem_cons_of_mem text hOther)) hRest)

/-- **Remembering calls is only a matter of speed.**  Two new sessions of which one remembers calls
agree in every step, as long as neither floats nor divisions are used, no global name is defined
anew, no comparison gets a function, and the limit of depth is not reached. -/
theorem memoize_agrees (maxDepth : Nat) (texts : List String)
    (hFloats : ∀ text ∈ texts, ∀ program, Program.ofString text = .ok program →
      Node.anyUsesFloats program = false)
    (hQuiet : (Session.new ⟨false, maxDepth⟩).Undisturbed hazard texts) :
    AgreeUntilDeep ((Session.new ⟨false, maxDepth⟩).runAll texts)
      ((Session.new ⟨true, maxDepth⟩).runAll texts) := by
  have hNew : Memoizes .empty (.new ⟨false, maxDepth⟩) (.new ⟨true, maxDepth⟩) := {
    plain := rfl
    maxDepth := rfl
    depth := rfl
    globals := .nil
    calls := Nat.le_refl _
    registered := fun i f hf => by cases hf
    cache := fun key v' hFound => by
      rw [show (Session.new ⟨true, maxDepth⟩).cache = .empty from rfl, Cache.find?_empty] at hFound
      cases hFound }
  exact runAll_agrees hNew hFloats (hQuiet cautious.error)

/-- A function is defined and called twice with the same argument. -/
theorem memoize_agrees_twice :
    AgreeUntilDeep
      ((Session.new ⟨false, 2⟩).runAll ["(f ((n) n lambda) define)", "(2 f)", "(2 f)"])
      ((Session.new ⟨true, 2⟩).runAll ["(f ((n) n lambda) define)", "(2 f)", "(2 f)"]) := by
  have hDefinition : Program.ofString "(f ((n) n lambda) define)" = .ok [.list
      [.atom (.symbol "f") ⟨1, 2⟩,
        .list [.list [.atom (.symbol "n") ⟨5, 6⟩] ⟨4, 7⟩, .atom (.symbol "n") ⟨8, 9⟩,
          .atom (.symbol "lambda") ⟨10, 16⟩] ⟨3, 17⟩,
        .atom (.symbol "define") ⟨18, 24⟩] ⟨0, 25⟩] := by rfl
  have hCall : Program.ofString "(2 f)" = .ok
      [.list [.atom (.int 2) ⟨1, 2⟩, .atom (.symbol "f") ⟨3, 4⟩] ⟨0, 5⟩] := by rfl
  refine memoize_agrees 2 _ (fun text hText program hProgram => ?_) fun e => ?_
  · have hText : text = "(f ((n) n lambda) define)" ∨ text = "(2 f)" := by simpa using hText
    rcases hText with rfl | rfl
    · rw [hDefinition] at hProgram
      cases hProgram
      decide
    · rw [hCall] at hProgram
      cases hProgram
      decide
  · simp only [runAllBy, runTextBy, runAll, hDefinition, hCall]
    rfl

end Session

end PostLisp

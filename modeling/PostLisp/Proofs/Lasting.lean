import PostLisp.Proofs.ResultsStay
import PostLisp.Proofs.Settled

/-!
# Results that last

Without floats a session remembers its results for good.  A result lasts if it is the end of a
recorded run whose results are all remembered still, and which found only lasting results when it
began (`Lasting`).  Evaluation keeps to states in which all results last (`lasting`).

The recorded run of a result that lasts can be made towards the session that remembers it: no call on
the way comes to a result that this session does not have (`towards`).
-/

namespace PostLisp

open Eval EvalM

/-! ### Runs of registered states -/

/-- Runs that keep to a registry end in the same way. -/
theorem conforming.eq_of_outcome {floats : Prop} {watch : Watch} {w : Registry}
    {r r' : EStateM.Result EvalError EvalState Value}
    (h : (conforming floats watch).Outcome w (conforming floats watch).Alike r r') : r = r' := by
  cases h with
  | pardoned h => exact h.elim
  | pardoned' h => exact h.elim
  | ok _ hValue hStates => rw [hValue.eq_of_known, hStates.1]
  | error _ hFault hSpan hStates => rw [EvalError.eq_of_parts hFault hSpan, hStates.1]

namespace Registered

variable {w : Registry} {s t : EvalState} {room : Nat} {ns : List Node} {v : Value}

/-- Without floats a run is a careful one. -/
theorem inOrder_carefully (h : Registered False w s) (hNodes : Node.LikeAll False Eq ns ns)
    (e e' : EvalError) {pending : List Pending} (hPending : ∀ p ∈ pending, p.WithoutFloats) :
    inOrder (carefully e e' pending room) .void ns s = inOrder (evaluateWithin room) .void ns s := by
  have hSimulates : (conforming False .never).Simulates (carefully e e' pending room)
      (evaluateBy (.apart e .plain) pending room) := conforming.simulates_carefully e e' pending room
  have hCareful := conforming.eq_of_outcome (w := w)
    (Comparison.outcome_inOrder hSimulates hNodes .void ⟨rfl, h⟩)
  have hApart := conforming.eq_of_outcome (w := w) (Comparison.outcome_inOrder
    (conforming.simulates_apart e hPending room) hNodes .void ⟨rfl, h⟩)
  exact hCareful.trans hApart

/-- Without floats a run keeps all results. -/
theorem keeps (h : Registered False w s) (hNodes : Node.LikeAll False Eq ns ns)
    (hRun : inOrder (evaluateWithin room) .void ns s = .ok v t) : s.session.Keeps t.session := by
  have hKeeps := moves_inOrder (fun n (_ : n ∈ ns) => moves_keeps_carefully late stopped [] room n)
    .void s
  rwa [final_ok ((h.inOrder_carefully hNodes late stopped (by simp)).trans hRun)] at hKeeps

/-- Without floats a call that was not remembered when it began is not when its body has ended. -/
theorem not_remembered (h : Registered False w s) {f : Closure Value} {args : List Value}
    {key : CallKey} (hFunction : f.Known False w f) (hCaptured : f.captured.Conforms False w)
    (hArgs : Value.LikeAll False (Closure.Known False w) args args)
    (hKey : s.session.keyOf f args = some key) (hMissing : s.session.cache.find? key = none)
    (hRun : inOrder (evaluateWithin room) .void f.body ⟨s.session.entered f true, f.frame args⟩ =
      .ok v t) : t.session.cache.find? key = none := by
  have hPending : ∀ p ∈ [(⟨key, args⟩ : Pending)], p.WithoutFloats := by
    intro p hMem
    obtain rfl := List.mem_singleton.1 hMem
    exact ⟨hArgs.mono fun _ _ _ => trivial, (Session.keyOf_eq_some hKey).2⟩
  have hEntered := h.entered hCaptured hArgs true
  have hCareful := (hEntered.inOrder_carefully hFunction.body late stopped hPending).trans hRun
  exact PostLisp.not_remembered (h.keeps_entered hFunction.registered hCaptured hArgs true)
    (hArgs.imp (fun _ => trivial) fun _ _ => h.holds hFunction.registered) hKey hMissing hCareful

end Registered

/-! ### Sessions one after the other -/

/-- The second session has come after the first one, and remembers what that one did. -/
structure Session.Precedes (s t : Session) : Prop where
  options : t.options = s.options
  logged : s.Logged t
  events : s.events <:+ t.events
  keeps : s.Keeps t

namespace Session.Precedes

variable {s t u : Session}

theorem refl (s : Session) : s.Precedes s := ⟨rfl, .refl s, List.suffix_rfl, .refl s⟩

theorem trans (h : s.Precedes t) (g : t.Precedes u) : s.Precedes u :=
  ⟨g.options.trans h.options, h.logged.trans g.logged, h.events.trans g.events,
    h.keeps.trans g.keeps⟩

/-- Nothing but counters has changed. -/
theorem of_eq (hOptions : t.options = s.options) (hGlobals : t.globals = s.globals)
    (hCache : t.cache = s.cache) (hNextId : s.nextId ≤ t.nextId) (hEvents : t.events = s.events) :
    s.Precedes t where
  options := hOptions
  logged := .of_eq hGlobals fun name => (NothingDefined.of_events hEvents name).1
  events := hEvents ▸ List.suffix_rfl
  keeps := .of_cache hCache hNextId

/-- Another event than a definition. -/
theorem of_event {event : Event} (hOptions : t.options = s.options) (hGlobals : t.globals = s.globals)
    (hCache : t.cache = s.cache) (hNextId : s.nextId ≤ t.nextId) (hEvents : t.events = event :: s.events)
    (hOther : ∀ name, event.defines name = false) : s.Precedes t where
  options := hOptions
  logged := .of_eq hGlobals fun name => (NothingDefined.of_event hEvents hOther name).1
  events := hEvents ▸ List.suffix_cons _ _
  keeps := .of_cache hCache hNextId

theorem answered (s : Session) (f : Closure Value) : s.Precedes (s.answered f) :=
  of_event rfl rfl rfl (Nat.le_refl _) rfl fun _ => rfl

theorem entered (s : Session) (f : Closure Value) (cacheable : Bool) :
    s.Precedes (s.entered f cacheable) :=
  of_event rfl rfl rfl (Nat.le_refl _) rfl fun _ => rfl

/-- A result that is new. -/
theorem returned (s : Session) {key : Option CallKey}
    (hNew : ∀ k, key = some k → s.cache.find? k = none) (v : Value) :
    s.Precedes (s.returned key v) where
  options := by cases key <;> rfl
  logged := .of_eq (by cases key <;> rfl) fun _ => by cases key <;> rfl
  events := by cases key <;> exact List.suffix_rfl
  keeps := .returned s hNew v

end Session.Precedes

/-- Without floats a run leads from one session to a later one. -/
theorem Registered.precedes {w : Registry} {s t : EvalState} {room : Nat} {ns : List Node} {v : Value}
    (h : Registered False w s) (hNodes : Node.LikeAll False Eq ns ns)
    (hRun : inOrder (evaluateWithin room) .void ns s = .ok v t) :
    s.session.Precedes t.session := by
  have hCounted := moves_inOrder (fun n (_ : n ∈ ns) => evaluateWithin_counted room n) .void s
  have hLogged := moves_inOrder (fun n (_ : n ∈ ns) => evaluateWithin_logged room n) .void s
  have hEvents := moves_inOrder (fun n (_ : n ∈ ns) => evaluateWithin_events room n) .void s
  rw [final_ok hRun] at hCounted hLogged hEvents
  exact ⟨hCounted.options, hLogged, hEvents, h.keeps hNodes hRun⟩

/-! ### Results that last -/

/-- The result is the end of a recorded run.  What was remembered when this began lasted, and what was
remembered when it ended is remembered still. -/
inductive Lasting : Registry → Session → CallKey → Value → Prop
  | intro {w w₀ : Registry} {now : Session} {key : CallKey} {v : Value} {f : Closure Value}
      {args : List Value} {room : Nat} {s t : EvalState} (hRun : f.Run key v args room s t)
      (hFunction : f.Known False w₀ f)
      (hArgs : Value.LikeAll False (Closure.Known False w₀) args args)
      (hStart : Registered False w₀ s) (hMemoize : s.session.options.memoize = true)
      (hEarlier : ∀ other x, s.session.cache.find? other = some x → Lasting w₀ s.session other x)
      (hSince : t.session.Precedes now) (hRegistered : w key.function = some f)
      (hValue : v.Conforms False w) : Lasting w now key v

/-- A registered state of a session that remembers calls, and all of whose results last. -/
structure Lasts (w : Registry) (s : EvalState) : Prop extends Registered False w s where
  memoize : s.session.options.memoize = true
  lasting : ∀ key v, s.session.cache.find? key = some v → Lasting w s.session key v

theorem Lasting.mono {w w' : Registry} {now now' : Session} {key : CallKey} {v : Value}
    (hWorld : w ≤ w') (hSince : now.Precedes now') (h : Lasting w now key v) :
    Lasting w' now' key v := by
  cases h with
  | intro hRun hFunction hArgs hStart hMemoize hEarlier hBefore hRegistered hValue =>
    exact .intro hRun hFunction hArgs hStart hMemoize hEarlier (hBefore.trans hSince)
      (hWorld _ _ hRegistered) (hValue.mono fun _ _ => Closure.Known.mono hWorld)

namespace Lasts

variable {w w' : Registry} {s t : EvalState}

/-- A step that leaves the cache alone. -/
theorem keep (h : Lasts w s) (hWorld : w ≤ w') (hNext : Registered False w' t)
    (hCache : t.session.cache = s.session.cache) (hSince : s.session.Precedes t.session) :
    Lasts w' t where
  toRegistered := hNext
  memoize := by rw [hSince.options, h.memoize]
  lasting key v hFound := by
    rw [hCache] at hFound
    exact (h.lasting key v hFound).mono hWorld hSince

theorem enterForm (h : Lasts w s) : Lasts w s.enterForm :=
  h.keep (le_refl w) h.toRegistered.enterForm rfl (.of_eq rfl rfl rfl (Nat.le_refl _) rfl)

theorem leaveForm (h : Lasts w s) : Lasts w s.leaveForm :=
  h.keep (le_refl w) h.toRegistered.leaveForm rfl (.of_eq rfl rfl rfl (Nat.le_refl _) rfl)

theorem inFrame (h : Lasts w t) {frame : Frame} (hFrame : frame.Conforms False w) :
    Lasts w ⟨t.session, frame⟩ :=
  h.keep (le_refl w) (h.toRegistered.inFrame hFrame) rfl (.refl _)

theorem answered (h : Lasts w s) (f : Closure Value) : Lasts w ⟨s.session.answered f, s.frame⟩ :=
  h.keep (le_refl w) (h.toRegistered.answered f) rfl (.answered _ f)

theorem entered (h : Lasts w s) {f : Closure Value} {args : List Value}
    (hCaptured : f.captured.Conforms False w)
    (hArgs : Value.LikeAll False (Closure.Known False w) args args) (cacheable : Bool) :
    Lasts w ⟨s.session.entered f cacheable, f.frame args⟩ :=
  h.keep (le_refl w) (h.toRegistered.entered hCaptured hArgs cacheable) rfl (.entered _ f cacheable)

theorem define_call {session : Session} {locals captured : Bindings Value}
    (h : Lasts w ⟨session, .call locals captured⟩) (name : String) {v : Value}
    (hValue : v.Conforms False w) : Lasts w ⟨session, .call (locals.insert name v) captured⟩ :=
  h.keep (le_refl w) (h.toRegistered.define_call name hValue) rfl (.refl _)

/-- A new function is registered. -/
theorem makeFunction (h : Lasts w s) {f : Closure Value} (hId : f.id = s.session.nextId)
    (arity captured : Nat) :
    w ≤ w.insert f ∧ Lasts (w.insert f) { s with session := { s.session with
      nextId := s.session.nextId + 1
      events := .functionCreated s.session.nextId arity captured :: s.session.events } } := by
  obtain ⟨hWorld, hNext⟩ := h.toRegistered.makeFunction hId arity captured
  exact ⟨hWorld, h.keep hWorld hNext rfl (.of_event rfl rfl rfl (Nat.le_succ _) rfl fun _ => rfl)⟩

/-- A result that is remembered lasts. -/
theorem returned {f : Closure Value} {args : List Value} {key : CallKey} {v : Value} {room : Nat}
    {w₀ : Registry} (h : Lasts w t) (hWorld : w₀ ≤ w) (hStart : Lasts w₀ s)
    (hKey : s.session.keyOf f args = some key) (hMissing : s.session.cache.find? key = none)
    (hFunction : f.Known False w₀ f) (hCaptured : f.captured.Conforms False w₀)
    (hArgs : Value.LikeAll False (Closure.Known False w₀) args args)
    (hRun : inOrder (evaluateWithin room) .void f.body
      ⟨s.session.entered f true, f.frame args⟩ = .ok v t) (hValue : v.Conforms False w) :
    Lasts w ⟨t.session.returned (some key) v, t.frame⟩ := by
  have hEntered := hStart.entered hCaptured hArgs true
  have hRegistered := Registered.returned hWorld hKey hEntered.toRegistered hFunction hArgs hRun
    hValue h.toRegistered
  have hNew := hStart.toRegistered.not_remembered hFunction hCaptured hArgs hKey hMissing hRun
  have hSince : t.session.Precedes (t.session.returned (some key) v) :=
    .returned _ (fun _ hSame => Option.some.inj hSame ▸ hNew) v
  refine { hRegistered with memoize := h.memoize, lasting := fun other x hFound => ?_ }
  rcases Session.find?_returned hFound with hBefore | ⟨hOther, rfl⟩
  · exact (h.lasting other x hBefore).mono (le_refl w) hSince
  · cases hOther
    obtain ⟨hId, -⟩ := Session.keyOf_eq_some hKey
    have hOf : CallKey.of? f.id args = some key := by
      rwa [Session.keyOf, if_pos hStart.memoize] at hKey
    refine .intro ⟨hOf, rfl, rfl, hRun⟩ hFunction hArgs hEntered.toRegistered hEntered.memoize
      hEntered.lasting hSince ?_ hValue
    rw [hId]
    exact hWorld _ _ hFunction.registered

end Lasts

/-- Equality of states in which all results last; nothing is pardoned. -/
def lasting : Correspondence Registry where
  floats := False
  spans := Eq
  functions := Closure.Known False
  states w s s' := s' = s ∧ Lasts w s
  rooms := Eq
  watch := .never
  pardoned _ := False
  pardoned' _ := False

namespace lasting

variable {w : Registry} {s : EvalState}

/-- A step that keeps to a registry, leaves the cache alone and leads to a later session. -/
theorem outcome_step {α : Type} {values : Registry → α → α → Prop} {act : EvalM α} (h : Lasts w s)
    (hOutcome : (conforming False .never).Outcome w values (act s) (act s))
    (hCache : (act.final s).session.cache = s.session.cache)
    (hSince : s.session.Precedes (act.final s).session) :
    lasting.Outcome w values (act s) (act s) := by
  rw [final] at hCache hSince
  generalize act s = r at hOutcome hCache hSince
  cases hOutcome with
  | pardoned h => exact h.elim
  | pardoned' h => exact h.elim
  | ok hWorld hValues hStates =>
    exact .ok hWorld hValues ⟨rfl, h.keep hWorld hStates.2 hCache hSince⟩
  | error hWorld hFault hSpan hStates =>
    exact .error hWorld hFault hSpan ⟨rfl, h.keep hWorld hStates.2 hCache hSince⟩

theorem precedes_define (name : String) (v : Value) (s : EvalState) :
    s.session.Precedes ((do announce name v; EvalM.define name v : EvalM Unit).final s).session where
  options := (moves_counted_define name v s).options
  logged := moves_logged_define name v s
  events := by
    obtain ⟨session, frame⟩ := s
    cases frame with
    | top => exact List.suffix_cons _ _
    | call locals captured => exact List.suffix_rfl
  keeps := .of_cache (moves_aside_define name v s).cache (moves_counted_define name v s).nextId

theorem outcome_apply {room : Nat} {f : Closure Value} {args : List Value} {span : Span}
    (hEv : lasting.Simulates (evaluateWithin room) (evaluateWithin room))
    (hFunction : f.Known False w f) (hCaptured : f.captured.Conforms False w)
    (hArgs : Value.LikeAll False (Closure.Known False w) args args) (h : Lasts w s) :
    lasting.Outcome w lasting.Alike (apply (evaluateWithin room) f args span s)
      (apply (evaluateWithin room) f args span s) := by
  have hStates : lasting.states w s s := ⟨rfl, h⟩
  by_cases hArity : args.length = f.params.length
  · cases hFound : (s.session.keyOf f args).bind s.session.cache.find? with
    | some v =>
      obtain ⟨key, -, hCached⟩ := Option.bind_eq_some_iff.1 hFound
      rw [apply_remembered hArity hFound]
      exact .ok (le_refl w) (h.cache key v hCached).value ⟨rfl, h.answered f⟩
    | none =>
      have hEntered := h.entered hCaptured hArgs (s.session.keyOf f args).isSome
      refine Comparison.outcome_apply_run hArity hArity hFound hFound ?_ ?_ ?_
      · exact Comparison.outcome_inOrder hEv hFunction.body .void ⟨rfl, hEntered⟩
      · rintro w' v v' t t' hWorld - hRun hValue ⟨rfl, hInside⟩
        have hSame := hValue.eq_of_known
        subst hSame
        have hFrame := h.frame.mono fun _ _ => Closure.Known.mono hWorld
        refine ⟨rfl, ?_⟩
        cases hKey : s.session.keyOf f args with
        | none => exact hInside.inFrame hFrame
        | some key =>
          rw [hKey] at hRun hFound
          exact (hInside.returned hWorld h hKey hFound hFunction hCaptured hArgs hRun hValue).inFrame
            hFrame
      · rintro w' t t' hWorld ⟨rfl, hInside⟩
        exact ⟨rfl, hInside.inFrame (h.frame.mono fun _ _ => Closure.Known.mono hWorld)⟩
  · exact Comparison.outcome_apply_arity rfl hArgs.length_eq rfl hStates hArity

theorem laws : lasting.Laws where
  functions_mono hWorld h := Closure.Known.mono hWorld h
  alarm _ hAlarm := by cases hAlarm
  rooms_succ h := Nat.succ.inj h
  rooms_zero h := Or.inr ⟨h.symm, fun _ _ _ hStates => by rw [hStates.1]⟩
  rooms_zero' h := by cases h
  enterForm := by
    rintro w s s' ⟨rfl, h⟩
    exact ⟨rfl, h.enterForm⟩
  leaveForm := by
    rintro w s s' ⟨rfl, h⟩
    exact ⟨rfl, h.leaveForm⟩
  lookup := by
    rintro w room n name s s' - - ⟨rfl, h⟩
    exact .alike (h.frame.lookup h.globals name)
  define := by
    rintro w room span target expression operator name s t t' v v' - - - hValue ⟨rfl, h⟩
    have hSame := hValue.eq_of_known
    subst hSame
    exact outcome_step h (conforming.outcome_define hValue h.toRegistered)
      (moves_aside_define name v _).cache (precedes_define name v _)
  compare := by
    intro w room span first second operator s t u v v' x x' _ _ _ _ hValue hNext
    rw [hValue.eq_of_known, hNext.eq_of_known]
  makeFunction := by
    rintro w params body body' s s' hBody ⟨rfl, h⟩
    have hSame := hBody.eq
    subst hSame
    exact outcome_step h (conforming.outcome_makeFunction hBody h.toRegistered) rfl
      (.of_event rfl rfl rfl (Nat.le_succ _) rfl fun _ => rfl)
  apply := by
    rintro w room room' f f' args args' span span' s s' rfl hEv hFunction hCaptured hArgs rfl ⟨rfl, h⟩
    obtain ⟨rfl, hRegistered, hBody⟩ := hFunction
    have hSame := hArgs.eq_of_known
    subst hSame
    have hEv : lasting.Simulates (watchedWithin .never room) (evaluateWithin room) := hEv _ rfl
    rw [watchedWithin_never] at hEv
    rw [show watchedWithin lasting.watch room = evaluateWithin room from watchedWithin_never room]
    exact outcome_apply hEv ⟨rfl, hRegistered, hBody⟩ hCaptured hArgs h

/-- **Results last** in the course of evaluation. -/
theorem simulates (room : Nat) : lasting.Simulates (evaluateWithin room) (evaluateWithin room) := by
  have hAll : lasting.Simulates (watchedWithin .never room) (evaluateWithin room) :=
    laws.simulates rfl
  rwa [watchedWithin_never] at hAll

/-- A call leads to a state in which all results last. -/
theorem lasts_of_apply {room : Nat} {f : Closure Value} {args : List Value} {span : Span} {v : Value}
    {t : EvalState} (h : Lasts w s) (hFunction : f.Known False w f)
    (hCaptured : f.captured.Conforms False w)
    (hArgs : Value.LikeAll False (Closure.Known False w) args args)
    (hCall : apply (evaluateWithin room) f args span s = .ok v t) :
    ∃ w', w ≤ w' ∧ v.Conforms False w' ∧ Lasts w' t := by
  have hOutcome : lasting.Outcome w lasting.Alike (apply (evaluateWithin room) f args span s)
      (apply (evaluateWithin room) f args span s) :=
    outcome_apply (simulates room) hFunction hCaptured hArgs h
  rw [hCall] at hOutcome
  cases hOutcome with
  | ok hWorld hValue hStates => exact ⟨_, hWorld, hValue, hStates.2⟩

end lasting

/-- Without floats all results of a session last. -/
theorem Session.after_lasts {w : Registry} {s : Session} (h : Lasts w ⟨s, .top⟩)
    {texts : List String} (hTexts : ∀ text ∈ texts, Allowed False text) :
    ∃ w', Lasts w' ⟨s.after texts, .top⟩ := by
  induction texts generalizing w s with
  | nil => exact ⟨w, h⟩
  | cons text texts ih =>
    obtain ⟨hText, hTexts⟩ := List.forall_mem_cons.1 hTexts
    suffices hNext : ∃ w', Lasts w' ⟨(s.runText text).2, .top⟩ by
      obtain ⟨w', hNext⟩ := hNext
      exact ih hNext hTexts
    rw [runText]
    cases hProgram : Program.ofString text with
    | error e => exact ⟨w, h⟩
    | ok program =>
      have hEv : lasting.Simulates Eval.evaluate Eval.evaluate := by
        rintro n n' hNodes w s s' ⟨rfl, h⟩
        exact lasting.simulates _ n n' hNodes w s' s' ⟨rfl, h⟩
      have hStates : lasting.states w ⟨s, .top⟩ ⟨s, .top⟩ := ⟨rfl, h⟩
      have hOutcome := Comparison.outcome_inOrder hEv (hText program hProgram) .void hStates
      show ∃ w', Lasts w' ⟨(s.perform .top _).2.session, .top⟩
      rw [session_perform, final]
      generalize inOrder Eval.evaluate .void program ⟨s, .top⟩ = r at hOutcome
      cases hOutcome with
      | pardoned h => exact h.elim
      | pardoned' h => exact h.elim
      | @ok w' _ _ _ _ _ _ hStates => exact ⟨w', hStates.2.inFrame trivial⟩
      | @error w' _ _ _ _ _ _ _ hStates => exact ⟨w', hStates.2.inFrame trivial⟩

/-- A new session remembers nothing. -/
theorem Session.lasts_new (maxDepth : Nat) : Lasts .empty ⟨new ⟨true, maxDepth⟩, .top⟩ where
  toRegistered := registered_new _
  memoize := rfl
  lasting key v hFound := by
    rw [show (new ⟨true, maxDepth⟩).cache = .empty from rfl, Cache.find?_empty] at hFound
    cases hFound

/-! ### Towards a later session -/

namespace Eval

/-- Evaluation that stops right before or after a call where something is remembered that a later
session does not remember. -/
noncomputable abbrev towards (final : Session) : Nat → Evaluator :=
  evaluateBy (.interrupted (fun s => ¬ s.session.Keeps final) late) []

variable {final : Session} {room : Nat} {s t : EvalState} {v : Value}

theorem towards_or_stopped (n : Node) (s : EvalState) :
    towards final room n s = evaluateWithin room n s ∨
      ∃ t, towards final room n s = .error late t := by
  rw [← evaluateBy_plain []]
  refine evaluateBy_or_stopped (fun pending pending' evs evs' hEv f args span s => ?_) [] [] room n s
  rw [Caller.interrupted, Caller.plain]
  by_cases hBefore : s.session.Keeps final
  · have hCalls : apply (evs pending) f args span s = apply (evs' pending') f args span s ∨ _ :=
      apply_or_stopped (hEv pending pending') s
    rcases hCalls with hSame | ⟨t, hStopped⟩
    · cases hCall : apply (evs' pending') f args span s with
      | error e t =>
        exact Or.inl (interrupted_error (not_not_intro hBefore) (hSame.trans hCall))
      | ok v t =>
        by_cases hAfter : t.session.Keeps final
        · exact Or.inl (interrupted_ok (not_not_intro hBefore) (hSame.trans hCall)
            (not_not_intro hAfter))
        · exact Or.inr ⟨t, interrupted_after (not_not_intro hBefore) (hSame.trans hCall) hAfter⟩
    · exact Or.inr ⟨t, interrupted_error (not_not_intro hBefore) hStopped⟩
  · exact Or.inr ⟨s, interrupted_before hBefore⟩

/-- What succeeds towards a later session succeeds. -/
theorem evaluateWithin_of_towards {n : Node} (h : towards final room n s = .ok v t) :
    evaluateWithin room n s = .ok v t := by
  rcases towards_or_stopped n s with hSame | ⟨u, hStopped⟩
  · exact hSame.symm.trans h
  · rw [hStopped] at h
    cases h

/-- What is asked of an evaluator can be asked of another one that goes towards a later session. -/
theorem Asks.towards {α : Type} {act : Evaluator → EvalM α} {ev ev' : Evaluator} {v : α}
    (h : Asks act) (hKeeps : ∀ n, Moves (fun s t => s.session.Keeps t.session) (ev n))
    (hEv : ∀ n s v t, ev n s = .ok v t → t.session.Keeps final → ev' n s = .ok v t)
    (hRun : act ev s = .ok v t) (hFinal : t.session.Keeps final) : act ev' s = .ok v t := by
  induction h generalizing s t with
  | const _ => exact hRun
  | node n => exact hEv n s v t hRun hFinal
  | bind first rest ihFirst ihRest =>
    obtain ⟨x, m, hFirst, hRest⟩ := of_bind_ok hRun
    have hAfter := (rest x).moves hKeeps (fun _ _ h => .of_cache h.cache h.counted.nextId) m
    rw [final_ok hRest] at hAfter
    exact (bind_ok (ihFirst hFirst (hAfter.trans hFinal))).trans (ihRest x hRest hFinal)

section

variable {e e' : EvalError} {pending : List Pending}

/-- A careful call can be made towards every session that keeps its results. -/
theorem interrupted_call
    (hEv : ∀ pending n s v t, carefully e e' pending room n s = .ok v t → t.session.Keeps final →
      towards final room n s = .ok v t) {f : Closure Value} {args : List Value} {span : Span}
    (hRun : Caller.apart e (.once e') pending (carefully e e' · room) f args span s = .ok v t)
    (hFinal : t.session.Keeps final) :
    (apply (towards final room) f args span).interrupted (fun s => ¬ s.session.Keeps final) late s =
      .ok v t := by
  have hEvKeeps (pending : List Pending) (n : Node) := moves_keeps_carefully e e' pending room n
  have hKeeps := moves_keeps_call e e' pending room f args span s
  rw [final_ok hRun] at hKeeps
  obtain ⟨-, hOnce⟩ := Caller.of_apart_ok hRun
  obtain ⟨hNew, hApply⟩ := Caller.of_once_ok hOnce
  refine interrupted_ok (not_not_intro (hKeeps.trans hFinal)) ?_ (not_not_intro hFinal)
  have hEnds := apply_ends (carefully e e' (Caller.inside pending f args s) room) f args span s
  rw [hApply] at hEnds
  cases hEnds with
  | remembered hArity hFound => exact apply_remembered hArity hFound
  | @returned _ u hArity hMissing hBody =>
    have hReturned : u.session.Keeps (u.session.returned (s.session.keyOf f args) v) :=
      .returned u.session (fun _ hKey => new_of_not_replaces hNew hArity hMissing hKey hBody) v
    exact apply_run_ok hArity hMissing ((asks_inOrder .void f.body).towards (hEvKeeps _)
      (hEv _) hBody (hReturned.trans hFinal))

/-- **A careful run can be made towards every session that keeps its results.** -/
theorem towards_of_carefully {n : Node} (hRun : carefully e e' pending room n s = .ok v t)
    (hFinal : t.session.Keeps final) : towards final room n s = .ok v t := by
  induction room generalizing pending n s v t with
  | zero =>
    cases n with
    | atom a span => exact hRun
    | list items span => cases hRun
  | succ room ih =>
    cases n with
    | atom a span => exact hRun
    | list items span =>
      obtain ⟨m, hInside, rfl⟩ := of_nested_ok hRun
      refine nested_ok ?_
      have hKeeps : m.session.Keeps final := ⟨hFinal.entries, hFinal.nextId⟩
      have hEvKeeps (n : Node) := moves_keeps_carefully e e' pending room n
      rcases formBy_cases items span with ⟨act, hAsks, hForm⟩ | ⟨act, hAsks, hForm⟩
      · rw [hForm] at hInside ⊢
        exact hAsks.towards hEvKeeps (fun _ _ _ _ h => ih h) hInside hKeeps
      · rw [hForm] at hInside ⊢
        obtain ⟨c, u, hCalling, hCall⟩ := of_bind_ok hInside
        have hAfter := moves_keeps_call e e' pending room c.1 c.2 span u
        rw [final_ok hCall] at hAfter
        exact (bind_ok (hAsks.towards hEvKeeps (fun _ _ _ _ h => ih h) hCalling
          (hAfter.trans hKeeps))).trans (interrupted_call (fun _ _ _ _ _ h => ih h) hCall hKeeps)

end

end Eval

/-- Without floats a run can be made towards every session that keeps its results. -/
theorem Registered.inOrder_towards {w : Registry} {s t : EvalState} {room : Nat} {ns : List Node}
    {v : Value} (h : Registered False w s) (hNodes : Node.LikeAll False Eq ns ns)
    (hRun : inOrder (evaluateWithin room) .void ns s = .ok v t) {final : Session}
    (hFinal : t.session.Keeps final) : inOrder (towards final room) .void ns s = .ok v t :=
  (asks_inOrder .void ns).towards (moves_keeps_carefully late stopped [] room)
    (fun _ _ _ _ => towards_of_carefully)
    ((h.inOrder_carefully hNodes late stopped (by simp)).trans hRun) hFinal

end PostLisp

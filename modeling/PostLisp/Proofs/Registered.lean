import PostLisp.Proofs.Memo

/-!
# Registered functions

Along one run a registry can be kept that has, for every identity below the counter, the one
function made under it.  `Registered` says that everything in a state conforms to the registry: its
functions, at any depth of captured bindings and of remembered results, are the registered ones,
and every remembered result is the end of a run of the function registered under the identity in
its key.  That run started in a state that was registered in turn.  The run is compared with
itself: `conforming` is equality of states that conform, and its laws say that every step keeps
them so, in a registry that only grows.
-/

namespace PostLisp

open Eval EvalM

/-! ### Calls that were made -/

/-- The body of `f` was run for a call with this key, from `s`, right after the call was reported as
one to remember, and ended in `v` and `t`. -/
structure Closure.Run (f : Closure Value) (key : CallKey) (v : Value) (args : List Value) (room : Nat)
    (s t : EvalState) : Prop where
  key : CallKey.of? f.id args = some key
  frame : s.frame = f.frame args
  reported : s.session.events.head? = some (.cacheMiss f.id true)
  result : inOrder (evaluateWithin room) .void f.body s = .ok v t

/-- A call of `f` with this key, which the log shows, ended in `v`. -/
def Closure.Computed (f : Closure Value) (key : CallKey) (v : Value) (log : List Event) : Prop :=
  ∃ args room s t, f.Run key v args room s t ∧ t.session.events <:+ log

/-! ### States that conform to a registry -/

section

variable (floats : Prop)

/-- The functions are the same, and registered; `floats` says whether floats may occur. -/
structure Closure.Known (w : Registry) (f g : Closure Value) : Prop where
  same : f = g
  registered : w g.id = some g
  body : Node.LikeAll floats Eq g.body g.body

/-- All functions in the value are registered. -/
abbrev Value.Conforms (w : Registry) (v : Value) : Prop :=
  Value.Like floats (Closure.Known floats w) v v

abbrev Bindings.Conforms (w : Registry) (b : Bindings Value) : Prop :=
  b.Like floats (Closure.Known floats w) b

abbrev Frame.Conforms (w : Registry) (frame : Frame) : Prop :=
  frame.Like floats (Closure.Known floats w) frame

/-- The bindings of the state conform to the registry, which has no function beyond the counter,
and every global name was reported. -/
structure EvalState.Conforms (w : Registry) (s : EvalState) : Prop where
  below : ∀ i f, w i = some f → i < s.session.nextId
  globals : s.session.globals.Conforms floats w
  frame : s.frame.Conforms floats w
  announced : ∀ name v, s.session.globals.find? name = some v → 0 < s.session.definitionsOf name

/-- The result was remembered when a run ended whose start conformed to a registry, down to the
results that were remembered then. -/
inductive Remembered : Registry → Session → CallKey → Value → Prop
  | intro {w w₀ : Registry} {now : Session} {key : CallKey} {v : Value} {f : Closure Value}
      {args : List Value} {room : Nat} {s t : EvalState} (hRun : f.Run key v args room s t)
      (hFunction : f.Known floats w₀ f) (hArgs : Value.LikeAll floats (Closure.Known floats w₀) args args)
      (hStart : s.Conforms floats w₀)
      (hEarlier : ∀ other x, s.session.cache.find? other = some x →
        Remembered w₀ s.session other x)
      (hLogged : s.session.Logged now) (hEvents : t.session.events <:+ now.events)
      (hRegistered : w key.function = some f) (hValue : v.Conforms floats w) :
      Remembered w now key v

/-- Everything in the state conforms to the registry. -/
structure Registered (w : Registry) (s : EvalState) : Prop extends s.Conforms floats w where
  cache : ∀ key v, s.session.cache.find? key = some v → Remembered floats w s.session key v

end

variable {floats : Prop}

theorem Closure.Known.mono {w w' : Registry} (hWorld : w ≤ w') {f g : Closure Value}
    (h : f.Known floats w g) : f.Known floats w' g :=
  { h with registered := hWorld _ _ h.registered }

theorem Value.Like.eq_of_known {w : Registry} {v v' : Value}
    (h : Value.Like floats (Closure.Known floats w) v v') : v = v' := by
  have hSame : Value.Like floats Eq v v' := h.mono fun _ _ hf => hf.same
  exact hSame.eq

theorem Value.LikeAll.eq_of_known {w : Registry} {vs vs' : List Value}
    (h : Value.LikeAll floats (Closure.Known floats w) vs vs') : vs = vs' := by
  have hSame : Value.LikeAll floats Eq vs vs' := h.mono fun _ _ hf => hf.same
  exact hSame.eq

namespace Remembered

variable {w : Registry} {now : Session} {key : CallKey} {v : Value}

theorem value (h : Remembered floats w now key v) : v.Conforms floats w := by
  cases h with
  | intro _ _ _ _ _ _ _ _ hValue => exact hValue

/-- What is remembered under the identity of a registered function was computed by it. -/
theorem computed (h : Remembered floats w now key v) :
    ∃ f, w key.function = some f ∧ f.Computed key v now.events := by
  cases h with
  | intro hRun _ _ _ _ _ hEvents hRegistered _ => exact ⟨_, hRegistered, _, _, _, _, hRun, hEvents⟩

theorem mono {w' : Registry} {now' : Session} (hWorld : w ≤ w') (hLogged : now.Logged now')
    (hEvents : now.events <:+ now'.events) (h : Remembered floats w now key v) :
    Remembered floats w' now' key v := by
  cases h with
  | intro hRun hFunction hArgs hStart hEarlier hLogged₀ hEvents₀ hRegistered hValue =>
    exact .intro hRun hFunction hArgs hStart hEarlier (hLogged₀.trans hLogged)
      (hEvents₀.trans hEvents) (hWorld _ _ hRegistered)
      (hValue.mono fun _ _ => Closure.Known.mono hWorld)

end Remembered

namespace Registered

variable {w w' : Registry} {s t : EvalState}

/-- A step that leaves the global bindings and the cache alone. -/
theorem keep (h : Registered floats w s) (hWorld : w ≤ w')
    (hBelow : ∀ i f, w' i = some f → i < t.session.nextId)
    (hFrame : t.frame.Conforms floats w') (hGlobals : t.session.globals = s.session.globals)
    (hCache : t.session.cache = s.session.cache) (hEvents : s.session.events <:+ t.session.events)
    (hCounts : ∀ name, t.session.definitionsOf name = s.session.definitionsOf name) :
    Registered floats w' t where
  below := hBelow
  globals := by
    rw [hGlobals]
    exact h.globals.mono fun _ _ => Closure.Known.mono hWorld
  frame := hFrame
  announced name v hFound := by
    rw [hGlobals] at hFound
    rw [hCounts]
    exact h.announced name v hFound
  cache key v hFound := by
    rw [hCache] at hFound
    exact (h.cache key v hFound).mono hWorld (.of_eq hGlobals hCounts) hEvents

theorem enterForm (h : Registered floats w s) : Registered floats w s.enterForm :=
  h.keep (le_refl w) h.below h.frame rfl rfl List.suffix_rfl fun _ => rfl

theorem leaveForm (h : Registered floats w s) : Registered floats w s.leaveForm :=
  h.keep (le_refl w) h.below h.frame rfl rfl List.suffix_rfl fun _ => rfl

/-- The state around a call that has ended. -/
theorem inFrame (h : Registered floats w t) {frame : Frame} (hFrame : frame.Conforms floats w) :
    Registered floats w ⟨t.session, frame⟩ :=
  h.keep (le_refl w) h.below hFrame rfl rfl List.suffix_rfl fun _ => rfl

theorem answered (h : Registered floats w s) (f : Closure Value) :
    Registered floats w ⟨s.session.answered f, s.frame⟩ :=
  h.keep (le_refl w) h.below h.frame rfl rfl (List.suffix_cons _ _) fun _ => by
    simp [Session.definitionsOf, Session.answered]

theorem entered (h : Registered floats w s) {f : Closure Value} {args : List Value}
    (hCaptured : f.captured.Conforms floats w)
    (hArgs : Value.LikeAll floats (Closure.Known floats w) args args) (cacheable : Bool) :
    Registered floats w ⟨s.session.entered f cacheable, f.frame args⟩ :=
  h.keep (le_refl w) h.below (Frame.like_closure rfl hCaptured hArgs) rfl rfl (List.suffix_cons _ _)
    fun _ => by simp [Session.definitionsOf, Session.entered]

theorem define_top {session : Session} (h : Registered floats w ⟨session, .top⟩) (name : String)
    {v : Value} (hValue : v.Conforms floats w) :
    Registered floats w ⟨{ session with
      globals := session.globals.insert name v
      events := .globalDefined name v :: session.events }, .top⟩ := by
  have hLogged := moves_logged_define name v ⟨session, .top⟩
  rw [final_ok (announce_define_top name v session)] at hLogged
  refine { h with
    globals := h.globals.insert name hValue
    announced := fun other x hFound => ?_
    cache := fun key x hFound => (h.cache key x hFound).mono (le_refl w) hLogged (List.suffix_cons _ _) }
  have hCount := (hLogged other).1
  by_cases hName : name = other
  · subst hName
    simp [Session.definitionsOf]
  · change (session.globals.insert name v).find? other = some x at hFound
    rw [Bindings.find?_insert, if_neg hName] at hFound
    exact Nat.lt_of_lt_of_le (h.announced other x hFound) hCount

theorem define_call {session : Session} {locals captured : Bindings Value}
    (h : Registered floats w ⟨session, .call locals captured⟩) (name : String) {v : Value}
    (hValue : v.Conforms floats w) :
    Registered floats w ⟨session, .call (locals.insert name v) captured⟩ :=
  h.inFrame ⟨h.frame.1.insert name hValue, h.frame.2⟩

/-- The identity of the next function is free. -/
theorem free (h : Registered floats w s) : w s.session.nextId = none := by
  cases hTaken : w s.session.nextId with
  | none => rfl
  | some f => exact absurd (h.below _ f hTaken) (Nat.lt_irrefl _)

/-- A new function is registered under the identity that it gets. -/
theorem makeFunction (h : Registered floats w s) {f : Closure Value} (hId : f.id = s.session.nextId)
    (arity captured : Nat) :
    w ≤ w.insert f ∧ Registered floats (w.insert f) { s with session := { s.session with
      nextId := s.session.nextId + 1
      events := .functionCreated s.session.nextId arity captured :: s.session.events } } := by
  have hWorld : w ≤ w.insert f := Registry.le_insert (by rw [hId]; exact h.free)
  refine ⟨hWorld, h.keep hWorld (fun i g hg => ?_) ?_ rfl rfl (List.suffix_cons _ _) fun _ => ?_⟩
  · show i < s.session.nextId + 1
    change (if i = f.id then some f else w i) = some g at hg
    split at hg
    · omega
    · exact Nat.lt_succ_of_lt (h.below i g hg)
  · exact h.frame.mono fun _ _ => Closure.Known.mono hWorld
  · simp [Session.definitionsOf]

/-- A result that is remembered. -/
theorem returned {f : Closure Value} {args : List Value} {key : CallKey} {v : Value} {room : Nat}
    {t : EvalState} {w₀ : Registry} (hWorld : w₀ ≤ w) (hKey : s.session.keyOf f args = some key)
    (hStart : Registered floats w₀ ⟨s.session.entered f true, f.frame args⟩)
    (hFunction : f.Known floats w₀ f)
    (hArgs : Value.LikeAll floats (Closure.Known floats w₀) args args)
    (hRun : inOrder (evaluateWithin room) .void f.body
      ⟨s.session.entered f true, f.frame args⟩ = .ok v t)
    (hValue : v.Conforms floats w) (h : Registered floats w t) :
    Registered floats w ⟨t.session.returned (some key) v, t.frame⟩ := by
  obtain ⟨hId, -⟩ := Session.keyOf_eq_some hKey
  have hOf : CallKey.of? f.id args = some key := by
    rw [Session.keyOf] at hKey
    split at hKey
    · exact hKey
    · cases hKey
  have hLogged := moves_inOrder (fun n (_ : n ∈ f.body) => evaluateWithin_logged room n) .void
    ⟨s.session.entered f true, f.frame args⟩
  rw [final_ok hRun] at hLogged
  refine { h with cache := fun other x hFound => ?_ }
  rcases Session.find?_returned hFound with hBefore | ⟨hOther, rfl⟩
  · have hKept : t.session.Logged (t.session.returned (some key) v) := .of_eq rfl fun _ => rfl
    exact (h.cache other x hBefore).mono (le_refl w) hKept List.suffix_rfl
  · cases hOther
    refine .intro ⟨hOf, rfl, rfl, hRun⟩ hFunction hArgs hStart.toConforms hStart.cache hLogged
      List.suffix_rfl ?_ hValue
    rw [hId]
    exact hWorld _ _ hFunction.registered

end Registered

/-! ### Runs that keep to a registry -/

/-- Equality of states that conform to a registry; nothing is pardoned. -/
def conforming (floats : Prop) (watch : Watch) : Correspondence Registry where
  floats := floats
  spans := Eq
  functions := Closure.Known floats
  states w s s' := s' = s ∧ Registered floats w s
  rooms := Eq
  watch := watch
  pardoned _ := False
  pardoned' _ := False

/-- The watch stays quiet in every state that conforms to some registry. -/
def Watch.Quiet (floats : Prop) (watch : Watch) : Prop :=
  ∀ w room n s, Registered floats w s → watch.alarm room n s = false

namespace conforming

variable {watch : Watch} {w : Registry} {s : EvalState}

theorem outcome_define {name : String} {v : Value} (hValue : v.Conforms floats w)
    (h : Registered floats w s) :
    (conforming floats watch).Outcome w (fun _ _ _ => True)
      ((do announce name v; EvalM.define name v : EvalM Unit) s)
      ((do announce name v; EvalM.define name v : EvalM Unit) s) := by
  obtain ⟨session, frame⟩ := s
  cases frame with
  | top =>
    rw [announce_define_top]
    exact .ok (le_refl w) trivial ⟨rfl, h.define_top name hValue⟩
  | call locals captured =>
    rw [announce_define_call]
    exact .ok (le_refl w) trivial ⟨rfl, h.define_call name hValue⟩

theorem outcome_makeFunction {params : List String} {body : List Node}
    (hBody : Node.LikeAll floats Eq body body) (h : Registered floats w s) :
    (conforming floats watch).Outcome w (conforming floats watch).Alike
      (makeFunction params body s) (makeFunction params body s) := by
  let f : Closure Value := ⟨s.session.nextId, params, body, s.frame.innermost s.session.globals⟩
  obtain ⟨hWorld, hNext⟩ := h.makeFunction (f := f) rfl params.length f.captured.size
  have hCaptured := (h.frame.innermost h.globals).mono fun _ _ => Closure.Known.mono hWorld
  rw [makeFunction_apply]
  exact .ok hWorld (.function ⟨rfl, w.insert_id f, hBody⟩ hCaptured) ⟨rfl, hNext⟩

/-- A call, if what succeeds in the second run does so in evaluation. -/
theorem outcome_apply {room : Nat} {ev ev' : Evaluator} {f : Closure Value} {args : List Value}
    {span : Span} (hEv : (conforming floats watch).Simulates ev ev')
    (hRuns : ∀ n s v t, ev' n s = .ok v t → evaluateWithin room n s = .ok v t)
    (hFunction : f.Known floats w f) (hCaptured : f.captured.Conforms floats w)
    (hArgs : (conforming floats watch).AlikeAll w args args) (h : Registered floats w s) :
    (conforming floats watch).Outcome w (conforming floats watch).Alike
      (apply ev f args span s) (apply ev' f args span s) := by
  have hStates : (conforming floats watch).states w s s := ⟨rfl, h⟩
  by_cases hArity : args.length = f.params.length
  · cases hFound : (s.session.keyOf f args).bind s.session.cache.find? with
    | some v =>
      obtain ⟨key, -, hCached⟩ := Option.bind_eq_some_iff.1 hFound
      rw [apply_remembered hArity hFound, apply_remembered hArity hFound]
      exact .ok (le_refl w) (h.cache key v hCached).value ⟨rfl, h.answered f⟩
    | none =>
      have hEntered := h.entered hCaptured hArgs (s.session.keyOf f args).isSome
      refine Comparison.outcome_apply_run hArity hArity hFound hFound ?_ ?_ ?_
      · exact Comparison.outcome_inOrder hEv hFunction.body .void ⟨rfl, hEntered⟩
      · rintro w' v v' t t' hWorld - hRun hValue ⟨rfl, hInside⟩
        have hSame := hValue.eq_of_known
        subst hSame
        have hFrame := h.frame.mono fun _ _ => Closure.Known.mono hWorld
        refine ⟨rfl, ?_⟩
        cases hKey : s.session.keyOf f args with
        | none => exact hInside.inFrame hFrame
        | some key =>
          rw [hKey] at hRun hEntered
          have hReal := (asks_inOrder .void f.body).ok hRuns hRun
          exact (Registered.returned hWorld hKey hEntered hFunction hArgs hReal hValue hInside).inFrame
            hFrame
      · rintro w' t t' hWorld ⟨rfl, hInside⟩
        exact ⟨rfl, hInside.inFrame (h.frame.mono fun _ _ => Closure.Known.mono hWorld)⟩
  · exact Comparison.outcome_apply_arity rfl hArgs.length_eq rfl hStates hArity

/-- The laws of single steps hold whatever the evaluator is inside a form. -/
theorem stepLaws (hQuiet : watch.Quiet floats) (left : Nat → Evaluator) :
    (conforming floats watch).StepLaws left where
  functions_mono hWorld h := Closure.Known.mono hWorld h
  alarm := by
    rintro w room n s s' ⟨rfl, h⟩ hAlarm
    have hNone := hQuiet w room n s' h
    rw [show watch.alarm room n s' = true from hAlarm] at hNone
    cases hNone
  rooms_succ h := Nat.succ.inj h
  rooms_zero h := Or.inr ⟨h.symm, fun _ _ _ hStates => by rw [hStates.1]⟩
  rooms_zero' h := by cases h
  enterForm := by
    rintro w s s' ⟨rfl, h⟩
    exact ⟨rfl, h.enterForm⟩
  leaveForm := by
    rintro w s s' ⟨rfl, h⟩
    exact ⟨rfl, h.leaveForm⟩
  lookup := by
    rintro w room n name s s' - - ⟨rfl, h⟩
    exact .alike (h.frame.lookup h.globals name)
  define := by
    rintro w room span target expression operator name s t t' v v' - - - hValue ⟨rfl, h⟩
    have hSame := hValue.eq_of_known
    subst hSame
    exact outcome_define hValue h
  compare := by
    intro w room span first second operator s t u v v' x x' _ _ _ _ hValue hNext
    rw [hValue.eq_of_known, hNext.eq_of_known]
  makeFunction := by
    rintro w params body body' s s' hBody ⟨rfl, h⟩
    have hSame := hBody.eq
    subst hSame
    exact outcome_makeFunction hBody h

theorem laws (hQuiet : watch.Quiet floats) : (conforming floats watch).Laws where
  toStepLaws := stepLaws hQuiet _
  apply := by
    rintro w room room' f f' args args' span span' s s' rfl hEv hFunction hCaptured hArgs rfl ⟨rfl, h⟩
    obtain ⟨rfl, hRegistered, hBody⟩ := hFunction
    have hSame := hArgs.eq_of_known
    subst hSame
    exact outcome_apply (hEv _ rfl) (fun _ _ _ _ hRun => hRun) ⟨rfl, hRegistered, hBody⟩ hCaptured
      hArgs h

theorem quiet_never : Watch.never.Quiet floats := fun _ _ _ _ _ => rfl

/-- Evaluation keeps to a registry. -/
theorem simulates_evaluateWithin (room : Nat) :
    (conforming floats .never).Simulates (evaluateWithin room) (evaluateWithin room) := by
  have hAll : (conforming floats .never).Simulates (watchedWithin .never room)
      (evaluateWithin room) := (laws quiet_never).simulates rfl
  rwa [watchedWithin_never] at hAll

/-- Evaluation under a quiet watch is evaluation. -/
theorem simulates_watched (hQuiet : watch.Quiet floats) :
    (conforming floats watch).Simulates (Session.watched watch) evaluate := by
  rintro n n' hNodes w s s' ⟨rfl, h⟩
  exact (laws hQuiet).simulates rfl n n' hNodes w s' s' ⟨rfl, h⟩

end conforming

/-! ### Sessions of several texts -/

namespace Session

/-- The session after texts were run one after the other. -/
def after (s : Session) (texts : List String) : Session :=
  texts.foldl (fun s text => (s.runText text).2) s

/-- What is read from the text may be evaluated where floats may occur or not. -/
def Allowed (floats : Prop) (text : String) : Prop :=
  ∀ program, Program.ofString text = .ok program → Node.LikeAll floats Eq program program

/-- Texts in which a look at each finds no floats have none. -/
theorem noFloats_of_all {texts : List String}
    (h : texts.all (fun text => (Program.ofString text).toOption.all fun program =>
      !Node.anyUsesFloats program) = true) :
    ∀ text ∈ texts, ∀ program, Program.ofString text = .ok program →
      Node.anyUsesFloats program = false := by
  intro text hText program hProgram
  have hAll := List.all_eq_true.1 h text hText
  rw [hProgram] at hAll
  have hNone : (!Node.anyUsesFloats program) = true := hAll
  simpa using hNone

/-- A new session has nothing to register. -/
theorem registered_new (options : Options) : Registered floats .empty ⟨.new options, .top⟩ where
  below i f hf := by cases hf
  globals := .nil
  frame := trivial
  announced name v hFound := by cases hFound
  cache key v hFound := by
    rw [show (new options).cache = .empty from rfl, Cache.find?_empty] at hFound
    cases hFound

/-- One text with two evaluators that end alike. -/
theorem runTextBy_registered {watch : Watch} {ev ev' : Evaluator}
    (hEv : (conforming floats watch).Simulates ev ev') {w : Registry} {s : Session}
    (h : Registered floats w ⟨s, .top⟩) {text : String} (hText : Allowed floats text) :
    s.runTextBy ev text = s.runTextBy ev' text ∧
      ∃ w', Registered floats w' ⟨(s.runTextBy ev' text).2, .top⟩ := by
  rw [runTextBy, runTextBy]
  cases hProgram : Program.ofString text with
  | error e => exact ⟨rfl, w, h⟩
  | ok program =>
    have hStates : (conforming floats watch).states w ⟨s, .top⟩ ⟨s, .top⟩ := ⟨rfl, h⟩
    have hOutcome := Comparison.outcome_inOrder hEv (hText program hProgram) .void hStates
    dsimp only
    rw [perform, perform]
    generalize inOrder ev .void program ⟨s, .top⟩ = r at hOutcome
    generalize inOrder ev' .void program ⟨s, .top⟩ = r' at hOutcome
    cases hOutcome with
    | pardoned h => exact h.elim
    | pardoned' h => exact h.elim
    | @ok w' _ _ _ _ _ hValue hStates =>
      obtain ⟨rfl, hNext⟩ := hStates
      rw [hValue.eq_of_known]
      exact ⟨rfl, w', hNext.inFrame trivial⟩
    | @error w' e e' _ _ _ hFault hSpan hStates =>
      obtain ⟨rfl, hNext⟩ := hStates
      cases EvalError.eq_of_parts hFault hSpan
      exact ⟨rfl, w', hNext.inFrame trivial⟩

/-- One text under a quiet watch. -/
theorem runText_registered {watch : Watch} (hQuiet : watch.Quiet floats) {w : Registry} {s : Session}
    (h : Registered floats w ⟨s, .top⟩) {text : String} (hText : Allowed floats text) :
    s.runTextBy (watched watch) text = s.runText text ∧
      ∃ w', Registered floats w' ⟨(s.runText text).2, .top⟩ :=
  runTextBy_registered (conforming.simulates_watched hQuiet) h hText

/-- **All functions of a session can be registered**, whatever texts it has run. -/
theorem after_registered {w : Registry} {s : Session} (h : Registered floats w ⟨s, .top⟩)
    {texts : List String} (hTexts : ∀ text ∈ texts, Allowed floats text) :
    ∃ w', Registered floats w' ⟨s.after texts, .top⟩ := by
  induction texts generalizing w s with
  | nil => exact ⟨w, h⟩
  | cons text texts ih =>
    obtain ⟨hText, hTexts⟩ := List.forall_mem_cons.1 hTexts
    obtain ⟨-, w', hNext⟩ := runText_registered conforming.quiet_never h hText
    exact ih hNext hTexts

end Session

end PostLisp

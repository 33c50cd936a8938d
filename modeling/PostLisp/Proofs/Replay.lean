import PostLisp.Proofs.Scope
import PostLisp.Proofs.Undisturbed

/-!
# Replaying a call

Two things tell it to a program that calls are remembered: a name at top level that changes its
value, and a comparison of functions, which sees their identities.  `hazard` is the alarm for both.
A call without floats that ran unalarmed, with calls not remembered, ends in an alike value when it
is run again with alike arguments, as long as the globals that it found have stayed: this is
`replay`, and nothing is said of room, identities and counters.
-/

namespace PostLisp

open EvalM

namespace Eval

/-- Whether a comparison is about to get a value that holds a function. -/
def comparesFunctions (room : Nat) (items : List Node) (s : EvalState) : Bool :=
  match items with
  | [left, right, operator] =>
    operator.symbol? == some SpecialForm.eq.symbol &&
      match evaluateWithin room left s with
      | .error _ _ => false
      | .ok v t =>
        match evaluateWithin room right t with
        | .error _ _ => false
        | .ok x _ => v.holdsFunction || x.holdsFunction
  | _ => false

/-- Whether a definition at top level is about to bind a name that is bound already. -/
def redefines (room : Nat) (items : List Node) (s : EvalState) : Bool :=
  match items with
  | [target, expression, operator] =>
    match Node.target? [target, expression, operator], evaluateWithin room expression s with
    | some name, .ok _ t => t.frame.isTop && (t.session.globals.find? name).isSome
    | _, _ => false
  | _ => false

/-- The alarm for comparisons of functions and for redefinitions of global names. -/
def hazard (room : Nat) (n : Node) (s : EvalState) : Bool :=
  match room, n with
  | room + 1, .list items _ =>
    comparesFunctions room items s.enterForm || redefines room items s.enterForm
  | _, _ => false

section

variable {room : Nat} {span : Span} {s t u : EvalState} {v x : Value}

theorem no_function_of_comparesFunctions {left right operator : Node}
    (hOperator : operator.symbol? = some SpecialForm.eq.symbol)
    (hNone : comparesFunctions room [left, right, operator] s = false)
    (hLeft : evaluateWithin room left s = .ok v t) (hRight : evaluateWithin room right t = .ok x u) :
    v.holdsFunction = false ∧ x.holdsFunction = false := by
  rw [comparesFunctions, hOperator, hLeft] at hNone
  simp only [hRight, beq_self_eq_true, Bool.true_and, Bool.or_eq_false_iff] at hNone
  exact hNone

theorem no_function_of_quiet {left right operator : Node}
    (hOperator : operator.symbol? = some SpecialForm.eq.symbol)
    (hQuiet : hazard (room + 1) (.list [left, right, operator] span) s = false)
    (hLeft : evaluateWithin room left s.enterForm = .ok v t)
    (hRight : evaluateWithin room right t = .ok x u) :
    v.holdsFunction = false ∧ x.holdsFunction = false :=
  no_function_of_comparesFunctions hOperator (Bool.or_eq_false_iff.1 hQuiet).1 hLeft hRight

theorem unbound_of_quiet {target expression operator : Node} {name : String}
    (hTarget : Node.target? [target, expression, operator] = some name)
    (hQuiet : hazard (room + 1) (.list [target, expression, operator] span) s = false)
    (hRun : evaluateWithin room expression s.enterForm = .ok v t) (hTop : t.frame.isTop = true) :
    t.session.globals.find? name = none := by
  have hNone := (Bool.or_eq_false_iff.1 hQuiet).2
  rw [redefines] at hNone
  simp only [hTarget, hRun, hTop, Bool.true_and] at hNone
  simpa using hNone

end

end Eval

open Eval

/-- The functions have the same parameters and the same body, which makes no floats. -/
def Closure.SameCode (f g : Closure Value) : Prop :=
  f.params = g.params ∧ Node.LikeAll False Eq f.body g.body

theorem Closure.SameCode.symm {f g : Closure Value} (h : f.SameCode g) : g.SameCode f := by
  obtain ⟨hParams, hBody⟩ := h
  have hSame := hBody.eq
  rw [hSame] at hBody
  exact ⟨hParams.symm, by rwa [hSame]⟩

theorem Closure.SameCode.trans {f g k : Closure Value} (h : f.SameCode g) (h' : g.SameCode k) :
    f.SameCode k :=
  ⟨h.1.trans h'.1, by rw [h.2.eq]; exact h'.2⟩

/-- The watch for hazards. -/
def cautious : Watch := ⟨hazard, ⟨.tooDeep 0, .origin⟩⟩

/-- Two states in calls with alike frames, calls not remembered; the second has all the globals of
the first. -/
structure Replays (s s' : EvalState) : Prop where
  plain : s.session.options.memoize = false
  plain' : s'.session.options.memoize = false
  inCall : s.frame.isTop = false
  frame : s.frame.Like False Closure.SameCode s'.frame
  globals : ∀ name v, s.session.globals.find? name = some v →
    ∃ v', s'.session.globals.find? name = some v' ∧ Value.Like False Closure.SameCode v v'

/-- Only what the first run does well is compared, and only as far as the room for the second run
reaches. -/
def replay : Correspondence Still where
  floats := False
  spans := Eq
  functions _ := Closure.SameCode
  states _ := Replays
  rooms _ _ := True
  watch := cautious
  pardoned _ := True
  pardoned' e := ∃ limit, e.fault = .tooDeep limit

namespace replay

variable {w : Still} {s s' : EvalState}

theorem found {name : String} (h : Replays s s') :
    replay.Found w (s.frame.lookup s.session.globals name)
      (s'.frame.lookup s'.session.globals name) := by
  refine h.frame.lookup_by (fun _ _ hValue => .alike (.some hValue)) fun _ => ?_
  cases hGlobal : s.session.globals.find? name with
  | none => exact .missing fun _ => trivial
  | some v =>
    obtain ⟨v', hGlobal', hValue⟩ := h.globals name v hGlobal
    rw [hGlobal']
    exact .alike (.some hValue)

theorem outcome_define {name : String} {v v' : Value}
    (hValue : Value.Like False Closure.SameCode v v') (h : Replays s s') :
    replay.Outcome w (fun _ _ _ => True) ((do announce name v; EvalM.define name v : EvalM Unit) s)
      ((do announce name v'; EvalM.define name v' : EvalM Unit) s') := by
  obtain ⟨session, frame⟩ := s
  obtain ⟨session', frame'⟩ := s'
  cases h.frame.tiers with
  | top => cases h.inCall
  | call hLocals hCaptured =>
    rw [announce_define_call, announce_define_call]
    exact .ok (le_refl w) trivial
      { h with inCall := rfl, frame := ⟨hLocals.insert name hValue, hCaptured⟩ }

theorem outcome_makeFunction {params : List String} {body body' : List Node}
    (hBody : Node.LikeAll False Eq body body') (h : Replays s s') :
    replay.Outcome w replay.Alike (makeFunction params body s) (makeFunction params body' s') := by
  obtain ⟨session, frame⟩ := s
  obtain ⟨session', frame'⟩ := s'
  cases h.frame.tiers with
  | top => cases h.inCall
  | call hLocals hCaptured =>
    rw [makeFunction_apply, makeFunction_apply]
    exact .ok (le_refl w) (.function ⟨rfl, hBody⟩ hLocals) { h with }

theorem outcome_apply {ev ev' : Evaluator} (hEv : replay.Simulates ev ev') {f f' : Closure Value}
    {args args' : List Value} {span span' : Span} (hFunctions : f.SameCode f')
    (hCaptured : f.captured.Like False Closure.SameCode f'.captured)
    (hArgs : replay.AlikeAll w args args') (h : Replays s s') :
    replay.Outcome w replay.Alike (apply ev f args span s) (apply ev' f' args' span' s') := by
  by_cases hArity : args.length = f.params.length
  · have hArity' : args'.length = f'.params.length := by
      rw [← hArgs.length_eq, ← hFunctions.1, hArity]
    have hKey := Session.keyOf_eq_none h.plain f args
    have hKey' := Session.keyOf_eq_none h.plain' f' args'
    refine Comparison.outcome_apply_run hArity hArity' ?_ ?_ ?_ ?_ ?_
    · rw [hKey]
      rfl
    · rw [hKey']
      rfl
    · refine Comparison.outcome_inOrder hEv hFunctions.2 .void ?_
      exact { h with
        inCall := rfl
        frame := Frame.like_closure hFunctions.1 hCaptured hArgs }
    · intro w' v v' t t' _ _ _ _ hInside
      rw [hKey, hKey']
      exact { hInside with inCall := h.inCall, frame := h.frame }
    · intro w' t t' _ hInside
      exact { hInside with inCall := h.inCall, frame := h.frame }
  · rw [apply_arity hArity]
    exact .pardoned trivial

theorem laws : replay.Laws where
  functions_mono _ h := h
  alarm _ _ := trivial
  rooms_succ _ := trivial
  rooms_zero _ := Or.inl fun _ _ => trivial
  rooms_zero' _ limit _ := ⟨limit, rfl⟩
  enterForm h := { h with }
  leaveForm h := { h with }
  lookup _ _ h := found h
  define _ _ _ hValue h := outcome_define hValue h
  compare := by
    intro w room span left right operator s t u v v' x x' hOperator hQuiet hLeft hRight hValue hNext
    have hCalm : hazard (room + 1) (.list [left, right, operator] span) s = false := hQuiet
    obtain ⟨hNone, hNone'⟩ := no_function_of_quiet hOperator hCalm
      (evaluateWithin_of_watched hLeft) (evaluateWithin_of_watched hRight)
    exact hValue.same_eq_of_no_function hNext hNone hNone'
  makeFunction := outcome_makeFunction
  apply _ hEv hFunctions hCaptured hArgs _ h :=
    outcome_apply (hEv _ trivial) hFunctions hCaptured hArgs h

end replay

/-- **A call that ran unalarmed ends alike when it is run again**, or reaches the limit of depth. -/
theorem replay_inOrder {room room' : Nat} {body body' : List Node} {s s' t : EvalState} {v : Value}
    (hBody : Node.LikeAll False Eq body body') (h : Replays s s')
    (hRun : inOrder (watchedWithin cautious room) .void body s = .ok v t) :
    (∃ v' t', inOrder (evaluateWithin room') .void body' s' = .ok v' t' ∧
      Value.Like False Closure.SameCode v v') ∨
    ∃ limit span t', inOrder (evaluateWithin room') .void body' s' =
      .error ⟨.tooDeep limit, span⟩ t' := by
  have hEv : replay.Simulates (watchedWithin cautious room) (evaluateWithin room') :=
    replay.laws.simulates trivial
  have hStates : replay.states ⟨⟩ s s' := h
  have hOutcome := Comparison.outcome_inOrder hEv hBody .void hStates
  rw [hRun] at hOutcome
  generalize hRun' : inOrder (evaluateWithin room') .void body' s' = r' at hOutcome
  cases hOutcome with
  | @pardoned' e t' _ hDeep =>
    obtain ⟨fault, span⟩ := e
    obtain ⟨limit, rfl⟩ := hDeep
    exact Or.inr ⟨limit, span, t', rfl⟩
  | ok _ hValue _ => exact Or.inl ⟨_, _, rfl, hValue⟩

end PostLisp

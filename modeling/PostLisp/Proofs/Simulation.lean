import PostLisp.Proofs.Comparison

/-!
# Runs with alike values

A correspondence is a comparison in which values correspond when they are alike: they have the same
shape and the same data, and their functions stand in a given relation, captured values included.
What evaluation does with alike values alone is settled, so its laws are about the state and about
functions only, and `Laws.simulates` follows from them.
-/

namespace PostLisp

/-- What two runs have in common. -/
structure Correspondence (W : Type) extends Comparison W where
  functions : W → Closure Value → Closure Value → Prop

namespace Correspondence

variable {W : Type} [Preorder W] (C : Correspondence W)

abbrev AlikeNodes : List Node → List Node → Prop := C.toComparison.AlikeNodes

abbrev Alike (w : W) : Value → Value → Prop := Value.Like C.floats (C.functions w)

abbrev AlikeAll (w : W) : List Value → List Value → Prop := Value.LikeAll C.floats (C.functions w)

/-- Two lookups that found the same, or that lead to an error that is pardoned. -/
inductive Found (w : W) : Option Value → Option Value → Prop
  | alike {r r' : Option Value} (h : Value.LikeOption C.floats (C.functions w) r r') : Found w r r'
  | missing {r : Option Value} (h : ∀ e, C.pardoned e) : Found w none r
  | missing' {r : Option Value} (h : ∀ e, C.pardoned' e) : Found w r none

/-- The evaluators end alike on alike nodes. -/
abbrev Simulates (ev ev' : Eval.Evaluator) : Prop := C.SimulatesBy C.Alike ev ev'

end Correspondence

namespace Value

variable {floats : Prop} {functions : Closure Value → Closure Value → Prop} {vs ws : List Value}

theorem LikeAll.of_forall₂ (h : List.Forall₂ (Like floats functions) vs ws) :
    LikeAll floats functions vs ws := by
  induction h with
  | nil => exact .nil
  | cons head _ ih => exact .cons head ih

end Value

namespace Correspondence

open Eval

variable {W : Type} {C : Correspondence W} {w : W}

theorem Found.by {r r' : Option Value} (h : C.Found w r r') : C.FoundBy (C.Alike w) r r' := by
  cases h with
  | alike h =>
    cases h with
    | none => exact .none
    | some hValue => exact .some hValue
  | missing h => exact .missing h
  | missing' h => exact .missing' h

theorem results {r r' : Except Fault Value} (h : Value.LikeResult C.floats (C.functions w) r r') :
    C.Results (C.Alike w) r r' := by
  cases h with
  | ok h => exact .ok h
  | error f => exact .error f

variable [Preorder W]

/-- What single steps have to satisfy, but for calls; `left` is how the first run evaluates nodes
inside a form. -/
structure StepLaws (C : Correspondence W) (left : Nat → Evaluator) : Prop extends C.Bounds where
  functions_mono : ∀ {w w' f g}, w ≤ w' → C.functions w f g → C.functions w' f g
  lookup : ∀ {w room n name s s'}, n.reads? = some name → C.watch.alarm room n s = false →
    C.states w s s' → C.Found w (s.frame.lookup s.session.globals name)
      (s'.frame.lookup s'.session.globals name)
  /-- `s` is where the definition starts, `t` where its value is known. -/
  define : ∀ {w room span target expression operator name s t t' v v'},
    Node.target? [target, expression, operator] = some name →
    C.watch.alarm (room + 1) (.list [target, expression, operator] span) s = false →
    left room expression s.enterForm = .ok v t → C.Alike w v v' →
    C.states w t t' → C.Outcome w (fun _ _ _ => True)
      ((do announce name v; EvalM.define name v : EvalM Unit) t)
      ((do announce name v'; EvalM.define name v' : EvalM Unit) t')
  /-- `s` is where the comparison starts. -/
  compare : ∀ {w room span first second operator s t u v v' x x'},
    operator.symbol? = some SpecialForm.eq.symbol →
    C.watch.alarm (room + 1) (.list [first, second, operator] span) s = false →
    left room first s.enterForm = .ok v t →
    left room second t = .ok x u → C.Alike w v v' → C.Alike w x x' →
    v.same x = v'.same x'
  makeFunction : ∀ {w params body body' s s'}, C.AlikeNodes body body' → C.states w s s' →
    C.Outcome w C.Alike (makeFunction params body s) (makeFunction params body' s')

/-- What single steps have to satisfy for whole runs to end alike. -/
structure Laws (C : Correspondence W) : Prop extends C.StepLaws (watchedWithin C.watch) where
  apply : ∀ {w room room' f f' args args' span span' s s'}, C.rooms room room' →
    (∀ room', C.rooms room room' →
      C.Simulates (watchedWithin C.watch room) (evaluateWithin room')) →
    C.functions w f f' → f.captured.Like C.floats (C.functions w) f'.captured →
    C.AlikeAll w args args' → C.spans span span' → C.states w s s' →
    C.Outcome w C.Alike (apply (watchedWithin C.watch room) f args span s)
      (apply (evaluateWithin room') f' args' span' s')

namespace StepLaws

variable {left : Nat → Evaluator}

theorem alike_mono (L : C.StepLaws left) {w' : W} (hWorld : w ≤ w') {v v' : Value}
    (h : C.Alike w v v') : C.Alike w' v v' :=
  h.mono fun _ _ => L.functions_mono hWorld

/-- The laws are rules for alike values. -/
theorem rules (L : C.StepLaws left) : C.StepRules C.Alike left where
  toBounds := L.toBounds
  mono hWorld h := L.alike_mono hWorld h
  ofNode := Value.Like.ofNode
  void := .void
  boolean := .boolean _
  callee h := by
    cases h with
    | function hFunctions hCaptured => exact Or.inl ⟨_, _, rfl, rfl⟩
    | _ => exact Or.inr ⟨rfl, rfl, Or.inl rfl⟩
  isAtom h := h.isAtom_eq
  holds h := h.same_boolean true
  cons := Value.Like.cons
  car h := results h.car
  cdr h := results h.cdr
  fold _ hDivide _ _ h := results ((Value.LikeAll.of_forall₂ h).fold hDivide)
  lookup hReads hQuiet hStates := (L.lookup hReads hQuiet hStates).by
  define := L.define
  compare := L.compare
  makeFunction := L.makeFunction

/-- A watched evaluator and one that makes calls in a way of its own end alike, if their calls end
alike. -/
theorem simulates_watched (L : C.StepLaws (watchedWithin C.watch)) {caller : Caller}
    {pending : List Pending}
    (hCall : ∀ {room room'}, C.rooms room room' →
      (∀ room', C.rooms room room' →
        C.Simulates (watchedWithin C.watch room) (evaluateBy caller pending room')) →
      ∀ {w f f' args args' span span' s s'}, C.functions w f f' →
      f.captured.Like C.floats (C.functions w) f'.captured → C.AlikeAll w args args' →
      C.spans span span' → C.states w s s' →
      C.Outcome w C.Alike (apply (watchedWithin C.watch room) f args span s)
        (caller pending (evaluateBy caller · room') f' args' span' s'))
    {room room' : Nat} (hRooms : C.rooms room room') :
    C.Simulates (watchedWithin C.watch room) (evaluateBy caller pending room') :=
  L.rules.simulates_watched (fun hRooms hEv _ _ _ _ _ _ _ _ _ hFunction hArgs hSpan hStates => by
    cases hFunction with
    | function hFunctions hCaptured =>
      exact hCall hRooms hEv hFunctions hCaptured (.of_forall₂ hArgs) hSpan hStates) hRooms

/-- Two evaluators end alike that make calls in ways of their own, if their calls end alike. -/
theorem simulates_evaluateBy {caller caller' : Caller}
    (L : ∀ pending, C.StepLaws (evaluateBy caller pending))
    (hNever : ∀ room n s, C.watch.alarm room n s = false)
    (inProgress : List Pending → List Pending → Prop)
    (hCall : ∀ {room room' pending pending'}, inProgress pending pending' → C.rooms room room' →
      (∀ pending pending', inProgress pending pending' →
        C.Simulates (evaluateBy caller pending room) (evaluateBy caller' pending' room')) →
      ∀ {w f f' args args' span span' s s'}, C.functions w f f' →
      f.captured.Like C.floats (C.functions w) f'.captured → C.AlikeAll w args args' →
      C.spans span span' → C.states w s s' →
      C.Outcome w C.Alike (caller pending (evaluateBy caller · room) f args span s)
        (caller' pending' (evaluateBy caller' · room') f' args' span' s'))
    {room room' : Nat} {pending pending' : List Pending} (hInProgress : inProgress pending pending')
    (hRooms : C.rooms room room') :
    C.Simulates (evaluateBy caller pending room) (evaluateBy caller' pending' room') :=
  Comparison.StepRules.simulates_evaluateBy (fun pending => (L pending).rules) hNever
    inProgress (fun hInProgress hRooms hEv _ _ _ _ _ _ _ _ _ hFunction hArgs hSpan hStates => by
      cases hFunction with
      | function hFunctions hCaptured =>
        exact hCall hInProgress hRooms hEv hFunctions hCaptured (.of_forall₂ hArgs) hSpan hStates)
    hInProgress hRooms

end StepLaws

namespace Laws

/-- The laws are rules for alike values. -/
theorem rules (L : C.Laws) : C.Rules C.Alike where
  toStepRules := L.toStepLaws.rules
  apply hRooms hEv hFunction hArgs hSpan hStates := by
    cases hFunction with
    | function hFunctions hCaptured =>
      exact L.apply hRooms hEv hFunctions hCaptured (.of_forall₂ hArgs) hSpan hStates

/-- **Alike nodes end alike**, whatever the rooms, as long as these stand in the given relation. -/
theorem simulates (L : C.Laws) {room room' : Nat} (hRooms : C.rooms room room') :
    C.Simulates (watchedWithin C.watch room) (evaluateWithin room') :=
  L.rules.simulates hRooms

end Laws

end Correspondence

end PostLisp

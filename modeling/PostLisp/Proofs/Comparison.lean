import Mathlib.Data.List.Forall2
import Mathlib.Order.Defs.PartialOrder
import PostLisp.Proofs.Callers
import PostLisp.Proofs.Likeness
import PostLisp.Proofs.Watch

/-!
# Comparing two runs

A comparison says when two states correspond, when spans do, and which errors end it.  What it says
may depend on a world that grows while the runs go on.  Which values correspond is left open:
`StepRules` asks of a relation between values what evaluation does with values (taking them apart,
combining and comparing them) and with the state (looking a name up, defining one, making a
function), and `Rules` asks of calls that they go as the evaluators do.  `Rules.simulates` draws the
conclusion for whole runs: evaluating alike nodes in corresponding states ends in corresponding
values or in the same error, again in corresponding states, unless an error that is pardoned ended
one of the runs.  The first run may be watched.  `StepRules.simulates_watched` says the same when the
second run makes calls in a way of its own, and `StepRules.simulates_evaluateBy` when both do.
-/

namespace PostLisp

theorem EvalError.eq_of_parts {e e' : EvalError} (hFault : e.fault = e'.fault)
    (hSpan : e.span = e'.span) : e = e' := by
  cases e
  cases e'
  cases hFault
  cases hSpan
  rfl

/-- What two runs have in common, values apart. -/
structure Comparison (W : Type) where
  /-- Whether floats may occur. -/
  floats : Prop
  spans : Span → Span → Prop
  states : W → EvalState → EvalState → Prop
  rooms : Nat → Nat → Prop
  watch : Watch
  /-- The errors of the first run that end the comparison. -/
  pardoned : EvalError → Prop
  /-- The errors of the second run that end the comparison. -/
  pardoned' : EvalError → Prop

/-- The world of comparisons that learn nothing on the way. -/
structure Still

instance : Preorder Still where
  le _ _ := True
  le_refl _ := trivial
  le_trans _ _ _ _ _ := trivial

open EvalM

namespace Comparison

variable {W : Type} [Preorder W] (C : Comparison W)

abbrev AlikeNodes : List Node → List Node → Prop := Node.LikeAll C.floats C.spans

/-- How two actions end that were started in the world `w`. -/
inductive Outcome (w : W) {α β : Type} (values : W → α → β → Prop) :
    EStateM.Result EvalError EvalState α → EStateM.Result EvalError EvalState β → Prop
  | pardoned {e : EvalError} {t : EvalState} {r} (h : C.pardoned e) : Outcome w values (.error e t) r
  | pardoned' {e : EvalError} {t : EvalState} {r} (h : C.pardoned' e) :
      Outcome w values r (.error e t)
  | ok {w' : W} {v : α} {v' : β} {t t' : EvalState} (hWorld : w ≤ w') (hValues : values w' v v')
      (hStates : C.states w' t t') : Outcome w values (.ok v t) (.ok v' t')
  | error {w' : W} {e e' : EvalError} {t t' : EvalState} (hWorld : w ≤ w')
      (hFault : e.fault = e'.fault) (hSpan : C.spans e.span e'.span) (hStates : C.states w' t t') :
      Outcome w values (.error e t) (.error e' t')

/-- How two operations on values end. -/
inductive Results (values : Value → Value → Prop) : Except Fault Value → Except Fault Value → Prop
  | ok {v v' : Value} (h : values v v') : Results values (.ok v) (.ok v')
  | error (f : Fault) : Results values (.error f) (.error f)
  | pardoned {f : Fault} {r : Except Fault Value} (h : ∀ span, C.pardoned ⟨f, span⟩) :
      Results values (.error f) r

/-- Two lookups that found corresponding values, or that lead to an error that is pardoned. -/
inductive FoundBy (values : Value → Value → Prop) : Option Value → Option Value → Prop
  | none : FoundBy values none none
  | some {v v' : Value} (h : values v v') : FoundBy values (some v) (some v')
  | missing {r : Option Value} (h : ∀ e, C.pardoned e) : FoundBy values none r
  | missing' {r : Option Value} (h : ∀ e, C.pardoned' e) : FoundBy values r none

/-- The evaluators end in corresponding values on alike nodes. -/
def SimulatesBy (values : W → Value → Value → Prop) (ev ev' : Eval.Evaluator) : Prop :=
  ∀ n n', Node.Like C.floats C.spans n n' → ∀ w s s', C.states w s s' →
    C.Outcome w values (ev n s) (ev' n' s')

namespace Outcome

variable {C} {w w' : W} {α β α' β' : Type} {values : W → α → β → Prop}
  {values' : W → α' → β' → Prop}

theorem weaken {r : EStateM.Result EvalError EvalState α} {r' : EStateM.Result EvalError EvalState β}
    (hWorld : w ≤ w') (h : C.Outcome w' values r r') : C.Outcome w values r r' := by
  cases h with
  | pardoned h => exact .pardoned h
  | pardoned' h => exact .pardoned' h
  | ok h hValues hStates => exact .ok (le_trans hWorld h) hValues hStates
  | error h hFault hSpan hStates => exact .error (le_trans hWorld h) hFault hSpan hStates

theorem pure {v : α} {v' : β} {s s' : EvalState} (hValues : values w v v')
    (hStates : C.states w s s') : C.Outcome w values ((pure v : EvalM α) s) ((pure v' : EvalM β) s') :=
  .ok (le_refl w) hValues hStates

theorem throw {e e' : EvalError} {s s' : EvalState} (hFault : e.fault = e'.fault)
    (hSpan : C.spans e.span e'.span) (hStates : C.states w s s') :
    C.Outcome w values ((throw e : EvalM α) s) ((throw e' : EvalM β) s') :=
  .error (le_refl w) hFault hSpan hStates

/-- What follows two actions that end alike ends alike, if it does so from wherever they end. -/
theorem bind {act : EvalM α} {act' : EvalM β} {next : α → EvalM α'} {next' : β → EvalM β'}
    {s s' : EvalState} (h : C.Outcome w values (act s) (act' s'))
    (hNext : ∀ w' v v' t t', w ≤ w' → act s = .ok v t → values w' v v' → C.states w' t t' →
      C.Outcome w' values' (next v t) (next' v' t')) :
    C.Outcome w values' ((act >>= next) s) ((act' >>= next') s') := by
  generalize hr : act s = r at h
  generalize hr' : act' s' = r' at h
  cases h with
  | pardoned h =>
    rw [bind_error hr]
    exact .pardoned h
  | pardoned' h =>
    rw [bind_error hr']
    exact .pardoned' h
  | ok hWorld hValues hStates =>
    rw [bind_ok hr, bind_ok hr']
    exact (hNext _ _ _ _ _ hWorld hr hValues hStates).weaken hWorld
  | error hWorld hFault hSpan hStates =>
    rw [bind_error hr, bind_error hr']
    exact .error hWorld hFault hSpan hStates

/-- Two actions inside one list form each. -/
theorem nested {act : EvalM α} {act' : EvalM β} {s s' : EvalState}
    (hLeave : ∀ w t t', C.states w t t' → C.states w t.leaveForm t'.leaveForm)
    (h : C.Outcome w values (act s.enterForm) (act' s'.enterForm)) :
    C.Outcome w values (EvalM.nested act s) (EvalM.nested act' s') := by
  rw [EvalM.nested, EvalM.nested, around, around]
  generalize act s.enterForm = r at h
  generalize act' s'.enterForm = r' at h
  cases h with
  | pardoned h => exact .pardoned h
  | pardoned' h => exact .pardoned' h
  | ok hWorld hValues hStates => exact .ok hWorld hValues (hLeave _ _ _ hStates)
  | error hWorld hFault hSpan hStates => exact .error hWorld hFault hSpan (hLeave _ _ _ hStates)

theorem blame {values : W → Value → Value → Prop} {span span' : Span} {r r' : Except Fault Value}
    {s s' : EvalState} (h : C.Results (values w) r r') (hSpan : C.spans span span')
    (hStates : C.states w s s') : C.Outcome w values (blame span r s) (blame span' r' s') := by
  cases h with
  | ok h => exact .pure h hStates
  | error f => exact .throw rfl hSpan hStates
  | pardoned h => exact .pardoned (h _)

end Outcome

end Comparison

/-- The name that evaluating a node looks up first, if it looks up one: the symbol that it is, or
the last item of the list that it is, unless this is an operator or a special form. -/
def Node.reads? : Node → Option String
  | .atom a _ => a.symbol?
  | .list items _ => (items.getLast?.bind Node.symbol?).filter fun name =>
    (ArithOp.ofSymbol? name).isNone && (SpecialForm.ofSymbol? name).isNone

namespace Comparison

open Eval

variable {W : Type} [Preorder W]

/-- What a comparison has to say of where runs stop and of entering and leaving forms. -/
structure Bounds (C : Comparison W) : Prop where
  alarm : ∀ {w room n s s'}, C.states w s s' → C.watch.alarm room n s = true →
    C.pardoned C.watch.error
  rooms_succ : ∀ {room room'}, C.rooms (room + 1) (room' + 1) → C.rooms room room'
  rooms_zero : ∀ {room'}, C.rooms 0 room' → (∀ limit span, C.pardoned ⟨.tooDeep limit, span⟩) ∨
    room' = 0 ∧ ∀ w s s', C.states w s s' →
      s.session.options.maxDepth = s'.session.options.maxDepth
  rooms_zero' : ∀ {room}, C.rooms (room + 1) 0 → ∀ limit span, C.pardoned' ⟨.tooDeep limit, span⟩
  enterForm : ∀ {w s s'}, C.states w s s' → C.states w s.enterForm s'.enterForm
  leaveForm : ∀ {w s s'}, C.states w s s' → C.states w s.leaveForm s'.leaveForm

/-- What single steps have to satisfy, but for calls; `left` is how the first run evaluates nodes
inside a form. -/
structure StepRules (C : Comparison W) (values : W → Value → Value → Prop) (left : Nat → Evaluator) :
    Prop extends C.Bounds where
  mono : ∀ {w w' v v'}, w ≤ w' → values w v v' → values w' v v'
  ofNode : ∀ {w n n'}, Node.Like C.floats C.spans n n' → values w (.ofNode n) (.ofNode n')
  void : ∀ {w}, values w .void .void
  boolean : ∀ {w b}, values w (.boolean b) (.boolean b)
  /-- What is called is a function in both runs, or in none. -/
  callee : ∀ {w v v'}, values w v v' → (∃ f f', v = .function f ∧ v' = .function f') ∨
    v.function? = none ∧ v'.function? = none ∧ (v.kind = v'.kind ∨ ∀ e, C.pardoned e)
  isAtom : ∀ {w v v'}, values w v v' → v.isAtom = v'.isAtom
  holds : ∀ {w v v'}, values w v v' → v.same (.boolean true) = v'.same (.boolean true)
  cons : ∀ {w v v' x x'}, values w v v' → values w x x' → values w (v.cons x) (v'.cons x')
  car : ∀ {w v v'}, values w v v' → C.Results (values w) v.car v'.car
  cdr : ∀ {w v v'}, values w v v' → C.Results (values w) v.cdr v'.cdr
  /-- `s` is where the operands are evaluated. -/
  fold : ∀ {w room span op operands operator s t vs vs'}, operator.symbol? = some op.symbol →
    (op = .divide → C.floats) →
    C.watch.alarm (room + 1) (.list (operands ++ [operator]) span) s = false →
    operandValues (left room) operands s.enterForm = .ok vs t →
    List.Forall₂ (values w) vs vs' → C.Results (values w) (Arith.fold op vs) (Arith.fold op vs')
  lookup : ∀ {w room n name s s'}, n.reads? = some name → C.watch.alarm room n s = false →
    C.states w s s' → C.FoundBy (values w) (s.frame.lookup s.session.globals name)
      (s'.frame.lookup s'.session.globals name)
  /-- `s` is where the definition starts, `t` where its value is known. -/
  define : ∀ {w room span target expression operator name s t t' v v'},
    Node.target? [target, expression, operator] = some name →
    C.watch.alarm (room + 1) (.list [target, expression, operator] span) s = false →
    left room expression s.enterForm = .ok v t → values w v v' →
    C.states w t t' → C.Outcome w (fun _ _ _ => True)
      ((do announce name v; EvalM.define name v : EvalM Unit) t)
      ((do announce name v'; EvalM.define name v' : EvalM Unit) t')
  /-- `s` is where the comparison starts. -/
  compare : ∀ {w room span first second operator s t u v v' x x'},
    operator.symbol? = some SpecialForm.eq.symbol →
    C.watch.alarm (room + 1) (.list [first, second, operator] span) s = false →
    left room first s.enterForm = .ok v t →
    left room second t = .ok x u → values w v v' → values w x x' →
    v.same x = v'.same x'
  makeFunction : ∀ {w params body body' s s'}, C.AlikeNodes body body' → C.states w s s' →
    C.Outcome w values (makeFunction params body s) (makeFunction params body' s')

/-- What single steps have to satisfy for whole runs to end in corresponding values. -/
structure Rules (C : Comparison W) (values : W → Value → Value → Prop) : Prop
    extends C.StepRules values (watchedWithin C.watch) where
  apply : ∀ {w room room' f f' args args' span span' s s'}, C.rooms room room' →
    (∀ room', C.rooms room room' →
      C.SimulatesBy values (watchedWithin C.watch room) (evaluateWithin room')) →
    values w (.function f) (.function f') → List.Forall₂ (values w) args args' →
    C.spans span span' → C.states w s s' →
    C.Outcome w values (apply (watchedWithin C.watch room) f args span s)
      (apply (evaluateWithin room') f' args' span' s')

/-! ### Parts of forms -/

section

variable {C : Comparison W} {values : W → Value → Value → Prop} {left : Nat → Evaluator}
  {ev ev' : Evaluator} {w : W} {s s' : EvalState} {span span' : Span}

theorem outcome_operandValues (R : C.StepRules values left) (hEv : C.SimulatesBy values ev ev')
    {ns ns' : List Node} (hNodes : C.AlikeNodes ns ns')
    (hStates : C.states w s s') : C.Outcome w (fun w => List.Forall₂ (values w))
      (operandValues ev ns s) (operandValues ev' ns' s') := by
  induction ns generalizing ns' w s s' with
  | nil =>
    cases hNodes
    exact .pure .nil hStates
  | cons n ns ih =>
    cases hNodes with
    | cons head tail =>
      refine (hEv _ _ head _ _ _ hStates).bind fun w₁ v v' t t' hWorld₁ _ hValue hStates => ?_
      refine (ih tail hStates).bind fun w₂ vs vs' u u' hWorld₂ _ hValues hStates => ?_
      exact .pure (.cons (R.mono hWorld₂ hValue) hValues) hStates

theorem outcome_inOrder (hEv : C.SimulatesBy values ev ev') {ns ns' : List Node}
    {last last' : Value} (hNodes : C.AlikeNodes ns ns') (hLast : values w last last')
    (hStates : C.states w s s') :
    C.Outcome w values (inOrder ev last ns s) (inOrder ev' last' ns' s') := by
  induction ns generalizing ns' w s s' last last' with
  | nil =>
    cases hNodes
    exact .pure hLast hStates
  | cons n ns ih =>
    cases hNodes with
    | cons head tail =>
      refine (hEv _ _ head _ _ _ hStates).bind fun w₁ v v' t t' hWorld₁ _ hValue hStates => ?_
      exact ih tail hValue hStates

/-- The functions and the arguments of two calls correspond. -/
def CallsAlike (values : W → Value → Value → Prop) (w : W)
    (c c' : Closure Value × List Value) : Prop :=
  values w (.function c.1) (.function c'.1) ∧ List.Forall₂ (values w) c.2 c'.2

theorem outcome_resolve (R : C.StepRules values left) (hEv : C.SimulatesBy values ev ev')
    {callee callee' : Value} {operator operator' : Node} {operands operands' : List Node}
    (hCallee : values w callee callee') (hOperator : Node.Like C.floats C.spans operator operator')
    (hOperands : C.AlikeNodes operands operands') (hStates : C.states w s s') :
    C.Outcome w (CallsAlike values) (resolve ev callee operator operands s)
      (resolve ev' callee' operator' operands' s') := by
  rcases R.callee hCallee with ⟨f, f', rfl, rfl⟩ | ⟨hNone, hNone', hKind⟩
  · refine (outcome_operandValues R hEv hOperands hStates).bind
      fun w₁ args args' t t' hWorld _ hArgs hStates => ?_
    exact .pure ⟨R.mono hWorld hCallee, hArgs⟩ hStates
  · have hFails : ∀ (ev : Evaluator) (v : Value) (n : Node) (ns : List Node),
        v.function? = none → resolve ev v n ns = throw ⟨.notAFunction v.kind, n.span⟩ := by
      intro ev v n ns hNone
      cases v <;> first | rfl | cases hNone
    rw [hFails _ _ _ _ hNone, hFails _ _ _ _ hNone']
    rcases hKind with hKind | hPardoned
    · exact .error (le_refl w) (congrArg Fault.notAFunction hKind) hOperator.span hStates
    · exact .pardoned (hPardoned _)

theorem outcome_unary (hEv : C.SimulatesBy values ev ev') {form : SpecialForm}
    {use : Value → Except Fault Value} {operands operands' : List Node}
    (hUse : ∀ w v v', values w v v' → C.Results (values w) (use v) (use v'))
    (hOperands : C.AlikeNodes operands operands') (hSpan : C.spans span span')
    (hStates : C.states w s s') :
    C.Outcome w values (unary ev form use operands span s)
      (unary ev' form use operands' span' s') := by
  cases hOperands with
  | nil => exact .throw rfl hSpan hStates
  | cons head tail =>
    cases tail with
    | nil =>
      refine (hEv _ _ head _ _ _ hStates).bind fun w₁ v v' t t' _ _ hValue hStates => ?_
      exact .blame (hUse _ _ _ hValue) hSpan hStates
    | cons next rest =>
      refine .throw ?_ hSpan hStates
      simp only [List.length_cons, rest.length_eq]

/-- The operands of a form of two, with what is known of their values in the first run. -/
theorem outcome_binary (R : C.StepRules values left) (hEv : C.SimulatesBy values ev ev') {form : SpecialForm}
    {use : Value → Value → Value} {operands operands' : List Node}
    (hUse : ∀ left right, operands = [left, right] → ∀ w v v' x x' t u, ev left s = .ok v t →
      ev right t = .ok x u → values w v v' → values w x x' → values w (use v x) (use v' x'))
    (hOperands : C.AlikeNodes operands operands') (hSpan : C.spans span span')
    (hStates : C.states w s s') :
    C.Outcome w values (binary ev form use operands span s)
      (binary ev' form use operands' span' s') := by
  cases hOperands with
  | nil => exact .throw rfl hSpan hStates
  | cons head tail =>
    cases tail with
    | nil => exact .throw rfl hSpan hStates
    | cons next rest =>
      cases rest with
      | nil =>
        refine (hEv _ _ head _ _ _ hStates).bind fun w₁ v v' t t' _ hLeft hValue hStates => ?_
        refine (hEv _ _ next _ _ _ hStates).bind fun w₂ x x' u u' hWorld hRight hNext hStates => ?_
        exact .pure (hUse _ _ rfl _ _ _ _ _ _ _ hLeft hRight
          (R.mono hWorld hValue) hNext) hStates
      | cons _ rest =>
        refine .throw ?_ hSpan hStates
        simp only [List.length_cons, rest.length_eq]

theorem outcome_parameters {ns ns' : List Node} (hNodes : C.AlikeNodes ns ns')
    (hStates : C.states w s s') :
    C.Outcome w (fun _ names names' => names = names') (parameters ns s) (parameters ns' s') := by
  induction ns generalizing ns' with
  | nil =>
    cases hNodes
    exact .pure rfl hStates
  | cons n ns ih =>
    cases hNodes with
    | cons head tail =>
      rw [parameters, parameters, ← head.symbol?_eq]
      cases n.symbol? with
      | none =>
        refine .throw ?_ head.span hStates
        rw [head.render_eq]
      | some name =>
        refine (ih tail).bind fun w₁ names names' t t' _ _ hNames hStates => ?_
        exact .pure (congrArg (name :: ·) hNames) hStates

theorem outcome_lambda {operands operands' : List Node}
    (hOperands : C.AlikeNodes operands operands') (hSpan : C.spans span span')
    (hStates : C.states w s s')
    (hFunction : ∀ w params body body' s s', C.AlikeNodes body body' → C.states w s s' →
      C.Outcome w values (makeFunction params body s) (makeFunction params body' s')) :
    C.Outcome w values (lambda operands span s) (lambda operands' span' s') := by
  cases hOperands with
  | nil => exact .throw rfl hSpan hStates
  | cons head tail =>
    cases tail with
    | nil => exact .throw rfl hSpan hStates
    | cons next rest =>
      rw [lambda, lambda]
      · rcases head.list? with ⟨hLeft, hRight⟩ | ⟨ns, ns', hLeft, hRight, hNames⟩
        · rw [hLeft, hRight]
          refine .throw ?_ head.span hStates
          rw [head.render_eq]
        · rw [hLeft, hRight]
          refine (outcome_parameters hNames hStates).bind
            fun w₁ names names' t t' _ _ hNames hStates => ?_
          subst hNames
          exact hFunction _ _ _ _ _ _ (.cons next rest) hStates
      · simp
      · simp

theorem outcome_holds (R : C.StepRules values left) (hEv : C.SimulatesBy values ev ev')
    {condition condition' : Node}
    (hCondition : Node.Like C.floats C.spans condition condition') (hStates : C.states w s s') :
    C.Outcome w (fun _ b b' => b = b') (holds ev condition s) (holds ev' condition' s') := by
  rw [holds, holds, ← hCondition.symbol?_eq]
  split
  · exact .pure rfl hStates
  · refine (hEv _ _ hCondition _ _ _ hStates).bind fun w₁ v v' t t' _ _ hValue hStates => ?_
    exact .pure (R.holds hValue) hStates

theorem outcome_cond (R : C.StepRules values left) (hEv : C.SimulatesBy values ev ev')
    {clauses clauses' : List Node}
    (hClauses : C.AlikeNodes clauses clauses') (hSpan : C.spans span span')
    (hStates : C.states w s s') :
    C.Outcome w values (cond ev span clauses s) (cond ev' span' clauses' s') := by
  induction clauses generalizing clauses' w s s' with
  | nil =>
    cases hClauses
    exact .throw rfl hSpan hStates
  | cons clause clauses ih =>
    cases hClauses with
    | cons head tail =>
      rw [Eval.cond, Eval.cond]
      rcases head.list? with ⟨hLeft, hRight⟩ | ⟨parts, parts', hLeft, hRight, hParts⟩
      · rw [hLeft, hRight]
        refine .throw ?_ head.span hStates
        rw [head.render_eq]
      · rw [hLeft, hRight]
        cases hParts with
        | nil => exact .throw rfl head.span hStates
        | cons hCondition rest =>
          cases rest with
          | nil => exact .throw rfl head.span hStates
          | cons hValue rest =>
            cases rest with
            | nil =>
              refine (outcome_holds R hEv hCondition hStates).bind
                fun w₁ b b' t t' _ _ hHolds hStates => ?_
              subst hHolds
              cases b with
              | true => exact hEv _ _ hValue _ _ _ hStates
              | false => exact ih tail hStates
            | cons _ rest =>
              refine .throw ?_ head.span hStates
              simp only [List.length_cons, rest.length_eq]

theorem outcome_define (R : C.StepRules values left) (hEv : C.SimulatesBy values ev ev')
    {operands operands' : List Node}
    (hOperands : C.AlikeNodes operands operands') (hSpan : C.spans span span')
    (hStates : C.states w s s')
    (hDefine : ∀ target expression, operands = [target, expression] → ∀ name,
      target.symbol? = some name → ∀ w v v' t t', ev expression s = .ok v t → values w v v' →
      C.states w t t' → C.Outcome w (fun _ _ _ => True)
        ((do announce name v; EvalM.define name v : EvalM Unit) t)
        ((do announce name v'; EvalM.define name v' : EvalM Unit) t')) :
    C.Outcome w values (Eval.define ev operands span s) (Eval.define ev' operands' span' s') := by
  match operands, operands', hOperands with
  | [], _, .nil => exact .throw rfl hSpan hStates
  | [_], _, .cons _ .nil => exact .throw rfl hSpan hStates
  | [target, expression], _, .cons hTarget (.cons hExpression .nil) =>
    rw [Eval.define, Eval.define, ← hTarget.symbol?_eq]
    cases hName : target.symbol? with
    | none =>
      refine .throw ?_ hTarget.span hStates
      rw [hTarget.render_eq]
    | some name =>
      refine (hEv _ _ hExpression _ _ _ hStates).bind
        fun w₁ v v' t t' _ hRun hValue hStates => ?_
      have hBoth := hDefine _ _ rfl name hName _ _ _ _ _ hRun hValue hStates
      have hAll : C.Outcome w₁ values
          (((do announce name v; EvalM.define name v : EvalM Unit) >>= fun _ => pure Value.void) t)
          (((do announce name v'; EvalM.define name v' : EvalM Unit) >>= fun _ => pure Value.void) t') :=
        hBoth.bind fun _ _ _ _ _ _ _ _ hStates => .pure R.void hStates
      rwa [bind_assoc, bind_assoc] at hAll
  | _ :: _ :: _ :: _, _, .cons _ (.cons _ (.cons _ rest)) =>
    refine .throw ?_ hSpan hStates
    simp only [List.length_cons, rest.length_eq]

theorem outcome_quote (R : C.StepRules values left) {operands operands' : List Node}
    (hOperands : C.AlikeNodes operands operands')
    (hSpan : C.spans span span') (hStates : C.states w s s') :
    C.Outcome w values (quote operands span s) (quote operands' span' s') := by
  match operands, operands', hOperands with
  | [], _, .nil => exact .throw rfl hSpan hStates
  | [_], _, .cons hOperand .nil => exact .pure (R.ofNode hOperand) hStates
  | _ :: _ :: _, _, .cons _ (.cons _ rest) =>
    refine .throw ?_ hSpan hStates
    simp only [List.length_cons, rest.length_eq]

theorem outcome_atom (R : C.StepRules values left) {a : Atom} (hFloat : ∀ x, a = .float x → C.floats)
    (hSpan : C.spans span span')
    (hLookup : ∀ name, a.symbol? = some name →
      C.FoundBy (values w) (s.frame.lookup s.session.globals name)
        (s'.frame.lookup s'.session.globals name))
    (hStates : C.states w s s') : C.Outcome w values (atom a span s) (atom a span' s') := by
  have hNode : Node.Like C.floats C.spans (.atom a span) (.atom a span') := .atom hFloat hSpan
  cases a with
  | int n => exact .pure (R.ofNode hNode) hStates
  | float x => exact .pure (R.ofNode hNode) hStates
  | symbol name =>
    show C.Outcome w values ((EvalM.lookup name >>= _) s) ((EvalM.lookup name >>= _) s')
    have hFound := hLookup name rfl
    rw [bind_ok (lookup_apply name s), bind_ok (lookup_apply name s')]
    generalize s.frame.lookup s.session.globals name = r at hFound
    generalize s'.frame.lookup s'.session.globals name = r' at hFound
    cases hFound with
    | none => exact .throw rfl hSpan hStates
    | some hValue => exact .pure hValue hStates
    | missing h => exact .pardoned (h _)
    | missing' h => exact .pardoned' (h _)

end

/-! ### Calls that run in both -/

section

variable {C : Comparison W} {values : W → Value → Value → Prop} {ev ev' : Evaluator} {w : W}
  {s s' : EvalState} {span span' : Span} {f f' : Closure Value} {args args' : List Value}

/-- A call with the wrong number of arguments fails in both runs. -/
theorem outcome_apply_arity (hParams : f.params = f'.params) (hArgs : args.length = args'.length)
    (hSpan : C.spans span span') (hStates : C.states w s s')
    (hArity : args.length ≠ f.params.length) :
    C.Outcome w values (apply ev f args span s) (apply ev' f' args' span' s') := by
  have hArity' : args'.length ≠ f'.params.length := by
    rwa [← hArgs, ← hParams]
  rw [apply_arity hArity, apply_arity hArity']
  refine .error (le_refl w) ?_ hSpan hStates
  show Fault.arguments _ = Fault.arguments _
  rw [hArgs, hParams]

/-- A call that both runs have to make goes as its body does. -/
theorem outcome_apply_run (hArity : args.length = f.params.length)
    (hArity' : args'.length = f'.params.length)
    (hMissing : (s.session.keyOf f args).bind s.session.cache.find? = none)
    (hMissing' : (s'.session.keyOf f' args').bind s'.session.cache.find? = none)
    (hBody : C.Outcome w values
      (inOrder ev .void f.body
        ⟨s.session.entered f (s.session.keyOf f args).isSome, f.frame args⟩)
      (inOrder ev' .void f'.body
        ⟨s'.session.entered f' (s'.session.keyOf f' args').isSome, f'.frame args'⟩))
    (hOk : ∀ w' v v' t t', w ≤ w' →
      inOrder ev .void f.body
        ⟨s.session.entered f (s.session.keyOf f args).isSome, f.frame args⟩ = .ok v t →
      inOrder ev' .void f'.body
        ⟨s'.session.entered f' (s'.session.keyOf f' args').isSome, f'.frame args'⟩ = .ok v' t' →
      values w' v v' → C.states w' t t' →
      C.states w' ⟨t.session.returned (s.session.keyOf f args) v, s.frame⟩
        ⟨t'.session.returned (s'.session.keyOf f' args') v', s'.frame⟩)
    (hError : ∀ w' t t', w ≤ w' → C.states w' t t' →
      C.states w' ⟨t.session, s.frame⟩ ⟨t'.session, s'.frame⟩) :
    C.Outcome w values (apply ev f args span s) (apply ev' f' args' span' s') := by
  generalize hRun : inOrder ev .void f.body _ = r at hBody
  generalize hRun' : inOrder ev' .void f'.body _ = r' at hBody
  cases hBody with
  | @pardoned e t _ h =>
    rw [apply_run_error hArity hMissing hRun]
    exact .pardoned h
  | @pardoned' e t _ h =>
    rw [apply_run_error hArity' hMissing' hRun']
    exact .pardoned' h
  | ok hWorld hValues hStates =>
    rw [apply_run_ok hArity hMissing hRun, apply_run_ok hArity' hMissing' hRun']
    exact .ok hWorld hValues (hOk _ _ _ _ _ hWorld hRun hRun' hValues hStates)
  | error hWorld hFault hSpan hStates =>
    rw [apply_run_error hArity hMissing hRun, apply_run_error hArity' hMissing' hRun']
    exact .error hWorld hFault hSpan (hError _ _ _ hWorld hStates)

end

/-! ### Whole runs -/

namespace StepRules

variable {C : Comparison W} {values : W → Value → Value → Prop} {left : Nat → Evaluator}
  {ev' : Evaluator} {w : W} {s s' : EvalState} {room room' : Nat} {span span' : Span}

/-- The special forms, which look at their operands before they evaluate them. -/
theorem outcome_specialForm (R : C.StepRules values left)
    (hEv : C.SimulatesBy values (left room) ev')
    {form : SpecialForm} {operands operands' : List Node} {operator : Node}
    (hOperator : operator.symbol? = some form.symbol)
    (hOperands : C.AlikeNodes operands operands') (hSpan : C.spans span span')
    (hQuiet : C.watch.alarm (room + 1) (.list (operands ++ [operator]) span) s = false)
    (hStates : C.states w s s') :
    C.Outcome w values
      (specialForm (left room) form operands span s.enterForm)
      (specialForm ev' form operands' span' s'.enterForm) := by
  have hInside := R.enterForm hStates
  cases form with
  | define =>
    refine outcome_define R hEv hOperands hSpan hInside
      fun target expression hItems name hName w v v' t t' hRun hValue hStates => ?_
    subst hItems
    refine R.define ?_ hQuiet hRun hValue hStates
    show (if operator.symbol? = some SpecialForm.define.symbol then target.symbol? else none) = _
    rw [if_pos hOperator, hName]
  | lambda =>
    exact outcome_lambda hOperands hSpan hInside fun _ _ _ _ _ _ hBody hStates =>
      R.makeFunction hBody hStates
  | eq =>
    refine outcome_binary R hEv
      (fun first second hItems w v v' x x' t u hLeft hRight hValue hNext => ?_)
      hOperands hSpan hInside
    subst hItems
    -- the operands were evaluated one after the other, so the states between them are known
    rw [R.compare hOperator hQuiet hLeft hRight hValue hNext]
    exact R.boolean
  | atom =>
    refine outcome_unary hEv (fun _ _ _ hValue => ?_) hOperands hSpan hInside
    rw [R.isAtom hValue]
    exact .ok R.boolean
  | quote => exact outcome_quote R hOperands hSpan hInside
  | cons =>
    exact outcome_binary R hEv (fun _ _ _ _ _ _ _ _ _ _ _ _ hValue hNext => R.cons hValue hNext)
      hOperands hSpan hInside
  | car => exact outcome_unary hEv (fun _ _ _ hValue => R.car hValue) hOperands hSpan hInside
  | cdr => exact outcome_unary hEv (fun _ _ _ hValue => R.cdr hValue) hOperands hSpan hInside
  | cond => exact outcome_cond R hEv hOperands hSpan hInside

/-- A form that is no call. -/
theorem outcome_other (R : C.StepRules values left) (hEv : C.SimulatesBy values (left room) ev')
    {operands operands' : List Node} {operator operator' : Node}
    (hOther : operator.isCallee = false)
    (hDivide : Node.EndsWith (operands ++ [operator]) ArithOp.divide.symbol → C.floats)
    (hOperator : Node.Like C.floats C.spans operator operator')
    (hOperands : C.AlikeNodes operands operands') (hSpan : C.spans span span')
    (hQuiet : C.watch.alarm (room + 1) (.list (operands ++ [operator]) span) s = false)
    (hStates : C.states w s s') :
    C.Outcome w values (form (left room) (operands ++ [operator]) span s.enterForm)
      (form ev' (operands' ++ [operator']) span' s'.enterForm) := by
  rw [form, form, List.getLast?_concat, List.getLast?_concat, List.dropLast_concat,
    List.dropLast_concat]
  dsimp only
  rw [← hOperator.symbol?_eq]
  cases hName : operator.symbol? with
  | none =>
    rw [Node.isCallee_of_inline hName] at hOther
    cases hOther
  | some name =>
    dsimp only
    rw [namedForm, namedForm]
    cases hArith : ArithOp.ofSymbol? name with
    | some op =>
      have hSymbol : op.symbol = name := by simpa using List.find?_some hArith
      refine (outcome_operandValues R hEv hOperands (R.enterForm hStates)).bind
        fun w₁ vs vs' t t' _ hRun hValues hStates => ?_
      refine .blame (R.fold (hSymbol ▸ hName) (fun hOp => hDivide ?_) hQuiet hRun hValues) hSpan
        hStates
      rw [Node.endsWith_concat, hName, ← hSymbol, hOp]
    | none =>
      cases hSpecial : SpecialForm.ofSymbol? name with
      | some form =>
        refine R.outcome_specialForm hEv ?_ hOperands hSpan hQuiet hStates
        rw [hName, symbol_of_ofSymbol? hSpecial]
      | none =>
        rw [(Node.isCallee_of_named hName).2 ⟨hArith, hSpecial⟩] at hOther
        cases hOther

/-- What two forms that are calls come to call. -/
theorem outcome_calling (R : C.StepRules values left) (hEv : C.SimulatesBy values (left room) ev')
    {operands operands' : List Node} {operator operator' : Node}
    (hCallee : operator.isCallee = true)
    (hOperator : Node.Like C.floats C.spans operator operator')
    (hOperands : C.AlikeNodes operands operands')
    (hQuiet : C.watch.alarm (room + 1) (.list (operands ++ [operator]) span) s = false)
    (hStates : C.states w s s') :
    C.Outcome w (CallsAlike values) (calling (left room) operands operator s.enterForm)
      (calling ev' operands' operator' s'.enterForm) := by
  have hInside := R.enterForm hStates
  rw [calling, calling, ← hOperator.symbol?_eq]
  cases hName : operator.symbol? with
  | none =>
    refine (hEv _ _ hOperator _ _ _ hInside).bind
      fun w₁ callee callee' t t' _ _ hCallee hStates => ?_
    exact outcome_resolve R hEv hCallee hOperator hOperands hStates
  | some name =>
    obtain ⟨hArith, hSpecial⟩ := (Node.isCallee_of_named hName).1 hCallee
    have hReads : (Node.list (operands ++ [operator]) span).reads? = some name := by
      rw [Node.reads?, List.getLast?_concat, Option.bind_some, hName]
      simp [hArith, hSpecial]
    have hBefore := R.lookup hReads hQuiet hStates
    have hFound : C.FoundBy (values w)
        (s.enterForm.frame.lookup s.enterForm.session.globals name)
        (s'.enterForm.frame.lookup s'.enterForm.session.globals name) := hBefore
    dsimp only
    rw [bind_ok (lookup_apply name _), bind_ok (lookup_apply name _)]
    generalize s.enterForm.frame.lookup s.enterForm.session.globals name = r at hFound
    generalize s'.enterForm.frame.lookup s'.enterForm.session.globals name = r' at hFound
    cases hFound with
    | none => exact .throw rfl hOperator.span hInside
    | some hCallee => exact outcome_resolve R hEv hCallee hOperator hOperands hInside
    | missing h => exact .pardoned (h _)
    | missing' h => exact .pardoned' (h _)

/-- Forms whose calls end alike end alike. -/
theorem outcome_formBy (R : C.StepRules values left) (hEv : C.SimulatesBy values (left room) ev')
    {apply apply' : Closure Value → List Value → Span → EvalM Value} {items items' : List Node}
    (hDivide : Node.EndsWith items ArithOp.divide.symbol → C.floats)
    (hItems : C.AlikeNodes items items') (hSpan : C.spans span span')
    (hQuiet : C.watch.alarm (room + 1) (.list items span) s = false) (hStates : C.states w s s')
    (hApply : ∀ w f f' args args' s s', values w (.function f) (.function f') →
      List.Forall₂ (values w) args args' → C.states w s s' →
      C.Outcome w values (apply f args span s) (apply' f' args' span' s')) :
    C.Outcome w values (formBy apply (left room) items span s.enterForm)
      (formBy apply' ev' items' span' s'.enterForm) := by
  rcases List.eq_nil_or_concat items with rfl | ⟨operands, operator, rfl⟩
  · cases hItems
    exact .throw rfl hSpan (R.enterForm hStates)
  · rw [List.concat_eq_append] at *
    obtain ⟨operands', operator', rfl, hOperands, hOperator⟩ := hItems.concat_inv
    have hSame : operator.isCallee = operator'.isCallee := by
      rw [Node.isCallee, Node.isCallee, hOperator.symbol?_eq]
    cases hCallee : operator.isCallee with
    | true =>
      rw [formBy_callee hCallee, formBy_callee (hSame ▸ hCallee)]
      refine (R.outcome_calling hEv hCallee hOperator hOperands hQuiet hStates).bind
        fun w₁ c c' t t' _ _ hCalls hStates => ?_
      exact hApply _ _ _ _ _ _ _ hCalls.1 hCalls.2 hStates
    | false =>
      rw [formBy_other hCallee, formBy_other (hSame ▸ hCallee)]
      exact R.outcome_other hEv hCallee hDivide hOperator hOperands hSpan hQuiet hStates

/-- What the watch stops is pardoned. -/
theorem outcome_guard (R : C.StepRules values left) {n : Node} {act act' : EvalM Value}
    (hStates : C.states w s s')
    (h : C.watch.alarm room n s = false → C.Outcome w values (act s) (act' s')) :
    C.Outcome w values (C.watch.guard room n act s) (act' s') := by
  cases hAlarm : C.watch.alarm room n s with
  | true =>
    rw [Watch.guard_of_alarm hAlarm]
    exact .pardoned (R.alarm hStates hAlarm)
  | false =>
    rw [Watch.guard_of_quiet hAlarm]
    exact h hAlarm

/-- An atom that the watch lets pass. -/
theorem outcome_atom (R : C.StepRules values left) {a : Atom} (hFloat : ∀ x, a = .float x → C.floats)
    (hSpan : C.spans span span') (hQuiet : C.watch.alarm room (.atom a span) s = false)
    (hStates : C.states w s s') : C.Outcome w values (atom a span s) (atom a span' s') := by
  refine Comparison.outcome_atom R hFloat hSpan (fun name hName => ?_) hStates
  have hReads : (Node.atom a span).reads? = some name := hName
  exact R.lookup hReads hQuiet hStates

theorem outcome_guard_atom (R : C.StepRules values left) {a : Atom}
    (hFloat : ∀ x, a = .float x → C.floats) (hSpan : C.spans span span') (hStates : C.states w s s') :
    C.Outcome w values (C.watch.guard room (.atom a span) (atom a span) s) (atom a span' s') :=
  R.outcome_guard hStates fun hQuiet => R.outcome_atom hFloat hSpan hQuiet hStates

/-- Two evaluators end alike that make calls in ways of their own, if their calls end alike. -/
theorem simulates_evaluateBy {caller caller' : Caller}
    (R : ∀ pending, C.StepRules values (evaluateBy caller pending))
    (hNever : ∀ room n s, C.watch.alarm room n s = false)
    (inProgress : List Pending → List Pending → Prop)
    (hCall : ∀ {room room' pending pending'}, inProgress pending pending' → C.rooms room room' →
      (∀ pending pending', inProgress pending pending' →
        C.SimulatesBy values (evaluateBy caller pending room) (evaluateBy caller' pending' room')) →
      ∀ {w f f' args args' span span' s s'}, values w (.function f) (.function f') →
      List.Forall₂ (values w) args args' → C.spans span span' → C.states w s s' →
      C.Outcome w values (caller pending (evaluateBy caller · room) f args span s)
        (caller' pending' (evaluateBy caller' · room') f' args' span' s'))
    {pending pending' : List Pending} (hInProgress : inProgress pending pending')
    (hRooms : C.rooms room room') :
    C.SimulatesBy values (evaluateBy caller pending room) (evaluateBy caller' pending' room') := by
  induction room generalizing room' pending pending' with
  | zero =>
    intro n n' hNodes w s s' hStates
    cases hNodes with
    | atom hFloat hSpan =>
      rw [evaluateBy, evaluateBy]
      exact (R pending).outcome_atom hFloat hSpan (hNever 0 _ s) hStates
    | list hDivide hItems hSpan =>
      rcases (R pending).rooms_zero hRooms with hPardoned | ⟨rfl, hDepth⟩
      · exact .pardoned (hPardoned _ _)
      · exact .error (le_refl w) (congrArg Fault.tooDeep (hDepth w s s' hStates)) hSpan hStates
  | succ room ih =>
    intro n n' hNodes w s s' hStates
    cases hNodes with
    | atom hFloat hSpan =>
      rw [evaluateBy, evaluateBy]
      exact (R pending).outcome_atom hFloat hSpan (hNever 0 _ s) hStates
    | list hDivide hItems hSpan =>
      cases room' with
      | zero => exact .pardoned' ((R pending).rooms_zero' hRooms _ _)
      | succ room' =>
        have hInner := (R pending).rooms_succ hRooms
        rw [evaluateBy, evaluateBy]
        refine .nested (fun _ _ _ => (R pending).leaveForm) ?_
        exact (R pending).outcome_formBy (ih hInProgress hInner) hDivide hItems hSpan
          (hNever (room + 1) _ s) hStates fun w f f' args args' s s' hFunction hArgs hStates =>
            hCall hInProgress hInner (fun _ _ h => ih h hInner) hFunction hArgs hSpan hStates

/-- A watched evaluator and one that makes calls in a way of its own end alike, if their calls end
alike. -/
theorem simulates_watched (R : C.StepRules values (watchedWithin C.watch)) {caller : Caller}
    {pending : List Pending}
    (hCall : ∀ {room room'}, C.rooms room room' →
      (∀ room', C.rooms room room' →
        C.SimulatesBy values (watchedWithin C.watch room) (evaluateBy caller pending room')) →
      ∀ {w f f' args args' span span' s s'}, values w (.function f) (.function f') →
      List.Forall₂ (values w) args args' → C.spans span span' → C.states w s s' →
      C.Outcome w values (apply (watchedWithin C.watch room) f args span s)
        (caller pending (evaluateBy caller · room') f' args' span' s'))
    (hRooms : C.rooms room room') :
    C.SimulatesBy values (watchedWithin C.watch room) (evaluateBy caller pending room') := by
  induction room generalizing room' with
  | zero =>
    intro n n' hNodes w s s' hStates
    cases hNodes with
    | atom hFloat hSpan =>
      rw [watchedWithin, evaluateBy]
      exact R.outcome_guard_atom hFloat hSpan hStates
    | list hDivide hItems hSpan =>
      rw [watchedWithin]
      refine R.outcome_guard hStates fun _ => ?_
      rcases R.rooms_zero hRooms with hPardoned | ⟨rfl, hDepth⟩
      · exact .pardoned (hPardoned _ _)
      · exact .error (le_refl w) (congrArg Fault.tooDeep (hDepth w s s' hStates)) hSpan hStates
  | succ room ih =>
    intro n n' hNodes w s s' hStates
    cases hNodes with
    | atom hFloat hSpan =>
      rw [watchedWithin, evaluateBy]
      exact R.outcome_guard_atom hFloat hSpan hStates
    | list hDivide hItems hSpan =>
      rw [watchedWithin]
      refine R.outcome_guard hStates fun hQuiet => ?_
      cases room' with
      | zero => exact .pardoned' (R.rooms_zero' hRooms _ _)
      | succ room' =>
        have hInner := R.rooms_succ hRooms
        rw [evaluateBy, ← formBy_apply]
        refine .nested (fun _ _ _ => R.leaveForm) ?_
        exact R.outcome_formBy (ih hInner) hDivide hItems hSpan hQuiet hStates
          fun w f f' args args' s s' hFunction hArgs hStates =>
            hCall hInner (fun _ h => ih h) hFunction hArgs hSpan hStates

end StepRules

namespace Rules

variable {C : Comparison W} {values : W → Value → Value → Prop} {room room' : Nat}

/-- **Alike nodes end alike**, whatever the rooms, as long as these stand in the given relation. -/
theorem simulates (R : C.Rules values) (hRooms : C.rooms room room') :
    C.SimulatesBy values (watchedWithin C.watch room) (evaluateWithin room') := by
  rw [← evaluateBy_plain []]
  refine R.toStepRules.simulates_watched (fun {room room'} hRooms hEv => ?_) hRooms
  simp only [evaluateBy_plain] at hEv
  rw [Caller.plain, evaluateBy_plain]
  exact R.apply hRooms hEv

end Rules

end Comparison

end PostLisp

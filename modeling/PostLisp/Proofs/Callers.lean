import PostLisp.Proofs.Scope

/-!
# Other ways to make calls

A list form is a call, or it ends in an operator or a special form.  A call first finds out which
function it calls and with which arguments (`calling`), and then applies the function.  With
another way to apply functions in its place, the evaluator becomes another one (`evaluateBy`), which
may refuse some calls, or look at what they have done.

What is left of a form is told apart from the evaluator (`Asks`): an action that only asks it for
the values of nodes, one after the other, and otherwise leaves the cache alone.  So whatever relates
two evaluators step by step relates the actions that ask them.
-/

namespace PostLisp

open EvalM

theorem EvalM.of_bind_ok {α β : Type} {act : EvalM α} {next : α → EvalM β} {s t : EvalState} {v : β}
    (h : (act >>= next) s = .ok v t) : ∃ x u, act s = .ok x u ∧ next x u = .ok v t := by
  cases hFirst : act s with
  | ok x u =>
    rw [bind_ok hFirst] at h
    exact ⟨x, u, rfl, h⟩
  | error e u =>
    rw [bind_error hFirst] at h
    cases h

/-- What is the same or stops, and goes on the same or stops, is the same or stops. -/
theorem EvalM.bind_or_stopped {α β : Type} {act act' : EvalM α} {next next' : α → EvalM β}
    {e : EvalError} {s : EvalState} (h : act s = act' s ∨ ∃ t, act s = .error e t)
    (hNext : ∀ v t, next v t = next' v t ∨ ∃ u, next v t = .error e u) :
    (act >>= next) s = (act' >>= next') s ∨ ∃ t, (act >>= next) s = .error e t := by
  rcases h with hSame | ⟨t, hStopped⟩
  · cases hFirst : act' s with
    | error e' t =>
      rw [hFirst] at hSame
      rw [bind_error hSame, bind_error hFirst]
      exact Or.inl rfl
    | ok v t =>
      rw [hFirst] at hSame
      rw [bind_ok hSame, bind_ok hFirst]
      exact hNext v t
  · exact Or.inr ⟨t, bind_error hStopped⟩

theorem EvalM.nested_or_stopped {α : Type} {act act' : EvalM α} {e : EvalError}
    (h : ∀ s, act s = act' s ∨ ∃ t, act s = .error e t) (s : EvalState) :
    nested act s = nested act' s ∨ ∃ t, nested act s = .error e t := by
  rw [nested, nested, around, around]
  rcases h s.enterForm with hSame | ⟨t, hStopped⟩
  · exact Or.inl (by rw [hSame])
  · exact Or.inr ⟨t.leaveForm, by rw [hStopped]⟩

namespace Node

/-- A form that ends in this node is a call: the node is neither an operator nor a special form. -/
def isCallee (operator : Node) : Bool :=
  match operator.symbol? with
  | none => true
  | some name => (ArithOp.ofSymbol? name).isNone && (SpecialForm.ofSymbol? name).isNone

theorem isCallee_of_inline {operator : Node} (hName : operator.symbol? = none) :
    operator.isCallee = true := by
  rw [isCallee, hName]

theorem isCallee_of_named {operator : Node} {name : String} (hName : operator.symbol? = some name) :
    operator.isCallee = true ↔
      ArithOp.ofSymbol? name = none ∧ SpecialForm.ofSymbol? name = none := by
  rw [isCallee, hName]
  simp

end Node

namespace Eval

section

variable (ev : Evaluator)

/-- The function that a value should be, and the values of the operands if it is one. -/
def resolve (callee : Value) (operator : Node) (operands : List Node) :
    EvalM (Closure Value × List Value) :=
  match callee with
  | .function f => do
    let args ← operandValues ev operands
    pure (f, args)
  | v => throw ⟨.notAFunction v.kind, operator.span⟩

/-- The function that a call comes to call, and the arguments. -/
def calling (operands : List Node) (operator : Node) : EvalM (Closure Value × List Value) :=
  match operator.symbol? with
  | some name => do
    match ← EvalM.lookup name with
    | some callee => resolve ev callee operator operands
    | none => throw ⟨.unknownOperation name, operator.span⟩
  | none => do
    let callee ← ev operator
    resolve ev callee operator operands

end

/-- A list form whose call, if it is one, is made in a given way. -/
def formBy (apply : Closure Value → List Value → Span → EvalM Value) (ev : Evaluator)
    (items : List Node) (span : Span) : EvalM Value :=
  match items.getLast? with
  | none => form ev items span
  | some operator =>
    if operator.isCallee then do
      let c ← calling ev items.dropLast operator
      apply c.1 c.2 span
    else form ev items span

/-- A call in progress: its key, and the arguments that it was made with. -/
structure Pending where
  key : CallKey
  args : List Value

/-- A way to make calls, given the calls in progress and the evaluator for each list of these. -/
abbrev Caller :=
  List Pending → (List Pending → Evaluator) → Closure Value → List Value → Span → EvalM Value

/-- Evaluation with calls made in a given way, under some calls in progress. -/
def evaluateBy (caller : Caller) (pending : List Pending) : (room : Nat) → Evaluator
  | _, .atom a span => atom a span
  | 0, .list _ span => do
    let s ← get
    throw ⟨.tooDeep s.session.options.maxDepth, span⟩
  | room + 1, .list items span =>
    EvalM.nested (formBy (caller pending fun pending => evaluateBy caller pending room)
      (evaluateBy caller pending room) items span)

/-- The evaluator's own way. -/
def Caller.plain : Caller := fun pending ev => apply (ev pending)

variable {ev : Evaluator} {operands : List Node} {operator : Node} {span : Span}

theorem resolve_bind_apply (callee : Value) :
    (resolve ev callee operator operands >>= fun c => apply ev c.1 c.2 span) =
      call ev callee operator operands span := by
  cases callee with
  | function f =>
    rw [resolve, call, bind_assoc]
    rfl
  | _ => rfl

theorem formBy_callee {apply : Closure Value → List Value → Span → EvalM Value}
    (hCallee : operator.isCallee = true) : formBy apply ev (operands ++ [operator]) span =
      calling ev operands operator >>= fun c => apply c.1 c.2 span := by
  rw [formBy, List.getLast?_concat, List.dropLast_concat]
  exact if_pos hCallee

theorem formBy_other {apply : Closure Value → List Value → Span → EvalM Value}
    (hOther : operator.isCallee = false) :
    formBy apply ev (operands ++ [operator]) span = form ev (operands ++ [operator]) span := by
  rw [formBy, List.getLast?_concat]
  exact if_neg (by rw [hOther]; exact Bool.false_ne_true)

/-- A form that is a call is what it comes to call, applied. -/
theorem form_callee (hCallee : operator.isCallee = true) : form ev (operands ++ [operator]) span =
    calling ev operands operator >>= fun c => apply ev c.1 c.2 span := by
  rw [form, List.getLast?_concat, List.dropLast_concat, calling]
  cases hName : operator.symbol? with
  | none =>
    simp only [hName, bind_assoc, resolve_bind_apply]
  | some name =>
    obtain ⟨hArith, hSpecial⟩ := (Node.isCallee_of_named hName).1 hCallee
    simp only [hName, namedForm, hArith, hSpecial, bind_assoc]
    congr 1
    funext found
    cases found with
    | none => rfl
    | some callee => exact (resolve_bind_apply callee).symm

theorem formBy_apply (items : List Node) : formBy (apply ev) ev items span = form ev items span := by
  rcases List.eq_nil_or_concat items with rfl | ⟨operands, operator, rfl⟩
  · rfl
  · rw [List.concat_eq_append]
    cases hCallee : operator.isCallee with
    | true => rw [formBy_callee hCallee, form_callee hCallee]
    | false => exact formBy_other hCallee

theorem evaluateBy_plain (pending : List Pending) (room : Nat) :
    evaluateBy .plain pending room = evaluateWithin room := by
  induction room generalizing pending with
  | zero =>
    funext n
    cases n <;> rfl
  | succ room ih =>
    funext n
    cases n with
    | atom a span => rfl
    | list items span =>
      rw [evaluateBy, evaluateWithin, ← formBy_apply, ← ih pending]
      rfl

end Eval

/-! ### Asking an evaluator -/

/-- Nothing happens to the cache, nor to the options and the counters but that they count, and of the
bindings only the innermost ones change. -/
structure EvalState.Aside (s t : EvalState) : Prop where
  counted : s.session.Counted t.session
  cache : t.session.cache = s.session.cache
  innermost : Innermost (fun _ => True) s t

instance : IsPreorder EvalState EvalState.Aside where
  refl _ := ⟨⟨rfl, rfl, Nat.le_refl _, Nat.le_refl _⟩, rfl, .of_eq rfl rfl⟩
  trans _ _ _ h g :=
    ⟨h.counted.trans g.counted, g.cache.trans h.cache, h.innermost.trans g.innermost⟩

namespace Eval

/-- The action asks the evaluator for the values of nodes, and does nothing else that concerns the
cache. -/
inductive Asks : {α : Type} → (Evaluator → EvalM α) → Prop
  | const {α : Type} {act : EvalM α} (hAside : Moves EvalState.Aside act) :
      Asks fun _ => act
  | node (n : Node) : Asks fun ev => ev n
  | bind {α β : Type} {act : Evaluator → EvalM α} {next : α → Evaluator → EvalM β} (first : Asks act)
      (rest : ∀ v, Asks (next v)) : Asks fun ev => act ev >>= fun v => next v ev

theorem moves_aside_define (name : String) (v : Value) :
    Moves EvalState.Aside (do announce name v; EvalM.define name v) := by
  rintro ⟨session, frame⟩
  refine ⟨moves_counted_define name v _, ?_, moves_innermost_define trivial v _⟩
  cases frame <;> rfl

theorem moves_aside_makeFunction (params : List String) (body : List Node) :
    Moves EvalState.Aside (makeFunction params body) := fun s =>
  ⟨moves_counted_makeFunction params body s, rfl, .of_eq rfl rfl⟩

theorem asks_operandValues (ns : List Node) : Asks fun ev => operandValues ev ns := by
  induction ns with
  | nil => exact .const (moves_pure [])
  | cons n ns ih =>
    exact (Asks.node n).bind fun v => ih.bind fun vs => .const (moves_pure (v :: vs))

theorem asks_inOrder (last : Value) (ns : List Node) : Asks fun ev => inOrder ev last ns := by
  induction ns generalizing last with
  | nil => exact .const (moves_pure last)
  | cons n ns ih => exact (Asks.node n).bind fun v => ih v

theorem asks_resolve (callee : Value) (operator : Node) (operands : List Node) :
    Asks fun ev => resolve ev callee operator operands := by
  cases callee with
  | function f =>
    exact (asks_operandValues operands).bind fun args => .const (moves_pure (f, args))
  | _ => exact .const (moves_throw _)

theorem asks_calling (operands : List Node) (operator : Node) :
    Asks fun ev => calling ev operands operator := by
  simp only [calling]
  split
  · refine .bind (.const (moves_lookup _)) fun callee => ?_
    cases callee with
    | some callee => exact asks_resolve callee operator operands
    | none => exact .const (moves_throw _)
  · exact (Asks.node operator).bind fun callee => asks_resolve callee operator operands

theorem asks_unary (form : SpecialForm) (use : Value → Except Fault Value) (operands : List Node)
    (span : Span) : Asks fun ev => unary ev form use operands span := by
  match operands with
  | [operand] => exact (Asks.node operand).bind fun v => .const (moves_blame span (use v))
  | [] | _ :: _ :: _ => exact .const (moves_throw _)

theorem asks_binary (form : SpecialForm) (use : Value → Value → Value) (operands : List Node)
    (span : Span) : Asks fun ev => binary ev form use operands span := by
  match operands with
  | [left, right] =>
    exact (Asks.node left).bind fun v => (Asks.node right).bind fun w => .const (moves_pure (use v w))
  | [] | [_] | _ :: _ :: _ :: _ => exact .const (moves_throw _)

theorem asks_holds (condition : Node) : Asks fun ev => holds ev condition := by
  by_cases hElse : condition.symbol? = some elseSymbol
  · simp only [holds, if_pos hElse]
    exact .const (moves_pure true)
  · simp only [holds, if_neg hElse]
    exact (Asks.node condition).bind fun v => .const (moves_pure _)

theorem asks_cond (span : Span) (clauses : List Node) : Asks fun ev => cond ev span clauses := by
  induction clauses with
  | nil => exact .const (moves_throw _)
  | cons clause clauses ih =>
    simp only [cond]
    split
    · exact .const (moves_throw _)
    · rename_i condition value hList
      refine (asks_holds condition).bind fun b => ?_
      cases b with
      | true => exact .node value
      | false => exact ih
    · exact .const (moves_throw _)

theorem asks_define (operands : List Node) (span : Span) :
    Asks fun ev => define ev operands span := by
  match operands with
  | [target, expression] =>
    simp only [define]
    split
    · exact .const (moves_throw _)
    · rename_i name hName
      refine (Asks.node expression).bind fun v => .const ?_
      have hDefined := (moves_aside_define name v).bind fun _ => moves_pure Value.void
      rwa [bind_assoc] at hDefined
  | [] | [_] | _ :: _ :: _ :: _ => exact .const (moves_throw _)

theorem asks_specialForm (form : SpecialForm) (operands : List Node) (span : Span) :
    Asks fun ev => specialForm ev form operands span := by
  cases form with
  | define => exact asks_define operands span
  | lambda => exact .const (moves_lambda moves_aside_makeFunction)
  | quote => exact .const (moves_quote operands span)
  | cond => exact asks_cond span operands
  | eq | cons => exact asks_binary _ _ operands span
  | atom | car | cdr => exact asks_unary _ _ operands span

/-- A form that is no call only asks for values. -/
theorem asks_form (operands : List Node) {operator : Node} (hOther : operator.isCallee = false)
    (span : Span) : Asks fun ev => form ev (operands ++ [operator]) span := by
  simp only [form, List.getLast?_concat, List.dropLast_concat]
  cases hName : operator.symbol? with
  | none =>
    rw [Node.isCallee_of_inline hName] at hOther
    cases hOther
  | some name =>
    simp only [namedForm]
    split
    · exact (asks_operandValues operands).bind fun args => .const (moves_blame span _)
    · exact asks_specialForm _ operands span
    · rename_i hArith hSpecial
      rw [(Node.isCallee_of_named hName).2 ⟨hArith, hSpecial⟩] at hOther
      cases hOther

/-- A form asks for values and does no more, or it asks for what to call and calls it. -/
theorem formBy_cases (items : List Node) (span : Span) :
    (∃ act, Asks act ∧ ∀ apply ev, formBy apply ev items span = act ev) ∨
      ∃ act : Evaluator → EvalM (Closure Value × List Value), Asks act ∧ ∀ apply ev,
        formBy apply ev items span = act ev >>= fun c => apply c.1 c.2 span := by
  rcases List.eq_nil_or_concat items with rfl | ⟨operands, operator, rfl⟩
  · exact Or.inl ⟨fun _ => throw ⟨.emptyForm, span⟩, .const (moves_throw _), fun _ _ => rfl⟩
  · rw [List.concat_eq_append]
    cases hCallee : operator.isCallee with
    | true =>
      exact Or.inr ⟨_, asks_calling operands operator, fun _ _ => formBy_callee hCallee⟩
    | false => exact Or.inl ⟨_, asks_form operands hCallee span, fun _ _ => formBy_other hCallee⟩

/-! ### What follows for actions that ask -/

variable {α : Type} {act : Evaluator → EvalM α}

/-- An action moves the state as the evaluator does that it asks. -/
theorem Asks.moves {T : EvalState → EvalState → Prop} [IsPreorder EvalState T] {ev : Evaluator}
    (h : Asks act) (hEv : ∀ n, Moves T (ev n))
    (hAside : ∀ s t : EvalState, s.Aside t → T s t) : Moves T (act ev) := by
  induction h with
  | const hMoves => exact fun s => hAside s _ (hMoves s)
  | node n => exact hEv n
  | bind _ _ ihFirst ihRest => exact ihFirst.bind ihRest

/-- What succeeds with an evaluator succeeds with one that gives the same values. -/
theorem Asks.ok {ev ev' : Evaluator} (h : Asks act)
    (hEv : ∀ n s v t, ev n s = .ok v t → ev' n s = .ok v t) {s t : EvalState} {v : α}
    (hRun : act ev s = .ok v t) : act ev' s = .ok v t := by
  induction h generalizing s t with
  | const _ => exact hRun
  | node n => exact hEv n s v t hRun
  | bind _ _ ihFirst ihRest =>
    obtain ⟨x, u, hFirst, hRest⟩ := of_bind_ok hRun
    exact (bind_ok (ihFirst hFirst)).trans (ihRest x hRest)

/-- A call that succeeds with an evaluator succeeds with one that gives the same values. -/
theorem apply_of_ok {ev ev' : Evaluator} (hEv : ∀ n s v t, ev n s = .ok v t → ev' n s = .ok v t)
    {f : Closure Value} {args : List Value} {span : Span} {s t : EvalState} {v : Value}
    (hCall : apply ev f args span s = .ok v t) : apply ev' f args span s = .ok v t := by
  have hEnds := apply_ends ev f args span s
  rw [hCall] at hEnds
  cases hEnds with
  | remembered hArity hFound => exact apply_remembered hArity hFound
  | returned hArity hMissing hBody =>
    exact apply_run_ok hArity hMissing ((asks_inOrder .void f.body).ok hEv hBody)

/-- With an evaluator that is another one or stops, an action is the same or stops. -/
theorem Asks.or_stopped {ev ev' : Evaluator} {e : EvalError} (h : Asks act)
    (hEv : ∀ n s, ev n s = ev' n s ∨ ∃ t, ev n s = .error e t) (s : EvalState) :
    act ev s = act ev' s ∨ ∃ t, act ev s = .error e t := by
  induction h generalizing s with
  | const _ => exact Or.inl rfl
  | node n => exact hEv n s
  | bind _ _ ihFirst ihRest => exact bind_or_stopped (ihFirst s) ihRest

/-! ### What follows for evaluators -/

variable {caller : Caller}

/-- Evaluation moves the state as its calls do. -/
theorem moves_evaluateBy {T : EvalState → EvalState → Prop} [IsPreorder EvalState T]
    (hAside : ∀ s t : EvalState, s.Aside t → T s t)
    (hNested : ∀ s t : EvalState, T s.enterForm t → T s t.leaveForm)
    (hCaller : ∀ pending ev, (∀ pending n, Moves T (ev pending n)) → ∀ f args span,
      Moves T (caller pending ev f args span))
    (pending : List Pending) (room : Nat) (n : Node) : Moves T (evaluateBy caller pending room n) := by
  induction room generalizing pending n with
  | zero =>
    cases n with
    | atom a span => exact moves_atom a span
    | list items span => exact Moves.of_final_eq fun _ => rfl
  | succ room ih =>
    cases n with
    | atom a span => exact moves_atom a span
    | list items span =>
      refine moves_nested ?_ hNested
      rcases formBy_cases items span with ⟨act, hAsks, hForm⟩ | ⟨act, hAsks, hForm⟩
      · rw [hForm]
        exact hAsks.moves (ih pending) hAside
      · rw [hForm]
        exact (hAsks.moves (ih pending) hAside).bind fun c => hCaller pending _ ih c.1 c.2 span

/-- With calls that are other ones or stop, evaluation is the same or stops. -/
theorem evaluateBy_or_stopped {caller caller' : Caller} {e : EvalError}
    (hCaller : ∀ pending pending' ev ev',
      (∀ pending pending' n s, ev pending n s = ev' pending' n s ∨ ∃ t, ev pending n s = .error e t) →
      ∀ f args span s, caller pending ev f args span s = caller' pending' ev' f args span s ∨
        ∃ t, caller pending ev f args span s = .error e t)
    (pending pending' : List Pending) (room : Nat) (n : Node) (s : EvalState) :
    evaluateBy caller pending room n s = evaluateBy caller' pending' room n s ∨
      ∃ t, evaluateBy caller pending room n s = .error e t := by
  induction room generalizing pending pending' n s with
  | zero => cases n <;> exact Or.inl rfl
  | succ room ih =>
    cases n with
    | atom a span => exact Or.inl rfl
    | list items span =>
      refine nested_or_stopped (fun s => ?_) s
      rcases formBy_cases items span with ⟨act, hAsks, hForm⟩ | ⟨act, hAsks, hForm⟩
      · rw [hForm, hForm]
        exact hAsks.or_stopped (ih pending pending') s
      · rw [hForm, hForm]
        exact bind_or_stopped (hAsks.or_stopped (ih pending pending') s) fun c t =>
          hCaller _ _ _ _ ih c.1 c.2 span t

end Eval

end PostLisp

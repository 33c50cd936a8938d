import Mathlib.Order.Defs.Unbundled
import PostLisp.Eval.Run

/-!
# What evaluation may do to the state

An action `Moves T` when it takes every state to one that `T` relates to it, whether it ends in a
value or in an error.  For a preorder `T` this passes from the parts of a form to the form:
`moves_form` asks of the nodes that a form may evaluate, of calls, of definitions and of new
functions that they move along `T`, and gives it for the form.  Everything that holds of one run
alone (which frames change, what the counters do, which entries stay) is an instance.
-/

namespace PostLisp

namespace EvalM

variable {α β : Type} {T : EvalState → EvalState → Prop}

/-- The state in which an action ends. -/
def final (act : EvalM α) (s : EvalState) : EvalState :=
  match act s with
  | .ok _ t => t
  | .error _ t => t

/-- The action takes every state to one that `T` relates to it. -/
def Moves (T : EvalState → EvalState → Prop) (act : EvalM α) : Prop := ∀ s, T s (act.final s)

theorem final_ok {act : EvalM α} {s t : EvalState} {v : α} (h : act s = .ok v t) :
    act.final s = t := by
  rw [final, h]

theorem final_error {act : EvalM α} {s t : EvalState} {e : EvalError} (h : act s = .error e t) :
    act.final s = t := by
  rw [final, h]

theorem bind_ok {act : EvalM α} {next : α → EvalM β} {s t : EvalState} {v : α}
    (h : act s = .ok v t) : (act >>= next) s = next v t := by
  show EStateM.bind act next s = _
  rw [EStateM.bind, h]

theorem bind_error {act : EvalM α} {next : α → EvalM β} {s t : EvalState} {e : EvalError}
    (h : act s = .error e t) : (act >>= next) s = .error e t := by
  show EStateM.bind act next s = _
  rw [EStateM.bind, h]

theorem lookup_apply (name : String) (s : EvalState) :
    lookup name s = .ok (s.frame.lookup s.session.globals name) s := rfl

theorem nested_ok {act : EvalM α} {s t : EvalState} {v : α} (h : act s.enterForm = .ok v t) :
    nested act s = .ok v t.leaveForm := by
  rw [nested, around, h]

theorem nested_error {act : EvalM α} {s t : EvalState} {e : EvalError}
    (h : act s.enterForm = .error e t) : nested act s = .error e t.leaveForm := by
  rw [nested, around, h]

theorem of_nested_ok {act : EvalM α} {s t : EvalState} {v : α} (h : nested act s = .ok v t) :
    ∃ u, act s.enterForm = .ok v u ∧ t = u.leaveForm := by
  cases hInside : act s.enterForm with
  | ok x u =>
    rw [nested_ok hInside] at h
    cases h
    exact ⟨u, rfl, rfl⟩
  | error e u =>
    rw [nested_error hInside] at h
    cases h

theorem moves_nested {act : EvalM α} (hAct : Moves T act)
    (hNested : ∀ s t : EvalState, T s.enterForm t → T s t.leaveForm) : Moves T (nested act) := by
  intro s
  have hInside := hAct s.enterForm
  cases h : act s.enterForm with
  | ok v t =>
    rw [final_ok h] at hInside
    rw [final_ok (nested_ok h)]
    exact hNested s t hInside
  | error e t =>
    rw [final_error h] at hInside
    rw [final_error (nested_error h)]
    exact hNested s t hInside

section

variable [IsPreorder EvalState T]

theorem Moves.of_final_eq {act : EvalM α} (h : ∀ s, act.final s = s) : Moves T act := by
  intro s
  rw [h s]
  exact refl_of T s

theorem moves_pure (v : α) : Moves T (pure v) := Moves.of_final_eq fun _ => rfl

theorem moves_throw (e : EvalError) : Moves T (throw e : EvalM α) := Moves.of_final_eq fun _ => rfl

theorem moves_lookup (name : String) : Moves T (lookup name) := Moves.of_final_eq fun _ => rfl

theorem moves_blame (span : Span) (r : Except Fault α) : Moves T (blame span r) := by
  cases r with
  | ok v => exact moves_pure v
  | error f => exact moves_throw _

theorem Moves.bind {act : EvalM α} {next : α → EvalM β} (hAct : Moves T act)
    (hNext : ∀ v, Moves T (next v)) : Moves T (act >>= next) := by
  intro s
  have hFirst := hAct s
  cases h : act s with
  | ok v t =>
    rw [final_ok h] at hFirst
    have hSecond := hNext v t
    rw [final, bind_ok h]
    exact trans_of T hFirst hSecond
  | error e t =>
    rw [final_error h] at hFirst
    rwa [final_error (bind_error h)]

end

end EvalM

theorem Session.session_perform {α : Type} (s : Session) (frame : Frame) (act : EvalM α) :
    (s.perform frame act).2 = act.final ⟨s, frame⟩ := by
  rw [perform, EvalM.final]
  cases act ⟨s, frame⟩ <;> rfl

namespace Node

/-- The last node of a list is this word. -/
def EndsWith (items : List Node) (word : String) : Prop := items.getLast?.bind symbol? = some word

instance (items : List Node) (word : String) : Decidable (EndsWith items word) :=
  inferInstanceAs (Decidable (_ = _))

/-- The nodes that a form with these items may evaluate itself: none of a function or of quoted
data, what stands in the clauses of a condition, and the items of any other list. -/
def evaluated (items : List Node) : List Node :=
  if EndsWith items SpecialForm.lambda.symbol ∨ EndsWith items SpecialForm.quote.symbol then []
  else if EndsWith items SpecialForm.cond.symbol then items.flatMap fun c => c.list?.getD []
  else items

/-- The name that a form with these items may define. -/
def target? (items : List Node) : Option String :=
  match items with
  | [target, _, operator] =>
    if operator.symbol? = some SpecialForm.define.symbol then target.symbol? else none
  | _ => none

theorem endsWith_concat {operands : List Node} {operator : Node} {word : String} :
    EndsWith (operands ++ [operator]) word ↔ operator.symbol? = some word := by
  simp [EndsWith]

theorem EndsWith.unique {items : List Node} {word other : String} (h : EndsWith items word)
    (g : EndsWith items other) : word = other :=
  Option.some.inj (h.symm.trans g)

/-- Every item counts, unless the last one is one of three words. -/
theorem evaluated_of_ne {items : List Node} (hLambda : ¬ EndsWith items SpecialForm.lambda.symbol)
    (hQuote : ¬ EndsWith items SpecialForm.quote.symbol)
    (hCond : ¬ EndsWith items SpecialForm.cond.symbol) : evaluated items = items := by
  rw [evaluated, if_neg, if_neg hCond]
  rintro (h | h)
  · exact hLambda h
  · exact hQuote h

theorem evaluated_cond {items : List Node} (hCond : EndsWith items SpecialForm.cond.symbol) :
    evaluated items = items.flatMap fun c => c.list?.getD [] := by
  rw [evaluated, if_neg, if_pos hCond]
  rintro (h | h)
  · exact absurd (h.unique hCond) (by decide)
  · exact absurd (h.unique hCond) (by decide)

end Node

namespace Eval

open EvalM

variable {T : EvalState → EvalState → Prop} [IsPreorder EvalState T] {ev : Evaluator}

theorem moves_operandValues {ns : List Node} (hEv : ∀ n ∈ ns, Moves T (ev n)) :
    Moves T (operandValues ev ns) := by
  induction ns with
  | nil => exact moves_pure []
  | cons n ns ih =>
    have hRest := ih fun m hm => hEv m (List.mem_cons_of_mem n hm)
    exact (hEv n List.mem_cons_self).bind fun v => hRest.bind fun vs => moves_pure (v :: vs)

theorem moves_inOrder {ns : List Node} (hEv : ∀ n ∈ ns, Moves T (ev n)) (last : Value) :
    Moves T (inOrder ev last ns) := by
  induction ns generalizing last with
  | nil => exact moves_pure last
  | cons n ns ih =>
    exact (hEv n List.mem_cons_self).bind fun v =>
      ih (fun m hm => hEv m (List.mem_cons_of_mem n hm)) v

theorem moves_call {callee : Value} {operands : List Node} (operator : Node) (span : Span)
    (hEv : ∀ n ∈ operands, Moves T (ev n))
    (hApply : ∀ f args span, Moves T (apply ev f args span)) :
    Moves T (call ev callee operator operands span) := by
  cases callee with
  | function f => exact (moves_operandValues hEv).bind fun args => hApply f args span
  | _ => exact moves_throw _

theorem moves_unary {form : SpecialForm} {use : Value → Except Fault Value} {operands : List Node}
    {span : Span} (hEv : ∀ n ∈ operands, Moves T (ev n)) :
    Moves T (unary ev form use operands span) := by
  match operands, hEv with
  | [operand], hEv => exact (hEv operand (by simp)).bind fun v => moves_blame span (use v)
  | [], _ | _ :: _ :: _, _ => exact moves_throw _

theorem moves_binary {form : SpecialForm} {use : Value → Value → Value} {operands : List Node}
    {span : Span} (hEv : ∀ n ∈ operands, Moves T (ev n)) :
    Moves T (binary ev form use operands span) := by
  match operands, hEv with
  | [left, right], hEv =>
    exact (hEv left (by simp)).bind fun v => (hEv right (by simp)).bind fun w => moves_pure (use v w)
  | [], _ | [_], _ | _ :: _ :: _ :: _, _ => exact moves_throw _

theorem moves_parameters (ns : List Node) : Moves T (parameters ns) := by
  induction ns with
  | nil => exact moves_pure []
  | cons n ns ih =>
    rw [parameters]
    split
    · exact moves_throw _
    · exact ih.bind fun names => moves_pure _

theorem moves_lambda {operands : List Node} {span : Span}
    (hFunction : ∀ params body, Moves T (makeFunction params body)) :
    Moves T (lambda operands span) := by
  match operands with
  | [] | [_] => exact moves_throw _
  | params :: n :: body =>
    rw [lambda]
    split
    · exact moves_throw _
    · exact (moves_parameters _).bind fun names => hFunction names (n :: body)
    · simp

theorem moves_holds {condition : Node} (hEv : Moves T (ev condition)) :
    Moves T (holds ev condition) := by
  rw [holds]
  split
  · exact moves_pure true
  · exact hEv.bind fun v => moves_pure _

theorem moves_cond {clauses : List Node} {span : Span}
    (hEv : ∀ clause ∈ clauses, ∀ n ∈ clause.list?.getD [], Moves T (ev n)) :
    Moves T (cond ev span clauses) := by
  induction clauses with
  | nil => exact moves_throw _
  | cons clause clauses ih =>
    have hRest := ih fun c hc => hEv c (List.mem_cons_of_mem clause hc)
    have hParts := hEv clause List.mem_cons_self
    rw [cond]
    split
    · exact moves_throw _
    · rename_i condition value hList
      rw [hList] at hParts
      refine (moves_holds (hParts condition (by simp))).bind fun b => ?_
      cases b with
      | true => exact hParts value (by simp)
      | false => exact hRest
    · exact moves_throw _

theorem moves_define {operands : List Node} {span : Span} (hEv : ∀ n ∈ operands, Moves T (ev n))
    (hDefine : ∀ target expression, operands = [target, expression] → ∀ name,
      target.symbol? = some name → ∀ v, Moves T (do announce name v; EvalM.define name v)) :
    Moves T (define ev operands span) := by
  match operands, hEv, hDefine with
  | [target, expression], hEv, hDefine =>
    rw [define]
    split
    · exact moves_throw _
    · rename_i name hName
      refine (hEv expression (by simp)).bind fun v => ?_
      have hBoth := hDefine target expression rfl name hName v
      have hAll := hBoth.bind fun _ => moves_pure Value.void
      rwa [bind_assoc] at hAll
  | [], _, _ | [_], _, _ | _ :: _ :: _ :: _, _, _ => exact moves_throw _

theorem moves_quote (operands : List Node) (span : Span) : Moves T (quote operands span) := by
  match operands with
  | [operand] => exact moves_pure _
  | [] | _ :: _ :: _ => exact moves_throw _

theorem symbol_of_ofSymbol? {name : String} {form : SpecialForm}
    (h : SpecialForm.ofSymbol? name = some form) : form.symbol = name := by
  have := List.find?_some h
  simpa using this

theorem arith_ofSymbol?_symbol (form : SpecialForm) : ArithOp.ofSymbol? form.symbol = none := by
  cases form <;> decide

theorem form_eq_specialForm {operands : List Node} {operator : Node} {form : SpecialForm}
    (span : Span) (hOperator : operator.symbol? = some form.symbol) :
    Eval.form ev (operands ++ [operator]) span = specialForm ev form operands span := by
  rw [Eval.form, List.getLast?_concat]
  simp only [hOperator, namedForm, arith_ofSymbol?_symbol, SpecialForm.ofSymbol?_symbol,
    List.dropLast_concat]

theorem moves_specialForm {form : SpecialForm} {operands : List Node} {operator : Node} {span : Span}
    (hOperator : operator.symbol? = some form.symbol)
    (hEv : ∀ n ∈ Node.evaluated (operands ++ [operator]), Moves T (ev n))
    (hDefine : ∀ name, Node.target? (operands ++ [operator]) = some name → ∀ v,
      Moves T (do announce name v; EvalM.define name v))
    (hFunction : ∀ params body, Moves T (makeFunction params body)) :
    Moves T (specialForm ev form operands span) := by
  have hEnds : ∀ other : SpecialForm,
      Node.EndsWith (operands ++ [operator]) other.symbol ↔ form.symbol = other.symbol := by
    intro other
    rw [Node.endsWith_concat, hOperator, Option.some_inj]
  have hOperands : Node.evaluated (operands ++ [operator]) = operands ++ [operator] →
      ∀ n ∈ operands, Moves T (ev n) := by
    intro hAll n hn
    refine hEv n ?_
    rw [hAll]
    exact List.mem_append_left _ hn
  cases form with
  | define =>
    have hAll := Node.evaluated_of_ne (by rw [hEnds]; decide) (by rw [hEnds]; decide)
      (by rw [hEnds]; decide)
    refine moves_define (hOperands hAll) fun target expression hItems name hName => ?_
    subst hItems
    exact hDefine name (by simpa [Node.target?, hOperator] using hName)
  | lambda => exact moves_lambda hFunction
  | quote => exact moves_quote operands span
  | cond =>
    refine moves_cond fun c hc n hn => hEv n ?_
    rw [Node.evaluated_cond ((hEnds .cond).2 rfl), List.mem_flatMap]
    exact ⟨c, List.mem_append_left _ hc, hn⟩
  | eq | cons =>
    exact moves_binary (hOperands (Node.evaluated_of_ne (by rw [hEnds]; decide)
      (by rw [hEnds]; decide) (by rw [hEnds]; decide)))
  | atom | car | cdr =>
    exact moves_unary (hOperands (Node.evaluated_of_ne (by rw [hEnds]; decide)
      (by rw [hEnds]; decide) (by rw [hEnds]; decide)))

/-- **A form moves the state as what it evaluates, defines, makes and calls does.** -/
theorem moves_form {items : List Node} {span : Span}
    (hEv : ∀ n ∈ Node.evaluated items, Moves T (ev n))
    (hDefine : ∀ name, Node.target? items = some name → ∀ v,
      Moves T (do announce name v; EvalM.define name v))
    (hFunction : ∀ params body, Moves T (makeFunction params body))
    (hApply : ∀ f args span, Moves T (apply ev f args span)) :
    Moves T (form ev items span) := by
  rcases List.eq_nil_or_concat items with rfl | ⟨operands, operator, rfl⟩
  · exact moves_throw _
  rw [List.concat_eq_append] at *
  by_cases hSpecial : ∃ form : SpecialForm, operator.symbol? = some form.symbol
  · obtain ⟨form, hOperator⟩ := hSpecial
    rw [form_eq_specialForm span hOperator]
    exact moves_specialForm hOperator hEv hDefine hFunction
  · have hAll : ∀ n ∈ operands ++ [operator], Moves T (ev n) := by
      rwa [Node.evaluated_of_ne] at hEv <;> rw [Node.endsWith_concat] <;>
        exact fun h => hSpecial ⟨_, h⟩
    have hOperands : ∀ n ∈ operands, Moves T (ev n) := fun n hn =>
      hAll n (List.mem_append_left _ hn)
    rw [form, List.getLast?_concat, List.dropLast_concat]
    dsimp only
    split
    · rename_i name hName
      rw [namedForm]
      split
      · exact (moves_operandValues hOperands).bind fun args => moves_blame span _
      · rename_i form _ hForm
        rw [← symbol_of_ofSymbol? hForm] at hName
        exact absurd ⟨form, hName⟩ hSpecial
      · refine (moves_lookup name).bind fun callee => ?_
        cases callee with
        | some callee => exact moves_call operator span hOperands hApply
        | none => exact moves_throw _
    · exact (hAll operator (by simp)).bind fun callee =>
        moves_call operator span hOperands hApply

theorem moves_atom (a : Atom) (span : Span) : Moves T (atom a span) := by
  cases a with
  | symbol name =>
    refine (moves_lookup name).bind fun v => ?_
    cases v with
    | some v => exact moves_pure v
    | none => exact moves_throw _
  | int n => exact moves_pure _
  | float x => exact moves_pure _

/-- **Evaluation moves the state as its steps do**, whatever the room. -/
theorem moves_evaluateWithin
    (hDefine : ∀ name v, Moves T (do announce name v; EvalM.define name v))
    (hFunction : ∀ params body, Moves T (makeFunction params body))
    (hApply : ∀ ev : Evaluator, (∀ n, Moves T (ev n)) → ∀ f args span,
      Moves T (apply ev f args span))
    (hNested : ∀ s t : EvalState, T s.enterForm t → T s t.leaveForm) (room : Nat) (n : Node) :
    Moves T (evaluateWithin room n) := by
  induction room generalizing n with
  | zero =>
    cases n with
    | atom a span => exact moves_atom a span
    | list items span => exact Moves.of_final_eq fun _ => rfl
  | succ room ih =>
    cases n with
    | atom a span => exact moves_atom a span
    | list items span =>
      refine moves_nested ?_ hNested
      exact moves_form (fun n _ => ih n) (fun name _ => hDefine name) hFunction (hApply _ ih)

end Eval

/-- A text moves the state as the evaluation of its nodes does. -/
theorem Session.moves_runText {T : EvalState → EvalState → Prop} [IsPreorder EvalState T]
    (hEv : ∀ n, EvalM.Moves T (Eval.evaluate n)) (s : Session) (text : String) :
    ∃ frame, T ⟨s, .top⟩ ⟨(s.runText text).2, frame⟩ := by
  rw [runText]
  cases Program.ofString text with
  | error e => exact ⟨.top, refl_of T _⟩
  | ok program =>
    have hRun := Eval.moves_inOrder (fun n (_ : n ∈ program) => hEv n) .void ⟨s, .top⟩
    rw [← session_perform] at hRun
    exact ⟨_, hRun⟩

end PostLisp

import PostLisp.Proofs.Recursion

/-!
# Evaluation as a finite tree of calls

`evaluateWithin` ends because it counts down a room.  A session has no such room, only a depth and a
limit: its evaluator answers an atom at once, refuses a list form where the depth has reached the
limit, and runs any other form, which calls the evaluator again, for operands, for the clauses of a
condition, for the body of whatever function is called.  A `CallTree` is the record of one such call
and of the calls inside it.  It is `Complete` when every record in it is right, which says nothing
of rooms.

The calls that an action makes are told from outside.  A `Dialogue` lists them when the action ends
as it does for every evaluator that answers them as recorded, and fails as soon as one of them does.
`Traced` passes this from the parts of a form to the form, and `evaluation_ends` closes the circle
by induction on the depth that is left.
-/

namespace PostLisp

open Eval EvalM

/-- What the evaluation of a node ends in, and the state afterwards. -/
abbrev Ending := EStateM.Result EvalError EvalState Value

/-- A call of the evaluator in a state: an atom, a list form that is one too many, or any other list
form with the calls that it makes and what it ends in. -/
inductive CallTree where
  | atom (a : Atom) (span : Span) (start : EvalState)
  | refused (items : List Node) (span : Span) (start : EvalState)
  | form (items : List Node) (span : Span) (start : EvalState) (inner : List CallTree)
      (ending : Ending)

namespace CallTree

def node : CallTree → Node
  | .atom a span _ => .atom a span
  | .refused items span _ => .list items span
  | .form items span _ _ _ => .list items span

def start : CallTree → EvalState
  | .atom _ _ start => start
  | .refused _ _ start => start
  | .form _ _ start _ _ => start

/-- The calls that are made directly, from the first to the last. -/
def inner : CallTree → List CallTree
  | .atom _ _ _ => []
  | .refused _ _ _ => []
  | .form _ _ _ inner _ => inner

def ending : CallTree → Ending
  | .atom a span start => Eval.atom a span start
  | .refused _ span start => .error ⟨.tooDeep start.session.options.maxDepth, span⟩ start
  | .form _ _ _ _ ending => ending

def IsRefused : CallTree → Prop
  | .refused _ _ _ => True
  | _ => False

mutual

/-- How many list forms are evaluated inside one another, at most. -/
def nesting : CallTree → Nat
  | .atom _ _ _ => 0
  | .refused _ _ _ => 0
  | .form _ _ _ inner _ => nestingAll inner + 1

def nestingAll : List CallTree → Nat
  | [] => 0
  | c :: cs => max c.nesting (nestingAll cs)

end

theorem nestingAll_le {cs : List CallTree} {bound : Nat} (h : ∀ c ∈ cs, c.nesting ≤ bound) :
    nestingAll cs ≤ bound := by
  induction cs with
  | nil => exact Nat.zero_le bound
  | cons c cs ih =>
    obtain ⟨hHead, hTail⟩ := List.forall_mem_cons.1 h
    exact Nat.max_le.2 ⟨hHead, ih hTail⟩

end CallTree

/-- The evaluator answers the calls as they are recorded. -/
def Answers (ev : Evaluator) (calls : List CallTree) : Prop :=
  ∀ c ∈ calls, ev c.node c.start = c.ending

/-- Started in `s`, the action makes these calls, one after the other, and ends in `r`: whatever
answers them makes it end so, and when one of them fails, it makes no other and fails as well. -/
structure Dialogue {α : Type} (act : Evaluator → EvalM α) (s : EvalState) (calls : List CallTree)
    (r : EStateM.Result EvalError EvalState α) : Prop where
  ends : ∀ ev, Answers ev calls → act ev s = r
  fails : ∀ before c after, calls = before ++ c :: after → ∀ ev e t, Answers ev before →
    ev c.node c.start = .error e t → ∃ u, act ev s = .error e u

/-- A state of a session with these options, that many forms deep. -/
structure EvalState.At (s : EvalState) (options : Options) (depth : Nat) : Prop where
  options : s.session.options = options
  depth : s.session.depth = depth

/-- The record is right: the limit refuses what it has to and nothing else, a form makes the calls
that stand inside it, each of them one form deeper, and these are complete. -/
inductive CallTree.Complete : CallTree → Prop
  | atom {a : Atom} {span : Span} {start : EvalState} : Complete (.atom a span start)
  | refused {items : List Node} {span : Span} {start : EvalState}
      (hLimit : start.session.options.maxDepth ≤ start.session.depth) :
      Complete (.refused items span start)
  | form {items : List Node} {span : Span} {start : EvalState} {inner : List CallTree}
      {ending : Ending} (hLimit : start.session.depth < start.session.options.maxDepth)
      (hInner : ∀ c ∈ inner, c.Complete)
      (hDeeper : ∀ c ∈ inner, c.start.At start.session.options (start.session.depth + 1))
      (hDialogue : Dialogue (fun ev => nested (Eval.form ev items span)) start inner ending) :
      Complete (.form items span start inner ending)

/-- The depth counts the forms that are being evaluated, and stays within the limit. -/
theorem CallTree.Complete.nesting_le {c : CallTree} (h : c.Complete)
    (hDepth : c.start.session.depth ≤ c.start.session.options.maxDepth) :
    c.start.session.depth + c.nesting ≤ c.start.session.options.maxDepth := by
  induction h with
  | atom => exact hDepth
  | refused => exact hDepth
  | @form items span start inner ending hLimit _ hDeeper _ ih =>
    have hAll : nestingAll inner ≤ start.session.options.maxDepth - (start.session.depth + 1) := by
      refine nestingAll_le fun c hc => ?_
      have hStart := hDeeper c hc
      have hNesting := ih c hc (by rw [hStart.options, hStart.depth]; exact hLimit)
      rw [hStart.options, hStart.depth] at hNesting
      omega
    show start.session.depth + (nestingAll inner + 1) ≤ start.session.options.maxDepth
    omega

/-! ### The calls of actions -/

namespace Dialogue

variable {α β : Type} {s : EvalState} {calls : List CallTree}

/-- An action that calls nothing. -/
theorem const (act : EvalM α) (s : EvalState) : Dialogue (fun _ => act) s [] (act s) where
  ends _ _ := rfl
  fails before c after h := by simp at h

theorem call (c : CallTree) : Dialogue (fun ev => ev c.node) c.start [c] c.ending where
  ends ev h := h c List.mem_cons_self
  fails before d after h ev e t _ hFail := by
    obtain ⟨rfl, hMore⟩ | ⟨_, _, hMore⟩ := List.cons_eq_append_iff.1 h
    · obtain ⟨rfl, -⟩ := List.cons.inj hMore
      exact ⟨t, hFail⟩
    · simp at hMore

/-- An action that fails leaves nothing to do. -/
theorem bind_error {act : Evaluator → EvalM α} {next : α → Evaluator → EvalM β} {e : EvalError}
    {t : EvalState} (hAct : Dialogue act s calls (.error e t)) :
    Dialogue (fun ev => act ev >>= fun v => next v ev) s calls (.error e t) where
  ends ev h := EvalM.bind_error (hAct.ends ev h)
  fails before c after hCalls ev e t hBefore hFail := by
    obtain ⟨u, hFailed⟩ := hAct.fails before c after hCalls ev e t hBefore hFail
    exact ⟨u, EvalM.bind_error hFailed⟩

/-- Where an element stands in two lists, one behind the other. -/
theorem cut_append {calls more before after : List CallTree} {c : CallTree}
    (h : calls ++ more = before ++ c :: after) :
    (∃ between, before = calls ++ between ∧ more = between ++ c :: after) ∨
      ∃ between, calls = before ++ c :: between := by
  obtain ⟨between, hBefore, hMore⟩ | ⟨between, hCalls, hAfter⟩ := List.append_eq_append_iff.1 h
  · exact Or.inl ⟨between, hBefore, hMore⟩
  · cases between with
    | nil =>
      rw [List.append_nil] at hCalls
      exact Or.inl ⟨[], by rw [hCalls, List.append_nil], hAfter.symm⟩
    | cons d between =>
      obtain ⟨rfl, -⟩ := List.cons.inj hAfter
      exact Or.inr ⟨between, hCalls⟩

theorem bind_ok {act : Evaluator → EvalM α} {next : α → Evaluator → EvalM β} {v : α}
    {t : EvalState} {more : List CallTree} {r : EStateM.Result EvalError EvalState β}
    (hAct : Dialogue act s calls (.ok v t)) (hNext : Dialogue (next v) t more r) :
    Dialogue (fun ev => act ev >>= fun v => next v ev) s (calls ++ more) r where
  ends ev h := by
    rw [EvalM.bind_ok (hAct.ends ev fun c hc => h c (List.mem_append_left _ hc))]
    exact hNext.ends ev fun c hc => h c (List.mem_append_right _ hc)
  fails before c after hCalls ev e u hBefore hFail := by
    rcases cut_append hCalls with ⟨between, rfl, hMore⟩ | ⟨between, hFirst⟩
    · have hFirst := hAct.ends ev fun c hc => hBefore c (List.mem_append_left _ hc)
      rw [EvalM.bind_ok hFirst]
      exact hNext.fails between c after hMore ev e u
        (fun c hc => hBefore c (List.mem_append_right _ hc)) hFail
    · obtain ⟨u', hFailed⟩ := hAct.fails before c between hFirst ev e u hBefore hFail
      exact ⟨u', EvalM.bind_error hFailed⟩

/-- A change of the state around an action calls nothing. -/
theorem around {act : Evaluator → EvalM α} {ref : Evaluator} {enter leave : EvalState → EvalState}
    (hAct : Dialogue act (enter s) calls (act ref (enter s))) :
    Dialogue (fun ev => EvalM.around enter leave (act ev)) s calls
      (EvalM.around enter leave (act ref) s) where
  ends ev h := by rw [EvalM.around, EvalM.around, hAct.ends ev h]
  fails before c after hCalls ev e t hBefore hFail := by
    obtain ⟨u, hFailed⟩ := hAct.fails before c after hCalls ev e t hBefore hFail
    exact ⟨leave u, by rw [EvalM.around, hFailed]⟩

/-- A call whose failure is the failure of the action is one of its calls. -/
theorem mem_of_fails {act : Evaluator → EvalM α} {r : EStateM.Result EvalError EvalState α}
    (h : Dialogue act s calls r) {ref : Evaluator} (hRef : Answers ref calls) {n : Node}
    {u : EvalState} (hFails : ∀ (ev : Evaluator) (e : EvalError), ev n u = .error e u →
      ∃ t, act ev s = .error e t) : ∃ c ∈ calls, c.node = n ∧ c.start = u := by
  classical
  refine Classical.byContradiction fun hNone => ?_
  -- otherwise the action could not tell which error this call is answered with
  let failing (e : EvalError) : Evaluator := fun m v =>
    if m = n ∧ v = u then .error e v else ref m v
  have hEnds (e : EvalError) : ∃ t, r = .error e t := by
    obtain ⟨t, hFailed⟩ := hFails (failing e) e (if_pos ⟨rfl, rfl⟩)
    have hAnswers : Answers (failing e) calls := fun c hc =>
      (if_neg fun hSame => hNone ⟨c, hc, hSame⟩).trans (hRef c hc)
    exact ⟨t, (h.ends _ hAnswers).symm.trans hFailed⟩
  obtain ⟨t, hEmpty⟩ := hEnds ⟨.emptyForm, .origin⟩
  obtain ⟨u, hClause⟩ := hEnds ⟨.noClause, .origin⟩
  rw [hEmpty] at hClause
  cases hClause

end Dialogue

/-- The record of an evaluation that starts in a state of this depth is right, from its first call
to what it ends in. -/
structure CallTree.TreeAt (options : Options) (depth : Nat) (c : CallTree) : Prop where
  complete : c.Complete
  start : c.start.At options depth
  ending : c.ending = evaluate c.node c.start

/-- In every state of this depth, the action makes calls that have such trees, and it comes back to
this depth. -/
structure Traced {α : Type} (options : Options) (depth : Nat) (act : Evaluator → EvalM α) :
    Prop where
  stays : Moves (fun s t => s.session.Counted t.session) (act evaluate)
  calls : ∀ s : EvalState, s.At options depth →
    ∃ calls, (∀ c ∈ calls, c.TreeAt options depth) ∧ Dialogue act s calls (act evaluate s)

theorem EvalState.At.counted {s t : EvalState} {options : Options} {depth : Nat}
    (h : s.At options depth) (hCounted : s.session.Counted t.session) : t.At options depth :=
  ⟨hCounted.options.trans h.options, hCounted.depth.trans h.depth⟩

namespace Traced

variable {α β : Type} {options : Options} {depth : Nat}

theorem const {act : EvalM α} (h : Moves (fun s t => s.session.Counted t.session) act) :
    Traced options depth fun _ => act where
  stays := h
  calls s _ := ⟨[], by simp, .const act s⟩

theorem bind {act : Evaluator → EvalM α} {next : α → Evaluator → EvalM β}
    (hAct : Traced options depth act) (hNext : ∀ v, Traced options depth (next v)) :
    Traced options depth fun ev => act ev >>= fun v => next v ev where
  stays := hAct.stays.bind fun v => (hNext v).stays
  calls s hs := by
    obtain ⟨calls, hCalls, hDialogue⟩ := hAct.calls s hs
    have hStays := hAct.stays s
    cases hRun : act evaluate s with
    | error e t =>
      rw [hRun] at hDialogue
      rw [EvalM.bind_error hRun]
      exact ⟨calls, hCalls, hDialogue.bind_error⟩
    | ok v t =>
      rw [final_ok hRun] at hStays
      rw [hRun] at hDialogue
      rw [EvalM.bind_ok hRun]
      obtain ⟨more, hMore, hRest⟩ := (hNext v).calls t (hs.counted hStays)
      refine ⟨calls ++ more, fun c hc => ?_, hDialogue.bind_ok hRest⟩
      exact (List.mem_append.1 hc).elim (hCalls c) (hMore c)

theorem inFrame {act : Evaluator → EvalM α} (frame : Frame) (hAct : Traced options depth act) :
    Traced options depth fun ev => EvalM.inFrame frame (act ev) where
  stays s := by
    have hInside := hAct.stays ⟨s.session, frame⟩
    rw [final] at hInside ⊢
    rw [EvalM.inFrame, EvalM.around]
    cases hRun : act evaluate ⟨s.session, frame⟩ <;> simpa only [hRun] using hInside
  calls s hs := by
    obtain ⟨calls, hCalls, hDialogue⟩ := hAct.calls ⟨s.session, frame⟩ ⟨hs.options, hs.depth⟩
    have hAround : Dialogue (fun ev => EvalM.around (fun s => { s with frame })
        (fun t => { t with frame := s.frame }) (act ev)) s calls _ := hDialogue.around
    exact ⟨calls, hCalls, hAround.ends, hAround.fails⟩

end Traced

/-! ### The calls of forms -/

namespace Eval

/-- Every evaluation that starts in a state of this depth has a tree. -/
def HasTrees (options : Options) (depth : Nat) : Prop :=
  ∀ (n : Node) (s : EvalState), s.At options depth →
    ∃ c : CallTree, c.TreeAt options depth ∧ c.node = n ∧ c.start = s

variable {options : Options} {depth : Nat}

theorem moves_counted_evaluate (n : Node) :
    Moves (fun s t => s.session.Counted t.session) (evaluate n) := fun s =>
  evaluateWithin_counted s.session.room n s

theorem traced_evaluate (hTrees : HasTrees options depth) (n : Node) :
    Traced options depth fun ev => ev n where
  stays := moves_counted_evaluate n
  calls s hs := by
    obtain ⟨c, hc, rfl, rfl⟩ := hTrees n s hs
    rw [← hc.ending]
    exact ⟨[c], by simpa using hc, .call c⟩

theorem traced_operandValues (hTrees : HasTrees options depth) (ns : List Node) :
    Traced options depth fun ev => operandValues ev ns := by
  induction ns with
  | nil => exact .const (moves_pure [])
  | cons n ns ih =>
    exact (traced_evaluate hTrees n).bind fun v => ih.bind fun vs => .const (moves_pure (v :: vs))

theorem traced_inOrder (hTrees : HasTrees options depth) (last : Value) (ns : List Node) :
    Traced options depth fun ev => inOrder ev last ns := by
  induction ns generalizing last with
  | nil => exact .const (moves_pure last)
  | cons n ns ih => exact (traced_evaluate hTrees n).bind fun v => ih v

theorem traced_runBody (hTrees : HasTrees options depth) (f : Closure Value) (args : List Value) :
    Traced options depth fun ev => runBody ev f args := by
  refine .bind (.const fun s => ?_) fun _ => (traced_inOrder hTrees .void f.body).inFrame _
  exact ⟨rfl, rfl, Nat.le_succ _, Nat.le_refl _⟩

theorem traced_apply (hTrees : HasTrees options depth) (f : Closure Value) (args : List Value)
    (span : Span) : Traced options depth fun ev => apply ev f args span := by
  by_cases hArity : args.length = f.params.length
  · simp only [apply, if_pos hArity]
    refine .bind (.const (.of_final_eq fun _ => rfl)) fun key => ?_
    refine .bind (.const (.of_final_eq fun _ => rfl)) fun found => ?_
    cases found with
    | some v =>
      refine .bind (.const fun s => ?_) fun _ => .const (moves_pure v)
      exact ⟨rfl, rfl, Nat.le_refl _, Nat.le_refl _⟩
    | none =>
      refine .bind (.const fun s => ⟨rfl, rfl, Nat.le_refl _, Nat.le_refl _⟩) fun _ => ?_
      refine (traced_runBody hTrees f args).bind fun v => ?_
      refine .bind (.const fun s => ?_) fun _ => .const (moves_pure v)
      cases key <;> exact ⟨rfl, rfl, Nat.le_refl _, Nat.le_refl _⟩
  · simp only [apply, if_neg hArity]
    exact .const (moves_throw _)

theorem traced_call (hTrees : HasTrees options depth) (callee : Value) (operator : Node)
    (operands : List Node) (span : Span) :
    Traced options depth fun ev => call ev callee operator operands span := by
  cases callee with
  | function f =>
    exact (traced_operandValues hTrees operands).bind fun args => traced_apply hTrees f args span
  | _ => exact .const (moves_throw _)

theorem traced_unary (hTrees : HasTrees options depth) (form : SpecialForm)
    (use : Value → Except Fault Value) (operands : List Node) (span : Span) :
    Traced options depth fun ev => unary ev form use operands span := by
  match operands with
  | [operand] =>
    exact (traced_evaluate hTrees operand).bind fun v => .const (moves_blame span (use v))
  | [] | _ :: _ :: _ => exact .const (moves_throw _)

theorem traced_binary (hTrees : HasTrees options depth) (form : SpecialForm)
    (use : Value → Value → Value) (operands : List Node) (span : Span) :
    Traced options depth fun ev => binary ev form use operands span := by
  match operands with
  | [left, right] =>
    exact (traced_evaluate hTrees left).bind fun v => (traced_evaluate hTrees right).bind fun w =>
      .const (moves_pure (use v w))
  | [] | [_] | _ :: _ :: _ :: _ => exact .const (moves_throw _)

theorem traced_holds (hTrees : HasTrees options depth) (condition : Node) :
    Traced options depth fun ev => holds ev condition := by
  by_cases hElse : condition.symbol? = some elseSymbol
  · simp only [holds, if_pos hElse]
    exact .const (moves_pure true)
  · simp only [holds, if_neg hElse]
    exact (traced_evaluate hTrees condition).bind fun v => .const (moves_pure _)

theorem traced_cond (hTrees : HasTrees options depth) (span : Span) (clauses : List Node) :
    Traced options depth fun ev => cond ev span clauses := by
  induction clauses with
  | nil => exact .const (moves_throw _)
  | cons clause clauses ih =>
    simp only [cond]
    split
    · exact .const (moves_throw _)
    · rename_i condition value hList
      refine (traced_holds hTrees condition).bind fun b => ?_
      cases b with
      | true => exact traced_evaluate hTrees value
      | false => exact ih
    · exact .const (moves_throw _)

theorem traced_define (hTrees : HasTrees options depth) (operands : List Node) (span : Span) :
    Traced options depth fun ev => define ev operands span := by
  match operands with
  | [target, expression] =>
    simp only [define]
    split
    · exact .const (moves_throw _)
    · rename_i name hName
      refine (traced_evaluate hTrees expression).bind fun v => .const ?_
      have hDefined := (moves_counted_define name v).bind fun _ => moves_pure Value.void
      rwa [bind_assoc] at hDefined
  | [] | [_] | _ :: _ :: _ :: _ => exact .const (moves_throw _)

theorem traced_specialForm (hTrees : HasTrees options depth) (form : SpecialForm)
    (operands : List Node) (span : Span) :
    Traced options depth fun ev => specialForm ev form operands span := by
  cases form with
  | define => exact traced_define hTrees operands span
  | lambda => exact .const (moves_lambda moves_counted_makeFunction)
  | quote => exact .const (moves_quote operands span)
  | cond => exact traced_cond hTrees span operands
  | eq | cons => exact traced_binary hTrees _ _ operands span
  | atom | car | cdr => exact traced_unary hTrees _ _ operands span

theorem traced_namedForm (hTrees : HasTrees options depth) (name : String) (operator : Node)
    (operands : List Node) (span : Span) :
    Traced options depth fun ev => namedForm ev name operator operands span := by
  simp only [namedForm]
  split
  · exact (traced_operandValues hTrees operands).bind fun args => .const (moves_blame span _)
  · exact traced_specialForm hTrees _ operands span
  · refine .bind (.const (moves_lookup name)) fun callee => ?_
    cases callee with
    | some callee => exact traced_call hTrees callee operator operands span
    | none => exact .const (moves_throw _)

/-- **A form makes finitely many calls**, each of which starts as deep as the form is. -/
theorem traced_form (hTrees : HasTrees options depth) (items : List Node) (span : Span) :
    Traced options depth fun ev => form ev items span := by
  simp only [form]
  split
  · exact .const (moves_throw _)
  · rename_i operator hOperator
    split
    · exact traced_namedForm hTrees _ operator items.dropLast span
    · exact (traced_evaluate hTrees operator).bind fun callee =>
        traced_call hTrees callee operator items.dropLast span

/-! ### Whole evaluations -/

theorem evaluate_of_room {s : EvalState} {options : Options} {depth : Nat}
    (h : s.At options depth) (n : Node) :
    evaluate n s = evaluateWithin (options.maxDepth - depth) n s := by
  rw [evaluate, Session.room, h.options, h.depth]

theorem evaluate_atom (a : Atom) (span : Span) (s : EvalState) :
    evaluate (.atom a span) s = atom a span s := by
  rw [evaluate]
  cases s.session.room <;> rfl

theorem evaluate_list_of_le {s : EvalState}
    (hLimit : s.session.options.maxDepth ≤ s.session.depth) (items : List Node) (span : Span) :
    evaluate (.list items span) s = .error ⟨.tooDeep s.session.options.maxDepth, span⟩ s := by
  have hRoom : s.session.room = 0 := Nat.sub_eq_zero_of_le hLimit
  rw [evaluate, hRoom]
  rfl

/-- A form is run by the evaluator itself, one form deeper. -/
theorem evaluate_form {s : EvalState} {options : Options} {depth : Nat} (hs : s.At options depth)
    (hLimit : depth < options.maxDepth) (hTrees : HasTrees options (depth + 1)) (items : List Node)
    (span : Span) : evaluate (.list items span) s = nested (form evaluate items span) s := by
  have hRoom : options.maxDepth - depth = options.maxDepth - (depth + 1) + 1 := by omega
  obtain ⟨calls, hCalls, hDialogue⟩ := (traced_form hTrees items span).calls s.enterForm
    ⟨hs.options, congrArg (· + 1) hs.depth⟩
  have hAnswers : Answers (evaluateWithin (options.maxDepth - (depth + 1))) calls := fun c hc => by
    rw [(hCalls c hc).ending, evaluate_of_room (hCalls c hc).start]
  rw [evaluate_of_room hs, hRoom, evaluateWithin, nested, around, nested, around,
    hDialogue.ends _ hAnswers]

/-- **Every evaluation has a tree**, by induction on the depth that is left. -/
theorem hasTrees (options : Options) {room depth : Nat}
    (hRoom : options.maxDepth - depth = room) : HasTrees options depth := by
  induction room generalizing depth with
  | zero =>
    intro n s hs
    cases n with
    | atom a span =>
      exact ⟨.atom a span s, ⟨.atom, hs, (evaluate_atom a span s).symm⟩, rfl, rfl⟩
    | list items span =>
      have hLimit : s.session.options.maxDepth ≤ s.session.depth := by
        rw [hs.options, hs.depth]
        omega
      exact ⟨.refused items span s,
        ⟨.refused hLimit, hs, (evaluate_list_of_le hLimit items span).symm⟩, rfl, rfl⟩
  | succ room ih =>
    intro n s hs
    cases n with
    | atom a span =>
      exact ⟨.atom a span s, ⟨.atom, hs, (evaluate_atom a span s).symm⟩, rfl, rfl⟩
    | list items span =>
      have hTrees : HasTrees options (depth + 1) := ih (by omega)
      obtain ⟨calls, hCalls, hDialogue⟩ := (traced_form hTrees items span).calls s.enterForm
        ⟨hs.options, congrArg (· + 1) hs.depth⟩
      have hEnding := evaluate_form hs (by omega) hTrees items span
      have hComplete : (CallTree.form items span s calls
          (nested (form evaluate items span) s)).Complete := by
        refine .form ?_ (fun c hc => (hCalls c hc).complete) (fun c hc => ?_) hDialogue.around
        · rw [hs.options, hs.depth]
          omega
        · rw [hs.options, hs.depth]
          exact (hCalls c hc).start
      exact ⟨_, ⟨hComplete, hs, hEnding.symm⟩, rfl, rfl⟩

end Eval

/-- A complete tree tells what the evaluation ends in. -/
theorem CallTree.Complete.ending_eq {c : CallTree} (h : c.Complete) :
    c.ending = evaluate c.node c.start := by
  induction h with
  | @atom a span start => exact (evaluate_atom a span start).symm
  | @refused items span start hLimit => exact (evaluate_list_of_le hLimit items span).symm
  | @form items span start inner ending hLimit _ _ hDialogue ih =>
    have hForm : evaluate (.list items span) start = nested (Eval.form evaluate items span) start :=
      evaluate_form ⟨rfl, rfl⟩ hLimit (hasTrees _ rfl) items span
    exact (hDialogue.ends evaluate fun c hc => (ih c hc).symm).symm.trans hForm.symm

/-- Unless the evaluation of the node is refused, it calls for that of a node of which the same is
true: nothing but the limit brings it to an end. -/
def WithoutBaseCase (n : Node) (s : EvalState) : Prop :=
  ∃ B : Node → EvalState → Prop, B n s ∧ ∀ c : CallTree, c.Complete → B c.node c.start →
    c.IsRefused ∨ ∃ d ∈ c.inner, B d.node d.start

/-- The refusal at the end of the calls is what all of them fail with. -/
theorem CallTree.Complete.tooDeep {B : Node → EvalState → Prop}
    (hB : ∀ c : CallTree, c.Complete → B c.node c.start →
      c.IsRefused ∨ ∃ d ∈ c.inner, B d.node d.start)
    {c : CallTree} (h : c.Complete) (hc : B c.node c.start) :
    ∃ span t, c.ending = .error ⟨.tooDeep c.start.session.options.maxDepth, span⟩ t := by
  induction h with
  | atom =>
    obtain hRefused | ⟨d, hd, -⟩ := hB _ .atom hc
    · exact hRefused.elim
    · cases hd
  | @refused items span start hLimit => exact ⟨span, start, rfl⟩
  | @form items span start inner ending hLimit hInner hDeeper hDialogue ih =>
    obtain hRefused | ⟨d, hd, hNext⟩ := hB _ (.form hLimit hInner hDeeper hDialogue) hc
    · exact hRefused.elim
    obtain ⟨place, t, hFail⟩ := ih d hd hNext
    rw [(hDeeper d hd).options, (hInner d hd).ending_eq] at hFail
    obtain ⟨before, after, rfl⟩ := List.append_of_mem hd
    obtain ⟨u, hFailed⟩ := hDialogue.fails before d after rfl evaluate _ t
      (fun c hMem => (hInner c (List.mem_append_left _ hMem)).ending_eq.symm) hFail
    have hEnds := hDialogue.ends evaluate fun c hMem => (hInner c hMem).ending_eq.symm
    exact ⟨place, u, hEnds.symm.trans hFailed⟩

/-- **Every evaluation ends**, within the limit.  From any state that is not deeper than the limit,
the evaluation of a node is a finite tree of calls, and a call of a function makes finitely many
such calls; with the forms that are being evaluated already, no more than the limit are evaluated
inside one another.  What has no base case fails for being too deep. -/
theorem evaluation_ends (s : EvalState)
    (hDepth : s.session.depth ≤ s.session.options.maxDepth) :
    (∀ n, ∃ c : CallTree, c.Complete ∧ c.node = n ∧ c.start = s ∧ c.ending = evaluate n s ∧
      s.session.depth + c.nesting ≤ s.session.options.maxDepth) ∧
    (∀ f args span, ∃ calls : List CallTree,
      Dialogue (fun ev => apply ev f args span) s calls (apply evaluate f args span s) ∧
      ∀ c ∈ calls, c.Complete ∧ c.start.At s.session.options s.session.depth ∧
        s.session.depth + c.nesting ≤ s.session.options.maxDepth) ∧
    ∀ n, WithoutBaseCase n s →
      ∃ span t, evaluate n s = .error ⟨.tooDeep s.session.options.maxDepth, span⟩ t := by
  have hTrees : HasTrees s.session.options s.session.depth := hasTrees _ rfl
  have hHere : s.At s.session.options s.session.depth := ⟨rfl, rfl⟩
  refine ⟨fun n => ?_, fun f args span => ?_, fun n hEndless => ?_⟩
  · obtain ⟨c, hc, rfl, rfl⟩ := hTrees n s hHere
    exact ⟨c, hc.complete, rfl, rfl, hc.ending, hc.complete.nesting_le hDepth⟩
  · obtain ⟨calls, hCalls, hDialogue⟩ := (traced_apply hTrees f args span).calls s hHere
    refine ⟨calls, hDialogue, fun c hc => ⟨(hCalls c hc).complete, (hCalls c hc).start, ?_⟩⟩
    have hStart := (hCalls c hc).start
    have hNesting := (hCalls c hc).complete.nesting_le (by rwa [hStart.options, hStart.depth])
    rwa [hStart.options, hStart.depth] at hNesting
  · obtain ⟨c, hc, rfl, rfl⟩ := hTrees n s hHere
    obtain ⟨B, hFirst, hB⟩ := hEndless
    rw [← hc.ending]
    exact hc.complete.tooDeep hB hFirst

/-- The form `(f)`. -/
def selfCall (f : String) (place span : Span) : Node := .list [.atom (.symbol f) place] span

/-- **A function without parameters that calls itself first** has no base case, whether calls are
remembered or not. -/
theorem selfCall_withoutBaseCase {f : String} {place span : Span} {g : Closure Value}
    {rest : List Node} {s : EvalState} (hName : f ∉ reservedWords) (hParams : g.params = [])
    (hBody : g.body = selfCall f place span :: rest) (hCaptured : g.captured.find? f = none)
    (hGlobal : s.session.globals.find? f = some (.function g))
    (hFound : s.frame.lookup s.session.globals f = some (.function g))
    (hMissing : (s.session.keyOf g []).bind s.session.cache.find? = none) :
    WithoutBaseCase (selfCall f place span) s := by
  refine ⟨fun n u => n = selfCall f place span ∧ u.session.globals.find? f = some (.function g) ∧
    u.frame.lookup u.session.globals f = some (.function g) ∧
    (u.session.keyOf g []).bind u.session.cache.find? = none,
    ⟨rfl, hGlobal, hFound, hMissing⟩, ?_⟩
  rintro c hc ⟨hNode, hGlobal, hFound, hMissing⟩
  cases hc with
  | atom => cases hNode
  | refused => exact Or.inl trivial
  | @form items span' u inner ending _ hInner _ hDialogue =>
    cases hNode
    change u.session.globals.find? f = _ at hGlobal
    change u.frame.lookup u.session.globals f = _ at hFound
    have hArity : ([] : List Value).length = g.params.length := by simp [hParams]
    -- the state in which the body of the function starts
    let v : EvalState :=
      ⟨u.enterForm.session.entered g (u.enterForm.session.keyOf g []).isSome, g.frame []⟩
    have hAnswers : Answers evaluate inner := fun c hMem => (hInner c hMem).ending_eq.symm
    obtain ⟨d, hd, hNode, hStart⟩ := hDialogue.mem_of_fails hAnswers (n := selfCall f place span)
      (u := v) fun ev e hFail => by
        have hRun : inOrder ev .void g.body v = .error e v := by
          rw [hBody]
          exact EvalM.bind_error hFail
        have hApply : apply ev g [] span u.enterForm = .error e ⟨v.session, u.frame⟩ :=
          apply_run_error hArity hMissing hRun
        have hForm : form ev ([] ++ [.atom (.symbol f) place]) span u.enterForm =
            .error e ⟨v.session, u.frame⟩ :=
          (form_of_lookup (s := u.enterForm) rfl hName hFound).trans hApply
        exact ⟨_, nested_error hForm⟩
    refine Or.inr ⟨d, hd, hNode, ?_⟩
    rw [hStart]
    refine ⟨hGlobal, ?_, hMissing⟩
    show ((Bindings.empty.insertAll (g.params.zip [])).find? f <|> g.captured.find? f <|>
      u.session.globals.find? f) = _
    rw [hParams, hCaptured, hGlobal]
    rfl

/-- A function that calls itself, with a limit of three forms. -/
theorem evaluation_ends_selfCall :
    let s := (Session.new ⟨true, 3⟩).defining "f" [] [selfCall "f" ⟨8, 9⟩ ⟨7, 10⟩]
    (Session.new ⟨true, 3⟩).runText "(f (() (f) lambda) define)" = (.ok .void, s) ∧
      s.depth ≤ s.options.maxDepth ∧
      ∃ span t, evaluate (selfCall "f" ⟨8, 9⟩ ⟨7, 10⟩) ⟨s, .top⟩ = .error ⟨.tooDeep 3, span⟩ t := by
  intro s
  have hDepth : s.depth ≤ s.options.maxDepth := Nat.zero_le 3
  have hRead : Program.ofString "(f (() (f) lambda) define)" =
      .ok [.list [.atom (.symbol "f") ⟨1, 2⟩,
        .list [.list [] ⟨4, 6⟩, selfCall "f" ⟨8, 9⟩ ⟨7, 10⟩, .atom (.symbol "lambda") ⟨11, 17⟩]
          ⟨3, 18⟩,
        .atom (.symbol "define") ⟨19, 25⟩] ⟨0, 26⟩] := by rfl
  have hEndless : WithoutBaseCase (selfCall "f" ⟨8, 9⟩ ⟨7, 10⟩) ⟨s, .top⟩ :=
    selfCall_withoutBaseCase (by decide) rfl rfl rfl rfl rfl rfl
  refine ⟨?_, hDepth, (evaluation_ends ⟨s, .top⟩ hDepth).2.2 _ hEndless⟩
  rw [Session.runText, hRead]
  rfl

end PostLisp

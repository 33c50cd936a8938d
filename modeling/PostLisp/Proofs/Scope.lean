import PostLisp.Proofs.Call

/-!
# Where definitions go

A definition reaches the innermost bindings and no further.  `evaluateWithin_innermost` says it of
evaluation as a whole: at top level a node changes only the globals, in a call only the locals, and
either only at names that the node itself defines.  `evaluateWithin_logged` reads the same from the
events: a global name keeps its value until the next event that defines it.  What is left of a
session, its options and counters, is the matter of `evaluateWithin_counted`.
-/

namespace PostLisp

namespace Node

mutual

/-- The names that evaluating a node may define in the bindings around it: the targets of the
definitions inside it, apart from those inside a function or inside quoted data. -/
def defined : Node → List String
  | .atom _ _ => []
  | .list items _ =>
    if EndsWith items SpecialForm.lambda.symbol ∨ EndsWith items SpecialForm.quote.symbol then []
    else if EndsWith items SpecialForm.cond.symbol then definedClauses items
    else (target? items).toList ++ definedAll items

def definedAll : List Node → List String
  | [] => []
  | n :: ns => n.defined ++ definedAll ns

/-- The same of the clauses of a condition, each of which is two nodes and not a form. -/
def definedClauses : List Node → List String
  | [] => []
  | .atom _ _ :: clauses => definedClauses clauses
  | .list parts _ :: clauses => definedAll parts ++ definedClauses clauses

end

theorem mem_definedAll {ns : List Node} {name : String} :
    name ∈ definedAll ns ↔ ∃ n ∈ ns, name ∈ n.defined := by
  induction ns with
  | nil => simp [definedAll]
  | cons n ns ih => simp [definedAll, ih]

theorem mem_definedClauses {clauses : List Node} {name : String} :
    name ∈ definedClauses clauses ↔ ∃ c ∈ clauses, ∃ n ∈ c.list?.getD [], name ∈ n.defined := by
  induction clauses with
  | nil => simp [definedClauses]
  | cons c clauses ih => cases c <;> simp [definedClauses, ih, mem_definedAll, list?]

theorem target?_eq_none {items : List Node}
    (h : ¬ EndsWith items SpecialForm.define.symbol) : target? items = none := by
  match items with
  | [target, value, operator] => exact if_neg h
  | [] | [_] | [_, _] | _ :: _ :: _ :: _ :: _ => rfl

/-- A list defines its own target and what the nodes that it evaluates define. -/
theorem mem_defined {items : List Node} {span : Span} {name : String} :
    name ∈ (Node.list items span).defined ↔
      target? items = some name ∨ ∃ n ∈ evaluated items, name ∈ n.defined := by
  rw [defined, evaluated]
  split
  · rename_i hWord
    rw [target?_eq_none]
    · simp
    · rcases hWord with hWord | hWord <;> exact fun h => absurd (hWord.unique h) (by decide)
  · split
    · rename_i hCond
      rw [mem_definedClauses, target?_eq_none fun h => absurd (hCond.unique h) (by decide)]
      simp only [List.mem_flatMap, reduceCtorEq, false_or]
      constructor
      · rintro ⟨c, hc, n, hn, hName⟩
        exact ⟨n, ⟨c, hc, hn⟩, hName⟩
      · rintro ⟨n, ⟨c, hc, hn⟩, hName⟩
        exact ⟨c, hc, n, hn, hName⟩
    · simp [mem_definedAll]

end Node

open EvalM

/-! ### Frames -/

/-- The bindings in reach are those of before, but for the innermost ones at the names in `D`. -/
def Innermost (D : String → Prop) (s t : EvalState) : Prop :=
  match s.frame, t.frame with
  | .top, .top => ∀ x, ¬ D x → t.session.globals.find? x = s.session.globals.find? x
  | .call locals captured, .call locals' captured' =>
    captured' = captured ∧ t.session.globals = s.session.globals ∧
      ∀ x, ¬ D x → locals'.find? x = locals.find? x
  | _, _ => False

namespace Innermost

variable {D : String → Prop} {s t u : EvalState}

theorem of_eq (hFrame : t.frame = s.frame) (hGlobals : t.session.globals = s.session.globals) :
    Innermost D s t := by
  rw [Innermost, hFrame, hGlobals]
  cases s.frame with
  | top => exact fun x _ => rfl
  | call locals captured => exact ⟨rfl, rfl, fun x _ => rfl⟩

theorem trans (h : Innermost D s t) (g : Innermost D t u) : Innermost D s u := by
  rw [Innermost] at h g ⊢
  cases hs : s.frame <;> cases ht : t.frame <;> cases hu : u.frame <;>
    simp only [hs, ht, hu] at h g ⊢
  · exact fun x hx => (g x hx).trans (h x hx)
  · obtain ⟨hCaptured, hGlobals, hLocals⟩ := h
    obtain ⟨gCaptured, gGlobals, gLocals⟩ := g
    exact ⟨gCaptured.trans hCaptured, gGlobals.trans hGlobals, fun x hx =>
      (gLocals x hx).trans (hLocals x hx)⟩

theorem mono {D' : String → Prop} (h : Innermost D s t) (hD : ∀ x, D x → D' x) :
    Innermost D' s t := by
  rw [Innermost] at h ⊢
  cases hs : s.frame <;> cases ht : t.frame <;> simp only [hs, ht] at h ⊢
  · exact fun x hx => h x fun hx' => hx (hD x hx')
  · exact ⟨h.1, h.2.1, fun x hx => h.2.2 x fun hx' => hx (hD x hx')⟩

theorem globals_of_call (h : Innermost D s t) {locals captured : Bindings Value}
    (hs : s.frame = .call locals captured) : t.session.globals = s.session.globals := by
  rw [Innermost, hs] at h
  cases ht : t.frame <;> simp only [ht] at h
  exact h.2.1

theorem frame_of_top (h : Innermost D s t) (hs : s.frame = .top) : t.frame = .top := by
  rw [Innermost, hs] at h
  cases ht : t.frame with
  | top => rfl
  | call locals captured => rw [ht] at h; exact h.elim

theorem frame_of_call (h : Innermost D s t) {locals captured : Bindings Value}
    (hs : s.frame = .call locals captured) :
    ∃ locals', t.frame = .call locals' captured ∧
      ∀ x, ¬ D x → locals'.find? x = locals.find? x := by
  rw [Innermost, hs] at h
  cases ht : t.frame with
  | top => rw [ht] at h; exact h.elim
  | call locals' captured' =>
    rw [ht] at h
    obtain ⟨rfl, -, hLocals⟩ := h
    exact ⟨locals', rfl, hLocals⟩

end Innermost

instance (D : String → Prop) : IsPreorder EvalState (Innermost D) where
  refl _ := Innermost.of_eq rfl rfl
  trans _ _ _ := Innermost.trans

namespace Eval

/-- What a definition does at top level. -/
theorem announce_define_top (name : String) (v : Value) (s : Session) :
    (do announce name v; EvalM.define name v : EvalM Unit) ⟨s, .top⟩ =
      .ok ⟨⟩ ⟨{ s with
        globals := s.globals.insert name v, events := .globalDefined name v :: s.events }, .top⟩ :=
  rfl

/-- What a definition does in a call. -/
theorem announce_define_call (name : String) (v : Value) (s : Session)
    (locals captured : Bindings Value) :
    (do announce name v; EvalM.define name v : EvalM Unit) ⟨s, .call locals captured⟩ =
      .ok ⟨⟩ ⟨s, .call (locals.insert name v) captured⟩ := rfl

theorem makeFunction_apply (params : List String) (body : List Node) (s : EvalState) :
    makeFunction params body s =
      let captured := s.frame.innermost s.session.globals
      .ok (.function ⟨s.session.nextId, params, body, captured⟩)
        { s with session := { s.session with
          nextId := s.session.nextId + 1
          events := .functionCreated s.session.nextId params.length captured.size ::
            s.session.events } } := rfl

theorem moves_innermost_define {D : String → Prop} {name : String} (hName : D name) (v : Value) :
    Moves (Innermost D) (do announce name v; EvalM.define name v) := by
  rintro ⟨s, frame⟩
  cases frame with
  | top =>
    rw [final_ok (announce_define_top name v s)]
    intro x hx
    rw [Bindings.find?_insert, if_neg]
    rintro rfl
    exact hx hName
  | call locals captured =>
    rw [final_ok (announce_define_call name v s locals captured)]
    refine ⟨rfl, rfl, fun x hx => ?_⟩
    rw [Bindings.find?_insert, if_neg]
    rintro rfl
    exact hx hName

/-- What a call may do: nothing but bookkeeping, whatever its body defines. -/
theorem moves_innermost_apply {ev : Evaluator} (D : String → Prop)
    (hEv : ∀ n, Moves (Innermost fun _ => True) (ev n)) (f : Closure Value) (args : List Value)
    (span : Span) : Moves (Innermost D) (apply ev f args span) := by
  refine moves_apply (fun s => Innermost.of_eq rfl rfl) (fun s cacheable => ?_) fun s key v => ?_
  · have hBody : Moves (Innermost fun _ => True) (inOrder ev .void f.body) :=
      moves_inOrder (fun n _ => hEv n) _
    exact Innermost.of_eq rfl
      ((hBody ⟨s.session.entered f cacheable, f.frame args⟩).globals_of_call rfl)
  · refine Innermost.of_eq rfl ?_
    cases key <;> rfl

/-- **Evaluating a node touches only the innermost bindings, and these only at names that the node
defines.** -/
theorem evaluateWithin_innermost (room : Nat) (n : Node) :
    Moves (Innermost (· ∈ n.defined)) (evaluateWithin room n) := by
  induction room generalizing n with
  | zero =>
    cases n with
    | atom a span => exact moves_atom a span
    | list items span => exact Moves.of_final_eq fun _ => rfl
  | succ room ih =>
    cases n with
    | atom a span => exact moves_atom a span
    | list items span =>
      refine moves_nested ?_ fun s t h => h
      refine moves_form (fun n hn s => ?_) (fun name hName v => ?_) (fun params body s => ?_)
        fun f args span => ?_
      · exact (ih n s).mono fun x hx => Node.mem_defined.2 (Or.inr ⟨n, hn, hx⟩)
      · exact moves_innermost_define (Node.mem_defined.2 (Or.inl hName)) v
      · rw [final_ok (makeFunction_apply params body s)]
        exact Innermost.of_eq rfl rfl
      · exact moves_innermost_apply _ (fun n s => (ih n s).mono fun x _ => trivial) f args span

end Eval

/-! ### The log of definitions -/

namespace Session

/-- How often a name has been defined at top level. -/
def definitionsOf (s : Session) (name : String) : Nat :=
  s.events.countP fun
    | .globalDefined other _ => other == name
    | _ => false

/-- Events are only added, and a global name keeps its value while none of them defines it. -/
def Logged (s t : Session) : Prop :=
  ∀ name, s.definitionsOf name ≤ t.definitionsOf name ∧
    (t.definitionsOf name = s.definitionsOf name → t.globals.find? name = s.globals.find? name)

namespace Logged

variable {s t u : Session}

theorem refl (s : Session) : Logged s s := fun _ => ⟨Nat.le_refl _, fun _ => rfl⟩

theorem trans (h : Logged s t) (g : Logged t u) : Logged s u := by
  intro name
  obtain ⟨hMore, hKept⟩ := h name
  obtain ⟨gMore, gKept⟩ := g name
  refine ⟨Nat.le_trans hMore gMore, fun hSame => ?_⟩
  rw [gKept (by omega), hKept (by omega)]

/-- Nothing is defined when the globals stay and the new event, if any, is another one. -/
theorem of_eq (hGlobals : t.globals = s.globals)
    (hEvents : ∀ name, t.definitionsOf name = s.definitionsOf name) : Logged s t := by
  intro name
  rw [hEvents, hGlobals]
  exact ⟨Nat.le_refl _, fun _ => rfl⟩

end Logged

end Session

instance : IsPreorder EvalState fun s t => s.session.Logged t.session where
  refl s := Session.Logged.refl s.session
  trans _ _ _ := Session.Logged.trans

instance : IsPreorder EvalState fun s t => s.session.events <:+ t.session.events where
  refl _ := List.suffix_rfl
  trans _ _ _ := List.IsSuffix.trans

namespace Eval

theorem moves_logged_define (name : String) (v : Value) :
    Moves (fun s t => s.session.Logged t.session) (do announce name v; EvalM.define name v) := by
  rintro ⟨s, frame⟩
  cases frame with
  | top =>
    rw [final_ok (announce_define_top name v s)]
    intro other
    by_cases hName : name = other
    · subst hName
      simp [Session.definitionsOf]
    · simp [Session.definitionsOf, Bindings.find?_insert, hName]
  | call locals captured =>
    rw [final_ok (announce_define_call name v s locals captured)]
    exact Session.Logged.refl s

/-- **A global name changes its value only by a definition that is reported.** -/
theorem evaluateWithin_logged (room : Nat) (n : Node) :
    Moves (fun s t => s.session.Logged t.session) (evaluateWithin room n) := by
  refine moves_evaluateWithin moves_logged_define (fun params body s => ?_)
    (fun ev hEv f args span => ?_) (fun s t h => h) room n
  · rw [final_ok (makeFunction_apply params body s)]
    exact Session.Logged.of_eq rfl fun _ => by simp [Session.definitionsOf]
  · refine moves_apply (fun s => ?_) (fun s cacheable => ?_) fun s key v => ?_
    · exact Session.Logged.of_eq rfl fun _ => by simp [Session.definitionsOf, Session.answered]
    · have hEntered : s.session.Logged (s.session.entered f cacheable) :=
        Session.Logged.of_eq rfl fun _ => by simp [Session.definitionsOf, Session.entered]
      exact hEntered.trans (moves_inOrder (fun n _ => hEv n) _
        ⟨s.session.entered f cacheable, f.frame args⟩)
    · exact Session.Logged.of_eq (by cases key <;> rfl) fun _ => by cases key <;> rfl

/-- **Events are only added.** -/
theorem evaluateWithin_events (room : Nat) (n : Node) :
    Moves (fun s t => s.session.events <:+ t.session.events) (evaluateWithin room n) := by
  refine moves_evaluateWithin (fun name v s => ?_) (fun params body s => ?_)
    (fun ev hEv f args span => ?_) (fun s t h => h) room n
  · obtain ⟨session, frame⟩ := s
    cases frame with
    | top =>
      rw [final_ok (announce_define_top name v session)]
      exact List.suffix_cons _ _
    | call locals captured =>
      have hEnd := final_ok (announce_define_call name v session locals captured)
      exact hEnd ▸ List.suffix_rfl
  · rw [final_ok (makeFunction_apply params body s)]
    exact List.suffix_cons _ _
  · refine moves_apply (fun s => List.suffix_cons _ _) (fun s cacheable => ?_) fun s key v => ?_
    · have hInside := moves_inOrder (fun n (_ : n ∈ f.body) => hEv n) .void
        ⟨s.session.entered f cacheable, f.frame args⟩
      exact (List.suffix_cons _ _).trans hInside
    · cases key <;> exact List.suffix_rfl

end Eval

/-! ### Counters -/

/-- The options and the depth are those of before, and nothing was counted backwards. -/
structure Session.Counted (s t : Session) : Prop where
  options : t.options = s.options
  depth : t.depth = s.depth
  calls : s.calls ≤ t.calls
  nextId : s.nextId ≤ t.nextId

theorem Session.Counted.trans {s t u : Session} (h : s.Counted t) (g : t.Counted u) :
    s.Counted u where
  options := g.options.trans h.options
  depth := g.depth.trans h.depth
  calls := Nat.le_trans h.calls g.calls
  nextId := Nat.le_trans h.nextId g.nextId

instance : IsPreorder EvalState fun s t => s.session.Counted t.session where
  refl _ := ⟨rfl, rfl, Nat.le_refl _, Nat.le_refl _⟩
  trans _ _ _ := Session.Counted.trans

namespace Eval

theorem moves_counted_define (name : String) (v : Value) :
    Moves (fun s t => s.session.Counted t.session) (do announce name v; EvalM.define name v) := by
  rintro ⟨session, frame⟩
  cases frame <;> exact ⟨rfl, rfl, Nat.le_refl _, Nat.le_refl _⟩

theorem moves_counted_makeFunction (params : List String) (body : List Node) :
    Moves (fun s t => s.session.Counted t.session) (makeFunction params body) := fun _ =>
  ⟨rfl, rfl, Nat.le_refl _, Nat.le_succ _⟩

/-- **Evaluation leaves the depth as it was and only counts upwards.** -/
theorem evaluateWithin_counted (room : Nat) (n : Node) :
    Moves (fun s t => s.session.Counted t.session) (evaluateWithin room n) := by
  refine moves_evaluateWithin moves_counted_define moves_counted_makeFunction
    (fun ev hEv f args span => ?_) (fun s t h => ?_) room n
  · refine moves_apply (fun s => ?_) (fun s cacheable => ?_) fun s key v => ?_
    · exact ⟨rfl, rfl, Nat.le_refl _, Nat.le_refl _⟩
    · have hEntered : s.session.Counted (s.session.entered f cacheable) :=
        ⟨rfl, rfl, Nat.le_succ _, Nat.le_refl _⟩
      exact hEntered.trans (moves_inOrder (fun n _ => hEv n) _
        ⟨s.session.entered f cacheable, f.frame args⟩)
    · cases key <;> exact ⟨rfl, rfl, Nat.le_refl _, Nat.le_refl _⟩
  · have hDepth : t.session.depth = s.session.depth + 1 := h.depth
    refine ⟨h.options, ?_, h.calls, h.nextId⟩
    show t.session.depth - 1 = s.session.depth
    omega

end Eval

end PostLisp

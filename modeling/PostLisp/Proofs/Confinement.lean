import PostLisp.Proofs.Recursion

/-!
# Definitions are confined

What a node may define can be read off its text, and nothing else in reach changes when it is
evaluated, whether the evaluation ends in a value or in an error (`evaluate_confined`).  The text
has to be read with one thing in mind: a clause of a condition is no form, so a clause whose value
is the symbol `lambda` makes no function, and what its condition defines is defined
(`clause_defines`).
-/

namespace PostLisp

namespace Node

/-- The name is the first operand of a list in the node that ends in `define` and stands outside
every list that ends in `lambda`.  If `clauses` holds, the clauses of a condition are looked into
whatever they end in. -/
inductive MayDefine (clauses : Prop) : Node → String → Prop
  | target {first : Node} {rest : List Node} {span : Span} {name : String}
      (hFirst : first.symbol? = some name) (hDefine : EndsWith rest SpecialForm.define.symbol) :
      MayDefine clauses (.list (first :: rest) span) name
  | item {items : List Node} {span : Span} {n : Node} {name : String} (hItem : n ∈ items)
      (hLambda : ¬ EndsWith items SpecialForm.lambda.symbol) (h : MayDefine clauses n name) :
      MayDefine clauses (.list items span) name
  | clause {items parts : List Node} {span span' : Span} {n : Node} {name : String}
      (hClauses : clauses) (hCond : EndsWith items SpecialForm.cond.symbol)
      (hClause : .list parts span' ∈ items) (hPart : n ∈ parts) (h : MayDefine clauses n name) :
      MayDefine clauses (.list items span) name

/-- The target of a definition is its first operand. -/
theorem mayDefine_of_target? {clauses : Prop} {items : List Node} {span : Span} {name : String}
    (h : target? items = some name) : MayDefine clauses (.list items span) name := by
  match items, h with
  | [target, value, operator], h =>
    rw [target?] at h
    split at h
    · rename_i hOperator
      exact .target h hOperator
    · cases h

mutual

/-- What evaluation may define is defined in the text. -/
theorem mayDefine_of_mem_defined {name : String} :
    (n : Node) → name ∈ n.defined → n.MayDefine True name
  | .atom _ _, h => by cases h
  | .list items span, h => by
    rw [defined] at h
    split at h
    · cases h
    · rename_i hWord
      have hLambda : ¬ EndsWith items SpecialForm.lambda.symbol := fun hEnds => hWord (Or.inl hEnds)
      split at h
      · rename_i hCond
        obtain ⟨parts, span', hClause, n, hPart, hName⟩ := mayDefine_of_mem_definedClauses items h
        exact .clause trivial hCond hClause hPart hName
      · rcases List.mem_append.1 h with hTarget | hInside
        · exact mayDefine_of_target? (by simpa using hTarget)
        · obtain ⟨n, hItem, hName⟩ := mayDefine_of_mem_definedAll items hInside
          exact .item hItem hLambda hName

theorem mayDefine_of_mem_definedAll {name : String} :
    (ns : List Node) → name ∈ definedAll ns → ∃ n ∈ ns, n.MayDefine True name
  | [], h => by cases h
  | n :: ns, h => by
    rcases List.mem_append.1 h with hHead | hTail
    · exact ⟨n, List.mem_cons_self, mayDefine_of_mem_defined n hHead⟩
    · obtain ⟨m, hItem, hName⟩ := mayDefine_of_mem_definedAll ns hTail
      exact ⟨m, List.mem_cons_of_mem n hItem, hName⟩

theorem mayDefine_of_mem_definedClauses {name : String} :
    (clauses : List Node) → name ∈ definedClauses clauses →
      ∃ parts span, .list parts span ∈ clauses ∧ ∃ n ∈ parts, n.MayDefine True name
  | [], h => by cases h
  | .atom a span :: clauses, h => by
    obtain ⟨parts, span', hClause, hRest⟩ := mayDefine_of_mem_definedClauses clauses h
    exact ⟨parts, span', List.mem_cons_of_mem _ hClause, hRest⟩
  | .list parts span :: clauses, h => by
    rcases List.mem_append.1 h with hHead | hTail
    · exact ⟨parts, span, List.mem_cons_self, mayDefine_of_mem_definedAll parts hHead⟩
    · obtain ⟨parts', span', hClause, hRest⟩ := mayDefine_of_mem_definedClauses clauses hTail
      exact ⟨parts', span', List.mem_cons_of_mem _ hClause, hRest⟩

end

end Node

instance : IsPreorder EvalState fun s t => t.session.globals = s.session.globals where
  refl _ := rfl
  trans _ _ _ h g := g.trans h

namespace Session

open EvalM

/-- Evaluation in a session touches only the innermost bindings, and these only at names that the
text of the node defines. -/
theorem evaluate_innermost (s : Session) (frame : Frame) (n : Node) :
    Innermost (n.MayDefine True) ⟨s, frame⟩ (s.evaluate frame n).2 := by
  have hMoves := Eval.evaluateWithin_innermost s.room n ⟨s, frame⟩
  rw [evaluate, session_perform]
  exact hMoves.mono fun name hName => Node.mayDefine_of_mem_defined n hName

/-- Calling a function leaves the globals alone. -/
theorem globals_apply (s : Session) (f : Closure Value) (args : List Value) (span : Span) :
    (s.apply f args span).2.globals = s.globals := by
  have hNode : ∀ n, Moves (Innermost fun _ => True) (Eval.evaluate n) := by
    intro n t
    have hInnermost := Eval.evaluateWithin_innermost t.session.room n t
    exact hInnermost.mono fun _ _ => trivial
  have hBody := Eval.moves_inOrder (fun n (_ : n ∈ f.body) => hNode n) .void
  have hCall : Moves (fun s t => t.session.globals = s.session.globals)
      (Eval.apply Eval.evaluate f args span) := by
    refine Eval.moves_apply (fun t => rfl) (fun t cacheable => ?_) fun t key v => ?_
    · have hRun := hBody ⟨t.session.entered f cacheable, f.frame args⟩
      exact hRun.globals_of_call rfl
    · cases key <;> rfl
  show (s.perform .top _).2.session.globals = s.globals
  rw [session_perform]
  exact hCall ⟨s, .top⟩

/-- **Definitions are confined.**  In a call, evaluating a node leaves the globals and the captured
bindings alone, and changes the locals only at names that the text of the node defines; at top
level it changes the globals only at such names.  A call changes no global at all. -/
theorem evaluate_confined (s : Session) (n : Node) :
    (∀ locals captured : Bindings Value,
      (s.evaluate (.call locals captured) n).2.session.globals = s.globals ∧
      ∃ locals', (s.evaluate (.call locals captured) n).2.frame = .call locals' captured ∧
        ∀ name, locals'.find? name ≠ locals.find? name → n.MayDefine True name) ∧
    ((s.evaluate .top n).2.frame = .top ∧
      ∀ name, (s.evaluate .top n).2.session.globals.find? name ≠ s.globals.find? name →
        n.MayDefine True name) ∧
    ∀ (f : Closure Value) (args : List Value) (span : Span),
      (s.apply f args span).2.globals = s.globals := by
  refine ⟨fun locals captured => ?_, ⟨?_, fun name hChanged => ?_⟩, s.globals_apply⟩
  · have hInnermost := s.evaluate_innermost (.call locals captured) n
    obtain ⟨locals', hFrame, hLocals⟩ := hInnermost.frame_of_call rfl
    refine ⟨hInnermost.globals_of_call rfl, locals', hFrame, fun name hChanged => ?_⟩
    exact Classical.byContradiction fun hName => hChanged (hLocals name hName)
  · exact (s.evaluate_innermost .top n).frame_of_top rfl
  · have hInnermost := s.evaluate_innermost .top n
    have hFrame := hInnermost.frame_of_top rfl
    rw [Innermost, hFrame] at hInnermost
    exact Classical.byContradiction fun hName => hChanged (hInnermost name hName)

/-- **A clause that ends in `lambda` defines what its condition defines.**  In the condition
`(((x 1 define) lambda) cond)` the only definition stands inside a list that ends in `lambda`, and
yet it is made. -/
theorem clause_defines :
    let word (name : String) : Node := .atom (.symbol name) .origin
    let definition : Node := .list [word "x", .atom (.int 1) .origin, word "define"] .origin
    let n : Node := .list [.list [definition, word "lambda"] .origin, word "cond"] .origin
    let s := Session.new .standard
    ¬ n.MayDefine False "x" ∧ s.globals.find? "x" = none ∧
      (s.evaluate .top n).2.session.globals.find? "x" = some (.integer 1) := by
  intro word definition n s
  have hAtom : ∀ name : String, ¬ (word name).MayDefine False "x" := by
    rintro name ⟨⟩
  have hClause : ¬ (Node.list [definition, word "lambda"] .origin).MayDefine False "x" := by
    rintro (⟨hFirst, -⟩ | ⟨hPart, hNoLambda, -⟩ | ⟨hClauses, -⟩)
    · cases hFirst
    · exact hNoLambda (by decide)
    · exact hClauses
  have hCondition : ¬ (Node.list [.list [definition, word "lambda"] .origin, word "cond"]
      .origin).MayDefine False "x" := by
    rintro (⟨hFirst, -⟩ | ⟨hItem, -, hInside⟩ | ⟨hClauses, -⟩)
    · cases hFirst
    · rw [List.mem_cons, List.mem_singleton] at hItem
      rcases hItem with rfl | rfl
      · exact hClause hInside
      · exact hAtom "cond" hInside
    · exact hClauses
  exact ⟨hCondition, rfl, rfl⟩

end Session

end PostLisp

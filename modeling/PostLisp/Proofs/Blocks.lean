import Mathlib.Data.List.Perm.Basic
import PostLisp.Proofs.Reading
import PostLisp.Proofs.Recursion

/-!
# Blocks of definitions

A program may be a block of nodes each of which defines a function at top level.  Running a block
changes nothing but the globals at the names that are defined and the counter of functions, and all
functions of the block see one another: each has captured the ones before it, and finds the ones
behind it among the globals (`Session.captured_definingAll`).
-/

namespace PostLisp

open Eval EvalM

/-- A function and the name that it is defined under. -/
structure Definition where
  name : String
  params : List String
  body : List Node

/-- The definitions are the same but for where they stand in the text. -/
structure Definition.SameShape (d d' : Definition) : Prop where
  name : d.name = d'.name
  params : d.params = d'.params
  body : Node.SameShapes d.body d'.body

namespace Definition

variable {ds ds' : List Definition}

theorem names_eq (h : List.Forall₂ SameShape ds ds') : ds.map (·.name) = ds'.map (·.name) := by
  induction h with
  | nil => rfl
  | cons head _ ih => rw [List.map_cons, List.map_cons, head.name, ih]

theorem exists_sameShape (h : List.Forall₂ SameShape ds ds') {d : Definition} (hMem : d ∈ ds) :
    ∃ d' ∈ ds', d.SameShape d' := by
  induction h with
  | nil => cases hMem
  | cons head _ ih =>
    rcases List.mem_cons.1 hMem with rfl | hRest
    · exact ⟨_, List.mem_cons_self, head⟩
    · obtain ⟨d', hMem', hSame⟩ := ih hRest
      exact ⟨d', List.mem_cons_of_mem _ hMem', hSame⟩

end Definition

namespace Node

/-- The definition of a function that a node spells, if it is written well. -/
def definition? : Node → Option Definition
  | .list [target, L, operator] _ =>
    if operator.symbol? = some SpecialForm.define.symbol then
      match target.symbol?, L.lambda? with
      | some name, some (params, body) => some ⟨name, params, body⟩
      | _, _ => none
    else none
  | _ => none

/-- The definitions that the nodes spell. -/
def definitions (ns : List Node) : List Definition := ns.filterMap definition?

theorem definitions_cons {n : Node} {d : Definition} (h : n.definition? = some d) (ns : List Node) :
    definitions (n :: ns) = d :: definitions ns :=
  List.filterMap_cons_some h

theorem eq_list_of_definition? {n : Node} {d : Definition} (h : n.definition? = some d) :
    ∃ target L operator span, n = .list [target, L, operator] span ∧
      target.symbol? = some d.name ∧ operator.symbol? = some SpecialForm.define.symbol ∧
      L.lambda? = some (d.params, d.body) := by
  unfold definition? at h
  split at h
  · rename_i target L operator span
    split at h
    · rename_i hOperator
      split at h
      · rename_i name params body hTarget hLambda
        cases h
        exact ⟨target, L, operator, span, rfl, hTarget, hOperator, hLambda⟩
      · cases h
    · cases h
  · cases h

variable {floats : Prop} {spans : Span → Span → Prop}

theorem LikeAll.mapM_symbol? {ns ms : List Node} (h : LikeAll floats spans ns ms) :
    ns.mapM symbol? = ms.mapM symbol? := by
  induction ns generalizing ms with
  | nil =>
    cases h
    rfl
  | cons n ns ih =>
    cases h with
    | cons head tail => rw [List.mapM_cons, List.mapM_cons, head.symbol?_eq, ih tail]

/-- Alike nodes spell functions with the same parameters and alike bodies. -/
theorem Like.lambda? {n m : Node} (h : Like floats spans n m) {params : List String}
    {body : List Node} (hLambda : n.lambda? = some (params, body)) :
    ∃ body', m.lambda? = some (params, body') ∧ LikeAll floats spans body body' := by
  cases h with
  | atom => cases hLambda
  | @list items items' span span' hDivide hItems hSpan =>
    rcases List.eq_nil_or_concat items with rfl | ⟨operands, operator, rfl⟩
    · cases hLambda
    rw [List.concat_eq_append] at *
    obtain ⟨operands', operator', rfl, hOperands, hOperator⟩ := hItems.concat_inv
    have hWords : EndsWith (operands ++ [operator]) SpecialForm.lambda.symbol ↔
        EndsWith (operands' ++ [operator']) SpecialForm.lambda.symbol := by
      rw [endsWith_concat, endsWith_concat, hOperator.symbol?_eq]
    rw [Node.lambda?, List.dropLast_concat] at *
    split at hLambda
    · rename_i hWord
      rw [if_pos (hWords.1 hWord)]
      cases hOperands with
      | nil => cases hLambda
      | cons head tail =>
        cases tail with
        | nil => cases head <;> cases hLambda
        | cons next rest =>
          cases head with
          | atom => cases hLambda
          | list _ hParams _ =>
            obtain ⟨names, hNames, hBoth⟩ := Option.map_eq_some_iff.1 hLambda
            cases hBoth
            rw [hParams.mapM_symbol?] at hNames
            exact ⟨_, by simp only [hNames, Option.map_some], .cons next rest⟩
    · cases hLambda

/-- Nodes of the same shape spell definitions of the same shape. -/
theorem Like.definition? {n m : Node} (h : Like True (fun _ _ => True) n m) {d : Definition}
    (hDefinition : n.definition? = some d) : ∃ d', m.definition? = some d' ∧ d.SameShape d' := by
  obtain ⟨target, L, operator, span, rfl, hTarget, hOperator, hLambda⟩ :=
    eq_list_of_definition? hDefinition
  cases h with
  | list _ hItems _ =>
    cases hItems with
    | cons hLeft hItems =>
      cases hItems with
      | cons hMiddle hItems =>
        cases hItems with
        | cons hRight hItems =>
          cases hItems
          obtain ⟨body', hLambda', hBody⟩ := hMiddle.lambda? hLambda
          rw [hLeft.symbol?_eq] at hTarget
          rw [hRight.symbol?_eq] at hOperator
          refine ⟨⟨d.name, d.params, body'⟩, ?_, rfl, rfl, hBody⟩
          rw [Node.definition?, if_pos hOperator, hTarget, hLambda']

theorem LikeAll.definitions {ns ms : List Node} (h : LikeAll True (fun _ _ => True) ns ms)
    (hBlock : ∀ n ∈ ns, n.definition?.isSome) :
    (∀ m ∈ ms, m.definition?.isSome) ∧
      List.Forall₂ Definition.SameShape (definitions ns) (definitions ms) := by
  induction ns generalizing ms with
  | nil =>
    cases h
    exact ⟨by simp, .nil⟩
  | cons n ns ih =>
    obtain ⟨hFirst, hBlock⟩ := List.forall_mem_cons.1 hBlock
    obtain ⟨d, hFirst⟩ := Option.isSome_iff_exists.1 hFirst
    cases h with
    | cons head tail =>
      obtain ⟨d', hFirst', hSame⟩ := head.definition? hFirst
      obtain ⟨hRest, hAll⟩ := ih tail hBlock
      refine ⟨List.forall_mem_cons.2 ⟨by rw [hFirst']; rfl, hRest⟩, ?_⟩
      rw [definitions_cons hFirst, definitions_cons hFirst']
      exact .cons hSame hAll

end Node

namespace Session

/-- The session after all of the definitions. -/
def definingAll (s : Session) (ds : List Definition) : Session :=
  ds.foldl (fun s d => s.defining d.name d.params d.body) s

/-! ### Running a block -/

theorem inOrder_definitions {block : List Node} (hBlock : ∀ n ∈ block, n.definition?.isSome)
    {s : Session} (hRoom : block ≠ [] → 2 ≤ s.room) :
    inOrder Eval.evaluate .void block ⟨s, .top⟩ =
      .ok .void ⟨s.definingAll (Node.definitions block), .top⟩ := by
  induction block generalizing s with
  | nil => rfl
  | cons n block ih =>
    obtain ⟨hFirst, hRest⟩ := List.forall_mem_cons.1 hBlock
    obtain ⟨d, hFirst⟩ := Option.isSome_iff_exists.1 hFirst
    obtain ⟨target, L, operator, span, rfl, hTarget, hOperator, hLambda⟩ :=
      Node.eq_list_of_definition? hFirst
    have hRoom := hRoom (List.cons_ne_nil _ _)
    obtain ⟨room, hSpare⟩ := Nat.exists_eq_add_of_le' hRoom
    have hRun : Eval.evaluate (.list [target, L, operator] span) ⟨s, .top⟩ =
        .ok .void ⟨s.defining d.name d.params d.body, .top⟩ := by
      rw [Eval.evaluate, show (EvalState.mk s .top).session.room = room + 2 from hSpare]
      exact evaluateWithin_definition_room hTarget hOperator hLambda room
    rw [inOrder, bind_ok hRun, Node.definitions_cons hFirst]
    exact ih hRest fun _ => hRoom

/-- **A block of definitions succeeds** if two list forms may be nested. -/
theorem run_definitions {block : List Node} (hBlock : ∀ n ∈ block, n.definition?.isSome)
    {s : Session} (hRoom : block ≠ [] → 2 ≤ s.room) :
    s.run block = (.ok .void, s.definingAll (Node.definitions block)) := by
  rw [run, perform, inOrder_definitions hBlock hRoom]

theorem room_of_run {block : List Node} (hBlock : ∀ n ∈ block, n.definition?.isSome) {s : Session}
    {v : Value} (hRun : (s.run block).1 = .ok v) : block ≠ [] → 2 ≤ s.room := by
  intro hSome
  obtain ⟨n, rest, rfl⟩ := List.exists_cons_of_ne_nil hSome
  obtain ⟨d, hFirst⟩ := Option.isSome_iff_exists.1 (hBlock n List.mem_cons_self)
  obtain ⟨target, L, operator, span, rfl, hTarget, hOperator, hLambda⟩ :=
    Node.eq_list_of_definition? hFirst
  rw [run, perform, inOrder] at hRun
  cases hNode : Eval.evaluate (.list [target, L, operator] span) ⟨s, .top⟩ with
  | ok x t => exact room_of_definition hTarget hOperator hLambda hNode
  | error e t =>
    rw [bind_error hNode] at hRun
    cases hRun

/-! ### The session after a block -/

theorem definingAll_cons (s : Session) (d : Definition) (ds : List Definition) :
    s.definingAll (d :: ds) = (s.defining d.name d.params d.body).definingAll ds := rfl

/-- What a block leaves alone. -/
theorem definingAll_keeps (s : Session) (ds : List Definition) :
    (s.definingAll ds).options = s.options ∧ (s.definingAll ds).depth = s.depth ∧
      (s.definingAll ds).calls = s.calls ∧ (s.definingAll ds).cache = s.cache ∧
      (s.definingAll ds).nextId = s.nextId + ds.length := by
  induction ds generalizing s with
  | nil => exact ⟨rfl, rfl, rfl, rfl, rfl⟩
  | cons d ds ih =>
    obtain ⟨hOptions, hDepth, hCalls, hCache, hNext⟩ := ih (s.defining d.name d.params d.body)
    rw [definingAll_cons]
    refine ⟨hOptions, hDepth, hCalls, hCache, hNext.trans ?_⟩
    show s.nextId + 1 + ds.length = s.nextId + (ds.length + 1)
    omega

theorem find?_definingAll_of_notMem {s : Session} {ds : List Definition} {name : String}
    (hName : name ∉ ds.map (·.name)) :
    (s.definingAll ds).globals.find? name = s.globals.find? name := by
  induction ds generalizing s with
  | nil => rfl
  | cons d ds ih =>
    obtain ⟨hFirst, hRest⟩ := not_or.1 (mt List.mem_cons.2 hName)
    rw [definingAll_cons, ih hRest]
    show (s.globals.insert d.name _).find? name = _
    rw [Bindings.find?_insert, if_neg (Ne.symm hFirst)]

/-- The function that a definition of a block has made: its identity tells the place in the block,
and what it has captured are globals from before the block and functions of the block. -/
structure MadeBy (s : Session) (ds : List Definition) (d : Definition) (f : Closure Value) :
    Prop where
  bound : (s.definingAll ds).globals.find? d.name = some (.function f)
  id : f.id = s.nextId + (ds.map (·.name)).idxOf d.name
  params : f.params = d.params
  body : f.body = d.body
  captured : ∀ name, f.captured.find? name = s.globals.find? name ∨
    name ∈ ds.map (·.name) ∧ f.captured.find? name = (s.definingAll ds).globals.find? name

/-- **Every definition of a block has made its function**, if the names are told apart. -/
theorem exists_madeBy {s : Session} {ds : List Definition} (hNames : (ds.map (·.name)).Nodup)
    {d : Definition} (hMem : d ∈ ds) : ∃ f, s.MadeBy ds d f := by
  induction ds generalizing s with
  | nil => cases hMem
  | cons first ds ih =>
    obtain ⟨hFirst, hNames⟩ := List.nodup_cons.1 hNames
    let next := s.defining first.name first.params first.body
    have hBound : (next.definingAll ds).globals.find? first.name =
        some (.function (s.newFunction first.params first.body)) := by
      rw [find?_definingAll_of_notMem hFirst]
      show (s.globals.insert first.name _).find? first.name = _
      rw [Bindings.find?_insert, if_pos rfl]
    rcases List.mem_cons.1 hMem with rfl | hRest
    · exact ⟨s.newFunction d.params d.body, hBound, by simp [newFunction], rfl, rfl,
        fun name => Or.inl rfl⟩
    · obtain ⟨f, hf⟩ := ih hNames (s := next) hRest
      have hOther : first.name ≠ d.name := by
        rintro hSame
        refine hFirst (List.mem_map.2 ⟨d, hRest, hSame.symm⟩)
      refine ⟨f, hf.bound, ?_, hf.params, hf.body, fun name => ?_⟩
      · rw [hf.id, List.map_cons, List.idxOf_cons_ne _ hOther]
        show s.nextId + 1 + _ = _
        omega
      · rcases hf.captured name with hBefore | ⟨hName, hAfter⟩
        · by_cases hSame : first.name = name
          · subst hSame
            refine Or.inr ⟨List.mem_cons_self, ?_⟩
            rw [definingAll_cons, hBound, hBefore]
            show (s.globals.insert first.name _).find? first.name = _
            rw [Bindings.find?_insert, if_pos rfl]
          · refine Or.inl (hBefore.trans ?_)
            show (s.globals.insert first.name _).find? name = _
            rw [Bindings.find?_insert, if_neg hSame]
        · exact Or.inr ⟨List.mem_cons_of_mem _ hName, hAfter⟩

end Session

end PostLisp

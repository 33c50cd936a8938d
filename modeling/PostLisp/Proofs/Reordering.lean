import Mathlib.Logic.Equiv.Basic
import PostLisp.Proofs.Blocks
import PostLisp.Proofs.Identity
import PostLisp.Proofs.Nearness

/-!
# The order of definitions

A block of definitions may be given in another order.  Its functions then get other identities, and
have captured other ones of each other; but what a function has not captured it finds among the
globals, and as long as the names of the block are not defined again this is the same function.
`Reordering.states` compares two sessions that differ in this way: identities are renamed, and it
is left open where a function of the block is found.  Nothing that a program can observe tells the
two apart.
-/

namespace PostLisp

open Eval EvalM

namespace Eval

/-- Whether one of the names is about to be defined at top level. -/
def rebinds (names : List String) : Nat → Node → EvalState → Bool
  | room + 1, .list [target, expression, operator] _, s =>
    match Node.target? [target, expression, operator],
      evaluateWithin room expression s.enterForm with
    | some name, .ok _ t => t.frame.isTop && names.contains name
    | _, _ => false
  | _, _, _ => false

theorem notMem_of_quiet {names : List String} {room : Nat} {span : Span} {name : String}
    {target expression operator : Node} {s t : EvalState} {v : Value}
    (hTarget : Node.target? [target, expression, operator] = some name)
    (hQuiet : rebinds names (room + 1) (.list [target, expression, operator] span) s = false)
    (hRun : evaluateWithin room expression s.enterForm = .ok v t) (hTop : t.frame.isTop = true) :
    name ∉ names := by
  rw [rebinds] at hQuiet
  simp only [hTarget, hRun, hTop, Bool.true_and] at hQuiet
  simpa using hQuiet

end Eval

/-! ### Renaming functions -/

/-- Where an identity goes when those from `base` on, which belong to these names in this order, are
given to the names in another order. -/
def movedId (base : Nat) (names names' : List String) (i : Nat) : Nat :=
  if i < base then i
  else
    match names[i - base]? with
    | some name => base + names'.idxOf name
    | none => i

section

variable {base : Nat} {names names' : List String}

theorem movedId_of_lt {i : Nat} (h : i < base) : movedId base names names' i = i := if_pos h

theorem movedId_of_length_le {i : Nat} (h : base + names.length ≤ i) :
    movedId base names names' i = i := by
  rw [movedId, if_neg (by omega), List.getElem?_eq_none (by omega)]

theorem movedId_idxOf {name : String} (h : name ∈ names) :
    movedId base names names' (base + names.idxOf name) = base + names'.idxOf name := by
  have hPlace : names[names.idxOf name]? = some name := List.getElem?_idxOf h
  rw [movedId, if_neg (by omega), Nat.add_sub_cancel_left, hPlace]

theorem movedId_movedId (hPerm : names.Perm names') (hNames : names.Nodup) (i : Nat) :
    movedId base names' names (movedId base names names' i) = i := by
  by_cases hOld : i < base
  · rw [movedId_of_lt hOld, movedId_of_lt hOld]
  by_cases hNew : base + names.length ≤ i
  · rw [movedId_of_length_le hNew, movedId_of_length_le (by rw [← hPerm.length_eq]; exact hNew)]
  obtain ⟨k, rfl⟩ := Nat.exists_eq_add_of_le (Nat.le_of_not_lt hOld)
  have hk : k < names.length := by omega
  have hPlace : names.idxOf names[k] = k := hNames.idxOf_getElem k hk
  have hMem : names[k] ∈ names := List.getElem_mem hk
  rw [← hPlace, movedId_idxOf hMem, movedId_idxOf (hPerm.mem_iff.1 hMem)]

/-- The renaming of the identities of a block that is put into another order. -/
def reorderIds (base : Nat) (hPerm : names.Perm names') (hNames : names.Nodup) : Equiv.Perm Nat where
  toFun := movedId base names names'
  invFun := movedId base names' names
  left_inv := movedId_movedId hPerm hNames
  right_inv := movedId_movedId hPerm.symm (hPerm.nodup_iff.1 hNames)

end

/-- The key of the same call in a session that has renamed its functions. -/
def CallKey.renamed (rename : Equiv.Perm Nat) (key : CallKey) : CallKey :=
  ⟨rename key.function, key.args⟩

theorem CallKey.renamed_inj {rename : Equiv.Perm Nat} {key other : CallKey} :
    key.renamed rename = other.renamed rename ↔ key = other := by
  cases key
  cases other
  simp [renamed]

/-- The second function is the first one under its new identity. -/
structure Closure.Renamed (rename : Equiv.Perm Nat) (f g : Closure Value) : Prop where
  id : g.id = rename f.id
  params : f.params = g.params
  body : Node.SameShapes f.body g.body

/-- The values are the same number. -/
def Value.SameNumber (v w : Value) : Prop := v = w ∧ v.number?.isSome

theorem Value.numeric_sameNumber : Value.Numeric Value.SameNumber where
  left h := h.2
  right h := h.1 ▸ h.2
  refl h := ⟨rfl, h⟩

/-! ### Sessions that correspond -/

/-- Names of functions that may be found in different places, and what they mean in two sessions. -/
structure Reordering where
  rename : Equiv.Perm Nat
  names : List String
  bound : String → Option Value
  bound' : String → Option Value

namespace Reordering

section

variable (R : Reordering)

/-- A name of the block may have been captured or not, with the meaning that it keeps. -/
def Exempt (name : String) (r r' : Option Value) : Prop :=
  name ∈ R.names ∧ (r = none ∨ r = R.bound name) ∧ (r' = none ∨ r' = R.bound' name)

abbrev Values : Value → Value → Prop :=
  Value.Near Value.SameNumber (Closure.Renamed R.rename) R.Exempt

/-- The states are the same but for what functions of the block are called and where they are
found. -/
structure States (s s' : EvalState) : Prop where
  options : s'.session.options = s.session.options
  depth : s'.session.depth = s.session.depth
  calls : s'.session.calls = s.session.calls
  nextId : s'.session.nextId = s.session.nextId
  fresh : ∀ i, s.session.nextId ≤ i → R.rename i = i
  globals : s.session.globals.Near Value.SameNumber (Closure.Renamed R.rename) R.Exempt
    s'.session.globals
  kept : ∀ name ∈ R.names, s.session.globals.find? name = R.bound name
  kept' : ∀ name ∈ R.names, s'.session.globals.find? name = R.bound' name
  frame : s.frame.Near Value.SameNumber (Closure.Renamed R.rename) R.Exempt s'.frame
  cache : ∀ key, Value.NearOption Value.SameNumber (Closure.Renamed R.rename) R.Exempt
    (s.session.cache.find? key) (s'.session.cache.find? (key.renamed R.rename))
  size : s'.session.cache.size = s.session.cache.size

/-- Sessions that correspond, as long as no name of the block is defined again. -/
def comparison (e : EvalError) : Comparison Still where
  floats := True
  spans _ _ := True
  states _ := R.States
  rooms := Eq
  watch := ⟨rebinds R.names, e⟩
  pardoned x := x = e
  pardoned' _ := False

end

variable {R : Reordering} {e : EvalError} {w : Still} {s s' t t' : EvalState}

namespace States

/-- Whichever way a function of the block is found, it is the same one. -/
theorem lookup (h : R.States s s') (name : String) :
    Value.NearOption Value.SameNumber (Closure.Renamed R.rename) R.Exempt
      (s.frame.lookup s.session.globals name) (s'.frame.lookup s'.session.globals name) := by
  refine h.frame.lookup h.globals (fun name r r' ⟨hName, hLeft, hRight⟩ => ?_) name
  have hFound : (r <|> s.session.globals.find? name) = R.bound name := by
    rw [h.kept name hName]
    rcases hLeft with rfl | rfl
    · rfl
    · cases R.bound name <;> rfl
  have hFound' : (r' <|> s'.session.globals.find? name) = R.bound' name := by
    rw [h.kept' name hName]
    rcases hRight with rfl | rfl
    · rfl
    · cases R.bound' name <;> rfl
  rw [hFound, hFound', ← h.kept name hName, ← h.kept' name hName]
  exact h.globals name

/-- Keys of calls correspond. -/
theorem keyOf (h : R.States s s') {f f' : Closure Value} {args args' : List Value}
    (hFunction : f.Renamed R.rename f') (hArgs : List.Forall₂ R.Values args args') :
    s'.session.keyOf f' args' = (s.session.keyOf f args).map (CallKey.renamed R.rename) := by
  have hKeys : ArgKey.ofValues? args = ArgKey.ofValues? args' :=
    Value.NearAll.keys_eq (fun _ _ h => congrArg _ h.1) (.of_forall₂ hArgs)
  rw [Session.keyOf, Session.keyOf, h.options, CallKey.of?, CallKey.of?, ← hKeys, hFunction.id]
  split
  · rw [Option.map_map]
    rfl
  · rfl

theorem enterForm (h : R.States s s') : R.States s.enterForm s'.enterForm :=
  { h with depth := congrArg (· + 1) h.depth }

theorem leaveForm (h : R.States s s') : R.States s.leaveForm s'.leaveForm :=
  { h with depth := congrArg (· - 1) h.depth }

theorem define_top {session session' : Session} (h : R.States ⟨session, .top⟩ ⟨session', .top⟩)
    {name : String} (hName : name ∉ R.names) {v v' : Value} (hValue : R.Values v v') :
    R.States
      ⟨{ session with
        globals := session.globals.insert name v
        events := .globalDefined name v :: session.events }, .top⟩
      ⟨{ session' with
        globals := session'.globals.insert name v'
        events := .globalDefined name v' :: session'.events }, .top⟩ where
  options := h.options
  depth := h.depth
  calls := h.calls
  nextId := h.nextId
  fresh := h.fresh
  globals := h.globals.insert name hValue
  kept other hOther := by
    show (session.globals.insert name v).find? other = _
    rw [Bindings.find?_insert, if_neg (ne_of_mem_of_not_mem hOther hName).symm]
    exact h.kept other hOther
  kept' other hOther := by
    show (session'.globals.insert name v').find? other = _
    rw [Bindings.find?_insert, if_neg (ne_of_mem_of_not_mem hOther hName).symm]
    exact h.kept' other hOther
  frame := trivial
  cache := h.cache
  size := h.size

/-- A new function gets the same identity in both sessions. -/
theorem made (h : R.States s s') (arity captured captured' : Nat) :
    R.States
      { s with session := { s.session with
        nextId := s.session.nextId + 1
        events := .functionCreated s.session.nextId arity captured :: s.session.events } }
      { s' with session := { s'.session with
        nextId := s'.session.nextId + 1
        events := .functionCreated s'.session.nextId arity captured' :: s'.session.events } } :=
  { h with
    nextId := congrArg (· + 1) h.nextId
    fresh := fun i hi => h.fresh i (Nat.le_of_succ_le hi) }

theorem entered (h : R.States s s') {f f' : Closure Value} {args args' : List Value}
    (hFunction : R.Values (.function f) (.function f'))
    (hArgs : List.Forall₂ R.Values args args') (cacheable cacheable' : Bool) :
    R.States ⟨s.session.entered f cacheable, f.frame args⟩
      ⟨s'.session.entered f' cacheable', f'.frame args'⟩ := by
  obtain ⟨hSame, hCaptured⟩ := hFunction.function_inv Value.numeric_sameNumber
  exact { h with
    calls := congrArg (· + 1) h.calls
    frame := Frame.near_closure hSame.params hCaptured hArgs }

theorem inFrame (h : R.States t t') {frame frame' : Frame}
    (hFrame : frame.Near Value.SameNumber (Closure.Renamed R.rename) R.Exempt frame') :
    R.States ⟨t.session, frame⟩ ⟨t'.session, frame'⟩ :=
  { h with frame := hFrame }

/-- Remembered results correspond, and are as many. -/
theorem returned (h : R.States s s') (key : Option CallKey) {v v' : Value} (hValue : R.Values v v') :
    R.States { s with session := s.session.returned key v }
      { s' with session := s'.session.returned (key.map (CallKey.renamed R.rename)) v' } := by
  cases key with
  | none => exact h
  | some k =>
    refine { h with cache := fun other => ?_, size := ?_ }
    · show Value.NearOption _ _ _ ((s.session.cache.insert k v).find? other)
        ((s'.session.cache.insert (k.renamed R.rename) v').find? (other.renamed R.rename))
      rw [Cache.find?_insert, Cache.find?_insert]
      by_cases hKey : k = other
      · rw [if_pos hKey, if_pos (congrArg _ hKey)]
        exact .some hValue
      · rw [if_neg hKey, if_neg (mt CallKey.renamed_inj.1 hKey)]
        exact h.cache other
    · have hCached := h.cache k
      show (s'.session.cache.insert (k.renamed R.rename) v').size = (s.session.cache.insert k v).size
      rw [Cache.size_insert, Cache.size_insert, h.size]
      generalize s.session.cache.find? k = r at hCached
      generalize s'.session.cache.find? (k.renamed R.rename) = r' at hCached
      cases hCached <;> rfl

end States

/-! ### Steps -/

theorem kindsKept : (R.comparison e).KindsKept Value.SameNumber := fun _ _ h =>
  Or.inl (congrArg Value.kind h.1)

/-- The same numbers are combined to the same number, or to the same error. -/
theorem results_combine {op : ArithOp} {v v' x x' : Value} (h : R.Values v v')
    (hNext : R.Values x x') :
    (R.comparison e).Results R.Values (Arith.combine op v x) (Arith.combine op v' x') := by
  refine Comparison.results_combine Value.numeric_sameNumber.toBetweenNumbers
    (fun hSame hSame' => ?_) h hNext
  obtain ⟨rfl, hNumber⟩ := hSame
  obtain ⟨rfl, hNumber'⟩ := hSame'
  cases hResult : Arith.combine op v x with
  | error f => exact .error f
  | ok u => exact .ok (.number ⟨rfl, Arith.number?_of_combine hNumber hNumber' hResult⟩)

theorem outcome_define {name : String} {v v' : Value} (hTop : s.frame.isTop = true → name ∉ R.names)
    (hValue : R.Values v v') (h : R.States s s') :
    (R.comparison e).Outcome w (fun _ _ _ => True)
      ((do announce name v; EvalM.define name v : EvalM Unit) s)
      ((do announce name v'; EvalM.define name v' : EvalM Unit) s') := by
  obtain ⟨session, frame⟩ := s
  obtain ⟨session', frame'⟩ := s'
  cases h.frame.tiers with
  | top =>
    rw [announce_define_top, announce_define_top]
    exact .ok (le_refl w) trivial (h.define_top (hTop rfl) hValue)
  | call hLocals hCaptured =>
    rw [announce_define_call, announce_define_call]
    exact .ok (le_refl w) trivial (h.inFrame ⟨hLocals.insert name hValue, hCaptured⟩)

theorem outcome_makeFunction {params : List String} {body body' : List Node}
    (hBody : Node.SameShapes body body') (h : R.States s s') :
    (R.comparison e).Outcome w (fun _ => R.Values) (makeFunction params body s)
      (makeFunction params body' s') := by
  rw [makeFunction_apply, makeFunction_apply]
  have hId : s'.session.nextId = R.rename s.session.nextId := by
    rw [h.nextId, h.fresh _ (Nat.le_refl _)]
  refine .ok (le_refl w) (.function ⟨hId, rfl, hBody⟩ ?_) (h.made _ _ _)
  exact (h.frame.innermost h.globals).but

theorem outcome_apply {ev ev' : Evaluator}
    (hEv : (R.comparison e).SimulatesBy (fun _ => R.Values) ev ev')
    {f f' : Closure Value} {args args' : List Value} {span span' : Span}
    (hFunction : R.Values (.function f) (.function f'))
    (hArgs : List.Forall₂ R.Values args args') (h : R.States s s') :
    (R.comparison e).Outcome w (fun _ => R.Values) (apply ev f args span s)
      (apply ev' f' args' span' s') := by
  obtain ⟨hSame, -⟩ := hFunction.function_inv Value.numeric_sameNumber
  have hStates : (R.comparison e).states w s s' := h
  by_cases hArity : args.length = f.params.length
  · have hArity' : args'.length = f'.params.length := by
      rw [← hArgs.length_eq, ← hSame.params, hArity]
    have hKey := h.keyOf hSame hArgs
    have hCached : Value.NearOption Value.SameNumber (Closure.Renamed R.rename) R.Exempt
        ((s.session.keyOf f args).bind s.session.cache.find?)
        ((s'.session.keyOf f' args').bind s'.session.cache.find?) := by
      rw [hKey]
      cases s.session.keyOf f args with
      | none => exact .none
      | some key => exact h.cache key
    generalize hFound : (s.session.keyOf f args).bind s.session.cache.find? = r at hCached
    generalize hFound' : (s'.session.keyOf f' args').bind s'.session.cache.find? = r' at hCached
    cases hCached with
    | some hValue =>
      rw [apply_remembered hArity hFound, apply_remembered hArity' hFound']
      exact .ok (le_refl w) hValue { h with }
    | none =>
      refine Comparison.outcome_apply_run hArity hArity' hFound hFound' ?_ ?_ ?_
      · exact Comparison.outcome_inOrder hEv hSame.body .void (h.entered hFunction hArgs _ _)
      · intro w' v v' t t' _ _ _ hValue hStates
        rw [hKey]
        exact (States.returned hStates _ hValue).inFrame h.frame
      · intro w' t t' _ hStates
        exact States.inFrame hStates h.frame
  · exact Comparison.outcome_apply_arity hSame.params hArgs.length_eq trivial hStates hArity

theorem rules (R : Reordering) (e : EvalError) : (R.comparison e).Rules fun _ => R.Values where
  alarm _ _ := rfl
  rooms_succ h := Nat.succ.inj h
  rooms_zero h := Or.inr ⟨h.symm, fun _ _ _ hStates => by rw [hStates.options]⟩
  rooms_zero' h := by cases h
  enterForm h := States.enterForm h
  leaveForm h := States.leaveForm h
  mono _ h := h
  ofNode h := Value.Near.ofNode Value.numeric_sameNumber h
  void := .void
  boolean := .boolean _
  callee h := by
    rcases h.callee Value.numeric_sameNumber with hBoth | ⟨hNone, hNone'⟩
    · exact Or.inl hBoth
    · exact Or.inr ⟨hNone, hNone', Or.inl (h.kind_eq fun _ _ hSame => congrArg Value.kind hSame.1)⟩
  isAtom h := h.isAtom_eq Value.numeric_sameNumber
  holds h := h.same_boolean Value.numeric_sameNumber true
  cons h h' := h.cons Value.numeric_sameNumber h'
  car h := Comparison.results_car Value.numeric_sameNumber kindsKept h
  cdr h := Comparison.results_cdr Value.numeric_sameNumber kindsKept h
  fold _ _ _ _ h :=
    Comparison.results_fold (fun _ _ => True) (fun _ => results_combine) (fun _ _ => trivial)
      (fun _ => trivial) h
  lookup := by
    intro w room n name s s' _ _ hStates
    have hFound := States.lookup hStates name
    generalize s.frame.lookup s.session.globals name = r at hFound
    generalize s'.frame.lookup s'.session.globals name = r' at hFound
    cases hFound with
    | none => exact .none
    | some hValue => exact .some hValue
  define := by
    intro w room span target expression operator name s t t' v v' hTarget hQuiet hRun hValue hStates
    have hQuiet : rebinds R.names (room + 1) (.list [target, expression, operator] span) s = false :=
      hQuiet
    have hRun := evaluateWithin_of_watched hRun
    exact outcome_define (fun hTop => notMem_of_quiet hTarget hQuiet hRun hTop) hValue hStates
  compare _ _ _ _ h h' := h.same_eq Value.numeric_sameNumber.toBetweenNumbers
    (fun _ _ _ _ hSame hSame' => by rw [hSame.1, hSame'.1])
    (fun _ _ _ _ hf hg => by rw [hf.id, hg.id, EmbeddingLike.apply_eq_iff_eq]) h'
  makeFunction hBody hStates := outcome_makeFunction hBody hStates
  apply hRooms hEv hFunction hArgs _ hStates := outcome_apply (hEv _ hRooms) hFunction hArgs hStates

theorem simulates_watched (R : Reordering) (e : EvalError) : (R.comparison e).SimulatesBy
    (fun _ => R.Values) (Session.watched ⟨rebinds R.names, e⟩) evaluate := by
  intro n n' hNodes w s s' hStates
  have hRoom : s.session.room = s'.session.room := by
    rw [Session.room, Session.room, hStates.options, hStates.depth]
  exact (rules R e).simulates hRoom n n' hNodes w s s' hStates

end Reordering

/-! ### Sessions of several texts -/

namespace Session

/-- The results are the same value, up to identities and what functions have captured, or errors
that say the same. -/
inductive SameUpTo (rename : Equiv.Perm Nat) :
    Except RunError Value → Except RunError Value → Prop
  | ok {v v' : Value}
      (h : Value.Near Value.SameNumber (Closure.Renamed rename) (fun _ _ _ => True) v v') :
      SameUpTo rename (.ok v) (.ok v')
  | parse (e : ParseError) : SameUpTo rename (.error (.parse e)) (.error (.parse e))
  | eval {e e' : EvalError} (h : e.fault = e'.fault) :
      SameUpTo rename (.error (.eval e)) (.error (.eval e'))

/-- The steps have the same results up to a renaming, and the same counts. -/
structure StepRenamed (rename : Equiv.Perm Nat) (step step' : Except RunError Value × Session) :
    Prop where
  result : SameUpTo rename step.1 step'.1
  calls : step'.2.calls = step.2.calls
  cached : step'.2.cache.size = step.2.cache.size

section

variable {R : Reordering} {s s' : Session}

/-- One text, in which no name of the block is defined. -/
theorem runText_renamed (h : R.States ⟨s, .top⟩ ⟨s', .top⟩) {text : String}
    (hQuiet : ∀ e, s.runTextBy (watched ⟨rebinds R.names, e⟩) text = s.runText text) :
    StepRenamed R.rename (s.runText text) (s'.runText text) ∧
      R.States ⟨(s.runText text).2, .top⟩ ⟨(s'.runText text).2, .top⟩ := by
  obtain ⟨e, hOther⟩ := exists_other_error (s.runText text).1
  rw [← hQuiet e] at hOther ⊢
  rw [runTextBy] at hOther ⊢
  rw [runText]
  cases hProgram : Program.ofString text with
  | error e' => exact ⟨⟨.parse e', h.calls, h.size⟩, h⟩
  | ok program =>
    rw [hProgram] at hOther
    have hStates : (R.comparison e).states ⟨⟩ ⟨s, .top⟩ ⟨s', .top⟩ := h
    have hOutcome := Comparison.outcome_inOrder (R.simulates_watched e)
      (Node.LikeAll.refl trivial (fun _ => trivial) program) .void hStates
    dsimp only at hOther ⊢
    rw [run, perform, perform]
    rw [perform] at hOther
    generalize inOrder (watched ⟨rebinds R.names, e⟩) .void program ⟨s, .top⟩ = r at hOutcome hOther ⊢
    generalize inOrder Eval.evaluate .void program ⟨s', .top⟩ = r' at hOutcome ⊢
    cases hOutcome with
    | pardoned hStopped =>
      cases hStopped
      exact absurd rfl hOther
    | pardoned' hNever => exact hNever.elim
    | ok _ hValue hStates =>
      refine ⟨⟨.ok ?_, hStates.calls, hStates.size⟩, hStates.inFrame trivial⟩
      exact hValue.imp (fun _ _ h => h) (fun _ _ h => h) fun _ _ _ _ => trivial
    | error _ hFault _ hStates =>
      exact ⟨⟨.eval hFault, hStates.calls, hStates.size⟩, hStates.inFrame trivial⟩

theorem runAll_renamed (h : R.States ⟨s, .top⟩ ⟨s', .top⟩) {texts : List String}
    (hQuiet : s.Undisturbed (rebinds R.names) texts) :
    List.Forall₂ (StepRenamed R.rename) (s.runAll texts) (s'.runAll texts) := by
  induction texts generalizing s s' with
  | nil => exact .nil
  | cons text texts ih =>
    obtain ⟨hFirst, hRest⟩ := hQuiet.of_cons
    obtain ⟨hStep, hNext⟩ := runText_renamed h hFirst
    exact .cons hStep (ih hNext hRest)

end

/-! ### Two orders of a block -/

section

variable {w : Registry} {s : Session} {ds ds' : List Definition}

/-- The reordering of a block that follows a session. -/
def reordering (s : Session) (ds ds' : List Definition)
    (hPerm : (ds.map (·.name)).Perm (ds'.map (·.name))) (hNames : (ds.map (·.name)).Nodup) :
    Reordering where
  rename := reorderIds s.nextId hPerm hNames
  names := ds.map (·.name)
  bound := (s.definingAll ds).globals.find?
  bound' := (s.definingAll ds').globals.find?

variable {hPerm : (ds.map (·.name)).Perm (ds'.map (·.name))} {hNames : (ds.map (·.name)).Nodup}

theorem reordering_rename_of_lt {i : Nat} (h : i < s.nextId) :
    (s.reordering ds ds' hPerm hNames).rename i = i := movedId_of_lt h

/-- What was there before the block is not renamed. -/
theorem renamed_of_known (h : Registered True w ⟨s, .top⟩) {f g : Closure Value}
    (hf : f.Known True w g) : f.Renamed (s.reordering ds ds' hPerm hNames).rename g := by
  obtain ⟨rfl, hRegistered, -⟩ := hf
  exact ⟨(reordering_rename_of_lt (h.below _ _ hRegistered)).symm, rfl,
    Node.LikeAll.refl trivial (fun _ => trivial) _⟩

theorem near_before (h : Registered True w ⟨s, .top⟩) : s.globals.Near Value.SameNumber
    (Closure.Renamed (s.reordering ds ds' hPerm hNames).rename) (s.reordering ds ds' hPerm hNames).Exempt
    s.globals :=
  Value.LikeEntries.near Value.numeric_sameNumber (fun _ _ => renamed_of_known h) h.globals

/-- The functions that two orders make for one definition correspond. -/
theorem near_madeBy (h : Registered True w ⟨s, .top⟩)
    (hFree : ∀ name ∈ ds.map (·.name), s.globals.find? name = none) {d d' : Definition}
    (hMem : d ∈ ds) (hSame : d.SameShape d') {f f' : Closure Value} (hf : s.MadeBy ds d f)
    (hf' : s.MadeBy ds' d' f') :
    (s.reordering ds ds' hPerm hNames).Values (.function f) (.function f') := by
  refine .function ⟨?_, ?_, ?_⟩ fun name hExempt => ?_
  · have hMoved : movedId s.nextId (ds.map (·.name)) (ds'.map (·.name))
        (s.nextId + (ds.map (·.name)).idxOf d.name) =
          s.nextId + (ds'.map (·.name)).idxOf d.name :=
      movedId_idxOf (List.mem_map_of_mem hMem)
    rw [hf.id, hf'.id, ← hSame.name]
    exact hMoved.symm
  · rw [hf.params, hf'.params, hSame.params]
  · rw [hf.body, hf'.body]
    exact hSame.body
  · by_cases hName : name ∈ ds.map (·.name)
    · -- a name of the block was captured after its definition, or not at all
      refine absurd ⟨hName, ?_, ?_⟩ hExempt
      · exact (hf.captured name).imp (fun hBefore => hBefore.trans (hFree name hName)) And.right
      · exact (hf'.captured name).imp (fun hBefore => hBefore.trans (hFree name hName)) And.right
    · have hLeft := (hf.captured name).resolve_right fun hBoth => hName hBoth.1
      have hRight := (hf'.captured name).resolve_right fun hBoth => hName (hPerm.mem_iff.2 hBoth.1)
      rw [hLeft, hRight]
      exact near_before h name

/-- What was remembered before the block is found under the same key. -/
theorem near_remembered (h : Registered True w ⟨s, .top⟩) (key : CallKey) :
    Value.NearOption Value.SameNumber (Closure.Renamed (s.reordering ds ds' hPerm hNames).rename)
      (s.reordering ds ds' hPerm hNames).Exempt (s.cache.find? key)
      (s.cache.find? (key.renamed (s.reordering ds ds' hPerm hNames).rename)) := by
  have hBelow := h.soundIdentities.keys_below
  cases hFound : s.cache.find? key with
  | some v =>
    have hKey : key.renamed (s.reordering ds ds' hPerm hNames).rename = key := by
      rw [CallKey.renamed, reordering_rename_of_lt (hBelow key v hFound)]
    rw [hKey, hFound]
    exact .some ((h.cache key v hFound).value.near Value.numeric_sameNumber fun _ _ =>
      renamed_of_known h)
  | none =>
    cases hFound' : s.cache.find? (key.renamed (s.reordering ds ds' hPerm hNames).rename) with
    | none => exact .none
    | some v =>
      -- an identity from before the block is not renamed, so it is that of the key already
      have hOld : (s.reordering ds ds' hPerm hNames).rename key.function < s.nextId :=
        hBelow _ v hFound'
      have hKey := (s.reordering ds ds' hPerm hNames).rename.injective (reordering_rename_of_lt hOld)
      rw [CallKey.renamed, hKey, hFound] at hFound'
      cases hFound'

/-- **Sessions that have run a block in different orders correspond.** -/
theorem states_definingAll (h : Registered True w ⟨s, .top⟩)
    (hFree : ∀ name ∈ ds.map (·.name), s.globals.find? name = none)
    (hSame : ∀ d ∈ ds, ∃ d' ∈ ds', d.SameShape d') :
    (s.reordering ds ds' hPerm hNames).States ⟨s.definingAll ds, .top⟩ ⟨s.definingAll ds', .top⟩ := by
  obtain ⟨hOptions, hDepth, hCalls, hCache, hNext⟩ := s.definingAll_keeps ds
  obtain ⟨hOptions', hDepth', hCalls', hCache', hNext'⟩ := s.definingAll_keeps ds'
  have hLength : ds'.length = ds.length := by simpa using hPerm.length_eq.symm
  have hNames' : (ds'.map (·.name)).Nodup := hPerm.nodup_iff.1 hNames
  refine {
    options := hOptions'.trans hOptions.symm
    depth := hDepth'.trans hDepth.symm
    calls := hCalls'.trans hCalls.symm
    nextId := by rw [hNext, hNext', hLength]
    fresh := fun i hi => movedId_of_length_le ?_
    globals := fun name => ?_
    kept := fun _ _ => rfl
    kept' := fun _ _ => rfl
    frame := trivial
    cache := fun key => ?_
    size := by rw [hCache, hCache'] }
  · rw [List.length_map, ← hNext]
    exact hi
  · by_cases hName : name ∈ ds.map (·.name)
    · obtain ⟨d, hMem, rfl⟩ := List.mem_map.1 hName
      obtain ⟨d', hMem', hShape⟩ := hSame d hMem
      obtain ⟨f, hf⟩ := exists_madeBy (s := s) hNames hMem
      obtain ⟨f', hf'⟩ := exists_madeBy (s := s) hNames' hMem'
      rw [hf.bound, hShape.name, hf'.bound]
      exact .some (near_madeBy h hFree hMem hShape hf hf')
    · rw [find?_definingAll_of_notMem hName,
        find?_definingAll_of_notMem fun hMem => hName (hPerm.mem_iff.2 hMem)]
      exact near_before h name
  · rw [hCache, hCache']
    exact near_remembered h key

end

/-- **The order of definitions does not matter.**  A block that defines functions under new names,
in a session that has run any texts, may be put into another order and be laid out anew: whatever
texts are run afterwards, as long as none of the names is defined at top level again, each has the
same value up to identities and what functions have captured, or an error that says the same, and
as many calls are counted and remembered. -/
theorem definitions_reordered (options : Options) (texts : List String) {s : Session}
    (hSession : s = (Session.new options).after texts) {block middle block' : List Node}
    (hBlock : ∀ n ∈ block, n.definition?.isSome)
    (hNames : ((Node.definitions block).map (·.name)).Nodup)
    (hFree : ∀ d ∈ Node.definitions block, s.globals.find? d.name = none) {v : Value}
    (hRun : (s.run block).1 = .ok v) (hPerm : block.Perm middle)
    (hShapes : Node.SameShapes middle block') {later : List String}
    (hQuiet : (s.run block).2.Undisturbed (rebinds ((Node.definitions block).map (·.name))) later) :
    (s.run block').1 = .ok v ∧ ∃ rename : Equiv.Perm Nat,
      List.Forall₂ (StepRenamed rename) ((s.run block).2.runAll later)
        ((s.run block').2.runAll later) := by
  obtain ⟨w, hState⟩ := after_registered (registered_new options) fun text (_ : text ∈ texts) =>
    allowed_true text
  rw [← hSession] at hState
  have hMiddle : ∀ n ∈ middle, n.definition?.isSome := fun n hn => hBlock n (hPerm.mem_iff.2 hn)
  obtain ⟨hBlock', hSame⟩ := Node.LikeAll.definitions hShapes hMiddle
  have hOrder : (Node.definitions block).Perm (Node.definitions middle) := hPerm.filterMap _
  have hRoom := room_of_run hBlock hRun
  have hRoom' : block' ≠ [] → 2 ≤ s.room := by
    refine fun hSome => hRoom ?_
    rintro rfl
    obtain rfl := hPerm.nil_eq
    cases hShapes
    exact hSome rfl
  have hPermNames : ((Node.definitions block).map (·.name)).Perm
      ((Node.definitions block').map (·.name)) := Definition.names_eq hSame ▸ hOrder.map _
  have hNew : ∀ name ∈ (Node.definitions block).map (·.name), s.globals.find? name = none := by
    intro name hName
    obtain ⟨d, hMem, rfl⟩ := List.mem_map.1 hName
    exact hFree d hMem
  have hStates : (s.reordering _ _ hPermNames hNames).States _ _ :=
    states_definingAll hState hNew fun d hd =>
      Definition.exists_sameShape hSame (hOrder.mem_iff.1 hd)
  rw [run_definitions hBlock hRoom] at hRun hQuiet ⊢
  rw [run_definitions hBlock' hRoom']
  exact ⟨hRun, _, runAll_renamed hStates hQuiet⟩

/-- A function that calls another one, defined before it and behind it. -/
theorem definitions_reordered_two :
    let word (name : String) : Node := .atom (.symbol name) .origin
    let function (name : String) (body : Node) : Node :=
      .list [word name, .list [.list [word "n"] .origin, body, word "lambda"] .origin,
        word "define"] .origin
    let f := function "f" (.list [word "n", word "g"] .origin)
    let g := function "g" (word "n")
    ∃ rename : Equiv.Perm Nat, List.Forall₂ (StepRenamed rename)
      (((new ⟨true, 2⟩).run [f, g]).2.runAll ["(1 f)"])
      (((new ⟨true, 2⟩).run [g, f]).2.runAll ["(1 f)"]) := by
  intro word function f g
  have hCall : Program.ofString "(1 f)" = .ok
      [.list [.atom (.int 1) ⟨1, 2⟩, .atom (.symbol "f") ⟨3, 4⟩] ⟨0, 5⟩] := by rfl
  have hBlock : ∀ n ∈ [f, g], n.definition?.isSome := by decide
  have hRun : ((new ⟨true, 2⟩).run [f, g]).1 = .ok .void := by rfl
  refine (definitions_reordered ⟨true, 2⟩ [] rfl hBlock (by decide) (fun _ _ => rfl) hRun
    (.swap g f []) (Node.LikeAll.refl trivial (fun _ => trivial) _) fun e => ?_).2
  simp only [runAllBy, runTextBy, runAll, hCall]
  rfl

end Session

end PostLisp

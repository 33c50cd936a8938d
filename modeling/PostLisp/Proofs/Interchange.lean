import PostLisp.Proofs.NumberKeys
import PostLisp.Proofs.Recompute

/-!
# Arguments with one key

A remembered result answers every call with the same key, and whole floats have the keys of
integers.  Such arguments may indeed be interchanged as long as whole numbers stay exact: then the
calls go the same way, with numbers that have one key in the same places.  `inexact` is the alarm
for operations that are not exact; beyond `2 ^ 53` integers and floats do differ.
-/

namespace PostLisp

open Eval EvalM

namespace Arith

/-- Whether combining a value with further ones is exact, step by step. -/
def isExactFold (op : ArithOp) : Value → List Value → Bool
  | _, [] => true
  | v, w :: ws => isExactStep op v w &&
    match combine op v w with
    | .ok u => isExactFold op u ws
    | .error _ => true

/-- Whether an operator is exact on its operands. -/
def isExact (op : ArithOp) : List Value → Bool
  | [] => true
  | v :: vs => isExactFold op v vs

end Arith

namespace Eval

/-- What makes an operation on numbers exact: each step of arithmetic is, or all integers that are
compared have their floats. -/
def exactness? (name : String) : Option (List Value → Bool) :=
  match ArithOp.ofSymbol? name with
  | some op => some (Arith.isExact op)
  | none => if name = SpecialForm.eq.symbol then some Value.areExact else none

/-- The alarm for operations on numbers that are not exact. -/
def inexact (room : Nat) (n : Node) (s : EvalState) : Bool :=
  match room, n with
  | room + 1, .list items _ =>
    match (items.getLast?.bind Node.symbol?).bind exactness? with
    | none => false
    | some isExact =>
      match operandValues (evaluateWithin room) items.dropLast s.enterForm with
      | .ok vs _ => !isExact vs
      | .error _ _ => false
  | _, _ => false

theorem isExact_of_quiet {room : Nat} {operands : List Node} {operator : Node} {span : Span}
    {name : String} {isExact : List Value → Bool} {s t : EvalState} {vs : List Value}
    (hName : operator.symbol? = some name) (hForm : exactness? name = some isExact)
    (hQuiet : inexact (room + 1) (.list (operands ++ [operator]) span) s = false)
    (hRun : operandValues (evaluateWithin room) operands s.enterForm = .ok vs t) :
    isExact vs = true := by
  rw [inexact, List.getLast?_concat, Option.bind_some, hName, Option.bind_some, hForm] at hQuiet
  simp only [List.dropLast_concat, hRun, Bool.not_eq_false'] at hQuiet
  exact hQuiet

theorem operandValues_pair {ev : Evaluator} {left right : Node} {s t u : EvalState} {v x : Value}
    (hLeft : ev left s = .ok v t) (hRight : ev right t = .ok x u) :
    operandValues ev [left, right] s = .ok [v, x] u := by
  have hRest : operandValues ev [right] t = .ok [x] u := by
    rw [operandValues, bind_ok hRight]
    rfl
  rw [operandValues, bind_ok hLeft, bind_ok hRest]
  rfl

theorem operandValues_of_watched {watch : Watch} {room : Nat} {ns : List Node} {s t : EvalState}
    {vs : List Value} (h : operandValues (watchedWithin watch room) ns s = .ok vs t) :
    operandValues (evaluateWithin room) ns s = .ok vs t := by
  induction ns generalizing s t vs with
  | nil => exact h
  | cons n ns ih =>
    rw [operandValues] at h ⊢
    cases hHead : watchedWithin watch room n s with
    | error e u =>
      rw [bind_error hHead] at h
      cases h
    | ok v u =>
      rw [bind_ok hHead] at h
      rw [bind_ok (evaluateWithin_of_watched hHead)]
      cases hTail : operandValues (watchedWithin watch room) ns u with
      | error e u' =>
        rw [bind_error hTail] at h
        cases h
      | ok ws u' =>
        rw [bind_ok hTail] at h
        rwa [bind_ok (ih hTail)]

end Eval

/-- The same function, but for what it has captured. -/
structure Closure.SameFunction (f g : Closure Value) : Prop where
  id : f.id = g.id
  params : f.params = g.params
  body : f.body = g.body

/-- The values differ in nothing but their numbers, and these have one key in pairs. -/
abbrev Value.Interchangeable : Value → Value → Prop :=
  Value.Near Value.OneKey Closure.SameFunction fun _ _ _ => False

/-- Two states that differ in nothing but numbers with one key, calls not remembered. -/
structure Interchanged (s s' : EvalState) : Prop where
  plain : s.session.options.memoize = false
  plain' : s'.session.options.memoize = false
  nextId : s.session.nextId = s'.session.nextId
  globals : s.session.globals.Near Value.OneKey Closure.SameFunction (fun _ _ _ => False)
    s'.session.globals
  frame : s.frame.Near Value.OneKey Closure.SameFunction (fun _ _ _ => False) s'.frame

/-- Only what the first run does well is compared. -/
def interchange (e : EvalError) : Comparison Still where
  floats := True
  spans := Eq
  states _ := Interchanged
  rooms := Eq
  watch := ⟨inexact, e⟩
  pardoned _ := True
  pardoned' _ := False

namespace Value

theorem Interchangeable.refl (v : Value) : v.Interchangeable v :=
  have hLike : Like True Eq v v := Like.refl trivial (fun _ => rfl) v
  hLike.near numeric_oneKey fun _ _ hSame => by
    rw [hSame]
    exact ⟨rfl, rfl, rfl⟩

end Value

/-- A session does not differ from itself. -/
theorem Interchanged.refl {s : Session} (hPlain : s.options.memoize = false) :
    Interchanged ⟨s, .top⟩ ⟨s, .top⟩ where
  plain := hPlain
  plain' := hPlain
  nextId := rfl
  globals name := by
    cases s.globals.find? name with
    | none => exact .none
    | some v => exact .some (Value.Interchangeable.refl v)
  frame := trivial

namespace interchange

variable {e : EvalError} {w : Still} {s s' : EvalState}

theorem kindsKept : (interchange e).KindsKept Value.OneKey := fun _ _ _ => Or.inr fun _ => trivial

theorem results_combine {op : ArithOp} {v v' x x' : Value}
    (hExact : Arith.isExactStep op v x = true) (h : v.Interchangeable v')
    (hNext : x.Interchangeable x') : (interchange e).Results Value.Interchangeable
      (Arith.combine op v x) (Arith.combine op v' x') := by
  refine Comparison.results_combine Value.numeric_oneKey.toBetweenNumbers (fun hKey hKey' => ?_) h
    hNext
  cases hResult : Arith.combine op v x with
  | error f => exact .pardoned fun _ => trivial
  | ok u =>
    obtain ⟨u', hResult', hBoth⟩ := Arith.combine_oneKey hExact hKey hKey' hResult
    rw [hResult']
    exact .ok (.number hBoth)

theorem results_fold {op : ArithOp} {vs vs' : List Value} (hExact : Arith.isExact op vs = true)
    (h : List.Forall₂ Value.Interchangeable vs vs') :
    (interchange e).Results Value.Interchangeable (Arith.fold op vs) (Arith.fold op vs') := by
  refine Comparison.results_fold (fun v vs => Arith.isExactFold op v vs = true)
    (fun hFine hFirst hSecond => ?_) (fun hFine hResult => ?_) (fun hList => ?_) h
  · rw [Arith.isExactFold, Bool.and_eq_true] at hFine
    exact results_combine hFine.1 hFirst hSecond
  · rw [Arith.isExactFold, hResult, Bool.and_eq_true] at hFine
    exact hFine.2
  · rwa [hList] at hExact

theorem outcome_define {name : String} {v v' : Value} (hValue : v.Interchangeable v')
    (h : Interchanged s s') : (interchange e).Outcome w (fun _ _ _ => True)
      ((do announce name v; EvalM.define name v : EvalM Unit) s)
      ((do announce name v'; EvalM.define name v' : EvalM Unit) s') := by
  obtain ⟨session, frame⟩ := s
  obtain ⟨session', frame'⟩ := s'
  cases h.frame.tiers with
  | top =>
    rw [announce_define_top, announce_define_top]
    exact .ok (le_refl w) trivial { h with globals := h.globals.insert name hValue }
  | call hLocals hCaptured =>
    rw [announce_define_call, announce_define_call]
    exact .ok (le_refl w) trivial { h with frame := ⟨hLocals.insert name hValue, hCaptured⟩ }

theorem outcome_makeFunction {params : List String} {body body' : List Node}
    (hBody : Node.LikeAll True Eq body body') (h : Interchanged s s') :
    (interchange e).Outcome w (fun _ => Value.Interchangeable) (makeFunction params body s)
      (makeFunction params body' s') := by
  rw [makeFunction_apply, makeFunction_apply]
  refine .ok (le_refl w) (.function ⟨h.nextId, rfl, hBody.eq⟩ ?_)
    { h with nextId := congrArg (· + 1) h.nextId }
  exact (h.frame.innermost h.globals).but

theorem outcome_apply {ev ev' : Evaluator}
    (hEv : (interchange e).SimulatesBy (fun _ => Value.Interchangeable) ev ev')
    {f f' : Closure Value} {args args' : List Value}
    (hFunction : (Value.function f).Interchangeable (.function f'))
    (hArgs : List.Forall₂ Value.Interchangeable args args') (span span' : Span)
    (h : Interchanged s s') :
    (interchange e).Outcome w (fun _ => Value.Interchangeable) (apply ev f args span s)
      (apply ev' f' args' span' s') := by
  obtain ⟨hSame, hCaptured⟩ := hFunction.function_inv Value.numeric_oneKey
  by_cases hArity : args.length = f.params.length
  · have hArity' : args'.length = f'.params.length := by
      rw [← hArgs.length_eq, ← hSame.params, hArity]
    have hKey := Session.keyOf_eq_none h.plain f args
    have hKey' := Session.keyOf_eq_none h.plain' f' args'
    refine Comparison.outcome_apply_run hArity hArity' ?_ ?_ ?_ ?_ ?_
    · rw [hKey]
      rfl
    · rw [hKey']
      rfl
    · refine Comparison.outcome_inOrder hEv ?_ .void { h with
        frame := Frame.near_closure hSame.params hCaptured hArgs }
      rw [hSame.body]
      exact Node.LikeAll.refl trivial (fun _ => rfl) _
    · intro w' v v' t t' _ _ _ _ hInside
      rw [hKey, hKey']
      exact { hInside with frame := h.frame }
    · intro w' t t' _ hInside
      exact { hInside with frame := h.frame }
  · rw [apply_arity hArity]
    exact .pardoned trivial

theorem rules (e : EvalError) : (interchange e).Rules fun _ => Value.Interchangeable where
  alarm _ _ := trivial
  rooms_succ h := Nat.succ.inj h
  rooms_zero _ := Or.inl fun _ _ => trivial
  rooms_zero' h := by cases h
  enterForm h := { h with }
  leaveForm h := { h with }
  mono _ h := h
  ofNode h := Value.Near.ofNode Value.numeric_oneKey h
  void := .void
  boolean := .boolean _
  callee h := by
    rcases h.callee Value.numeric_oneKey with hBoth | ⟨hNone, hNone'⟩
    · exact Or.inl hBoth
    · exact Or.inr ⟨hNone, hNone', Or.inr fun _ => trivial⟩
  isAtom h := h.isAtom_eq Value.numeric_oneKey
  holds h := h.same_boolean Value.numeric_oneKey true
  cons h h' := h.cons Value.numeric_oneKey h'
  car h := Comparison.results_car Value.numeric_oneKey kindsKept h
  cdr h := Comparison.results_cdr Value.numeric_oneKey kindsKept h
  fold := by
    intro w room span op operands operator s t vs vs' hOperator _ hQuiet hRun h
    have hQuiet : inexact (room + 1) (.list (operands ++ [operator]) span) s = false := hQuiet
    have hForm : exactness? op.symbol = some (Arith.isExact op) := by
      rw [exactness?, ArithOp.ofSymbol?_symbol]
    exact results_fold (isExact_of_quiet hOperator hForm hQuiet (operandValues_of_watched hRun)) h
  lookup := by
    intro w room n name s s' _ _ hStates
    have hFound := hStates.frame.lookup hStates.globals (fun _ _ _ hNever => hNever.elim) name
    generalize s.frame.lookup s.session.globals name = r at hFound
    generalize s'.frame.lookup s'.session.globals name = r' at hFound
    cases hFound with
    | none => exact .none
    | some hValue => exact .some hValue
  define _ _ _ hValue hStates := outcome_define hValue hStates
  compare := by
    intro w room span left right operator s t u v v' x x' hOperator hQuiet hLeft hRight h h'
    have hQuiet : inexact (room + 1) (.list ([left, right] ++ [operator]) span) s = false := hQuiet
    have hForm : exactness? SpecialForm.eq.symbol = some Value.areExact := by
      rw [exactness?, arith_ofSymbol?_symbol]
      exact if_pos rfl
    have hExact := isExact_of_quiet hOperator hForm hQuiet (operandValues_of_watched
      (operandValues_pair hLeft hRight))
    simp only [Value.areExact, Bool.and_eq_true] at hExact
    exact h.same_eq_of_isExact (fun _ _ _ _ hf hg => by rw [hf.id, hg.id]) h' hExact.1 hExact.2.1
  makeFunction hBody hStates := outcome_makeFunction hBody hStates
  apply hRooms hEv hFunction hArgs _ hStates :=
    outcome_apply (hEv _ hRooms) hFunction hArgs _ _ hStates

end interchange

namespace Session

/-- Calls with arguments that differ in nothing but their numbers go the same way. -/
theorem apply_interchangeable {s : Session} (hPlain : s.options.memoize = false)
    (f : Closure Value) {args args' : List Value}
    (hArgs : List.Forall₂ Value.Interchangeable args args') (span : Span)
    (hExact : s.UndisturbedCall inexact f args span) {v : Value}
    (hRun : (s.apply f args span).1 = .ok v) :
    ∃ v', (s.apply f args' span).1 = .ok v' ∧ v.Interchangeable v' := by
  let e : EvalError := ⟨.emptyForm, .origin⟩
  have hEv : (interchange e).SimulatesBy (fun _ => Value.Interchangeable)
      (watchedWithin ⟨inexact, e⟩ s.room) (evaluateWithin s.room) :=
    (interchange.rules e).simulates rfl
  have hOutcome := interchange.outcome_apply (w := ⟨⟩) hEv
    (Value.Interchangeable.refl (.function f)) hArgs span span (Interchanged.refl hPlain)
  have hWatched : (s.perform .top (Eval.apply (watchedWithin ⟨inexact, e⟩ s.room) f args span)).1 =
      .ok v := by
    rw [← apply_watched, hExact e]
    exact hRun
  rw [apply_evaluate s f args' span .top]
  rw [perform] at hWatched ⊢
  generalize Eval.apply (watchedWithin ⟨inexact, e⟩ s.room) f args span ⟨s, .top⟩ = r
    at hOutcome hWatched
  generalize Eval.apply (evaluateWithin s.room) f args' span ⟨s, .top⟩ = r' at hOutcome ⊢
  cases hOutcome with
  | pardoned => cases hWatched
  | pardoned' hNever => exact hNever.elim
  | error => cases hWatched
  | ok _ hValue _ =>
    cases hWatched
    exact ⟨_, rfl, hValue⟩

/-- **Arguments with one key may be interchanged**, calls not remembered, as long as whole numbers
stay exact: if the call with some arguments ends in a value that holds no function and no NaN, the
call with other arguments of the same key ends in an equal value. -/
theorem apply_interchange {s : Session} (hPlain : s.options.memoize = false) (f : Closure Value)
    {args args' : List Value} {key : CallKey} (hKey : CallKey.of? f.id args = some key)
    (hKey' : CallKey.of? f.id args' = some key) (span : Span)
    (hExact : s.UndisturbedCall inexact f args span) {v : Value}
    (hRun : (s.apply f args span).1 = .ok v) (hFunction : v.holdsFunction = false)
    (hNaN : v.holdsNaN = false) :
    ∃ v', (s.apply f args' span).1 = .ok v' ∧ v'.same v = true := by
  have hArgs : List.Forall₂ Value.Interchangeable args args' :=
    ((Value.hasKeys (CallKey.ofValues?_of_of? hKey)).near
      (Value.hasKeys (CallKey.ofValues?_of_of? hKey'))).forall₂
  obtain ⟨v', hRun', hValue⟩ := apply_interchangeable hPlain f hArgs span hExact hRun
  obtain ⟨k, hSome⟩ := v.exists_key hFunction hNaN
  have hSome' := hSome
  rw [hValue.key_eq fun _ _ h => h.key] at hSome'
  exact ⟨v', hRun', (Value.hasKey hSome').same (Value.hasKey hSome)⟩

/-- Squaring the float four, known from squaring the integer. -/
theorem apply_interchange_square :
    let x : Node := .atom (.symbol "x") .origin
    let square : Node := .list [x, x, .atom (.symbol "*") .origin] .origin
    let f : Closure Value := ⟨0, ["x"], [square], .empty⟩
    ∃ v, ((Session.new ⟨false, 1⟩).apply f [.float 4] .origin).1 = .ok v ∧
      v.same (.integer 16) = true := by
  intro x square f
  let s := Session.new ⟨false, 1⟩
  have hKey : CallKey.of? f.id [.float 4] = some ⟨0, [.integer 4]⟩ := by decide +kernel
  have hWatched : (s.perform .top (Eval.apply (watched ⟨inexact, ⟨.emptyForm, .origin⟩⟩) f [.integer 4]
      .origin)).1.toOption.isSome = true := by decide +kernel
  obtain ⟨v, hWatched⟩ := Option.isSome_iff_exists.1 hWatched
  have hExact : s.UndisturbedCall inexact f [.integer 4] .origin := .of_ok (eq_ok_of_toOption hWatched)
  exact apply_interchange (s := s) rfl f rfl hKey .origin hExact rfl rfl rfl

/-- Where whole numbers do not stay exact, arguments with one key may not be interchanged: the
successor of `2 ^ 53` is another integer, but the same float. -/
theorem interchange_differs :
    let word (name : String) : Node := .atom (.symbol name) .origin
    let successor : Node := .list [word "x", .atom (.int 1) .origin, word "+"] .origin
    let f : Closure Value := ⟨0, ["x"], [.list [successor, word "x", word "eq?"] .origin], .empty⟩
    let s := Session.new ⟨false, 2⟩
    ∃ key v v', CallKey.of? f.id [.integer 9007199254740992] = some key ∧
      CallKey.of? f.id [.float 9007199254740992] = some key ∧
      (s.apply f [.integer 9007199254740992] .origin).1 = .ok v ∧ v.holdsFunction = false ∧
      v.holdsNaN = false ∧ (s.apply f [.float 9007199254740992] .origin).1 = .ok v' ∧
      v'.same v = false := by
  intro word successor f s
  have hKey : CallKey.of? f.id [.float 9007199254740992] =
      some ⟨0, [.integer 9007199254740992]⟩ := by decide +kernel
  have hInteger : (s.apply f [.integer 9007199254740992] .origin).1.toOption.bind ArgKey.ofValue? =
      some (.boolean false) := by decide +kernel
  have hFloat : (s.apply f [.float 9007199254740992] .origin).1.toOption.bind ArgKey.ofValue? =
      some (.boolean true) := by decide +kernel
  obtain ⟨v, hv, hFalse⟩ := Option.bind_eq_some_iff.1 hInteger
  obtain ⟨v', hv', hTrue⟩ := Option.bind_eq_some_iff.1 hFloat
  cases Value.hasKey hFalse with
  | boolean =>
    cases Value.hasKey hTrue with
    | boolean =>
      exact ⟨_, _, _, rfl, hKey, eq_ok_of_toOption hv, rfl, rfl, eq_ok_of_toOption hv', rfl⟩

end Session

end PostLisp

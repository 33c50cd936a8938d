import PostLisp.Proofs.Reading
import PostLisp.Proofs.Scope
import PostLisp.Proofs.Simulation

/-!
# Layout and chunking do not matter

No result, no cached call and no cause of an error depends on a span.  `layout` is the
correspondence of states that differ in the spans of function bodies only, and its laws make it a
simulation.  With what `Reading` says of tokens it follows that a text can be laid out differently,
and cut into pieces between any two nodes, without a difference (`runText_append`).
-/

namespace PostLisp

/-- The functions differ at most in the spans in their bodies. -/
def Closure.SameButSpans (f g : Closure Value) : Prop :=
  f.id = g.id ∧ f.params = g.params ∧ Node.SameShapes f.body g.body

abbrev Value.SameButSpans : Value → Value → Prop := Value.Like True Closure.SameButSpans

namespace Session

/-- The sessions differ at most in the spans in function bodies, and in what was reported. -/
structure SameButSpans (s s' : Session) : Prop where
  options : s.options = s'.options
  globals : s.globals.Like True Closure.SameButSpans s'.globals
  cache : ∀ key, Value.LikeOption True Closure.SameButSpans (s.cache.find? key) (s'.cache.find? key)
  size : s.cache.size = s'.cache.size
  calls : s.calls = s'.calls
  nextId : s.nextId = s'.nextId
  depth : s.depth = s'.depth

namespace SameButSpans

variable {s s' : Session} {f f' : Closure Value} {args args' : List Value} {v v' : Value}

theorem refl (s : Session) : s.SameButSpans s where
  options := rfl
  globals := Value.LikeEntries.refl trivial
    (fun _ => ⟨rfl, rfl, Node.LikeAll.refl trivial (fun _ => trivial) _⟩) _
  cache key := by
    cases s.cache.find? key with
    | none => exact .none
    | some v =>
      exact .some (Value.Like.refl trivial
        (fun _ => ⟨rfl, rfl, Node.LikeAll.refl trivial (fun _ => trivial) _⟩) v)
  size := rfl
  calls := rfl
  nextId := rfl
  depth := rfl

theorem keyOf_eq (h : s.SameButSpans s') (hId : f.id = f'.id)
    (hArgs : Value.LikeAll True Closure.SameButSpans args args') :
    s.keyOf f args = s'.keyOf f' args' := by
  rw [keyOf, keyOf, h.options, CallKey.of?, CallKey.of?, hId, hArgs.keys_eq]

theorem entered (h : s.SameButSpans s') (cacheable : Bool) :
    (s.entered f cacheable).SameButSpans (s'.entered f' cacheable) :=
  { h with calls := congrArg (· + 1) h.calls }

theorem answered (h : s.SameButSpans s') : (s.answered f).SameButSpans (s'.answered f') :=
  { h with }

theorem returned (h : s.SameButSpans s') (key : Option CallKey) (hValue : v.SameButSpans v') :
    (s.returned key v).SameButSpans (s'.returned key v') := by
  cases key with
  | none => exact h
  | some key =>
    refine { h with cache := fun other => ?_, size := ?_ }
    · show Value.LikeOption _ _ ((s.cache.insert key v).find? other)
        ((s'.cache.insert key v').find? other)
      rw [Cache.find?_insert, Cache.find?_insert]
      split
      · exact .some hValue
      · exact h.cache other
    · show (s.cache.insert key v).size = (s'.cache.insert key v').size
      have hFound : (s.cache.find? key).isSome = (s'.cache.find? key).isSome :=
        (h.cache key).isSome_eq
      rw [Cache.size_insert, Cache.size_insert, hFound, h.size]

end SameButSpans

end Session

open Eval EvalM

/-- States that differ at most in spans; nothing is pardoned. -/
def layout : Correspondence Still where
  floats := True
  spans _ _ := True
  functions _ := Closure.SameButSpans
  states _ s s' :=
    s.session.SameButSpans s'.session ∧ s.frame.Like True Closure.SameButSpans s'.frame
  rooms := Eq
  watch := .never
  pardoned _ := False
  pardoned' _ := False

namespace layout

variable {s s' : EvalState} {w : Still}

theorem outcome_define {name : String} {v v' : Value} (hValue : v.SameButSpans v')
    (hStates : layout.states w s s') :
    layout.Outcome w (fun _ _ _ => True) ((do announce name v; EvalM.define name v : EvalM Unit) s)
      ((do announce name v'; EvalM.define name v' : EvalM Unit) s') := by
  obtain ⟨session, frame⟩ := s
  obtain ⟨session', frame'⟩ := s'
  obtain ⟨hSession, hFrame⟩ := hStates
  cases hFrame.tiers with
  | top =>
    rw [announce_define_top, announce_define_top]
    exact .ok (le_refl w) trivial
      ⟨{ hSession with globals := hSession.globals.insert name hValue }, trivial⟩
  | call hLocals hCaptured =>
    rw [announce_define_call, announce_define_call]
    exact .ok (le_refl w) trivial ⟨hSession, hLocals.insert name hValue, hCaptured⟩

theorem outcome_makeFunction {params : List String} {body body' : List Node}
    (hBody : Node.SameShapes body body') (hStates : layout.states w s s') :
    layout.Outcome w layout.Alike (makeFunction params body s) (makeFunction params body' s') := by
  obtain ⟨hSession, hFrame⟩ := hStates
  have hId := hSession.nextId
  rw [makeFunction_apply, makeFunction_apply]
  refine .ok (le_refl w) (.function ⟨hId, rfl, hBody⟩ (hFrame.innermost hSession.globals)) ⟨?_, hFrame⟩
  exact { hSession with nextId := congrArg (· + 1) hId }

theorem outcome_apply {ev ev' : Evaluator} (hEv : layout.Simulates ev ev') {f f' : Closure Value}
    {args args' : List Value} {span span' : Span} (hFunctions : f.SameButSpans f')
    (hCaptured : f.captured.Like True Closure.SameButSpans f'.captured)
    (hArgs : layout.AlikeAll w args args') (hStates : layout.states w s s') :
    layout.Outcome w layout.Alike (apply ev f args span s) (apply ev' f' args' span' s') := by
  obtain ⟨hSession, hFrame⟩ := hStates
  obtain ⟨hId, hParams, hBody⟩ := hFunctions
  have hKey := hSession.keyOf_eq hId hArgs
  by_cases hArity : args.length = f.params.length
  · have hArity' : args'.length = f'.params.length := by
      rw [← hArgs.length_eq, ← hParams, hArity]
    have hFound : Value.LikeOption True Closure.SameButSpans
        ((s.session.keyOf f args).bind s.session.cache.find?)
        ((s'.session.keyOf f' args').bind s'.session.cache.find?) := by
      rw [← hKey]
      cases s.session.keyOf f args with
      | none => exact .none
      | some key => exact hSession.cache key
    generalize hLeft : (s.session.keyOf f args).bind s.session.cache.find? = r at hFound
    generalize hRight : (s'.session.keyOf f' args').bind s'.session.cache.find? = r' at hFound
    cases hFound with
    | some hValue =>
      rw [apply_remembered hArity hLeft, apply_remembered hArity' hRight]
      exact .ok (le_refl w) hValue ⟨hSession.answered, hFrame⟩
    | none =>
      refine Comparison.outcome_apply_run hArity hArity' hLeft hRight ?_ ?_ ?_
      · refine Comparison.outcome_inOrder hEv hBody .void ⟨?_, ?_⟩
        · rw [← hKey]
          exact hSession.entered _
        · exact Frame.like_closure hParams hCaptured hArgs
      · intro w' v v' t t' _ _ _ hValue hInside
        refine ⟨?_, hFrame⟩
        rw [← hKey]
        exact hInside.1.returned _ hValue
      · intro w' t t' _ hInside
        exact ⟨hInside.1, hFrame⟩
  · exact Comparison.outcome_apply_arity hParams hArgs.length_eq trivial ⟨hSession, hFrame⟩ hArity

theorem laws : layout.Laws where
  functions_mono _ h := h
  alarm _ h := by cases h
  rooms_succ h := Nat.succ.inj h
  rooms_zero h := Or.inr ⟨h.symm, fun _ _ _ hStates => congrArg Options.maxDepth hStates.1.options⟩
  rooms_zero' h := by cases h
  enterForm h := ⟨{ h.1 with depth := congrArg (· + 1) h.1.depth }, h.2⟩
  leaveForm h := ⟨{ h.1 with depth := congrArg (· - 1) h.1.depth }, h.2⟩
  lookup _ _ h := .alike (h.2.lookup h.1.globals _)
  define _ _ _ hValue hStates := outcome_define hValue hStates
  compare _ _ _ _ hValue hNext := hValue.same_eq (fun f g f' g' h h' => by rw [h.1, h'.1]) hNext
  makeFunction := outcome_makeFunction
  apply hRooms hEv hFunctions hCaptured hArgs _ hStates :=
    outcome_apply (hEv _ hRooms) hFunctions hCaptured hArgs hStates

/-- Evaluation does not depend on spans. -/
theorem simulates_evaluate : layout.Simulates evaluate evaluate := by
  intro n n' hNodes w s s' hStates
  have hRoom : s.session.room = s'.session.room := by
    rw [Session.room, Session.room, hStates.1.options, hStates.1.depth]
  have hAll := laws.simulates hRoom
  rw [show layout.watch = .never from rfl, watchedWithin_never] at hAll
  exact hAll n n' hNodes w s s' hStates

end layout

/-! ### Programs in pieces -/

namespace Eval

theorem inOrder_append (ev : Evaluator) (last : Value) (ns ms : List Node) :
    inOrder ev last (ns ++ ms) = inOrder ev last ns >>= fun v => inOrder ev v ms := by
  induction ns generalizing last with
  | nil => rfl
  | cons n ns ih =>
    show (ev n >>= fun v => inOrder ev v (ns ++ ms)) = (ev n >>= fun v => inOrder ev v ns) >>= _
    rw [bind_assoc]
    exact congrArg (ev n >>= ·) (funext fun v => ih v)

/-- Where there is a node, the value before it is forgotten. -/
theorem inOrder_of_ne_nil (ev : Evaluator) (last last' : Value) {ns : List Node} (hNodes : ns ≠ []) :
    inOrder ev last ns = inOrder ev last' ns := by
  cases ns with
  | nil => exact absurd rfl hNodes
  | cons n ns => rfl

/-- A program leaves the frame at top level. -/
theorem frame_inOrder_top {ns : List Node} {last v : Value} {s : Session} {t : EvalState}
    (h : inOrder evaluate last ns ⟨s, .top⟩ = .ok v t) : t.frame = .top := by
  have hEv : ∀ n ∈ ns, Moves (Innermost fun _ => True) (evaluate n) := fun n _ s =>
    (evaluateWithin_innermost s.session.room n s).mono fun _ _ => trivial
  have hMoves := moves_inOrder hEv last ⟨s, .top⟩
  rw [final_ok h] at hMoves
  exact hMoves.frame_of_top rfl

end Eval

namespace Session

theorem run_append_of_ok {s : Session} {first second : List Node} {v : Value}
    (hSecond : second ≠ []) (h : (s.run first).1 = .ok v) :
    s.run (first ++ second) = (s.run first).2.run second := by
  rw [run, perform] at h
  rw [run, run, run, perform, perform, perform, inOrder_append]
  cases hRun : inOrder Eval.evaluate .void first ⟨s, .top⟩ with
  | error e t =>
    rw [hRun] at h
    cases h
  | ok v t =>
    have hFrame := frame_inOrder_top hRun
    rw [bind_ok hRun, inOrder_of_ne_nil Eval.evaluate v .void hSecond]
    obtain ⟨session, frame⟩ := t
    subst hFrame
    rfl

theorem run_append_of_error {s : Session} {first : List Node} {e : EvalError} (second : List Node)
    (h : (s.run first).1 = .error e) : s.run (first ++ second) = s.run first := by
  rw [run, perform] at h
  rw [run, run, perform, perform, inOrder_append]
  cases hRun : inOrder Eval.evaluate .void first ⟨s, .top⟩ with
  | error e t => rw [bind_error hRun]
  | ok v t =>
    rw [hRun] at h
    cases h

/-- The runs end in the same value or the same error, in the same session, all but for spans. -/
inductive SameRuns : Except RunError Value × Session → Except RunError Value × Session → Prop
  | ok {v v' : Value} {s s' : Session} (hValue : v.SameButSpans v') (hSession : s.SameButSpans s') :
      SameRuns (.ok v, s) (.ok v', s')
  | error {e e' : EvalError} {s s' : Session} (hFault : e.fault = e'.fault)
      (hSession : s.SameButSpans s') : SameRuns (.error (.eval e), s) (.error (.eval e'), s')

theorem runText_of_ofString {s : Session} {text : String} {program : List Node}
    (h : Program.ofString text = .ok program) :
    s.runText text = ((s.run program).1.mapError .eval, (s.run program).2) := by
  rw [runText, h]

/-- Programs of the same shape run in the same way. -/
theorem sameRuns_of_sameShapes (s : Session) {program program' : List Node}
    (h : Node.SameShapes program program') :
    SameRuns ((s.run program).1.mapError .eval, (s.run program).2)
      ((s.run program').1.mapError .eval, (s.run program').2) := by
  have hStates : layout.states ⟨⟩ ⟨s, .top⟩ ⟨s, .top⟩ := ⟨.refl s, trivial⟩
  have hOutcome := Comparison.outcome_inOrder layout.simulates_evaluate h .void hStates
  rw [run, run, perform, perform]
  generalize inOrder Eval.evaluate .void program ⟨s, .top⟩ = r at hOutcome
  generalize inOrder Eval.evaluate .void program' ⟨s, .top⟩ = r' at hOutcome
  cases hOutcome with
  | pardoned h => exact h.elim
  | pardoned' h => exact h.elim
  | ok _ hValue hStates => exact .ok hValue hStates.1
  | error _ hFault _ hStates => exact .error hFault hStates.1

/-- **Neither layout nor chunking matters.**  A text whose tokens are those of two texts that can
be read, the second one not empty, can be read too, and running it is running the one and then, if
that succeeds, the other. -/
theorem runText_append {a b t : String} {first second : List Node}
    (hFirst : Program.ofString a = .ok first) (hSecond : Program.ofString b = .ok second)
    (hTokens : Token.ofString b ≠ [])
    (hKinds : (Token.ofString t).map (·.kind) =
      (Token.ofString a).map (·.kind) ++ (Token.ofString b).map (·.kind)) :
    (∃ program, Program.ofString t = .ok program) ∧ ∀ s : Session,
      (∀ v, (s.runText a).1 = .ok v →
        SameRuns ((s.runText a).2.runText b) (s.runText t)) ∧
      (∀ e, (s.runText a).1 = .error e → SameRuns (s.runText a) (s.runText t)) := by
  obtain ⟨program, hProgram, hShapes⟩ := Program.ofTokens_append hFirst hSecond hKinds
  refine ⟨⟨program, hProgram⟩, fun s => ?_⟩
  have hSame := s.sameRuns_of_sameShapes hShapes
  rw [← runText_of_ofString hProgram] at hSame
  have hRun := runText_of_ofString (s := s) hFirst
  constructor
  · intro v hValue
    rw [hRun] at hValue ⊢
    rw [runText_of_ofString hSecond]
    cases hResult : (s.run first).1 with
    | error e =>
      rw [hResult] at hValue
      cases hValue
    | ok w =>
      rwa [run_append_of_ok (Program.ofTokens_ne_nil hSecond hTokens) hResult] at hSame
  · intro e hError
    rw [hRun] at hError ⊢
    cases hResult : (s.run first).1 with
    | ok w =>
      rw [hResult] at hError
      cases hError
    | error e' =>
      rw [run_append_of_error second hResult, hResult] at hSame
      exact hSame

/-- A definition on one line and a use of it on the next. -/
theorem runText_append_lines :
    SameRuns (((Session.new ⟨true, 1⟩).runText "(x 1 define)").2.runText "x")
      ((Session.new ⟨true, 1⟩).runText "( x 1 define)\n  x") := by
  have hBoth := runText_append (a := "(x 1 define)") (b := "x") (t := "( x 1 define)\n  x") rfl rfl
    (List.cons_ne_nil _ _) rfl
  exact (hBoth.2 (.new ⟨true, 1⟩)).1 .void rfl

end Session

end PostLisp

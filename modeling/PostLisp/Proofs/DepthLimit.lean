import PostLisp.Proofs.Recursion
import PostLisp.Proofs.Undisturbed

/-!
# The limit of depth is only a cut-off

Two sessions that differ only in how deep list forms may nest are the same session until the one
with the lower limit fails for being too deep.  `deeper` is the correspondence of states that are
equal but for the limit; the room of the first run is at most that of the second, and an error of
depth in the first run ends the comparison.  Nothing else looks at the limit, and the depth is back
to what it was after every form, so what the cut-off leaves of a run is what the other run has
there.
-/

namespace PostLisp

open Eval EvalM

namespace Session

/-- The session with another limit of depth. -/
def withLimit (s : Session) (limit : Nat) : Session :=
  { s with options := { s.options with maxDepth := limit } }

theorem keyOf_withLimit (s : Session) (limit : Nat) (f : Closure Value) (args : List Value) :
    (s.withLimit limit).keyOf f args = s.keyOf f args := rfl

theorem entered_withLimit (s : Session) (limit : Nat) (f : Closure Value) (cacheable : Bool) :
    (s.withLimit limit).entered f cacheable = (s.entered f cacheable).withLimit limit := rfl

theorem returned_withLimit (s : Session) (limit : Nat) (key : Option CallKey) (v : Value) :
    (s.withLimit limit).returned key v = (s.returned key v).withLimit limit := by
  cases key <;> rfl

/-- A higher limit leaves more room. -/
theorem room_le_room_withLimit {s : Session} {limit : Nat} (hLimit : s.options.maxDepth ≤ limit) :
    s.room ≤ (s.withLimit limit).room := by
  show s.options.maxDepth - s.depth ≤ limit - s.depth
  omega

end Session

/-- States that are equal but for the limit, which is `limit` in the second one and no higher in
the first. -/
def deeper (limit : Nat) : Correspondence Still where
  floats := True
  spans := Eq
  functions _ := Eq
  states _ s s' :=
    s.session.options.maxDepth ≤ limit ∧ s' = ⟨s.session.withLimit limit, s.frame⟩
  rooms room room' := room ≤ room'
  watch := .never
  pardoned e := ∃ deepest, e.fault = .tooDeep deepest
  pardoned' _ := False

namespace deeper

variable {limit : Nat} {w : Still} {s : EvalState}

theorem alike_refl (v : Value) : (deeper limit).Alike w v v :=
  Value.Like.refl trivial (fun _ => rfl) v

theorem outcome_define (name : String) (v : Value)
    (hLimit : s.session.options.maxDepth ≤ limit) :
    (deeper limit).Outcome w (fun _ _ _ => True)
      ((do announce name v; EvalM.define name v : EvalM Unit) s)
      ((do announce name v; EvalM.define name v : EvalM Unit)
        ⟨s.session.withLimit limit, s.frame⟩) := by
  obtain ⟨session, frame⟩ := s
  cases frame with
  | top => exact .ok (le_refl w) trivial ⟨hLimit, rfl⟩
  | call locals captured => exact .ok (le_refl w) trivial ⟨hLimit, rfl⟩

theorem outcome_apply {ev ev' : Evaluator} (hEv : (deeper limit).Simulates ev ev')
    (f : Closure Value) (args : List Value) (span : Span)
    (hLimit : s.session.options.maxDepth ≤ limit) :
    (deeper limit).Outcome w (deeper limit).Alike (apply ev f args span s)
      (apply ev' f args span ⟨s.session.withLimit limit, s.frame⟩) := by
  have hStates : (deeper limit).states w s ⟨s.session.withLimit limit, s.frame⟩ := ⟨hLimit, rfl⟩
  have hArgs : (deeper limit).AlikeAll w args args := Value.LikeAll.refl trivial (fun _ => rfl) args
  by_cases hArity : args.length = f.params.length
  · cases hFound : (s.session.keyOf f args).bind s.session.cache.find? with
    | some v =>
      have hAnswer' : apply ev' f args span ⟨s.session.withLimit limit, s.frame⟩ =
          .ok v ⟨(s.session.withLimit limit).answered f, s.frame⟩ := apply_remembered hArity hFound
      rw [apply_remembered hArity hFound, hAnswer']
      exact .ok (le_refl w) (alike_refl v) ⟨hLimit, rfl⟩
    | none =>
      have hBody : (deeper limit).AlikeNodes f.body f.body :=
        Node.LikeAll.refl trivial (fun _ => rfl) _
      refine Comparison.outcome_apply_run hArity hArity hFound hFound ?_ ?_ ?_
      · refine Comparison.outcome_inOrder hEv hBody .void ⟨hLimit, ?_⟩
        rw [Session.keyOf_withLimit, Session.entered_withLimit]
      · rintro w' v v' t t' - - - hValue ⟨hInside, rfl⟩
        rw [← hValue.eq, Session.keyOf_withLimit, Session.returned_withLimit]
        refine ⟨?_, rfl⟩
        cases s.session.keyOf f args <;> exact hInside
      · rintro w' t t' - ⟨hInside, rfl⟩
        exact ⟨hInside, rfl⟩
  · exact Comparison.outcome_apply_arity rfl hArgs.length_eq rfl hStates hArity

theorem laws (limit : Nat) : (deeper limit).Laws where
  functions_mono _ h := h
  alarm _ h := by cases h
  rooms_succ h := Nat.le_of_succ_le_succ h
  rooms_zero _ := Or.inl fun deepest _ => ⟨deepest, rfl⟩
  rooms_zero' h := by cases h
  enterForm := by
    rintro _ s _ ⟨hLimit, rfl⟩
    exact ⟨hLimit, rfl⟩
  leaveForm := by
    rintro _ s _ ⟨hLimit, rfl⟩
    exact ⟨hLimit, rfl⟩
  lookup := by
    rintro _ _ _ name s _ - - ⟨hLimit, rfl⟩
    show (deeper limit).Found _ (s.frame.lookup s.session.globals name)
      (s.frame.lookup s.session.globals name)
    refine .alike ?_
    cases s.frame.lookup s.session.globals name with
    | none => exact .none
    | some v => exact .some (alike_refl v)
  define := by
    rintro _ _ _ _ _ _ name _ t _ v v' - - - hValue ⟨hLimit, rfl⟩
    rw [← hValue.eq]
    exact outcome_define name v hLimit
  compare _ _ _ _ hValue hNext := by rw [hValue.eq, hNext.eq]
  makeFunction := by
    rintro _ params body body' s _ hBody ⟨hLimit, rfl⟩
    rw [← hBody.eq]
    exact .ok (le_refl _) (alike_refl _) ⟨hLimit, rfl⟩
  apply := by
    rintro _ room room' f _ args args' span _ s _ hRooms hEv rfl - hArgs rfl ⟨hLimit, rfl⟩
    rw [← hArgs.eq]
    exact outcome_apply (hEv _ hRooms) f args span hLimit

/-- Evaluation with what room there is. -/
theorem simulates_evaluate (limit : Nat) : (deeper limit).Simulates evaluate evaluate := by
  rintro n n' hNodes w s s' ⟨hLimit, rfl⟩
  have hAll := (laws limit).simulates (Session.room_le_room_withLimit hLimit)
  rw [show (deeper limit).watch = .never from rfl, watchedWithin_never] at hAll
  exact hAll n n' hNodes w s _ ⟨hLimit, rfl⟩

end deeper

/-! ### Sessions -/

namespace Session

/-- The result of a text that nests too deep. -/
def EndsTooDeep (result : Except RunError Value) : Prop :=
  ∃ deepest span, result = .error (.eval ⟨.tooDeep deepest, span⟩)

/-- One text, as long as it does not nest too deep for the lower limit. -/
theorem runText_withLimit {s : Session} {limit : Nat} (hLimit : s.options.maxDepth ≤ limit)
    {text : String} (hCalm : ¬ EndsTooDeep (s.runText text).1) :
    (s.withLimit limit).runText text =
      ((s.runText text).1, (s.runText text).2.withLimit limit) := by
  rw [runText, runText] at *
  cases hProgram : Program.ofString text with
  | error e => rfl
  | ok program =>
    rw [hProgram] at hCalm
    have hNodes : (deeper limit).AlikeNodes program program :=
      Node.LikeAll.refl trivial (fun _ => rfl) program
    have hStates : (deeper limit).states ⟨⟩ ⟨s, .top⟩ ⟨s.withLimit limit, .top⟩ := ⟨hLimit, rfl⟩
    have hOutcome := Comparison.outcome_inOrder (deeper.simulates_evaluate limit) hNodes .void
      hStates
    dsimp only at hCalm ⊢
    rw [run, perform] at hCalm
    rw [run, run, perform, perform]
    generalize inOrder Eval.evaluate .void program ⟨s, .top⟩ = r at hOutcome hCalm
    generalize inOrder Eval.evaluate .void program ⟨s.withLimit limit, .top⟩ = r' at hOutcome
    cases hOutcome with
    | @pardoned e t _ hDeep =>
      obtain ⟨fault, span⟩ := e
      obtain ⟨deepest, rfl⟩ := hDeep
      exact absurd ⟨deepest, span, rfl⟩ hCalm
    | pardoned' hNever => exact hNever.elim
    | ok _ hValue hStates =>
      obtain ⟨-, rfl⟩ := hStates
      rw [hValue.eq]
    | @error _ e e' _ _ _ hFault hSpan hStates =>
      obtain ⟨-, rfl⟩ := hStates
      cases EvalError.eq_of_parts hFault hSpan
      rfl

/-- A text leaves the options alone. -/
theorem options_runText (s : Session) (text : String) :
    (s.runText text).2.options = s.options := by
  have hNode (n : Node) : Moves (fun s t => s.session.Counted t.session) (Eval.evaluate n) :=
    fun t => evaluateWithin_counted t.session.room n t
  obtain ⟨frame, hCounted⟩ := s.moves_runText hNode text
  exact hCounted.options

/-- Texts one after the other, as long as none of them nests too deep for the lower limit. -/
theorem take_runAll_withLimit {s : Session} {limit : Nat} (hLimit : s.options.maxDepth ≤ limit)
    {texts : List String} {n : Nat}
    (hCalm : ∀ step ∈ (s.runAll texts).take n, ¬ EndsTooDeep step.1) :
    ((s.withLimit limit).runAll texts).take n =
      ((s.runAll texts).take n).map fun step => (step.1, step.2.withLimit limit) := by
  induction texts generalizing s n with
  | nil => simp [runAll, runAllBy]
  | cons text texts ih =>
    cases n with
    | zero => rfl
    | succ n =>
      have hFirst : ¬ EndsTooDeep (s.runText text).1 := hCalm (s.runText text) List.mem_cons_self
      have hText := runText_withLimit hLimit hFirst
      have hNext : (s.runText text).2.options.maxDepth ≤ limit := by
        rw [options_runText]
        exact hLimit
      have hRest := ih hNext fun step hStep => hCalm step (List.mem_cons_of_mem _ hStep)
      show (s.withLimit limit).runText text ::
          (((s.withLimit limit).runText text).2.runAll texts).take n =
        ((s.runText text).1, (s.runText text).2.withLimit limit) ::
          (((s.runText text).2.runAll texts).take n).map _
      rw [hText, hRest]

/-- **The limit of depth is only a cut-off.**  Of two new sessions that differ in their limits, the
one with the higher limit takes the steps of the other: the same results, and the same sessions but
for the limit, up to the first text that nests too deep for the lower one. -/
theorem limit_only_cuts_off (memoize : Bool) {limit limit' : Nat} (hLimit : limit ≤ limit')
    (texts : List String) (n : Nat)
    (hCalm : ∀ step ∈ ((Session.new ⟨memoize, limit⟩).runAll texts).take n, ¬ EndsTooDeep step.1) :
    ((Session.new ⟨memoize, limit'⟩).runAll texts).take n =
      (((Session.new ⟨memoize, limit⟩).runAll texts).take n).map fun step =>
        (step.1, step.2.withLimit limit') :=
  take_runAll_withLimit (s := .new ⟨memoize, limit⟩) hLimit hCalm

/-- With limits one and two the first text is the same, and the second is too deep for the lower
limit. -/
theorem limit_only_cuts_off_second :
    let texts := ["(x 1 define)", "((x x +) x +)"]
    ((Session.new ⟨true, 2⟩).runAll texts).take 1 =
        (((Session.new ⟨true, 1⟩).runAll texts).take 1).map (fun step =>
          (step.1, step.2.withLimit 2)) ∧
      ∃ step ∈ (Session.new ⟨true, 1⟩).runAll texts, EndsTooDeep step.1 := by
  intro texts
  have hFirst : ((Session.new ⟨true, 1⟩).runText "(x 1 define)").1 = .ok .void := rfl
  refine ⟨limit_only_cuts_off true (by decide) texts 1 fun step hStep => ?_, ?_⟩
  · have hOnly : step = (Session.new ⟨true, 1⟩).runText "(x 1 define)" := List.mem_singleton.1 hStep
    rw [hOnly, hFirst]
    rintro ⟨deepest, span, hDeep⟩
    cases hDeep
  · exact ⟨_, List.mem_cons_of_mem _ List.mem_cons_self, 1, ⟨1, 8⟩, rfl⟩

end Session

end PostLisp

import Mathlib.Data.Nat.Basic
import PostLisp.Proofs.Simulation
import PostLisp.Proofs.WriteOnce

/-!
# Runs that keep to some functions

A run can call no functions but those in its reach: in the frame where it starts, among the globals,
among the results that are remembered for these functions, and the ones that it makes itself.  A
territory says which functions these may be.  A run that starts in a territory keeps to it, and it
leaves the results alone that are remembered for functions outside (`keepingTo`).  The run is
compared with itself, but for the errors with which it stops before a call.
-/

namespace PostLisp

open Eval EvalM

/-- Functions that a run may come by, with the identities for which their results are remembered.
The functions that the run makes itself, from the identity `start` on, are among them; `cache` is what
was remembered when it started. -/
structure Territory where
  functions : Closure Value → Prop
  identities : Nat → Prop
  start : Nat
  cache : Cache
  identity : ∀ f, functions f → identities f.id
  made : ∀ f, start ≤ f.id → functions f

namespace Territory

variable (T : Territory)

/-- One function of the territory, with an identity below `n`. -/
structure Holds (n : Nat) (f g : Closure Value) : Prop where
  same : f = g
  inside : T.functions f
  below : f.id < n

/-- The state keeps to the territory. -/
structure Keeps (n : Nat) (s : EvalState) : Prop where
  nextId : s.session.nextId = n
  start : T.start ≤ n
  globals : s.session.globals.Like True (T.Holds n) s.session.globals
  frame : s.frame.Like True (T.Holds n) s.frame
  keys : ∀ key v, s.session.cache.find? key = some v → key.function < n
  results : ∀ key v, s.session.cache.find? key = some v → T.identities key.function →
    Value.Like True (T.Holds n) v v
  others : ∀ key, ¬ T.identities key.function → s.session.cache.find? key = T.cache.find? key

variable {T} {n m : Nat} {s t : EvalState}

theorem Holds.mono (h : n ≤ m) {f g : Closure Value} (hHolds : T.Holds n f g) : T.Holds m f g :=
  { hHolds with below := Nat.lt_of_lt_of_le hHolds.below h }

theorem eq_of_holds {v w : Value} (h : Value.Like True (T.Holds n) v w) : v = w := by
  have hSame : Value.Like True Eq v w := h.mono fun _ _ hf => hf.same
  exact hSame.eq

theorem eq_of_holdsAll {vs ws : List Value} (h : Value.LikeAll True (T.Holds n) vs ws) : vs = ws := by
  have hSame : Value.LikeAll True Eq vs ws := h.mono fun _ _ hf => hf.same
  exact hSame.eq

namespace Keeps

/-- A step that leaves the global bindings and the cache alone. -/
theorem keep (h : T.Keeps n s) (hMore : n ≤ m) (hNextId : t.session.nextId = m)
    (hFrame : t.frame.Like True (T.Holds m) t.frame)
    (hGlobals : t.session.globals = s.session.globals) (hCache : t.session.cache = s.session.cache) :
    T.Keeps m t where
  nextId := hNextId
  start := Nat.le_trans h.start hMore
  globals := by
    rw [hGlobals]
    exact h.globals.mono fun _ _ => Holds.mono hMore
  frame := hFrame
  keys key v hFound := by
    rw [hCache] at hFound
    exact Nat.lt_of_lt_of_le (h.keys key v hFound) hMore
  results key v hFound hIdentity := by
    rw [hCache] at hFound
    exact (h.results key v hFound hIdentity).mono fun _ _ => Holds.mono hMore
  others key hIdentity := by
    rw [hCache]
    exact h.others key hIdentity

/-- The same session around another frame. -/
theorem inFrame (h : T.Keeps n s) {session : Session} {frame : Frame}
    (hFrame : frame.Like True (T.Holds n) frame) (hNextId : session.nextId = s.session.nextId)
    (hGlobals : session.globals = s.session.globals) (hCache : session.cache = s.session.cache) :
    T.Keeps n ⟨session, frame⟩ :=
  h.keep (Nat.le_refl n) (hNextId.trans h.nextId) hFrame hGlobals hCache

theorem define_top {session : Session} {events : List Event} (h : T.Keeps n ⟨session, .top⟩)
    (name : String) {v : Value} (hValue : Value.Like True (T.Holds n) v v) :
    T.Keeps n ⟨{ session with globals := session.globals.insert name v, events }, .top⟩ :=
  { h with globals := h.globals.insert name hValue }

theorem define_call {session : Session} {locals captured : Bindings Value}
    (h : T.Keeps n ⟨session, .call locals captured⟩) (name : String) {v : Value}
    (hValue : Value.Like True (T.Holds n) v v) :
    T.Keeps n ⟨session, .call (locals.insert name v) captured⟩ :=
  h.inFrame ⟨h.frame.1.insert name hValue, h.frame.2⟩ rfl rfl rfl

/-- A result of a function of the territory is remembered. -/
theorem returned {f : Closure Value} {args : List Value} {u : EvalState} {v : Value}
    (h : T.Keeps n t) (hFunction : T.Holds n f f) (hValue : Value.Like True (T.Holds n) v v)
    (hFrame : u.frame.Like True (T.Holds n) u.frame) :
    T.Keeps n ⟨t.session.returned (s.session.keyOf f args) v, u.frame⟩ := by
  cases hKey : s.session.keyOf f args with
  | none => exact h.inFrame hFrame rfl rfl rfl
  | some key =>
    obtain ⟨hId, -⟩ := Session.keyOf_eq_some hKey
    refine { h with frame := hFrame, keys := fun other x hFound => ?_, results := ?_, others := ?_ }
    · rcases Session.find?_returned hFound with hBefore | ⟨hSame, -⟩
      · exact h.keys other x hBefore
      · cases hSame
        rw [hId]
        exact hFunction.below
    · intro other x hFound hIdentity
      rcases Session.find?_returned hFound with hBefore | ⟨-, rfl⟩
      · exact h.results other x hBefore hIdentity
      · exact hValue
    · intro other hIdentity
      show (t.session.cache.insert key v).find? other = _
      rw [Cache.find?_insert, if_neg, h.others other hIdentity]
      rintro rfl
      rw [hId] at hIdentity
      exact hIdentity (T.identity f hFunction.inside)

end Keeps

/-- All functions, of which `f` is the only one with its identity. -/
def around (f : Closure Value) (s : Session) (hBelow : f.id < s.nextId) : Territory where
  functions g := g.id = f.id → g = f
  identities _ := True
  start := s.nextId
  cache := s.cache
  identity _ _ := trivial
  made _ hNew hId := absurd hBelow (Nat.not_lt.2 (hId ▸ hNew))

end Territory

/-! ### The comparison of a run with itself -/


/-- Equality of states that keep to a territory; nothing is pardoned. -/
def keepingTo (T : Territory) : Correspondence Nat where
  floats := True
  spans := Eq
  functions := T.Holds
  states n s s' := s' = s ∧ T.Keeps n s
  rooms := Eq
  watch := .never
  pardoned _ := False
  pardoned' _ := False

namespace keepingTo

variable {T : Territory} {n : Nat} {s : EvalState}

theorem stepLaws (left : Nat → Evaluator) : (keepingTo T).StepLaws left where
  functions_mono hMore h := h.mono hMore
  alarm _ h := by cases h
  rooms_succ h := Nat.succ.inj h
  rooms_zero h := Or.inr ⟨h.symm, fun _ _ _ hStates => by rw [hStates.1]⟩
  rooms_zero' h := by cases h
  enterForm := by
    rintro n s s' ⟨rfl, h⟩
    exact ⟨rfl, h.inFrame h.frame rfl rfl rfl⟩
  leaveForm := by
    rintro n s s' ⟨rfl, h⟩
    exact ⟨rfl, h.inFrame h.frame rfl rfl rfl⟩
  lookup := by
    rintro n room node name s s' - - ⟨rfl, h⟩
    exact .alike (h.frame.lookup h.globals name)
  define := by
    rintro n room span target expression operator name s t t' v v' - - - hValue ⟨rfl, h⟩
    have hSame := Territory.eq_of_holds hValue
    subst hSame
    obtain ⟨session, frame⟩ := t'
    cases frame with
    | top =>
      rw [announce_define_top]
      exact .ok (Nat.le_refl n) trivial ⟨rfl, h.define_top name hValue⟩
    | call locals captured =>
      rw [announce_define_call]
      exact .ok (Nat.le_refl n) trivial ⟨rfl, h.define_call name hValue⟩
  compare := by
    intro n room span first second operator s t u v v' x x' _ _ _ _ hValue hNext
    rw [Territory.eq_of_holds hValue, Territory.eq_of_holds hNext]
  makeFunction := by
    rintro n params body body' s s' hBody ⟨rfl, h⟩
    have hSame := hBody.eq
    subst hSame
    have hMore : n ≤ n + 1 := Nat.le_succ n
    rw [makeFunction_apply]
    refine .ok hMore (.function ⟨rfl, T.made _ ?_, ?_⟩ ?_) ⟨rfl, h.keep hMore ?_ ?_ rfl rfl⟩
    · exact h.nextId ▸ h.start
    · exact Nat.lt_succ_of_le (Nat.le_of_eq h.nextId)
    · exact (h.frame.innermost h.globals).mono fun _ _ => Territory.Holds.mono hMore
    · exact congrArg (· + 1) h.nextId
    · exact h.frame.mono fun _ _ => Territory.Holds.mono hMore

/-- A call. -/
theorem outcome_apply {ev ev' : Evaluator} {f : Closure Value} {args : List Value} {span : Span}
    (hEv : (keepingTo T).Simulates ev ev') (hFunction : T.Holds n f f)
    (hCaptured : f.captured.Like True (T.Holds n) f.captured)
    (hArgs : (keepingTo T).AlikeAll n args args) (h : T.Keeps n s) :
    (keepingTo T).Outcome n (keepingTo T).Alike (apply ev f args span s) (apply ev' f args span s) := by
  by_cases hArity : args.length = f.params.length
  · cases hFound : (s.session.keyOf f args).bind s.session.cache.find? with
    | some v =>
      obtain ⟨key, hKey, hCached⟩ := Option.bind_eq_some_iff.1 hFound
      rw [apply_remembered hArity hFound, apply_remembered hArity hFound]
      refine .ok (Nat.le_refl n) (h.results key v hCached ?_) ⟨rfl, h.inFrame h.frame rfl rfl rfl⟩
      rw [(Session.keyOf_eq_some hKey).1]
      exact T.identity f hFunction.inside
    | none =>
      refine Comparison.outcome_apply_run hArity hArity hFound hFound ?_ ?_ ?_
      · exact Comparison.outcome_inOrder hEv (Node.LikeAll.refl trivial (fun _ => rfl) f.body) .void
          ⟨rfl, h.inFrame (Frame.like_closure rfl hCaptured hArgs) rfl rfl rfl⟩
      · rintro m v v' t t' hMore - - hValue ⟨rfl, hInside⟩
        have hSame := Territory.eq_of_holds hValue
        subst hSame
        exact ⟨rfl, hInside.returned (hFunction.mono hMore) hValue
          (h.frame.mono fun _ _ => Territory.Holds.mono hMore)⟩
      · rintro m t t' hMore ⟨rfl, hInside⟩
        exact ⟨rfl, hInside.inFrame (h.frame.mono fun _ _ => Territory.Holds.mono hMore) rfl rfl rfl⟩
  · exact Comparison.outcome_apply_arity rfl hArgs.length_eq rfl ⟨rfl, h⟩ hArity

/-- A call by `upTo`, in two runs that report the call with the key alike. -/
theorem outcome_upTo {key : CallKey} {final : Session} {stop stop' : Closure Value → EvalError}
    {late : EvalError} (hStop : ∀ f, T.functions f → f.id = key.function → stop f = stop' f)
    {ev ev' : List Pending → Evaluator} {pending pending' : List Pending} {f : Closure Value}
    {args : List Value} {span : Span}
    (hEv : (keepingTo T).Simulates (ev pending) (ev' pending')) (hFunction : T.Holds n f f)
    (hCaptured : f.captured.Like True (T.Holds n) f.captured)
    (hArgs : (keepingTo T).AlikeAll n args args) (h : T.Keeps n s) :
    (keepingTo T).Outcome n (keepingTo T).Alike
      (Caller.upTo key final stop late pending ev f args span s)
      (Caller.upTo key final stop' late pending' ev' f args span s) := by
  by_cases hKey : s.session.keyOf f args = some key
  · rw [Caller.upTo_stopped hKey, Caller.upTo_stopped hKey,
      hStop f hFunction.inside (Session.keyOf_eq_some hKey).1.symm]
    exact .error (Nat.le_refl n) rfl rfl ⟨rfl, h⟩
  · have hCall : (keepingTo T).Outcome n (keepingTo T).Alike (apply (ev pending) f args span s)
        (apply (ev' pending') f args span s) := outcome_apply hEv hFunction hCaptured hArgs h
    rw [Caller.upTo, Caller.upTo, if_neg hKey, if_neg hKey]
    generalize apply (ev pending) f args span s = r at hCall
    generalize apply (ev' pending') f args span s = r' at hCall
    cases hCall with
    | pardoned h => exact h.elim
    | pardoned' h => exact h.elim
    | @ok m v v' _ t hMore hValue hStates =>
      obtain ⟨rfl, hNext⟩ := hStates
      by_cases hFinal : t.session.Keeps final
      · simp only [if_pos hFinal]
        exact .ok hMore hValue ⟨rfl, hNext⟩
      · simp only [if_neg hFinal]
        exact .error hMore rfl rfl ⟨rfl, hNext⟩
    | @error m e e' _ t hMore hFault hSpan hStates =>
      obtain ⟨rfl, hNext⟩ := hStates
      dsimp only
      split
      · exact .error hMore rfl rfl ⟨rfl, hNext⟩
      · exact .error hMore hFault hSpan ⟨rfl, hNext⟩

/-- **A run that makes its calls by `upTo` keeps to its territory.** -/
theorem simulates_upTo {key : CallKey} {final : Session} {stop stop' : Closure Value → EvalError}
    {late : EvalError} (hStop : ∀ f, T.functions f → f.id = key.function → stop f = stop' f)
    (pending : List Pending) (room : Nat) :
    (keepingTo T).Simulates (evaluateBy (.upTo key final stop late) pending room)
      (evaluateBy (.upTo key final stop' late) pending room) := by
  refine Correspondence.StepLaws.simulates_evaluateBy (fun _ => stepLaws _) (fun _ _ _ => rfl) Eq ?_
    rfl rfl
  rintro room _ pending _ rfl rfl hEv n f f' args args' span span' s s' hFunction hCaptured hArgs rfl
    ⟨rfl, h⟩
  have hSame := hFunction.same
  subst hSame
  have hSame := Territory.eq_of_holdsAll hArgs
  subst hSame
  exact outcome_upTo hStop (hEv pending pending rfl) hFunction hCaptured hArgs h

end keepingTo

end PostLisp

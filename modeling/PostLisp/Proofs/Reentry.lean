import PostLisp.Proofs.Registered
import PostLisp.Proofs.SideBySide

/-!
# A call does not end while the same call is in progress

A call that needs its own result does not end.  So when the body of a call has ended, no call of the
same function with the same arguments has ended on the way, and there is no result for it yet
(`not_remembered`).  Otherwise take the first such call that was reached.  Its body was run as well,
and in the end no call like it had been remembered, so it came to none.  But it ran side by side with
the run of the first body, which did come to one.
-/

namespace PostLisp

open Eval EvalM

namespace Eval

variable {e e' : EvalError} {p : Pending} {s u t : EvalState} {f : Closure Value}

/-- A call that was reached has left its result. -/
theorem Reached.remembered (h : Reached e e' p s u t f) :
    (t.session.cache.find? p.key).isSome := by
  obtain ⟨pending, room, span, v, x, hPending, hCall, hKeeps⟩ := h.call
  obtain ⟨-, hApply⟩ := Caller.of_once_ok hCall
  obtain ⟨-, hRemembered⟩ := of_apply_ok hApply
  rw [hKeeps.entries _ _ (hRemembered p.key h.key)]
  rfl

/-- A call that was reached before there was a result for it has run its body, and there was none
when the body had ended. -/
theorem Reached.body (h : Reached e e' p s u t f) (hMissing : u.session.cache.find? p.key = none) :
    ∃ pending room v x, p ∈ pending ∧ inOrder (carefully e e' pending room) .void f.body
      ⟨u.session.entered f true, f.frame p.args⟩ = .ok v x ∧ x.session.cache.find? p.key = none := by
  obtain ⟨pending, room, span, v, x, hPending, hCall, hKeeps⟩ := h.call
  obtain ⟨hNew, hApply⟩ := Caller.of_once_ok hCall
  have hEnds := apply_ends (carefully e e' pending room) f p.args span u
  rw [hApply] at hEnds
  cases hEnds with
  | remembered hArity hFound =>
    rw [h.key, Option.bind_some, hMissing] at hFound
    cases hFound
  | @returned _ y hArity hNone hBody =>
    have hAfter := new_of_not_replaces hNew hArity hNone h.key hBody
    rw [h.key] at hBody
    exact ⟨pending, room, v, y, hPending, hBody, hAfter⟩

/-- A body that is run carefully can be run up to the pending call. -/
theorem upToCall_body {pending : List Pending} {room : Nat} (hPending : p ∈ pending) (last : Value)
    {ns : List Node} {v : Value} (hRun : inOrder (carefully e e' pending room) last ns s = .ok v t) :
    UpToCall e e' p (fun stop final =>
      inOrder (evaluateBy (.upTo p.key final stop late) [] room) last ns s) s v t :=
  (asks_inOrder last ns).upToCall (moves_keeps_carefully e e' pending room)
    (fun _ _ _ _ hNode => upToCall_carefully hPending hNode) hRun

end Eval

section

variable {f : Closure Value} {args : List Value} {s : Session} {hBelow : f.id < s.nextId}
  {key : CallKey}

/-- The call with the key before which a run of `f` stops is one of `f`. -/
theorem function_of_stopped
    (hStart : (Territory.around f s hBelow).Keeps s.nextId ⟨s.entered f true, f.frame args⟩)
    (hId : key.function = f.id) {final : Session} {room : Nat} {g : Closure Value} {x : EvalState}
    (hStopped : ∀ stop, inOrder (evaluateBy (.upTo key final stop late) [] room) .void f.body
      ⟨s.entered f true, f.frame args⟩ = .error (stop g) x) :
    g = f ∧ (Territory.around f s hBelow).Keeps x.session.nextId x := by
  classical
  -- a run that reports another error for other functions ends with the same error
  let stop (h : Closure Value) : EvalError := if h = f then stopped else late
  have hSimulates : (keepingTo (.around f s hBelow)).Simulates
      (evaluateBy (.upTo key final stop late) [] room) (stopping key final [] room) :=
    keepingTo.simulates_upTo
      (fun h (hFunction : h.id = f.id → h = f) hSame => if_pos (hFunction (hSame.trans hId))) [] room
  have hOutcome := Comparison.outcome_inOrder hSimulates
    (Node.LikeAll.refl trivial (fun _ => rfl) f.body) .void ⟨rfl, hStart⟩
  rw [hStopped stop, hStopped fun _ => stopped] at hOutcome
  cases hOutcome with
  | pardoned h => exact h.elim
  | pardoned' h => exact h.elim
  | @error n _ _ _ _ hMore hFault hSpan hStates =>
    obtain ⟨-, hNext⟩ := hStates
    obtain rfl : x.session.nextId = n := hNext.nextId
    refine ⟨Classical.byContradiction fun hOther => ?_, hNext⟩
    simp only [stop, if_neg hOther] at hFault
    cases hFault

/-- Every function is shared when a call like the first one is reached. -/
theorem shared_of_holds {g g' : Closure Value} {n : Nat}
    (h : (Territory.around f s hBelow).Holds s.nextId g g') (hMore : s.nextId ≤ n) :
    g.Shared n (.same 0 s.nextId) g' :=
  ⟨h.same, ⟨rfl, Nat.zero_le _, h.below⟩, Nat.lt_of_lt_of_le h.below hMore⟩

/-- The session in which a run of `f` stops before a call with the key stands beside the one in which
it has started. -/
theorem beside_of_stopped
    (hStart : (Territory.around f s hBelow).Keeps s.nextId ⟨s.entered f true, f.frame args⟩)
    (hId : key.function = f.id) {t : Session} (hKeeps : s.Keeps t) {room : Nat} {g : Closure Value}
    {x : EvalState} (hStopped : ∀ stop, inOrder (evaluateBy (.upTo key t stop late) [] room) .void
      f.body ⟨s.entered f true, f.frame args⟩ = .error (stop g) x)
    (hSession : x.session = { t with depth := x.session.depth }) :
    Session.Beside key t (.same 0 s.nextId) s t := by
  obtain ⟨-, hNext⟩ := function_of_stopped hStart hId hStopped
  have hOptions := moves_inOrder (fun n (_ : n ∈ f.body) =>
    moves_options_upTo key t (fun _ => stopped) late [] room n) .void ⟨s.entered f true, f.frame args⟩
  have hInnermost := moves_inOrder (fun n (_ : n ∈ f.body) =>
    moves_innermost_upTo key t (fun _ => stopped) late [] room n) .void ⟨s.entered f true, f.frame args⟩
  have hGlobals := hInnermost.globals_of_call rfl
  have hKeys := hNext.keys
  rw [final_error (hStopped _)] at hOptions hGlobals
  rw [hSession] at hOptions hGlobals hKeys
  exact {
    options := hOptions
    globals := hGlobals
    shared := hStart.globals.mono fun _ _ h => shared_of_holds h hKeeps.nextId
    ids := fun {i j} ⟨hSame, _, hLast⟩ =>
      ⟨hLast, Or.inl ⟨hSame, Nat.lt_of_lt_of_le hLast hKeeps.nextId⟩⟩
    later := Nat.le_refl _
    keys := hStart.keys _ _
    keys' := hKeys _ _
    before := hKeeps.entries _ _
    after := fun _ => rfl
    results := fun hFound _ _ => (hStart.results _ _ hFound trivial).mono fun _ _ h =>
      shared_of_holds h hKeeps.nextId
    matched := by
      rintro i j args ⟨rfl, -, hLast⟩ hLater
      have hMore := hKeeps.nextId
      omega
    marked := ⟨rfl, Nat.zero_le _, hId ▸ hBelow⟩ }

/-- **A call does not end while the same call is in progress**: when a careful run of its body has
ended, there is no result for it. -/
theorem not_remembered {e e' : EvalError} {pending : List Pending} {room : Nat} {v : Value}
    {t : EvalState}
    (hStart : (Territory.around f s hBelow).Keeps s.nextId ⟨s.entered f true, f.frame args⟩)
    (hArgs : Value.LikeAll True ((Territory.around f s hBelow).Holds s.nextId) args args)
    (hKey : s.keyOf f args = some key) (hMissing : s.cache.find? key = none)
    (hRun : inOrder (carefully e e' (⟨key, args⟩ :: pending) room) .void f.body
      ⟨s.entered f true, f.frame args⟩ = .ok v t) : t.session.cache.find? key = none := by
  have hId := (Session.keyOf_eq_some hKey).1
  have hLacks (final : Session) := moves_inOrder (fun n (_ : n ∈ f.body) =>
    moves_missing_upTo key final (fun _ => stopped) late [] room n) .void
      ⟨s.entered f true, f.frame args⟩
  cases upToCall_body List.mem_cons_self .void hRun with
  | same hSame =>
    have hKept := hLacks t.session
    rw [final_ok (hSame _ t.session (.refl _))] at hKept
    exact hKept hMissing
  | @reached u x g hReached hStopped hSession =>
    have hKeeps : s.Keeps u.session := { hReached.before with }
    have hBeside := beside_of_stopped hStart hId hKeeps hStopped hSession
    obtain ⟨rfl, -⟩ := function_of_stopped hStart hId hStopped
    have hMissingThere : u.session.cache.find? key = none := by
      have hKept := hLacks u.session
      rw [final_error (hStopped _), hSession] at hKept
      exact hKept hMissing
    obtain ⟨pending', room', v', t', hPending, hRun', hNone⟩ := hReached.body hMissingThere
    cases upToCall_body hPending .void hRun' with
    | reached hReached' _ _ =>
      have hThere := hReached'.remembered
      rw [show t'.session.cache.find? (⟨key, args⟩ : Pending).key = none from hNone] at hThere
      cases hThere
    | same hSame =>
      -- the second run comes to no such call, and yet it runs side by side with the first
      have hCaptured : g.captured.Like True (Closure.Shared u.session.nextId (.same 0 s.nextId))
          g.captured := hStart.frame.2.mono fun _ _ h => shared_of_holds h hKeeps.nextId
      have hShared : Value.LikeAll True (Closure.Shared u.session.nextId (.same 0 s.nextId)) args
          args := hArgs.mono fun _ _ h => shared_of_holds h hKeeps.nextId
      have hFunction : g.Matched u.session.nextId (.same 0 s.nextId) g :=
        ⟨⟨rfl, Nat.zero_le _, hBelow⟩, rfl, rfl, fun _ => hCaptured⟩
      exact absurd (hSame _ t'.session (.refl _)) (beside.not_ok_of_stopped hBeside hFunction
        hCaptured.matched (hShared.imp_captured fun _ _ => Closure.Shared.matched) (hStopped _) v' t')

end

end PostLisp

import PostLisp.Proofs.Scope

/-!
# Names that changed since a call

The log of a session tells which names were defined again after a call that could have read what
they meant before.  A session is settled with respect to a later one when the later one has defined
nothing again but such names: this holds when a call begins, and while nothing is defined.
-/

namespace PostLisp

namespace Event

def defines (name : String) : Event → Bool
  | .globalDefined other _ => other == name
  | _ => false

/-- Whether a call begins of which the result is to be remembered. -/
def startsCall : Event → Bool
  | .cacheMiss _ cacheable => cacheable
  | _ => false

/-- Whether the name was defined again after a call that began when it was defined already; the last
event comes first. -/
def changedSinceCall (name : String) : List Event → Bool
  | [] => false
  | event :: earlier =>
    (event.defines name &&
      (earlier.dropWhile fun other => !other.startsCall).any fun other => other.defines name) ||
    changedSinceCall name earlier

theorem not_defines_of_startsCall {call : Event} (h : call.startsCall = true) (name : String) :
    ¬call.defines name = true := by
  cases call with
  | cacheMiss => exact Bool.false_ne_true
  | _ => cases h

theorem changedSinceCall_of_append {name : String} {after before : List Event}
    (h : changedSinceCall name (after ++ before) = false) : changedSinceCall name before = false := by
  induction after with
  | nil => exact h
  | cons event after ih =>
    rw [List.cons_append, changedSinceCall, Bool.or_eq_false_iff] at h
    exact ih h.2

/-- A name that was defined before a call, and has not changed since, was not defined since. -/
theorem countP_defines_of_not_changed {name : String} {call : Event} {after before : List Event}
    (hCall : call.startsCall = true) (hNever : changedSinceCall name (after ++ call :: before) = false)
    (hBefore : 0 < before.countP fun other => other.defines name) :
    after.countP (fun other => other.defines name) = 0 := by
  induction after with
  | nil => rfl
  | cons event after ih =>
    rw [List.cons_append, changedSinceCall, Bool.or_eq_false_iff] at hNever
    obtain ⟨hHere, hNever⟩ := hNever
    have hDefined : ((after ++ call :: before).dropWhile fun other => !other.startsCall).any
        fun other => other.defines name := by
      obtain ⟨definition, hMem, hDefines⟩ := List.countP_pos_iff.1 hBefore
      refine List.any_eq_true.2 ⟨definition, ?_, hDefines⟩
      rw [List.dropWhile_append]
      split
      · simpa [hCall] using Or.inr hMem
      · simp [hMem]
    rw [hDefined, Bool.and_true] at hHere
    rw [List.countP_cons, ih hNever, hHere]
    rfl

end Event

namespace Session

/-- Whether the session has defined the name again after a call that began when it was defined
already, and of which the result was to be remembered. -/
def changedSinceCall (s : Session) (name : String) : Bool :=
  Event.changedSinceCall name s.events

theorem definitionsOf_eq (s : Session) (name : String) :
    s.definitionsOf name = s.events.countP fun event => event.defines name := by
  rw [definitionsOf]
  congr 1

/-- No definition was reported on the way from one session to the other. -/
def NothingDefined (s t : Session) : Prop :=
  ∀ name, t.definitionsOf name = s.definitionsOf name ∧
    t.changedSinceCall name = s.changedSinceCall name

theorem NothingDefined.of_events {s t : Session} (h : t.events = s.events) : s.NothingDefined t := by
  intro name
  rw [definitionsOf, definitionsOf, changedSinceCall, changedSinceCall, h]
  exact ⟨rfl, rfl⟩

theorem NothingDefined.of_event {s t : Session} {event : Event} (h : t.events = event :: s.events)
    (hOther : ∀ name, event.defines name = false) : s.NothingDefined t := by
  intro name
  rw [definitionsOf_eq, definitionsOf_eq, changedSinceCall, changedSinceCall, h,
    List.countP_cons_of_neg (by rw [hOther]; exact Bool.false_ne_true), Event.changedSinceCall, hOther]
  exact ⟨rfl, rfl⟩

theorem NothingDefined.refl (s : Session) : s.NothingDefined s := fun _ => ⟨rfl, rfl⟩

theorem NothingDefined.trans {s t u : Session} (h : s.NothingDefined t) (g : t.NothingDefined u) :
    s.NothingDefined u := fun name =>
  ⟨(g name).1.trans (h name).1, (g name).2.trans (h name).2⟩

/-- No name that `s` has defined was defined since, unless it has changed since a call. -/
def Settled (s now : Session) : Prop :=
  ∀ name, now.changedSinceCall name = false →
    s.changedSinceCall name = false ∧
      (0 < s.definitionsOf name → now.definitionsOf name = s.definitionsOf name)

namespace Settled

variable {s t now : Session}

theorem refl (s : Session) : s.Settled s := fun _ hNever => ⟨hNever, fun _ => rfl⟩

theorem of_nothingDefined (h : s.NothingDefined t) (hSettled : s.Settled now) : t.Settled now := by
  intro name hNever
  obtain ⟨hCount, hChanged⟩ := h name
  rw [hCount, hChanged]
  exact hSettled name hNever

/-- When a call began, and no more was defined than up to `t`. -/
theorem of_began {call : Event} (hLast : s.events.head? = some call)
    (hCall : call.startsCall = true) (hEvents : s.events <:+ t.events) (hSettled : t.Settled now) :
    s.Settled now := by
  intro name hNever
  obtain ⟨hNeverThen, hSame⟩ := hSettled name hNever
  obtain ⟨before, hBefore⟩ := List.head?_eq_some_iff.1 hLast
  obtain ⟨after, hAfter⟩ := hEvents
  rw [changedSinceCall, ← hAfter] at hNeverThen
  refine ⟨Event.changedSinceCall_of_append hNeverThen, fun hDefined => ?_⟩
  have hOther := Event.not_defines_of_startsCall hCall name
  have hEarlier : 0 < before.countP fun other => other.defines name := by
    rwa [definitionsOf_eq, hBefore, List.countP_cons_of_neg hOther] at hDefined
  rw [hBefore] at hNeverThen
  have hNone := Event.countP_defines_of_not_changed hCall hNeverThen hEarlier
  have hCount : t.definitionsOf name = s.definitionsOf name := by
    rw [definitionsOf_eq, definitionsOf_eq, ← hAfter, List.countP_append, hNone, Nat.zero_add]
  rw [hSame (hCount ▸ hDefined), hCount]

end Settled

end Session

/-! ### Evaluation in a call -/

/-- Nothing is defined among the globals unless at top level. -/
structure EvalState.Inside (s t : EvalState) : Prop where
  frame : t.frame.isTop = s.frame.isTop
  nothing : s.frame.isTop = false → s.session.NothingDefined t.session

instance : IsPreorder EvalState EvalState.Inside where
  refl s := ⟨rfl, fun _ => .refl s.session⟩
  trans _ _ _ h g :=
    ⟨g.frame.trans h.frame, fun hCall => (h.nothing hCall).trans (g.nothing (h.frame.trans hCall))⟩

namespace Eval

open EvalM

theorem moves_inside_apply {ev : Evaluator} (hEv : ∀ n, Moves EvalState.Inside (ev n))
    (f : Closure Value) (args : List Value) (span : Span) :
    Moves EvalState.Inside (apply ev f args span) := by
  refine moves_apply (fun s => ⟨rfl, fun _ => .of_event rfl fun _ => rfl⟩) (fun s cacheable => ?_)
    fun s key v => ⟨rfl, fun _ => .of_events (by cases key <;> rfl)⟩
  have hBody := moves_inOrder (fun n (_ : n ∈ f.body) => hEv n) .void
    ⟨s.session.entered f cacheable, f.frame args⟩
  refine ⟨rfl, fun _ => ?_⟩
  have hEntered : s.session.NothingDefined (s.session.entered f cacheable) :=
    .of_event rfl fun _ => rfl
  exact hEntered.trans (hBody.nothing rfl)

/-- **A call defines nothing among the globals.** -/
theorem evaluateWithin_inside (room : Nat) (n : Node) :
    Moves EvalState.Inside (evaluateWithin room n) := by
  refine moves_evaluateWithin (fun name v s => ?_) (fun params body s => ?_)
    (fun ev hEv => moves_inside_apply hEv) (fun s t h => ⟨h.frame, h.nothing⟩) room n
  · obtain ⟨session, frame⟩ := s
    cases frame with
    | top => exact ⟨rfl, nofun⟩
    | call locals captured => exact ⟨rfl, fun _ => .refl session⟩
  · exact ⟨rfl, fun _ => .of_event rfl fun _ => rfl⟩

end Eval

end PostLisp

import PostLisp.Proofs.Callers

/-!
# Calls that would replace a result

A call looks for its result before its body runs and remembers the result afterwards, so it replaces
one if the body comes to a call with the same key that ends first.  Three other ways to make calls
single this out: `once` refuses a call that would replace a result, `apart` refuses a call whose key
is that of a call in progress with other arguments, and `upTo` stops before the first call with a
given key.

A run that makes its calls by `once` and `apart` and succeeds goes on without `upTo` making a
difference, or it comes to a call with the key, and up to that call nothing makes a difference
either (`upTo_or_reached`).
-/

namespace PostLisp

open EvalM

namespace Session

/-- Every result that is remembered stays, and no identity becomes free again. -/
structure Keeps (s t : Session) : Prop where
  entries : ∀ key v, s.cache.find? key = some v → t.cache.find? key = some v
  nextId : s.nextId ≤ t.nextId

namespace Keeps

variable {s t u : Session}

theorem of_cache (hCache : t.cache = s.cache) (hNextId : s.nextId ≤ t.nextId) : s.Keeps t where
  entries key v h := by rwa [hCache]
  nextId := hNextId

theorem refl (s : Session) : s.Keeps s := of_cache rfl (Nat.le_refl _)

theorem trans (h : s.Keeps t) (g : t.Keeps u) : s.Keeps u where
  entries key v hFound := g.entries key v (h.entries key v hFound)
  nextId := Nat.le_trans h.nextId g.nextId

/-- What is missing later was missing before. -/
theorem missing (h : s.Keeps t) {key : CallKey} (hMissing : t.cache.find? key = none) :
    s.cache.find? key = none := by
  cases hFound : s.cache.find? key with
  | none => rfl
  | some v =>
    rw [h.entries key v hFound] at hMissing
    cases hMissing

/-- A result that is new replaces none. -/
theorem returned (s : Session) {key : Option CallKey}
    (hNew : ∀ k, key = some k → s.cache.find? k = none) (v : Value) : s.Keeps (s.returned key v) := by
  cases key with
  | none => exact refl s
  | some k =>
    refine ⟨fun other x hFound => ?_, Nat.le_refl _⟩
    show (s.cache.insert k v).find? other = some x
    rw [Cache.find?_insert, if_neg]
    · exact hFound
    · rintro rfl
      rw [hNew k rfl] at hFound
      cases hFound

/-- What a session keeps that has just remembered a result. -/
theorem find?_of_returned {key : CallKey} {v : Value} (h : (s.returned (some key) v).Keeps t) :
    t.cache.find? key = some v := by
  refine h.entries key v ?_
  show (s.cache.insert key v).find? key = some v
  rw [Cache.find?_insert, if_pos rfl]

end Keeps

end Session

instance : IsPreorder EvalState fun s t => s.session.Keeps t.session where
  refl s := Session.Keeps.refl s.session
  trans _ _ _ := Session.Keeps.trans

namespace Eval

/-! ### Refusing calls -/

/-- The body of the call runs, and when it has ended there is a result for the call already. -/
def Replaces (ev : Evaluator) (f : Closure Value) (args : List Value) (s : EvalState) : Prop :=
  args.length = f.params.length ∧ ∃ key v t, s.session.keyOf f args = some key ∧
    s.session.cache.find? key = none ∧
    inOrder ev .void f.body ⟨s.session.entered f true, f.frame args⟩ = .ok v t ∧
    (t.session.cache.find? key).isSome

/-- The call has the key of a call in progress, and other arguments. -/
def Clashes (pending : List Pending) (f : Closure Value) (args : List Value) (s : EvalState) : Prop :=
  ∃ p ∈ pending, s.session.keyOf f args = some p.key ∧ p.args ≠ args

/-- A call that does not replace a result ends its body without one. -/
theorem new_of_not_replaces {ev : Evaluator} {f : Closure Value} {args : List Value} {s t : EvalState}
    {key : CallKey} {v : Value} (h : ¬ Replaces ev f args s) (hArity : args.length = f.params.length)
    (hMissing : (s.session.keyOf f args).bind s.session.cache.find? = none)
    (hKey : s.session.keyOf f args = some key)
    (hRun : inOrder ev .void f.body
      ⟨s.session.entered f (s.session.keyOf f args).isSome, f.frame args⟩ = .ok v t) :
    t.session.cache.find? key = none := by
  rw [hKey] at hMissing hRun
  cases hFound : t.session.cache.find? key with
  | none => rfl
  | some x => exact absurd ⟨hArity, key, v, t, hKey, hMissing, hRun, by rw [hFound]; rfl⟩ h

namespace Caller

open Classical in
/-- A call that would replace a result fails. -/
noncomputable def once (e : EvalError) : Caller := fun pending ev f args span s =>
  if Replaces (ev pending) f args s then .error e s else apply (ev pending) f args span s

/-- The calls in progress inside a call. -/
def inside (pending : List Pending) (f : Closure Value) (args : List Value) (s : EvalState) :
    List Pending :=
  match s.session.keyOf f args with
  | none => pending
  | some key => ⟨key, args⟩ :: pending

open Classical in
/-- A call that has the key of a call in progress fails, unless it has the same arguments. -/
noncomputable def apart (e : EvalError) (caller : Caller) : Caller := fun pending ev f args span s =>
  if Clashes pending f args s then .error e s
  else caller (inside pending f args s) ev f args span s

open Classical in
/-- A call with the key fails.  So does a call that goes beyond the session `final`, and one of which
`final` has the result though it has not ended. -/
noncomputable def upTo (key : CallKey) (final : Session) (stop : Closure Value → EvalError)
    (late : EvalError) : Caller := fun pending ev f args span s =>
  if s.session.keyOf f args = some key then .error (stop f) s
  else match apply (ev pending) f args span s with
    | .ok v t => if t.session.Keeps final then .ok v t else .error late t
    | .error e t =>
      if ∃ other, s.session.keyOf f args = some other ∧ (final.cache.find? other).isSome then
        .error late t
      else .error e t

variable {pending : List Pending} {ev : List Pending → Evaluator} {f : Closure Value}
  {args : List Value} {span : Span} {s t : EvalState} {v : Value} {e : EvalError}

theorem once_eq (h : ¬ Replaces (ev pending) f args s) :
    once e pending ev f args span s = apply (ev pending) f args span s :=
  if_neg h

theorem once_refused (h : Replaces (ev pending) f args s) :
    once e pending ev f args span s = .error e s :=
  if_pos h

/-- A call by `once` that succeeds has replaced nothing. -/
theorem of_once_ok (h : once e pending ev f args span s = .ok v t) :
    ¬ Replaces (ev pending) f args s ∧ apply (ev pending) f args span s = .ok v t := by
  by_cases hReplaces : Replaces (ev pending) f args s
  · rw [once_refused hReplaces] at h
    cases h
  · rw [once_eq hReplaces] at h
    exact ⟨hReplaces, h⟩

theorem mem_inside {p : Pending} (h : p ∈ pending) : p ∈ inside pending f args s := by
  rw [inside]
  split
  · exact h
  · exact List.mem_cons_of_mem _ h

theorem apart_eq {caller : Caller} (h : ¬ Clashes pending f args s) :
    apart e caller pending ev f args span s = caller (inside pending f args s) ev f args span s :=
  if_neg h

theorem apart_refused {caller : Caller} (h : Clashes pending f args s) :
    apart e caller pending ev f args span s = .error e s :=
  if_pos h

theorem of_apart_ok {caller : Caller} (h : apart e caller pending ev f args span s = .ok v t) :
    ¬ Clashes pending f args s ∧
      caller (inside pending f args s) ev f args span s = .ok v t := by
  by_cases hClashes : Clashes pending f args s
  · rw [apart_refused hClashes] at h
    cases h
  · rw [apart_eq hClashes] at h
    exact ⟨hClashes, h⟩

/-! ### How the calls move the state -/

/-- What replaces no result keeps them all. -/
theorem moves_keeps_once (hEv : ∀ pending n, Moves (fun s t => s.session.Keeps t.session) (ev pending n)) :
    Moves (fun s t => s.session.Keeps t.session) (once e pending ev f args span) := by
  intro s
  have hBody (t : EvalState) := moves_inOrder (fun n (_ : n ∈ f.body) => hEv pending n) .void t
  by_cases hReplaces : Replaces (ev pending) f args s
  · rw [final_error (once_refused hReplaces)]
    exact Session.Keeps.refl _
  · have hEntered (cacheable : Bool) : s.session.Keeps (s.session.entered f cacheable) :=
      .of_cache rfl (Nat.le_refl _)
    have hEnds := apply_ends (ev pending) f args span s
    rw [final, once_eq hReplaces]
    generalize apply (ev pending) f args span s = r at hEnds
    cases hEnds with
    | arity => exact Session.Keeps.refl _
    | remembered => exact .of_cache rfl (Nat.le_refl _)
    | @returned v t hArity hMissing hRun =>
      have hInside := hBody ⟨s.session.entered f (s.session.keyOf f args).isSome, f.frame args⟩
      rw [final_ok hRun] at hInside
      refine (hEntered _).trans (hInside.trans (.returned t.session (fun key hKey => ?_) v))
      exact new_of_not_replaces hReplaces hArity hMissing hKey hRun
    | @failed e t hArity hMissing hRun =>
      have hInside := hBody ⟨s.session.entered f (s.session.keyOf f args).isSome, f.frame args⟩
      rw [final_error hRun] at hInside
      exact (hEntered _).trans hInside

theorem moves_keeps_apart {caller : Caller}
    (hCaller : ∀ pending, Moves (fun s t => s.session.Keeps t.session) (caller pending ev f args span)) :
    Moves (fun s t => s.session.Keeps t.session) (apart e caller pending ev f args span) := by
  intro s
  by_cases hClashes : Clashes pending f args s
  · rw [final_error (apart_refused hClashes)]
    exact Session.Keeps.refl _
  · rw [final, apart_eq hClashes]
    exact hCaller _ s

/-- A call that is stopped leaves the state alone, and one that is not moves it as calls do. -/
theorem moves_upTo {key : CallKey} {final : Session} {stop : Closure Value → EvalError}
    {late : EvalError} {T : EvalState → EvalState → Prop} [IsPreorder EvalState T]
    (hApply : ∀ s : EvalState, s.session.keyOf f args ≠ some key →
      T s ((apply (ev pending) f args span).final s)) :
    Moves T (upTo key final stop late pending ev f args span) := by
  intro s
  by_cases hKey : s.session.keyOf f args = some key
  · rw [EvalM.final, upTo, if_pos hKey]
    exact refl_of T s
  · have hCall := hApply s hKey
    rw [EvalM.final] at hCall ⊢
    rw [upTo, if_neg hKey]
    generalize apply (ev pending) f args span s = r at hCall
    cases r with
    | ok v t =>
      dsimp only
      split <;> rename_i hr <;> split at hr <;> cases hr <;> exact hCall
    | error e t =>
      dsimp only
      split <;> rename_i hr <;> split at hr <;> cases hr <;> exact hCall

theorem upTo_stopped {key : CallKey} {final : Session} {stop : Closure Value → EvalError}
    {late : EvalError} (hKey : s.session.keyOf f args = some key) :
    upTo key final stop late pending ev f args span s = .error (stop f) s :=
  if_pos hKey

theorem upTo_ok {key : CallKey} {final : Session} {stop : Closure Value → EvalError}
    {late : EvalError} (hKey : s.session.keyOf f args ≠ some key)
    (hCall : apply (ev pending) f args span s = .ok v t) (hKeeps : t.session.Keeps final) :
    upTo key final stop late pending ev f args span s = .ok v t := by
  rw [upTo, if_neg hKey, hCall]
  exact if_pos hKeeps

theorem upTo_error {key : CallKey} {final : Session} {stop : Closure Value → EvalError}
    {late : EvalError} (hKey : s.session.keyOf f args ≠ some key)
    (hCall : apply (ev pending) f args span s = .error e t)
    (hOpen : ∀ other, s.session.keyOf f args = some other → final.cache.find? other = none) :
    upTo key final stop late pending ev f args span s = .error e t := by
  rw [upTo, if_neg hKey, hCall]
  refine if_neg ?_
  rintro ⟨other, hOther, hFound⟩
  rw [hOpen other hOther] at hFound
  cases hFound

theorem of_upTo_ok {key : CallKey} {final : Session} {stop : Closure Value → EvalError}
    {late : EvalError} (h : upTo key final stop late pending ev f args span s = .ok v t) :
    s.session.keyOf f args ≠ some key ∧ apply (ev pending) f args span s = .ok v t ∧
      t.session.Keeps final := by
  by_cases hKey : s.session.keyOf f args = some key
  · rw [upTo_stopped hKey] at h
    cases h
  · rw [upTo, if_neg hKey] at h
    cases hCall : apply (ev pending) f args span s with
    | ok x u =>
      simp only [hCall] at h
      split at h
      · rename_i hKeeps
        cases h
        exact ⟨hKey, rfl, hKeeps⟩
      · cases h
    | error y u =>
      simp only [hCall] at h
      split at h <;> cases h

/-- A call that has failed was not made, or it has failed itself, and there is no result for it. -/
theorem of_upTo_error {key : CallKey} {final : Session} {stop : Closure Value → EvalError}
    {late : EvalError} (h : upTo key final stop late pending ev f args span s = .error e t)
    (hLate : e ≠ late) : s.session.keyOf f args = some key ∨
      apply (ev pending) f args span s = .error e t ∧
        ∀ other, s.session.keyOf f args = some other → final.cache.find? other = none := by
  by_cases hKey : s.session.keyOf f args = some key
  · exact Or.inl hKey
  · rw [upTo, if_neg hKey] at h
    cases hCall : apply (ev pending) f args span s with
    | ok x u =>
      simp only [hCall] at h
      split at h
      · cases h
      · cases h
        exact absurd rfl hLate
    | error y u =>
      simp only [hCall] at h
      split at h
      · cases h
        exact absurd rfl hLate
      · rename_i hOpen
        cases h
        refine Or.inr ⟨rfl, fun other hOther => ?_⟩
        cases hFound : final.cache.find? other with
        | none => rfl
        | some x => exact absurd ⟨other, hOther, by rw [hFound]; rfl⟩ hOpen

end Caller

instance : IsPreorder EvalState fun s t => t.session.options = s.session.options where
  refl _ := rfl
  trans _ _ _ h g := g.trans h

instance (key : CallKey) : IsPreorder EvalState fun s t =>
    s.session.cache.find? key = none → t.session.cache.find? key = none where
  refl _ := id
  trans _ _ _ h g := g ∘ h

/-- A run that stops before every call with a key does not remember a result for it. -/
theorem moves_missing_upTo (key : CallKey) (final : Session) (stop : Closure Value → EvalError)
    (late : EvalError) (pending : List Pending) (room : Nat) (n : Node) :
    Moves (fun s t => s.session.cache.find? key = none → t.session.cache.find? key = none)
      (evaluateBy (.upTo key final stop late) pending room n) := by
  refine moves_evaluateBy (fun s t h hMissing => ?_) (fun s t h => h)
    (fun pending ev hEv f args span => Caller.moves_upTo fun s hKey => ?_) pending room n
  · rwa [h.cache]
  · have hBody (t : EvalState) := moves_inOrder (fun n (_ : n ∈ f.body) => hEv pending n) .void t
    have hEnds := apply_ends (ev pending) f args span s
    rw [EvalM.final]
    generalize apply (ev pending) f args span s = r at hEnds
    cases hEnds with
    | arity | remembered => exact id
    | @returned v t hArity hMissing hRun =>
      have hInside := hBody ⟨s.session.entered f (s.session.keyOf f args).isSome, f.frame args⟩
      rw [final_ok hRun] at hInside
      intro hNone
      cases hFound : (t.session.returned (s.session.keyOf f args) v).cache.find? key with
      | none => rfl
      | some x =>
        rcases Session.find?_returned hFound with hBefore | ⟨hSame, -⟩
        · rw [hInside hNone] at hBefore
          cases hBefore
        · exact absurd hSame hKey
    | @failed e t hArity hMissing hRun =>
      have hInside := hBody ⟨s.session.entered f (s.session.keyOf f args).isSome, f.frame args⟩
      rwa [final_error hRun] at hInside

/-- A run that makes its calls by `upTo` touches only the innermost bindings. -/
theorem moves_innermost_upTo (key : CallKey) (final : Session) (stop : Closure Value → EvalError)
    (late : EvalError) (pending : List Pending) (room : Nat) (n : Node) :
    Moves (Innermost fun _ => True) (evaluateBy (.upTo key final stop late) pending room n) :=
  moves_evaluateBy (fun _ _ h => h.innermost) (fun _ _ h => h)
    (fun pending _ hEv f args span => Caller.moves_upTo fun s _ =>
      moves_innermost_apply _ (hEv pending) f args span s) pending room n

theorem moves_options_upTo (key : CallKey) (final : Session) (stop : Closure Value → EvalError)
    (late : EvalError) (pending : List Pending) (room : Nat) (n : Node) :
    Moves (fun s t => t.session.options = s.session.options)
      (evaluateBy (.upTo key final stop late) pending room n) := by
  refine moves_evaluateBy (fun _ _ h => h.counted.options) (fun _ _ h => h)
    (fun pending ev hEv f args span => Caller.moves_upTo fun s _ => ?_) pending room n
  refine moves_apply (T := fun s t => t.session.options = s.session.options) (fun _ => rfl)
    (fun s cacheable => ?_) (fun s key v => ?_) s
  · exact moves_inOrder (fun n _ => hEv pending n) .void ⟨s.session.entered f cacheable, f.frame args⟩
  · cases key <;> rfl

/-! ### Evaluators that stop -/

section

variable {ev ev' : Evaluator} {f : Closure Value} {args : List Value} {span : Span} {e : EvalError}

/-- A call is the same or stops, if the evaluator of its body is the same or stops. -/
theorem apply_or_stopped (hEv : ∀ n s, ev n s = ev' n s ∨ ∃ t, ev n s = .error e t) (s : EvalState) :
    apply ev f args span s = apply ev' f args span s ∨ ∃ t, apply ev f args span s = .error e t := by
  by_cases hArity : args.length = f.params.length
  · cases hFound : (s.session.keyOf f args).bind s.session.cache.find? with
    | some v => exact Or.inl ((apply_remembered hArity hFound).trans (apply_remembered hArity hFound).symm)
    | none =>
      rcases (asks_inOrder .void f.body).or_stopped hEv
        ⟨s.session.entered f (s.session.keyOf f args).isSome, f.frame args⟩ with hSame | ⟨t, hStopped⟩
      · rw [apply_run hArity hFound, apply_run hArity hFound]
        refine bind_or_stopped ?_ fun _ _ => Or.inl rfl
        rw [inFrame, inFrame, around, around, hSame]
        exact Or.inl rfl
      · exact Or.inr ⟨_, apply_run_error hArity hFound hStopped⟩
  · exact Or.inl ((apply_arity hArity).trans (apply_arity hArity).symm)

/-- What replaces a result without being stopped replaces it anyway. -/
theorem Replaces.of_or_stopped (hEv : ∀ n s, ev n s = ev' n s ∨ ∃ t, ev n s = .error e t)
    {s : EvalState} (h : Replaces ev f args s) : Replaces ev' f args s := by
  obtain ⟨hArity, key, v, t, hKey, hMissing, hRun, hFound⟩ := h
  refine ⟨hArity, key, v, t, hKey, hMissing, ?_, hFound⟩
  rcases (asks_inOrder .void f.body).or_stopped hEv ⟨s.session.entered f true, f.frame args⟩ with
    hSame | ⟨u, hStopped⟩
  · exact hSame.symm.trans hRun
  · rw [hStopped] at hRun
    cases hRun

end

namespace Caller

variable {evs evs' : List Pending → Evaluator} {pending pending' : List Pending} {f : Closure Value}
  {args : List Value} {span : Span} {e e' : EvalError}

/-- A call that would replace a result, if its body did not stop, is refused or stops. -/
theorem once_of_replaces {ev : Evaluator} {s : EvalState}
    (hEv : ∀ n s, evs pending n s = ev n s ∨ ∃ t, evs pending n s = .error e t)
    (hReplaces : Replaces ev f args s) :
    Replaces (evs pending) f args s ∨ ∃ t, once e' pending evs f args span s = .error e t := by
  obtain ⟨hArity, key, v, t, hKey, hMissing, hRun, hFound⟩ := hReplaces
  rcases (asks_inOrder .void f.body).or_stopped hEv ⟨s.session.entered f true, f.frame args⟩ with
    hSame | ⟨u, hStopped⟩
  · exact Or.inl ⟨hArity, key, v, t, hKey, hMissing, hSame.trans hRun, hFound⟩
  · refine Or.inr ⟨⟨u.session, s.frame⟩, ?_⟩
    rw [once_eq]
    · refine apply_run_error hArity ?_ ?_
      · rw [hKey]
        exact hMissing
      · rw [hKey]
        exact hStopped
    · rintro ⟨-, -, x, y, -, -, hOk, -⟩
      rw [hStopped] at hOk
      cases hOk

theorem once_or_stopped (hEv : ∀ n s, evs pending n s = evs' pending' n s ∨
      ∃ t, evs pending n s = .error e t) (s : EvalState) :
    once e' pending evs f args span s = once e' pending' evs' f args span s ∨
      ∃ t, once e' pending evs f args span s = .error e t := by
  by_cases hReplaces' : Replaces (evs' pending') f args s
  · rcases once_of_replaces hEv hReplaces' with hReplaces | hStopped
    · exact Or.inl ((once_refused hReplaces).trans (once_refused hReplaces').symm)
    · exact Or.inr hStopped
  · by_cases hReplaces : Replaces (evs pending) f args s
    · exact absurd (hReplaces.of_or_stopped hEv) hReplaces'
    · rw [once_eq hReplaces, once_eq hReplaces']
      exact apply_or_stopped hEv s

end Caller

/-! ### Runs up to a call -/

/-- A run that makes its calls by `once` and `apart`. -/
noncomputable abbrev carefully (e e' : EvalError) : List Pending → Nat → Evaluator :=
  evaluateBy (.apart e (.once e'))

theorem moves_keeps_carefully (e e' : EvalError) (pending : List Pending) (room : Nat) (n : Node) :
    Moves (fun s t => s.session.Keeps t.session) (carefully e e' pending room n) :=
  moves_evaluateBy (fun _ _ h => .of_cache h.cache h.counted.nextId)
    (fun _ _ h => ⟨h.entries, h.nextId⟩)
    (fun _ _ hEv _ _ _ => Caller.moves_keeps_apart fun _ => Caller.moves_keeps_once hEv)
    pending room n

theorem moves_keeps_call (e e' : EvalError) (pending : List Pending) (room : Nat) (f : Closure Value)
    (args : List Value) (span : Span) :
    Moves (fun s t => s.session.Keeps t.session)
      (Caller.apart e (.once e') pending (carefully e e' · room) f args span) :=
  Caller.moves_keeps_apart fun _ => Caller.moves_keeps_once fun pending n =>
    moves_keeps_carefully e e' pending room n

section

variable (e e' : EvalError) (p : Pending)

/-- Between `s` and `t` a call like the pending one is reached, in `u`, and it succeeds. -/
structure Reached (s u t : EvalState) (f : Closure Value) : Prop where
  before : s.session.Keeps u.session
  key : u.session.keyOf f p.args = some p.key
  call : ∃ pending room span v x, p ∈ pending ∧
    Caller.once e' pending (carefully e e' · room) f p.args span u = .ok v x ∧
    x.session.Keeps t.session

/-- What becomes of a careful run from `s` to `v` and `t` when it is made up to the pending call,
whatever error is reported there: nothing changes, or the call is reached and the run stops. -/
inductive UpToCall {α : Type}
    (run : (Closure Value → EvalError) → Session → EStateM.Result EvalError EvalState α)
    (s : EvalState) (v : α) (t : EvalState) : Prop
  | same (h : ∀ stop final, t.session.Keeps final → run stop final = .ok v t)
  | reached {u x : EvalState} {f : Closure Value} (hReached : Reached e e' p s u t f)
      (h : ∀ stop, run stop u.session = .error (stop f) x)
      (hSession : x.session = { u.session with depth := x.session.depth })

variable {e e' p} {s t u m : EvalState} {f : Closure Value}

theorem Reached.weaken (h : Reached e e' p m u t f) {t' : EvalState}
    (hStart : s.session.Keeps m.session) (hEnd : t.session.Keeps t'.session) :
    Reached e e' p s u t' f where
  before := hStart.trans h.before
  key := h.key
  call := by
    obtain ⟨pending, room, span, v, x, hPending, hCall, hKeeps⟩ := h.call
    exact ⟨pending, room, span, v, x, hPending, hCall, hKeeps.trans hEnd⟩

/-- A call that is reached is over before the end. -/
theorem Reached.after (h : Reached e e' p s u t f) : u.session.Keeps t.session := by
  obtain ⟨pending, room, span, v, x, hPending, hCall, hKeeps⟩ := h.call
  have hMoves : u.session.Keeps ((Caller.once e' pending (carefully e e' · room) f p.args
      span).final u).session :=
    Caller.moves_keeps_once (fun pending n => moves_keeps_carefully e e' pending room n) u
  rw [final_ok hCall] at hMoves
  exact hMoves.trans hKeeps

theorem UpToCall.bind {α β : Type} {act : (Closure Value → EvalError) → Session → EvalM α}
    {next : (Closure Value → EvalError) → Session → α → EvalM β} {x : α}
    {v : β} (hBefore : s.session.Keeps m.session) (hAfter : m.session.Keeps t.session)
    (hFirst : UpToCall e e' p (fun stop final => act stop final s) s x m)
    (hRest : UpToCall e e' p (fun stop final => next stop final x m) m v t) :
    UpToCall e e' p (fun stop final => (act stop final >>= next stop final) s) s v t := by
  cases hFirst with
  | same hSame =>
    cases hRest with
    | same hNext =>
      refine .same fun stop final hFinal => ?_
      exact (bind_ok (hSame stop final (hAfter.trans hFinal))).trans (hNext stop final hFinal)
    | @reached u y f hReached hStopped hSession =>
      refine .reached (hReached.weaken hBefore (.refl _)) (fun stop => ?_) hSession
      exact (bind_ok (hSame stop u.session hReached.before)).trans (hStopped stop)
  | reached hReached hStopped hSession =>
    exact .reached (hReached.weaken (.refl _) hAfter) (fun stop => bind_error (hStopped stop)) hSession

theorem UpToCall.nested {α : Type} {act : EvalM α}
    {act' : (Closure Value → EvalError) → Session → EvalM α} {v : α}
    (h : ∀ s v t, act s = .ok v t → UpToCall e e' p (fun stop final => act' stop final s) s v t)
    (hRun : EvalM.nested act s = .ok v t) :
    UpToCall e e' p (fun stop final => EvalM.nested (act' stop final) s) s v t := by
  have hEnter : s.session.Keeps s.enterForm.session := .of_cache rfl (Nat.le_refl _)
  obtain ⟨m, hInside, rfl⟩ := of_nested_ok hRun
  have hLeave : m.session.Keeps m.leaveForm.session := .of_cache rfl (Nat.le_refl _)
  cases h _ _ _ hInside with
  | same hSame =>
    exact .same fun stop final hFinal => nested_ok (hSame stop final (hLeave.trans hFinal))
  | @reached u y f hReached hStopped hSession =>
    exact .reached (x := y.leaveForm) (hReached.weaken hEnter hLeave)
      (fun stop => nested_error (hStopped stop))
      (congrArg (fun r : Session => { r with depth := y.session.depth - 1 }) hSession)

/-- What evaluators do, actions do that ask them. -/
theorem Asks.upToCall {α : Type} {act : Evaluator → EvalM α} (h : Asks act) {ev : Evaluator}
    {stopped : (Closure Value → EvalError) → Session → Evaluator}
    (hKeeps : ∀ n, Moves (fun s t => s.session.Keeps t.session) (ev n))
    (hEv : ∀ n s v t, ev n s = .ok v t → UpToCall e e' p (fun stop final => stopped stop final n s) s v t)
    {v : α} (hRun : act ev s = .ok v t) :
    UpToCall e e' p (fun stop final => act (stopped stop final) s) s v t := by
  have hAside : ∀ s t : EvalState, s.Aside t → s.session.Keeps t.session := fun _ _ h =>
    .of_cache h.cache h.counted.nextId
  induction h generalizing s t with
  | const _ => exact .same fun _ _ _ => hRun
  | node n => exact hEv n s v t hRun
  | bind first rest ihFirst ihRest =>
    obtain ⟨x, m, hFirst, hRest⟩ := of_bind_ok hRun
    have hBefore := first.moves hKeeps hAside s
    have hAfter := (rest x).moves hKeeps hAside m
    rw [final_ok hFirst] at hBefore
    rw [final_ok hRest] at hAfter
    exact (ihFirst hFirst).bind hBefore hAfter (ihRest x hRest)

variable {late : EvalError} {room : Nat} {pending pending' : List Pending}

/-- A careful call. -/
theorem upToCall_call
    (hEv : ∀ pending, p ∈ pending → ∀ n s v t, carefully e e' pending room n s = .ok v t →
      UpToCall e e' p
        (fun stop final => evaluateBy (.upTo p.key final stop late) pending' room n s) s v t)
    (hPending : p ∈ pending) {args : List Value} {span : Span} {v : Value}
    (hRun : Caller.apart e (.once e') pending (carefully e e' · room) f args span s = .ok v t) :
    UpToCall e e' p
      (fun stop final => Caller.upTo p.key final stop late pending'
        (evaluateBy (.upTo p.key final stop late) · room) f args span s) s v t := by
  obtain ⟨hApart, hOnce⟩ := Caller.of_apart_ok hRun
  obtain ⟨hNew, hApply⟩ := Caller.of_once_ok hOnce
  by_cases hKey : s.session.keyOf f args = some p.key
  · have hArgs : p.args = args := Classical.byContradiction fun h => hApart ⟨p, hPending, hKey, h⟩
    subst hArgs
    exact .reached ⟨.refl _, hKey, _, room, span, v, t, Caller.mem_inside hPending, hOnce, .refl _⟩
      (fun _ => Caller.upTo_stopped hKey) rfl
  · have hEnds := apply_ends (carefully e e' (Caller.inside pending f args s) room) f args span s
    rw [hApply] at hEnds
    cases hEnds with
    | remembered hArity hFound =>
      exact .same fun _ final hFinal => Caller.upTo_ok hKey (apply_remembered hArity hFound) hFinal
    | @returned _ u hArity hMissing hBody =>
      have hFree : ∀ key, s.session.keyOf f args = some key → u.session.cache.find? key = none :=
        fun key h => new_of_not_replaces hNew hArity hMissing h hBody
      have hReturned := Session.Keeps.returned u.session hFree v
      have hEntered : s.session.Keeps (s.session.entered f (s.session.keyOf f args).isSome) :=
        .of_cache rfl (Nat.le_refl _)
      cases (asks_inOrder .void f.body).upToCall (moves_keeps_carefully e e' _ room)
          (hEv _ (Caller.mem_inside hPending)) hBody with
      | same hSame =>
        refine .same fun stop final hFinal => Caller.upTo_ok hKey ?_ hFinal
        exact apply_run_ok hArity hMissing (hSame stop final (hReturned.trans hFinal))
      | reached hReached hStopped hSession =>
        -- what is still running when the call is reached has no result yet
        refine .reached (hReached.weaken hEntered hReturned) (fun stop => Caller.upTo_error hKey
          (apply_run_error hArity hMissing (hStopped stop)) fun other hOther => ?_) hSession
        exact hReached.after.missing (hFree other hOther)

/-- **A careful run can be made up to the first call like the pending one**: nothing changes, or the
call is reached and the run stops there. -/
theorem upToCall_carefully (hPending : p ∈ pending) {n : Node} {v : Value}
    (hRun : carefully e e' pending room n s = .ok v t) :
    UpToCall e e' p
      (fun stop final => evaluateBy (.upTo p.key final stop late) pending' room n s) s v t := by
  induction room generalizing pending pending' n s v t with
  | zero =>
    cases n with
    | atom a span => exact .same fun _ _ _ => hRun
    | list items span => cases hRun
  | succ room ih =>
    cases n with
    | atom a span => exact .same fun _ _ _ => hRun
    | list items span =>
      refine UpToCall.nested (fun s v t hRun => ?_) hRun
      have hEv {pending : List Pending} (hMem : p ∈ pending) (n : Node) (s : EvalState) (v : Value)
          (t : EvalState) (hRun : carefully e e' pending room n s = .ok v t) :
          UpToCall e e' p
            (fun stop final => evaluateBy (.upTo p.key final stop late) pending' room n s) s v t :=
        ih hMem hRun
      have hKeeps := moves_keeps_carefully e e' pending room
      rcases formBy_cases items span with ⟨act, hAsks, hForm⟩ | ⟨act, hAsks, hForm⟩
      · simp only [hForm] at hRun ⊢
        exact hAsks.upToCall hKeeps (hEv hPending) hRun
      · simp only [hForm] at hRun ⊢
        obtain ⟨c, m, hCalling, hCall⟩ := of_bind_ok hRun
        have hBefore := hAsks.moves hKeeps (fun _ _ h => .of_cache h.cache h.counted.nextId) s
        have hAfter := moves_keeps_call e e' pending room c.1 c.2 span m
        rw [final_ok hCalling] at hBefore
        rw [final_ok hCall] at hAfter
        exact (hAsks.upToCall hKeeps (hEv hPending) hCalling).bind hBefore hAfter
          (upToCall_call (fun _ => hEv) hPending hCall)

end

end Eval

end PostLisp

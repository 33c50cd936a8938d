import PostLisp.Proofs.Lasting

/-!
# What is remembered and what is computed anew

The results that a session remembers stay right when globals change, as far as they can: a call that
gives data when everything is forgotten first gives the same data in the session as it is, unless the
computation reads a global name that the session has changed since a call, or compares functions.
`doubtful` is the alarm for both.

The new computation remembers calls too, but only the ones that it has made itself.  While it makes a
call that the session remembers, it re-enacts the recorded run of the result, which may lie far back
and met results that were recorded even earlier (`reenacts`, with an era).  A function that the new
computation makes plays the part of the one that was made in the recorded run.  The invariant is that
whatever the new computation remembers of a function the session remembers of its part (`Matched`);
so the session never has to make a call that the new computation does not make, and nests no deeper.
-/

namespace PostLisp

open Eval EvalM

namespace Eval

/-- Whether a name is about to be found among the globals that `now` has changed since a call. -/
def readsChanged (now : Session) (n : Node) (s : EvalState) : Bool :=
  match n.reads? with
  | some name => (s.frame.lookup .empty name).isNone && now.changedSinceCall name
  | none => false

/-- The alarm for names that `now` has changed since a call, and for comparisons of functions. -/
def doubtful (now : Session) (room : Nat) (n : Node) (s : EvalState) : Bool :=
  readsChanged now n s ||
    match room, n with
    | room + 1, .list items _ => comparesFunctions room items s.enterForm
    | _, _ => false

theorem not_changed_of_quiet {now : Session} {room : Nat} {n : Node} {s : EvalState} {name : String}
    (hReads : n.reads? = some name) (hQuiet : doubtful now room n s = false)
    (hGlobal : s.frame.lookup .empty name = none) : now.changedSinceCall name = false := by
  have hNone := (Bool.or_eq_false_iff.1 hQuiet).1
  rw [readsChanged, hReads] at hNone
  simpa only [hGlobal, Option.isNone_none, Bool.true_and] using hNone

end Eval

/-- The watch for what is doubtful. -/
def wary (now : Session) : Watch := ⟨doubtful now, ⟨.tooDeep 0, .origin⟩⟩

/-! ### Parts -/

/-- The functions of the second run by identity, and which of them the functions of the first run
play, by identity too. -/
structure Casting where
  registry : Registry
  part : Nat → Option Nat

namespace Casting

instance : Preorder Casting where
  le c c' := c.registry ≤ c'.registry ∧ ∀ i j, c.part i = some j → c'.part i = some j
  le_refl _ := ⟨le_refl _, fun _ _ h => h⟩
  le_trans _ _ _ h g := ⟨le_trans h.1 g.1, fun i j hPart => g.2 i j (h.2 i j hPart)⟩

/-- A new function with the identity `i` plays the new function `g`. -/
def insert (c : Casting) (i : Nat) (g : Closure Value) : Casting where
  registry := c.registry.insert g
  part k := if k = i then some g.id else c.part k

theorem le_insert {c : Casting} {i : Nat} {g : Closure Value} (hFree : ∀ j, c.part i ≠ some j)
    (hRegistry : c.registry ≤ c.registry.insert g) : c ≤ c.insert i g := by
  refine ⟨hRegistry, fun k j hPart => ?_⟩
  show (if k = i then some g.id else c.part k) = some j
  rw [if_neg]
  · exact hPart
  · rintro rfl
    exact hFree j hPart

/-- At the beginning the functions that there are play themselves. -/
def start (w : Registry) (nextId : Nat) : Casting where
  registry := w
  part i := if i < nextId then some i else none

theorem start_part {w : Registry} {nextId i j : Nat} (h : (start w nextId).part i = some j) :
    i < nextId := by
  change (if i < nextId then some i else none) = some j at h
  split at h
  · assumption
  · cases h

end Casting

/-- `f` has the code and the part of `g`. -/
def Closure.Acts (part : Nat → Option Nat) (f g : Closure Value) : Prop :=
  f.SameCode g ∧ part f.id = some g.id

/-- `f` acts the registered function `g`. -/
def Closure.Plays (c : Casting) (f g : Closure Value) : Prop :=
  f.Acts c.part g ∧ c.registry g.id = some g

theorem Closure.Acts.mono {c c' : Casting} (hCasting : c ≤ c') {f g : Closure Value}
    (h : f.Acts c.part g) : f.Acts c'.part g :=
  ⟨h.1, hCasting.2 _ _ h.2⟩

theorem Closure.Plays.mono {c c' : Casting} (hCasting : c ≤ c') {f g : Closure Value}
    (h : f.Plays c g) : f.Plays c' g :=
  ⟨h.1.mono hCasting, hCasting.1 _ _ h.2⟩

theorem Closure.Plays.known {c : Casting} {f g : Closure Value} (h : f.Plays c g) :
    g.Known False c.registry g := by
  obtain ⟨⟨⟨-, hBody⟩, -⟩, hRegistered⟩ := h
  refine ⟨rfl, hRegistered, ?_⟩
  have hSame := hBody.eq
  rwa [hSame] at hBody

/-- A function plays another one wherever that one is registered. -/
theorem Closure.Acts.plays {c : Casting} {f g k : Closure Value} (h : f.Acts c.part g)
    (h' : g.Known False c.registry k) : f.Plays c k := by
  obtain ⟨rfl, hRegistered, -⟩ := h'
  exact ⟨h, hRegistered⟩

/-- At the beginning a registered function plays itself. -/
theorem Closure.Known.plays {w : Registry} {nextId : Nat}
    (hBelow : ∀ i f, w i = some f → i < nextId) {f g : Closure Value} (h : f.Known False w g) :
    f.Plays (.start w nextId) g := by
  obtain ⟨rfl, hRegistered, hBody⟩ := h
  exact ⟨⟨⟨rfl, hBody⟩, if_pos (hBelow _ _ hRegistered)⟩, hRegistered⟩

theorem Value.Like.plays {c : Casting} {v v' : Value}
    (h : Value.Like False (Closure.Acts c.part) v v') (h' : v'.Conforms False c.registry) :
    Value.Like False (Closure.Plays c) v v' :=
  h.trans (fun _ _ _ hf hg => hf.plays hg) h'

theorem Bindings.Like.plays {c : Casting} {b b' : Bindings Value}
    (h : b.Like False (Closure.Acts c.part) b') (h' : b'.Conforms False c.registry) :
    b.Like False (Closure.Plays c) b' :=
  Value.LikeEntries.trans (fun _ _ _ hf hg => hf.plays hg) h h'

/-- What is in the first cache under a function is in the second one under its part. -/
def Cache.Matched (part : Nat → Option Nat) (cache kept : Cache) : Prop :=
  ∀ key v, cache.find? key = some v → ∃ j v', part key.function = some j ∧
    kept.find? ⟨j, key.args⟩ = some v' ∧ Value.Like False (Closure.Acts part) v v'

namespace Cache.Matched

variable {c c' : Casting} {cache kept kept' : Cache}

theorem mono (hCasting : c ≤ c') (hKept : ∀ key v, kept.find? key = some v → kept'.find? key = some v)
    (h : cache.Matched c.part kept) : cache.Matched c'.part kept' := by
  intro key v hFound
  obtain ⟨j, v', hPart, hThere, hValue⟩ := h key v hFound
  exact ⟨j, v', hCasting.2 _ _ hPart, hKept _ _ hThere,
    hValue.mono fun _ _ => Closure.Acts.mono hCasting⟩

theorem insert {key : CallKey} {j : Nat} {v v' : Value} (h : cache.Matched c.part kept)
    (hPart : c.part key.function = some j) (hThere : kept.find? ⟨j, key.args⟩ = some v')
    (hValue : Value.Like False (Closure.Acts c.part) v v') :
    (cache.insert key v).Matched c.part kept := by
  intro other x hFound
  rw [Cache.find?_insert] at hFound
  split at hFound
  · rename_i hSame
    cases hFound
    subst hSame
    exact ⟨j, v', hPart, hThere, hValue⟩
  · exact h other x hFound

end Cache.Matched

/-! ### Corresponding states -/

/-- The first state computes anew, in a call, among the globals of `now`; the second one makes the
same computation, now or in the past of a session that is its era.  Whatever the first one remembers
is remembered in the second one, or in its era. -/
structure Reenacts (now : Session) (era : Option Session) (c : Casting) (s s' : EvalState) : Prop where
  memoize : s.session.options.memoize = true
  globals : s.session.globals = now.globals
  own : now.globals.Like False (Closure.Acts c.part) now.globals
  inCall : s.frame.isTop = false
  frame : s.frame.Like False (Closure.Plays c) s'.frame
  fresh : ∀ i j, c.part i = some j → i < s.session.nextId
  lasts : Lasts c.registry s'
  logged : s'.session.Logged now
  settled : s'.session.Settled now
  present : era = none → s'.session.globals = now.globals
  matched : s.session.cache.Matched c.part (era.getD s'.session).cache

/-- Computing anew what a session has computed or computes.  Nothing is said of a computation that
fails, nor in the past of one that is not over. -/
def reenacts (now : Session) (era : Option Session) : Correspondence Casting where
  floats := False
  spans := Eq
  functions := Closure.Plays
  states := Reenacts now era
  rooms room room' := era.isSome ∨ room = room'
  watch := wary now
  pardoned _ := True
  pardoned' _ := era.isSome

namespace Reenacts

variable {now : Session} {era : Option Session} {c : Casting} {s s' : EvalState}

/-- A global name of the second state that has not changed since has the value that the first state
finds. -/
theorem find?_eq (h : Reenacts now era c s s') {name : String} {v : Value}
    (hNever : now.changedSinceCall name = false)
    (hFound : s'.session.globals.find? name = some v) : now.globals.find? name = some v := by
  have hDefined := h.lasts.announced name v hFound
  rw [(h.logged name).2 ((h.settled name hNever).2 hDefined), hFound]

theorem found (h : Reenacts now era c s s') {name : String}
    (hNever : s.frame.lookup .empty name = none → now.changedSinceCall name = false) :
    (reenacts now era).Found c (s.frame.lookup s.session.globals name)
      (s'.frame.lookup s'.session.globals name) := by
  refine h.frame.lookup_by (fun _ _ hValue => .alike (.some hValue)) fun hGlobal => ?_
  rw [h.globals]
  cases hThere : s'.session.globals.find? name with
  | some v =>
    have hHere := h.find?_eq (hNever hGlobal) hThere
    have hOwn := h.own.find? name
    have hValue := h.lasts.globals.find? name
    rw [hHere] at hOwn ⊢
    rw [hThere] at hValue
    cases hOwn with
    | some hOwn =>
      cases hValue with
      | some hValue => exact .alike (.some (hOwn.plays hValue))
  | none =>
    -- a name that was not bound yet in the past may be bound now
    cases era with
    | some final => exact .missing' fun _ => rfl
    | none =>
      rw [← h.present rfl, hThere]
      exact .alike .none

/-- The states after a step of both that defines nothing among the globals. -/
theorem keep (h : Reenacts now era c s s') {c' : Casting} {t t' : EvalState} (hCasting : c ≤ c')
    (hOptions : t.session.options = s.session.options)
    (hGlobals : t.session.globals = s.session.globals) (hInCall : t.frame.isTop = false)
    (hFrame : t.frame.Like False (Closure.Plays c') t'.frame)
    (hFresh : ∀ i j, c'.part i = some j → i < t.session.nextId) (hLasts : Lasts c'.registry t')
    (hGlobals' : t'.session.globals = s'.session.globals)
    (hNothing : s'.session.NothingDefined t'.session)
    (hMatched : t.session.cache.Matched c'.part (era.getD t'.session).cache) :
    Reenacts now era c' t t' where
  memoize := by rw [hOptions, h.memoize]
  globals := hGlobals.trans h.globals
  own := h.own.mono fun _ _ => Closure.Acts.mono hCasting
  inCall := hInCall
  frame := hFrame
  fresh := hFresh
  lasts := hLasts
  logged := (Session.Logged.of_eq hGlobals'.symm fun name => (hNothing name).1.symm).trans h.logged
  settled := h.settled.of_nothingDefined hNothing
  present hPresent := hGlobals'.trans (h.present hPresent)
  matched := hMatched

/-- What is remembered in the second state, or in its era, depends on its cache only. -/
theorem matched_of_cache (h : Reenacts now era c s s') {c' : Casting} {t t' : EvalState}
    (hCasting : c ≤ c') (hCache : t.session.cache = s.session.cache)
    (hCache' : t'.session.cache = s'.session.cache) :
    t.session.cache.Matched c'.part (era.getD t'.session).cache := by
  have hSame : (era.getD t'.session).cache = (era.getD s'.session).cache := by
    cases era with
    | none => exact hCache'
    | some final => rfl
  rw [hCache, hSame]
  exact h.matched.mono hCasting fun _ _ => id

end Reenacts

theorem CallKey.ofValues?_of_of? {function : Nat} {args : List Value} {key : CallKey}
    (h : CallKey.of? function args = some key) : ArgKey.ofValues? args = some key.args := by
  rw [CallKey.of?] at h
  obtain ⟨keys, hKeys, rfl⟩ := Option.map_eq_some_iff.1 h
  exact hKeys

namespace reenacts

variable {now : Session} {era : Option Session} {c : Casting} {s s' : EvalState}

theorem outcome_define {name : String} {v v' : Value}
    (hValue : Value.Like False (Closure.Plays c) v v') (h : Reenacts now era c s s') :
    (reenacts now era).Outcome c (fun _ _ _ => True)
      ((do announce name v; EvalM.define name v : EvalM Unit) s)
      ((do announce name v'; EvalM.define name v' : EvalM Unit) s') := by
  obtain ⟨session, frame⟩ := s
  obtain ⟨session', frame'⟩ := s'
  cases h.frame.tiers with
  | top => cases h.inCall
  | call hLocals hCaptured =>
    rw [announce_define_call, announce_define_call]
    exact .ok (le_refl c) trivial (h.keep (le_refl c) rfl rfl rfl
      ⟨hLocals.insert name hValue, hCaptured⟩ h.fresh
      (h.lasts.define_call name (hValue.right fun _ _ hf => hf.known)) rfl (.of_events rfl)
      (h.matched_of_cache (le_refl c) rfl rfl))

theorem outcome_makeFunction {params : List String} {body body' : List Node}
    (hBody : Node.LikeAll False Eq body body') (h : Reenacts now era c s s') :
    (reenacts now era).Outcome c (reenacts now era).Alike (makeFunction params body s)
      (makeFunction params body' s') := by
  obtain ⟨session, frame⟩ := s
  obtain ⟨session', frame'⟩ := s'
  cases h.frame.tiers with
  | top => cases h.inCall
  | @call locals locals' captured captured' hLocals hCaptured =>
    let g : Closure Value := ⟨session'.nextId, params, body', locals'⟩
    obtain ⟨hRegistry, hNext⟩ := h.lasts.makeFunction (f := g) rfl params.length locals'.size
    have hCasting : c ≤ c.insert session.nextId g := Casting.le_insert
      (fun j hPart => Nat.lt_irrefl _ (h.fresh _ j hPart)) hRegistry
    have hMono := fun f k => Closure.Plays.mono (f := f) (g := k) hCasting
    have hPart : (c.insert session.nextId g).part session.nextId = some g.id := if_pos rfl
    rw [makeFunction_apply, makeFunction_apply]
    refine .ok hCasting
      (.function ⟨⟨⟨rfl, hBody⟩, hPart⟩, c.registry.insert_id g⟩ (hLocals.mono hMono)) ?_
    refine h.keep hCasting rfl rfl rfl (h.frame.mono hMono) (fun i j hPlays => ?_) hNext rfl
      (.of_event rfl fun _ => rfl) (h.matched_of_cache hCasting rfl rfl)
    show i < session.nextId + 1
    change (if i = session.nextId then some g.id else c.part i) = some j at hPlays
    split at hPlays
    · omega
    · exact Nat.lt_succ_of_lt (h.fresh i j hPlays)

end reenacts

/-! ### Calls -/

/-- The same call is about to be made in corresponding states. -/
structure Reenacts.Calls (now : Session) (era : Option Session) (c : Casting) (s s' : EvalState)
    (f f' : Closure Value) (args args' : List Value) : Prop extends Reenacts now era c s s' where
  function : f.Plays c f'
  captured : f.captured.Like False (Closure.Plays c) f'.captured
  arguments : Value.LikeAll False (Closure.Plays c) args args'
  arity : args.length = f.params.length

namespace Reenacts.Calls

variable {now : Session} {era : Option Session} {c : Casting} {s s' : EvalState}
  {f f' : Closure Value} {args args' : List Value}

theorem arity' (h : Calls now era c s s' f f' args args') : args'.length = f'.params.length := by
  rw [← h.arguments.length_eq, ← h.function.1.1.1, h.arity]

theorem captured' (h : Calls now era c s s' f f' args args') :
    f'.captured.Conforms False c.registry :=
  Value.LikeEntries.right (fun _ _ hf => hf.known) h.captured

theorem arguments' (h : Calls now era c s s' f f' args args') :
    Value.LikeAll False (Closure.Known False c.registry) args' args' :=
  h.arguments.right fun _ _ hf => hf.known

/-- Both calls have a key, or none has. -/
theorem keys (h : Calls now era c s s' f f' args args') :
    s.session.keyOf f args = none ∧ s'.session.keyOf f' args' = none ∨
      ∃ keys, ArgKey.ofValues? args' = some keys ∧ s.session.keyOf f args = some ⟨f.id, keys⟩ ∧
        s'.session.keyOf f' args' = some ⟨f'.id, keys⟩ := by
  rw [Session.keyOf, Session.keyOf, if_pos h.memoize, if_pos h.lasts.memoize, CallKey.of?,
    CallKey.of?, h.arguments.keys_eq]
  cases ArgKey.ofValues? args' with
  | none => exact Or.inl ⟨rfl, rfl⟩
  | some keys => exact Or.inr ⟨keys, rfl, rfl, rfl⟩

end Reenacts.Calls

/-- A call that has a key is remembered if there is a result for the key. -/
theorem Session.bind_find? {s : Session} {f : Closure Value} {args : List Value} {key : CallKey}
    {r : Option Value} (hKey : s.keyOf f args = some key) (hFound : s.cache.find? key = r) :
    (s.keyOf f args).bind s.cache.find? = r := by
  rw [hKey]
  exact hFound

theorem Session.bind_find?_of_none {s : Session} {f : Closure Value} {args : List Value}
    (hKey : s.keyOf f args = none) : (s.keyOf f args).bind s.cache.find? = none := by
  rw [hKey]
  rfl

namespace reenacts

variable {now : Session} {era : Option Session} {c : Casting} {s s' : EvalState}
  {room room' : Nat} {ev' : Evaluator} {f f' : Closure Value} {args args' : List Value}
  {keys : List ArgKey} {v v' : Value} {span : Span}

/-- **A remembered result is what the call gives when it is computed anew**: the new computation
re-enacts the recorded run. -/
theorem remembered {key : CallKey} {cacheable : Bool} {t : EvalState}
    (h : Reenacts.Calls now era c s s' f f' args args')
    (hKeeps : s'.session.Keeps (era.getD s'.session))
    (hPast : ∀ room', (reenacts now (some (era.getD s'.session))).Simulates
      (watchedWithin (wary now) room) (towards (era.getD s'.session) room'))
    (hCached : s'.session.cache.find? key = some v') (hId : key.function = f'.id)
    (hKeys : ArgKey.ofValues? args' = some key.args)
    (hRun : inOrder (watchedWithin (wary now) room) .void f.body
      ⟨s.session.entered f cacheable, f.frame args⟩ = .ok v t) :
    ∃ part, c ≤ ⟨c.registry, part⟩ ∧ Value.Like False (Closure.Acts part) v v' ∧
      (∀ i j, part i = some j → i < t.session.nextId) ∧
      t.session.cache.Matched part (era.getD s'.session).cache := by
  obtain ⟨hRun₀, hKnown, hArgs₀, hStart, hMemoize, hEarlier, hSince, hRegistered, hValue⟩ :=
    h.lasts.lasting key v' hCached
  rename_i w₀ f₀ args₀ room₀ s₀ t₀
  rw [hId, h.function.2] at hRegistered
  cases hRegistered
  let c₀ : Casting := ⟨w₀, c.part⟩
  have hFrame₀ := hStart.frame
  rw [hRun₀.frame] at hFrame₀
  -- the arguments of then and now have the same keys, and so are the same data
  have hArgsSame : Value.LikeAll False (Closure.Plays c₀) args args₀ :=
    h.arguments.of_keys_eq hArgs₀ (h.arguments.keys_eq.trans hKeys) (CallKey.ofValues?_of_of? hRun₀.key)
  have hActs : f.captured.Like False (Closure.Acts c₀.part) f'.captured :=
    h.captured.mono fun _ _ hf => hf.1
  have hWhole := (hStart.precedes hKnown.body hRun₀.result).trans hSince
  have hStates : (reenacts now (some (era.getD s'.session))).states c₀
      ⟨s.session.entered f cacheable, f.frame args⟩ s₀ := {
    memoize := h.memoize
    globals := h.globals
    own := h.own
    inCall := rfl
    frame := by
      rw [hRun₀.frame]
      exact Frame.like_closure h.function.1.1.1 (hActs.plays hFrame₀.2) hArgsSame
    fresh := h.fresh
    lasts := { hStart with memoize := hMemoize, lasting := hEarlier }
    logged := hWhole.logged.trans h.logged
    settled := h.settled.of_began hRun₀.reported rfl hWhole.events
    present := nofun
    matched := h.matched }
  have hOutcome := Comparison.outcome_inOrder (hPast room₀) h.function.1.1.2 .void hStates
  rw [hRun, hStart.inOrder_towards hKnown.body hRun₀.result (hSince.keeps.trans hKeeps)] at hOutcome
  cases hOutcome with
  | @ok c₁ _ _ _ _ hCasting hSame hStates =>
    exact ⟨c₁.part, ⟨le_refl _, hCasting.2⟩, hSame.mono fun _ _ hf => hf.1, hStates.fresh,
      hStates.matched⟩

/-- The first run has to make a call of which the second one remembers the result. -/
theorem outcome_remembered (h : Reenacts.Calls now era c s s' f f' args args')
    (hKeys : ArgKey.ofValues? args' = some keys)
    (hKey : s.session.keyOf f args = some ⟨f.id, keys⟩)
    (hKey' : s'.session.keyOf f' args' = some ⟨f'.id, keys⟩)
    (hMissing : s.session.cache.find? ⟨f.id, keys⟩ = none)
    (hCached : s'.session.cache.find? ⟨f'.id, keys⟩ = some v')
    (hKeeps : s'.session.Keeps (era.getD s'.session))
    (hPast : ∀ room', (reenacts now (some (era.getD s'.session))).Simulates
      (watchedWithin (wary now) room) (towards (era.getD s'.session) room')) :
    (reenacts now era).Outcome c (reenacts now era).Alike
      (apply (watchedWithin (wary now) room) f args span s) (apply ev' f' args' span s') := by
  have hNone := Session.bind_find? hKey hMissing
  rw [apply_remembered h.arity' (Session.bind_find? hKey' hCached)]
  cases hRun : inOrder (watchedWithin (wary now) room) .void f.body
      ⟨s.session.entered f (s.session.keyOf f args).isSome, f.frame args⟩ with
  | error e t =>
    rw [apply_run_error h.arity hNone hRun]
    exact .pardoned trivial
  | ok v t =>
    obtain ⟨hGlobals, hCounted⟩ := inOrder_call rfl (inOrder_of_watched hRun)
    obtain ⟨part, hCasting, hValue, hFresh, hMatched⟩ :=
      remembered h hKeeps hPast hCached rfl hKeys hRun
    have hSame : (era.getD (s'.session.answered f')).cache = (era.getD s'.session).cache := by
      cases era <;> rfl
    rw [apply_run_ok h.arity hNone hRun, hKey]
    refine .ok hCasting (hValue.plays (h.lasts.cache _ v' hCached).value) ?_
    refine h.keep hCasting hCounted.options hGlobals h.inCall
      (h.frame.mono fun _ _ => Closure.Plays.mono hCasting) hFresh (h.lasts.answered f') rfl
      (.of_event rfl fun _ => rfl) ?_
    rw [hSame]
    exact hMatched.insert (c := ⟨c.registry, part⟩) (hCasting.2 _ _ h.function.1.2)
      (hKeeps.entries _ _ hCached) hValue

/-- Both runs remember the result of a call: what the first one remembers the second one does, in the
present. -/
theorem outcome_answered (h : Reenacts.Calls now none c s s' f f' args args')
    (hKey : s.session.keyOf f args = some ⟨f.id, keys⟩)
    (hKey' : s'.session.keyOf f' args' = some ⟨f'.id, keys⟩)
    (hCached : s.session.cache.find? ⟨f.id, keys⟩ = some v) :
    (reenacts now none).Outcome c (reenacts now none).Alike
      (apply (watchedWithin (wary now) room) f args span s) (apply ev' f' args' span s') := by
  obtain ⟨j, v', hPart, hThere, hValue⟩ := h.matched _ v hCached
  obtain rfl : j = f'.id := Option.some.inj (hPart.symm.trans h.function.1.2)
  rw [apply_remembered h.arity (Session.bind_find? hKey hCached),
    apply_remembered h.arity' (Session.bind_find? hKey' hThere)]
  refine .ok (le_refl c) (hValue.plays (h.lasts.cache _ v' hThere).value) ?_
  exact h.keep (le_refl c) rfl rfl h.inCall h.frame h.fresh (h.lasts.answered f') rfl
    (.of_event rfl fun _ => rfl) (h.matched_of_cache (le_refl c) rfl rfl)

/-- The first run remembers the result of a call that the second one has made in the past: the result
of this call is still remembered. -/
theorem outcome_answered_past {final : Session}
    (h : Reenacts.Calls now (some final) c s s' f f' args args')
    (hKey : s.session.keyOf f args = some ⟨f.id, keys⟩)
    (hKey' : s'.session.keyOf f' args' = some ⟨f'.id, keys⟩)
    (hCached : s.session.cache.find? ⟨f.id, keys⟩ = some v)
    (hRuns : ∀ n s v t, ev' n s = .ok v t → evaluateWithin room' n s = .ok v t)
    (hAfter : ∀ x t, apply ev' f' args' span s' = .ok x t → t.session.Keeps final) :
    (reenacts now (some final)).Outcome c (reenacts now (some final)).Alike
      (apply (watchedWithin (wary now) room) f args span s) (apply ev' f' args' span s') := by
  rw [apply_remembered h.arity (Session.bind_find? hKey hCached)]
  cases hCall : apply ev' f' args' span s' with
  | error e t => exact .pardoned' rfl
  | ok x t =>
    obtain ⟨j, v', hPart, hThere, hValue⟩ := h.matched _ v hCached
    obtain rfl : j = f'.id := Option.some.inj (hPart.symm.trans h.function.1.2)
    obtain ⟨hFrame', hRemembers⟩ := of_apply_ok hCall
    have hKept := (hAfter x t hCall).entries _ _ (hRemembers _ hKey')
    obtain rfl : x = v' := Option.some.inj (hKept.symm.trans hThere)
    have hReal := apply_of_ok hRuns hCall
    obtain ⟨w', hRegistry, hConforms, hLasts⟩ :=
      lasting.lasts_of_apply h.lasts h.function.known h.captured' h.arguments' hReal
    have hCasting : c ≤ ⟨w', c.part⟩ := ⟨hRegistry, fun _ _ hPart => hPart⟩
    have hInside := moves_inside_apply (evaluateWithin_inside room') f' args' span s'
    have hInnermost := moves_innermost_apply (fun _ => False) (fun n s =>
      (evaluateWithin_innermost room' n s).mono fun _ _ => trivial) f' args' span s'
    rw [final_ok hReal] at hInside hInnermost
    obtain ⟨session, frame⟩ := s
    obtain ⟨session', frame'⟩ := s'
    cases hTiers : h.frame.tiers with
    | top => cases h.inCall
    | call hLocals hCaptured' =>
      refine .ok hCasting (hValue.plays (c := ⟨w', c.part⟩) hConforms) ?_
      refine h.keep hCasting rfl rfl rfl ?_ h.fresh hLasts (hInnermost.globals_of_call rfl)
        (hInside.nothing rfl) h.matched
      rw [hFrame']
      exact h.frame.mono fun _ _ => Closure.Plays.mono hCasting

/-- Bodies that both runs have run: their results are remembered. -/
theorem states_returned {c' : Casting} {t t' : EvalState}
    (h : Reenacts.Calls now era c s s' f f' args args')
    (hMissing' : (s'.session.keyOf f' args').bind s'.session.cache.find? = none)
    (hRuns : ∀ n s v t, ev' n s = .ok v t → evaluateWithin room' n s = .ok v t)
    (hAfter : ∀ final, era = some final → ∀ x t, apply ev' f' args' span s' = .ok x t →
      t.session.Keeps final)
    (hRun' : inOrder ev' .void f'.body
      ⟨s'.session.entered f' (s'.session.keyOf f' args').isSome, f'.frame args'⟩ = .ok v' t')
    (hCasting : c ≤ c') (hValue : Value.Like False (Closure.Plays c') v v')
    (hInside : Reenacts now era c' t t') :
    Reenacts now era c' ⟨t.session.returned (s.session.keyOf f args) v, s.frame⟩
      ⟨t'.session.returned (s'.session.keyOf f' args') v', s'.frame⟩ := by
  have hFrame := h.frame.mono fun _ _ => Closure.Plays.mono hCasting
  have hFrame' := h.lasts.frame.mono fun _ _ => Closure.Known.mono hCasting.1
  rcases h.keys with ⟨hKey, hKey'⟩ | ⟨keys, hKeys, hKey, hKey'⟩
  · rw [hKey, hKey']
    exact hInside.keep (le_refl c') rfl rfl h.inCall hFrame hInside.fresh
      (hInside.lasts.inFrame hFrame') rfl (.of_events rfl)
      (hInside.matched_of_cache (le_refl c') rfl rfl)
  · have hDone : apply ev' f' args' span s' = _ := apply_run_ok h.arity' hMissing' hRun'
    rw [hKey'] at hRun' hDone hMissing'
    have hReal := (asks_inOrder .void f'.body).ok hRuns hRun'
    have hNew := h.lasts.not_remembered h.function.known h.captured' h.arguments' hKey' hMissing' hReal
    have hLasts := (hInside.lasts.returned hCasting.1 h.lasts hKey' hMissing' h.function.known
      h.captured' h.arguments' hReal (hValue.right fun _ _ hf => hf.known)).inFrame hFrame'
    have hReturned := Session.Keeps.returned t'.session
      (fun _ hSame => Option.some.inj hSame ▸ hNew) v'
    -- the era remembers the result in any case, be it the state itself or a later session
    obtain ⟨hKept, hThere⟩ : (∀ key x, (era.getD t'.session).cache.find? key = some x →
        (era.getD (t'.session.returned (some ⟨f'.id, keys⟩) v')).cache.find? key = some x) ∧
        (era.getD (t'.session.returned (some ⟨f'.id, keys⟩) v')).cache.find? ⟨f'.id, keys⟩ =
          some v' := by
      cases era with
      | some final => exact ⟨fun _ _ hx => hx, (hAfter final rfl v' _ hDone).find?_of_returned⟩
      | none => exact ⟨hReturned.entries, (Session.Keeps.refl _).find?_of_returned⟩
    rw [hKey, hKey']
    refine hInside.keep (le_refl c') rfl rfl h.inCall hFrame hInside.fresh hLasts rfl
      (.of_events rfl) ?_
    exact (hInside.matched.mono (le_refl c') hKept).insert (hCasting.2 _ _ h.function.1.2) hThere
      (hValue.mono fun _ _ hf => hf.1)

/-- Both runs have to make a call. -/
theorem outcome_run (h : Reenacts.Calls now era c s s' f f' args args')
    (hMissing : (s.session.keyOf f args).bind s.session.cache.find? = none)
    (hMissing' : (s'.session.keyOf f' args').bind s'.session.cache.find? = none)
    (hEv : (reenacts now era).Simulates (watchedWithin (wary now) room) ev')
    (hRuns : ∀ n s v t, ev' n s = .ok v t → evaluateWithin room' n s = .ok v t)
    (hAfter : ∀ final, era = some final → ∀ x t, apply ev' f' args' span s' = .ok x t →
      t.session.Keeps final) :
    (reenacts now era).Outcome c (reenacts now era).Alike
      (apply (watchedWithin (wary now) room) f args span s) (apply ev' f' args' span s') := by
  refine Comparison.outcome_apply_run h.arity h.arity' hMissing hMissing' ?_
    (fun c' v v' t t' hCasting _ hRun' hValue hInside =>
      states_returned h hMissing' hRuns hAfter hRun' hCasting hValue hInside)
    fun c' t t' hCasting hInside => ?_
  · refine Comparison.outcome_inOrder hEv h.function.1.1.2 .void ?_
    exact h.keep (le_refl c) rfl rfl rfl (Frame.like_closure h.function.1.1.1 h.captured h.arguments)
      h.fresh (h.lasts.entered h.captured' h.arguments' _) rfl (.of_event rfl fun _ => rfl)
      (h.matched_of_cache (le_refl c) rfl rfl)
  · exact hInside.keep (le_refl c') rfl rfl h.inCall
      (h.frame.mono fun _ _ => Closure.Plays.mono hCasting) hInside.fresh
      (hInside.lasts.inFrame (h.lasts.frame.mono fun _ _ => Closure.Known.mono hCasting.1)) rfl
      (.of_events rfl) (hInside.matched_of_cache (le_refl c') rfl rfl)

/-- A call that both runs make, if the second run is in the past towards its era. -/
theorem outcome_apply (h : Reenacts now era c s s') (hFunction : f.Plays c f')
    (hCaptured : f.captured.Like False (Closure.Plays c) f'.captured)
    (hArgs : Value.LikeAll False (Closure.Plays c) args args')
    (hEv : (reenacts now era).Simulates (watchedWithin (wary now) room) ev')
    (hPast : ∀ room', (reenacts now (some (era.getD s'.session))).Simulates
      (watchedWithin (wary now) room) (towards (era.getD s'.session) room'))
    (hRuns : ∀ n s v t, ev' n s = .ok v t → evaluateWithin room' n s = .ok v t)
    (hBefore : s'.session.Keeps (era.getD s'.session))
    (hAfter : ∀ final, era = some final → ∀ x t, apply ev' f' args' span s' = .ok x t →
      t.session.Keeps final) :
    (reenacts now era).Outcome c (reenacts now era).Alike
      (apply (watchedWithin (wary now) room) f args span s) (apply ev' f' args' span s') := by
  by_cases hArity : args.length = f.params.length
  · have hCalls : Reenacts.Calls now era c s s' f f' args args' :=
      { h with function := hFunction, captured := hCaptured, arguments := hArgs, arity := hArity }
    rcases hCalls.keys with ⟨hKey, hKey'⟩ | ⟨keys, hKeys, hKey, hKey'⟩
    · exact outcome_run hCalls (Session.bind_find?_of_none hKey) (Session.bind_find?_of_none hKey')
        hEv hRuns hAfter
    · cases hCached : s.session.cache.find? ⟨f.id, keys⟩ with
      | some v =>
        cases era with
        | some final =>
          exact outcome_answered_past hCalls hKey hKey' hCached hRuns (hAfter final rfl)
        | none => exact outcome_answered hCalls hKey hKey' hCached
      | none =>
        cases hCached' : s'.session.cache.find? ⟨f'.id, keys⟩ with
        | some v' =>
          exact outcome_remembered hCalls hKeys hKey hKey' hCached hCached' hBefore hPast
        | none =>
          exact outcome_run hCalls (Session.bind_find? hKey hCached)
            (Session.bind_find? hKey' hCached') hEv hRuns hAfter
  · rw [apply_arity hArity]
    exact .pardoned trivial

/-! ### Whole runs -/

theorem stepLaws (now : Session) (era : Option Session) :
    (reenacts now era).StepLaws (watchedWithin (wary now)) where
  functions_mono hCasting h := Closure.Plays.mono hCasting h
  alarm _ _ := trivial
  rooms_succ h := h.imp id Nat.succ.inj
  rooms_zero _ := Or.inl fun _ _ => trivial
  rooms_zero' h _ _ := h.elim id nofun
  enterForm h := h.keep (le_refl _) rfl rfl h.inCall h.frame h.fresh h.lasts.enterForm rfl
    (.of_events rfl) (h.matched_of_cache (le_refl _) rfl rfl)
  leaveForm h := h.keep (le_refl _) rfl rfl h.inCall h.frame h.fresh h.lasts.leaveForm rfl
    (.of_events rfl) (h.matched_of_cache (le_refl _) rfl rfl)
  lookup hReads hQuiet h := h.found fun hGlobal => not_changed_of_quiet hReads hQuiet hGlobal
  define _ _ _ hValue h := outcome_define hValue h
  compare := by
    intro c room span left right operator s t u v v' x x' hOperator hQuiet hLeft hRight hValue hNext
    have hCalm : doubtful now (room + 1) (.list [left, right, operator] span) s = false := hQuiet
    obtain ⟨hNone, hNone'⟩ := no_function_of_comparesFunctions hOperator
      (Bool.or_eq_false_iff.1 hCalm).2 (evaluateWithin_of_watched hLeft)
      (evaluateWithin_of_watched hRight)
    exact hValue.same_eq_of_no_function hNext hNone hNone'
  makeFunction := outcome_makeFunction

/-- Computing anew re-enacts every run in the past that was made towards the era. -/
theorem simulates_past (now final : Session) (room room' : Nat) :
    (reenacts now (some final)).Simulates (watchedWithin (wary now) room) (towards final room') := by
  refine (stepLaws now (some final)).simulates_watched ?_ (Or.inl rfl)
  rintro room room' - hEv c f f' args args' span _ s s' hFunction hCaptured hArgs rfl h
  show (reenacts now (some final)).Outcome c _ _
    ((apply (towards final room') f' args' span).interrupted (fun s => ¬ s.session.Keeps final) late s')
  by_cases hBefore : s'.session.Keeps final
  · cases hCall : apply (towards final room') f' args' span s' with
    | error e t =>
      rw [interrupted_error (not_not_intro hBefore) hCall]
      exact .pardoned' rfl
    | ok x t =>
      by_cases hAfter : t.session.Keeps final
      · rw [interrupted_ok (not_not_intro hBefore) hCall (not_not_intro hAfter), ← hCall]
        refine outcome_apply h hFunction hCaptured hArgs (hEv _ (Or.inl rfl))
          (fun room₀ => hEv room₀ (Or.inl rfl)) (fun _ _ _ _ => evaluateWithin_of_towards) hBefore ?_
        intro _ hSame y u hCall'
        cases hSame
        cases hCall.symm.trans hCall'
        exact hAfter
      · rw [interrupted_after (not_not_intro hBefore) hCall hAfter]
        exact .pardoned' rfl
  · rw [interrupted_before hBefore]
    exact .pardoned' rfl

/-- A call in the session as it is. -/
theorem outcome_present (h : Reenacts now none c s s') (hFunction : f.Plays c f')
    (hCaptured : f.captured.Like False (Closure.Plays c) f'.captured)
    (hArgs : Value.LikeAll False (Closure.Plays c) args args')
    (hEv : (reenacts now none).Simulates (watchedWithin (wary now) room) (evaluateWithin room')) :
    (reenacts now none).Outcome c (reenacts now none).Alike
      (apply (watchedWithin (wary now) room) f args span s)
      (apply (evaluateWithin room') f' args' span s') :=
  outcome_apply h hFunction hCaptured hArgs hEv (simulates_past now s'.session room)
    (fun _ _ _ _ hRun => hRun) (.refl _) nofun

/-- Computing anew goes as computing in the session as it is. -/
theorem simulates_present (now : Session) (room : Nat) :
    (reenacts now none).Simulates (watchedWithin (wary now) room) (evaluateWithin room) := by
  have hLaws : (reenacts now none).Laws :=
    { stepLaws now none with
      apply := by
        rintro c room room' f f' args args' span _ s s' hRooms hEv hFunction hCaptured hArgs rfl h
        exact outcome_present h hFunction hCaptured hArgs (hEv _ hRooms) }
  exact hLaws.simulates (Or.inr rfl)

end reenacts

/-! ### Calls from outside -/

namespace Eval

variable {ev ev' : Evaluator} {f : Closure Value} {args : List Value} {s : Session}

/-- A call depends on the frame around it no more than on how the nodes outside its body are
evaluated. -/
theorem perform_apply (frame frame' : Frame) (span : Span)
    (hBody : ∀ cacheable, inOrder ev .void f.body ⟨s.entered f cacheable, f.frame args⟩ =
      inOrder ev' .void f.body ⟨s.entered f cacheable, f.frame args⟩) :
    (s.perform frame (apply ev f args span)).1 = (s.perform frame' (apply ev' f args span)).1 := by
  rw [Session.perform, Session.perform]
  by_cases hArity : args.length = f.params.length
  · cases hFound : (s.keyOf f args).bind s.cache.find? with
    | some v => rw [apply_remembered hArity hFound, apply_remembered hArity hFound]
    | none =>
      have hSame := hBody (s.keyOf f args).isSome
      cases hRun : inOrder ev' .void f.body
          ⟨s.entered f (s.keyOf f args).isSome, f.frame args⟩ with
      | ok v t => rw [apply_run_ok hArity hFound (hSame.trans hRun), apply_run_ok hArity hFound hRun]
      | error e t =>
        rw [apply_run_error hArity hFound (hSame.trans hRun), apply_run_error hArity hFound hRun]
  · rw [apply_arity hArity, apply_arity hArity]

/-- Nodes evaluated in order all have the same room. -/
theorem inOrder_room (evs : Nat → Evaluator) (hEv : ∀ n s, ev n s = evs s.session.room n s)
    (hRoom : ∀ room n s v t, evs room n s = .ok v t → t.session.room = s.session.room)
    (last : Value) (ns : List Node) (s : EvalState) :
    inOrder ev last ns s = inOrder (evs s.session.room) last ns s := by
  induction ns generalizing last s with
  | nil => rfl
  | cons n ns ih =>
    rw [inOrder, inOrder]
    cases hRun : evs s.session.room n s with
    | ok v t => rw [bind_ok hRun, bind_ok ((hEv n s).trans hRun), ih, hRoom _ _ _ _ _ hRun]
    | error e t => rw [bind_error hRun, bind_error ((hEv n s).trans hRun)]

theorem room_of_evaluateWithin {room : Nat} {n : Node} {s t : EvalState} {v : Value}
    (hRun : evaluateWithin room n s = .ok v t) : t.session.room = s.session.room := by
  have hCounted := evaluateWithin_counted room n s
  rw [final_ok hRun] at hCounted
  rw [Session.room, Session.room, hCounted.options, hCounted.depth]

end Eval

namespace Session

/-- The session as if nothing was remembered. -/
def emptied (s : Session) : Session := { s with cache := .empty }

/-- Nothing sets off the alarm in the course of a call: whatever error a watch for it stops with, the
call does not differ. -/
def UndisturbedCall (alarm : Nat → Node → EvalState → Bool) (s : Session) (f : Closure Value)
    (args : List Value) (span : Span) : Prop :=
  ∀ e, s.perform .top (Eval.apply (watched ⟨alarm, e⟩) f args span) =
    s.perform .top (Eval.apply Eval.evaluate f args span)

/-- A watched call that succeeds is undisturbed. -/
theorem UndisturbedCall.of_ok {alarm : Nat → Node → EvalState → Bool} {s : Session}
    {f : Closure Value} {args : List Value} {span : Span} {e : EvalError} {v : Value}
    (h : (s.perform .top (Eval.apply (watched ⟨alarm, e⟩) f args span)).1 = .ok v) :
    s.UndisturbedCall alarm f args span := by
  intro e'
  rw [perform] at h
  cases hCall : Eval.apply (watched ⟨alarm, e⟩) f args span ⟨s, .top⟩ with
  | ok x t =>
    have hWatched : Eval.apply (watched ⟨alarm, e'⟩) f args span ⟨s, .top⟩ = .ok x t :=
      apply_of_ok (fun _ _ _ _ => watchedWithin_of_ok e') hCall
    have hPlain : Eval.apply Eval.evaluate f args span ⟨s, .top⟩ = .ok x t :=
      apply_of_ok (fun _ _ _ _ => evaluateWithin_of_watched) hCall
    rw [perform, perform, hWatched, hPlain]
  | error x t =>
    rw [hCall] at h
    cases h

theorem apply_evaluate (s : Session) (f : Closure Value) (args : List Value) (span : Span)
    (frame : Frame) : (s.apply f args span).1 =
      (s.perform frame (Eval.apply (Eval.evaluateWithin s.room) f args span)).1 := by
  refine perform_apply .top frame span fun cacheable => ?_
  exact inOrder_room evaluateWithin (fun _ _ => rfl) (fun _ _ _ _ _ => room_of_evaluateWithin) _ _ _

theorem apply_watched (watch : Watch) (s : Session) (f : Closure Value) (args : List Value)
    (span : Span) (frame : Frame) : (s.perform .top (Eval.apply (watched watch) f args span)).1 =
      (s.perform frame (Eval.apply (watchedWithin watch s.room) f args span)).1 := by
  refine perform_apply .top frame span fun cacheable => ?_
  exact inOrder_room (watchedWithin watch) (fun _ _ => rfl)
    (fun _ _ _ _ _ hRun => room_of_evaluateWithin (evaluateWithin_of_watched hRun)) _ _ _

/-- **A call that is quiet when everything is forgotten first** gives the same value in the session as
it is, but for the identities of functions. -/
theorem apply_emptied {w : Registry} {s : Session} (h : Lasts w ⟨s, .top⟩) {f : Closure Value}
    (hFunction : f.Known False w f) (hCaptured : f.captured.Conforms False w) {args : List Value}
    (hArgs : Value.LikeAll False (Closure.Known False w) args args) {span : Span}
    (hQuiet : s.emptied.UndisturbedCall (doubtful s) f args span) {v : Value}
    (hAnew : (s.emptied.apply f args span).1 = .ok v) :
    ∃ v', (s.apply f args span).1 = .ok v' ∧ Value.Like False Closure.SameCode v v' := by
  let frame : Frame := .call .empty .empty
  have hPlays := fun f g => Closure.Known.plays (f := f) (g := g) h.below
  have hStates : Reenacts s none (.start w s.nextId) ⟨s.emptied, frame⟩ ⟨s, frame⟩ := {
    memoize := h.memoize
    globals := rfl
    own := h.globals.mono fun f g hf => (hPlays f g hf).1
    inCall := rfl
    frame := ⟨.nil, .nil⟩
    fresh := fun i j hPart => Casting.start_part hPart
    lasts := h.inFrame ⟨.nil, .nil⟩
    logged := .refl s
    settled := .refl s
    present := fun _ => rfl
    matched := fun key v hFound => by
      rw [show s.emptied.cache = .empty from rfl, Cache.find?_empty] at hFound
      cases hFound }
  have hOutcome : (reenacts s none).Outcome _ (reenacts s none).Alike
      (Eval.apply (watchedWithin (wary s) s.room) f args span ⟨s.emptied, frame⟩)
      (Eval.apply (evaluateWithin s.room) f args span ⟨s, frame⟩) :=
    reenacts.outcome_present hStates (hPlays f f hFunction) (hCaptured.mono hPlays)
      (hArgs.mono hPlays) (reenacts.simulates_present s s.room)
  have hWatched : ((s.emptied.perform frame
      (Eval.apply (watchedWithin (wary s) s.room) f args span)).1) = .ok v := by
    rw [← hAnew, show s.room = s.emptied.room from rfl, ← apply_watched (wary s) s.emptied]
    exact congrArg Prod.fst (hQuiet (wary s).error)
  rw [apply_evaluate s f args span frame]
  rw [perform] at hWatched ⊢
  generalize Eval.apply (watchedWithin (wary s) s.room) f args span ⟨s.emptied, frame⟩ = r
    at hOutcome hWatched
  generalize Eval.apply (evaluateWithin s.room) f args span ⟨s, frame⟩ = r' at hOutcome
  cases hOutcome with
  | pardoned => cases hWatched
  | pardoned' hPast => cases hPast
  | ok _ hValue _ =>
    cases hWatched
    exact ⟨_, rfl, Value.Like.mono (fun _ _ hf => hf.1.1) hValue⟩
  | error => cases hWatched

theorem like_integers {functions : Closure Value → Closure Value → Prop} (ints : List Int64) :
    Value.LikeAll False functions (ints.map .integer) (ints.map .integer) := by
  induction ints with
  | nil => exact .nil
  | cons n ints ih => exact .cons (.integer n) ih

theorem eq_ok_of_toOption {ε α : Type} {r : Except ε α} {v : α} (h : r.toOption = some v) :
    r = .ok v := by
  cases r with
  | ok x => exact congrArg Except.ok (Option.some.inj h)
  | error e => cases h

/-- **What is remembered stays right when globals change**: a call that ends in data when everything is
forgotten first, without anything doubtful, ends in the same data in the session as it is. -/
theorem apply_recomputed (maxDepth : Nat) (texts : List String)
    (hFloats : ∀ text ∈ texts, ∀ program, Program.ofString text = .ok program →
      Node.anyUsesFloats program = false)
    {s : Session} (hSession : s = (Session.new ⟨true, maxDepth⟩).after texts) {name : String}
    {f : Closure Value} (hFunction : s.globals.find? name = some (.function f)) (ints : List Int64)
    (span : Span) (hQuiet : s.emptied.UndisturbedCall (doubtful s) f (ints.map .integer) span)
    {v : Value} (hAnew : (s.emptied.apply f (ints.map .integer) span).1 = .ok v)
    (hData : v.holdsFunction = false) : (s.apply f (ints.map .integer) span).1 = .ok v := by
  have hTexts : ∀ text ∈ texts, Allowed False text := fun text hText program hProgram =>
    Node.likeAll_of_usesFloats (fun _ => rfl) program (hFloats text hText program hProgram)
  obtain ⟨w, hState⟩ := after_lasts (lasts_new maxDepth) hTexts
  rw [← hSession] at hState
  have hFound := hState.globals.find? name
  rw [hFunction] at hFound
  cases hFound with
  | some hFound =>
    cases hFound with
    | function hKnown hCaptured =>
      obtain ⟨v', hCall, hValue⟩ :=
        apply_emptied hState hKnown hCaptured (like_integers ints) hQuiet hAnew
      have hSame : Value.Like False Eq v v' := hValue.of_no_function hData
      rw [hCall, hSame.eq]

/-- A recursive function that the session remembers calls of; the name that has changed since plays
no part in them. -/
theorem apply_recomputed_down :
    let s := (Session.new ⟨true, 20⟩).after
      ["(a 1 define)", "(down ((n) (((n 0 eq?) 7) (else ((n 1 -) down)) cond) lambda) define)",
        "(2 down)", "(a 2 define)"]
    ∃ f v, s.globals.find? "down" = some (.function f) ∧
      (s.emptied.apply f [.integer 3] ⟨0, 5⟩).1 = .ok v ∧
      (s.apply f [.integer 3] ⟨0, 5⟩).1 = .ok v := by
  intro s
  have hRuns : (s.function? "down").any (fun f =>
      (s.emptied.perform .top
        (Eval.apply (watched (wary s)) f [.integer 3] ⟨0, 5⟩)).1.toOption.isSome &&
      (s.emptied.apply f [.integer 3] ⟨0, 5⟩).1.toOption.any (!·.holdsFunction)) = true := by
    decide +kernel
  obtain ⟨f, hFound, hRuns⟩ := (Option.any_eq_true _ _).1 hRuns
  obtain ⟨hWatched, hAnew⟩ := Bool.and_eq_true_iff.1 hRuns
  obtain ⟨x, hWatched⟩ := Option.isSome_iff_exists.1 hWatched
  obtain ⟨v, hAnew, hData⟩ := (Option.any_eq_true _ _).1 hAnew
  have hGlobal := find?_of_function? hFound
  refine ⟨f, v, hGlobal, eq_ok_of_toOption hAnew, ?_⟩
  exact apply_recomputed 20 _ (noFloats_of_all (by decide +kernel)) rfl hGlobal [3] ⟨0, 5⟩
    (.of_ok (eq_ok_of_toOption hWatched)) (eq_ok_of_toOption hAnew) (by simpa using hData)

/-- A call that gives another value when it is computed anew: a global that it reads was defined
anew since. -/
theorem remembered_differs :
    let texts := ["(f ((n) a lambda) define)", "(a 1 define)", "(0 f)", "(a 2 define)"]
    let s := (Session.new ⟨true, 1000⟩).after texts
    (∀ text ∈ texts, ∀ program, Program.ofString text = .ok program →
      Node.anyUsesFloats program = false) ∧
    ∃ f v v', s.globals.find? "f" = some (.function f) ∧
      (s.emptied.apply f [.integer 0] ⟨0, 5⟩).1 = .ok v ∧ v.holdsFunction = false ∧
      (s.apply f [.integer 0] ⟨0, 5⟩).1 = .ok v' ∧ v ≠ v' := by
  intro texts s
  refine ⟨noFloats_of_all (by decide +kernel), ?_⟩
  have hResults : (s.function? "f").bind (fun f =>
      (s.emptied.apply f [.integer 0] ⟨0, 5⟩).1.toOption.bind fun v =>
        (s.apply f [.integer 0] ⟨0, 5⟩).1.toOption.map fun v' =>
          (v.holdsFunction, ArgKey.ofValue? v, ArgKey.ofValue? v')) =
      some (false, some (.integer 2), some (.integer 1)) := by decide +kernel
  obtain ⟨f, hFound, hResults⟩ := Option.bind_eq_some_iff.1 hResults
  obtain ⟨v, hAnew, hResults⟩ := Option.bind_eq_some_iff.1 hResults
  obtain ⟨v', hKept, hResults⟩ := Option.map_eq_some_iff.1 hResults
  obtain ⟨hData, hKey, hKey'⟩ : v.holdsFunction = false ∧ _ ∧ _ := by simpa using hResults
  refine ⟨f, v, v', find?_of_function? hFound, eq_ok_of_toOption hAnew, hData,
    eq_ok_of_toOption hKept, ?_⟩
  rintro rfl
  rw [hKey] at hKey'
  exact absurd hKey' (by decide)

end Session

end PostLisp

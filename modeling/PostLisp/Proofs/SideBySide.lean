import PostLisp.Proofs.Territory

/-!
# One body, run earlier and later

A body that is run a second time, while its first run is still in progress, finds more results in the
cache, and makes its functions under other identities.  Functions that the first run made in calls
that have ended are shared: the second run gets them from the cache, where their results stand too.
Functions that the first run made in calls still in progress have no part in the second run, which
makes its own in their place.  A matching of identities keeps the two kinds apart, and `Beside` says
how the sessions of the two runs are related.  When the first run makes a call that has ended before
the second run began, the second run finds its result, and the matching grows by what the call has
made (`Beside.caughtUp`).  So the runs go side by side: the second cannot succeed where the first was
stopped (`beside.not_ok_of_stopped`).
-/

namespace PostLisp

open Eval EvalM

/-! ### Matchings -/

/-- Which functions of one run stand for which of the other, by their identities. -/
structure Matching where
  rel : Nat → Nat → Prop
  one : ∀ {i j i' j'}, rel i j → rel i' j' → (i = i' ↔ j = j')

namespace Matching

instance : Preorder Matching where
  le w w' := ∀ i j, w.rel i j → w'.rel i j
  le_refl _ _ _ h := h
  le_trans _ _ _ h g i j hRel := g i j (h i j hRel)

/-- The identities in a range stand for themselves. -/
def same (first next : Nat) : Matching where
  rel i j := i = j ∧ first ≤ i ∧ i < next
  one := by
    rintro i j i' j' ⟨rfl, -⟩ ⟨rfl, -⟩
    exact Iff.rfl

/-- A single pair. -/
def single (i j : Nat) : Matching where
  rel a b := a = i ∧ b = j
  one := by
    rintro a b a' b' ⟨rfl, rfl⟩ ⟨rfl, rfl⟩
    exact iff_of_true rfl rfl

/-- Pairs of other identities are added. -/
def add (w new : Matching) (hApart : ∀ {i j i' j'}, w.rel i j → new.rel i' j' → i ≠ i' ∧ j ≠ j') :
    Matching where
  rel i j := w.rel i j ∨ new.rel i j
  one := by
    rintro i j i' j' (h | h) (h' | h')
    · exact w.one h h'
    · exact iff_of_false (hApart h h').1 (hApart h h').2
    · exact iff_of_false (hApart h' h).1.symm (hApart h' h).2.symm
    · exact new.one h h'

theorem le_add {w new : Matching}
    {hApart : ∀ {i j i' j'}, w.rel i j → new.rel i' j' → i ≠ i' ∧ j ≠ j'} : w ≤ w.add new hApart :=
  fun _ _ h => Or.inl h

end Matching

/-! ### Functions -/

namespace Closure

/-- One function that both runs have, made before the second one began. -/
structure Shared (bound : Nat) (w : Matching) (f g : Closure Value) : Prop where
  same : f = g
  rel : w.rel f.id f.id
  below : f.id < bound

/-- Functions that stand for each other; what a shared one captures is shared. -/
structure Matched (bound : Nat) (w : Matching) (f g : Closure Value) : Prop where
  rel : w.rel f.id g.id
  params : f.params = g.params
  body : f.body = g.body
  captured : g.id < bound → f.captured.Like True (Shared bound w) f.captured

variable {bound : Nat} {w w' : Matching} {f g : Closure Value}

theorem Shared.mono (h : w ≤ w') (hShared : Shared bound w f g) : Shared bound w' f g :=
  { hShared with rel := h _ _ hShared.rel }

theorem Matched.mono (h : w ≤ w') (hMatched : Matched bound w f g) : Matched bound w' f g :=
  { hMatched with
    rel := h _ _ hMatched.rel
    captured := fun hBelow => (hMatched.captured hBelow).mono fun _ _ => Shared.mono h }

theorem Shared.matched (h : Shared bound w f g)
    (hCaptured : Value.LikeEntries True (Shared bound w) f.captured.entries g.captured.entries) :
    Matched bound w f g := by
  obtain ⟨rfl, hRel, hBelow⟩ := h
  exact ⟨hRel, rfl, rfl, fun _ => hCaptured⟩

end Closure

/-- Shared functions stand for themselves. -/
theorem Value.Like.matched {bound : Nat} {w : Matching} {u v : Value}
    (h : Value.Like True (Closure.Shared bound w) u v) : Value.Like True (Closure.Matched bound w) u v :=
  h.imp_captured fun _ _ => Closure.Shared.matched

theorem Bindings.Like.matched {bound : Nat} {w : Matching} {b c : Bindings Value}
    (h : b.Like True (Closure.Shared bound w) c) : b.Like True (Closure.Matched bound w) c :=
  Value.LikeEntries.imp_captured (fun _ _ => Closure.Shared.matched) h

/-! ### Sessions -/

/-- The session of a run and that of a second run, which began in `final`, where a call with the key
was still in progress. -/
structure Session.Beside (key : CallKey) (final : Session) (w : Matching) (s s' : Session) :
    Prop where
  options : s'.options = s.options
  globals : s'.globals = s.globals
  shared : s.globals.Like True (Closure.Shared final.nextId w) s.globals
  ids : ∀ {i j}, w.rel i j →
    i < s.nextId ∧ (i = j ∧ i < final.nextId ∨ final.nextId ≤ j ∧ j < s'.nextId)
  later : final.nextId ≤ s'.nextId
  keys : ∀ {k v}, s.cache.find? k = some v → k.function < s.nextId
  keys' : ∀ {k v}, s'.cache.find? k = some v → k.function < s'.nextId
  /-- What the first run has remembered it still remembers when the second one begins. -/
  before : ∀ {k v}, s.cache.find? k = some v → final.cache.find? k = some v
  /-- The second run remembers nothing new for functions made before it began. -/
  after : ∀ {k}, k.function < final.nextId → s'.cache.find? k = final.cache.find? k
  results : ∀ {k v}, s.cache.find? k = some v → w.rel k.function k.function →
    k.function < final.nextId → Value.Like True (Closure.Shared final.nextId w) v v
  matched : ∀ {i j} args, w.rel i j → final.nextId ≤ j →
    Value.LikeOption True (Closure.Matched final.nextId w) (s.cache.find? ⟨i, args⟩)
      (s'.cache.find? ⟨j, args⟩)
  marked : w.rel key.function key.function

namespace Session

/-- Calls of two functions with alike arguments have the same key, but for the identities. -/
theorem keyOf_like {s s' : Session} (hOptions : s'.options = s.options) (f f' : Closure Value)
    {functions : Closure Value → Closure Value → Prop} {args args' : List Value}
    (hArgs : Value.LikeAll True functions args args') :
    s'.keyOf f' args' = (s.keyOf f args).map fun k => ⟨f'.id, k.args⟩ := by
  rw [keyOf, keyOf, hOptions, CallKey.of?, CallKey.of?, hArgs.keys_eq]
  split
  · rw [Option.map_map]
    rfl
  · rfl

namespace Beside

variable {key : CallKey} {final : Session} {w : Matching} {s s' : Session} {f f' : Closure Value}
  {args args' : List Value} {v v' : Value} {k : CallKey}

/-- A function that is matched is shared, or both runs have made their own. -/
theorem shared_or (h : Beside key final w s s') (hFunction : f.Matched final.nextId w f') :
    f.id = f'.id ∧ f.id < final.nextId ∨ final.nextId ≤ f'.id := by
  rcases (h.ids hFunction.rel).2 with hShared | ⟨hOwn, -⟩
  · exact Or.inl hShared
  · exact Or.inr hOwn

/-- What the first run finds, the second run finds. -/
theorem found (h : Beside key final w s s') (hFunction : f.Matched final.nextId w f')
    (hArgs : Value.LikeAll True (Closure.Matched final.nextId w) args args')
    (hFound : (s.keyOf f args).bind s.cache.find? = some v) :
    ∃ v', (s'.keyOf f' args').bind s'.cache.find? = some v' ∧
      Value.Like True (Closure.Matched final.nextId w) v v' := by
  obtain ⟨k, hKey, hCached⟩ := Option.bind_eq_some_iff.1 hFound
  have hId := (keyOf_eq_some hKey).1
  rw [keyOf_like h.options f f' hArgs, hKey]
  show ∃ v', s'.cache.find? ⟨f'.id, k.args⟩ = some v' ∧ _
  rcases h.shared_or hFunction with ⟨hSame, hBelow⟩ | hOwn
  · have hk : (⟨f'.id, k.args⟩ : CallKey) = k := by rw [← hSame, ← hId]
    have hRel : w.rel k.function k.function := by
      have hRel := hFunction.rel
      rwa [← hSame, ← hId] at hRel
    have hk' : k.function < final.nextId := hId ▸ hBelow
    rw [hk, h.after hk']
    exact ⟨v, h.before hCached, (h.results hCached hRel hk').matched⟩
  · have hBoth := h.matched k.args hFunction.rel hOwn
    have hk : (⟨f.id, k.args⟩ : CallKey) = k := by rw [← hId]
    rw [hk, hCached] at hBoth
    generalize s'.cache.find? ⟨f'.id, k.args⟩ = r at hBoth
    cases hBoth with
    | some hValue => exact ⟨_, rfl, hValue⟩

/-- What the second run finds and the first run does not is the result of a shared function. -/
theorem found_later (h : Beside key final w s s') (hFunction : f.Matched final.nextId w f')
    (hArgs : Value.LikeAll True (Closure.Matched final.nextId w) args args')
    (hMissing : (s.keyOf f args).bind s.cache.find? = none)
    (hFound : (s'.keyOf f' args').bind s'.cache.find? = some v') :
    ∃ k, s.keyOf f args = some k ∧ f.id = f'.id ∧ f.id < final.nextId ∧
      final.cache.find? k = some v' := by
  rw [keyOf_like h.options f f' hArgs] at hFound
  cases hKey : s.keyOf f args with
  | none =>
    rw [hKey] at hFound
    cases hFound
  | some k =>
    rw [hKey] at hFound hMissing
    have hId := (keyOf_eq_some hKey).1
    change s'.cache.find? ⟨f'.id, k.args⟩ = some v' at hFound
    rcases h.shared_or hFunction with ⟨hSame, hBelow⟩ | hOwn
    · have hk : (⟨f'.id, k.args⟩ : CallKey) = k := by rw [← hSame, ← hId]
      rw [hk, h.after (hId ▸ hBelow)] at hFound
      exact ⟨k, rfl, hSame, hBelow, hFound⟩
    · have hBoth := h.matched k.args hFunction.rel hOwn
      have hk : (⟨f.id, k.args⟩ : CallKey) = k := by rw [← hId]
      have hNone : s.cache.find? k = none := hMissing
      rw [hk, hNone, hFound] at hBoth
      cases hBoth

/-- Both runs remember the result of a function that each of them made itself. -/
theorem returned {t t' : Session} (h : Beside key final w t t')
    (hFunction : f.Matched final.nextId w f') (hOwn : final.nextId ≤ f'.id) (ks : List ArgKey)
    (hValue : Value.Like True (Closure.Matched final.nextId w) v v')
    (hFinal : (t.returned (some ⟨f.id, ks⟩) v).Keeps final) :
    Beside key final w (t.returned (some ⟨f.id, ks⟩) v) (t'.returned (some ⟨f'.id, ks⟩) v') := by
  have hIds := h.ids hFunction.rel
  refine { h with before := hFinal.entries _ _, keys := fun hFound => ?_, keys' := fun hFound => ?_,
                  after := fun hBelow => ?_, results := fun hFound hRel hBelow => ?_,
                  matched := fun {i j} args hRel hLater => ?_ }
  · rcases find?_returned hFound with hBefore | ⟨hSame, -⟩
    · exact h.keys hBefore
    · cases hSame
      exact hIds.1
  · rcases find?_returned hFound with hBefore | ⟨hSame, -⟩
    · exact h.keys' hBefore
    · cases hSame
      have hLater := h.later
      rcases hIds.2 with ⟨hSame, hBelow⟩ | ⟨-, hBelow⟩
      · show f'.id < t'.nextId
        omega
      · exact hBelow
  · show (t'.cache.insert _ v').find? _ = _
    rw [Cache.find?_insert, if_neg, h.after hBelow]
    rintro rfl
    exact absurd hBelow (Nat.not_lt.2 hOwn)
  · rcases find?_returned hFound with hBefore | ⟨hSame, -⟩
    · exact h.results hBefore hRel hBelow
    · -- the function would be shared
      cases hSame
      have hSame := (w.one hRel hFunction.rel).1 rfl
      exact absurd hBelow (Nat.not_lt.2 (hSame ▸ hOwn))
  · show Value.LikeOption _ _ ((t.cache.insert _ v).find? _) ((t'.cache.insert _ v').find? _)
    have hOne := w.one hFunction.rel hRel
    have hBoth : (⟨f.id, ks⟩ : CallKey) = ⟨i, args⟩ ↔ (⟨f'.id, ks⟩ : CallKey) = ⟨j, args⟩ := by
      simp only [CallKey.mk.injEq, hOne]
    rw [Cache.find?_insert, Cache.find?_insert]
    by_cases hHere : (⟨f.id, ks⟩ : CallKey) = ⟨i, args⟩
    · rw [if_pos hHere, if_pos (hBoth.1 hHere)]
      exact .some hValue
    · rw [if_neg hHere, if_neg (mt hBoth.2 hHere)]
      exact h.matched args hRel hLater

/-- The identities of the next functions are not matched. -/
theorem fresh (h : Beside key final w s s') {i j i' j' : Nat} (hRel : w.rel i j)
    (hNew : (Matching.single s.nextId s'.nextId).rel i' j') : i ≠ i' ∧ j ≠ j' := by
  obtain ⟨rfl, rfl⟩ := hNew
  obtain ⟨hBelow, hCases⟩ := h.ids hRel
  have hLater := h.later
  omega

/-- The matching with the identities of the next functions. -/
def next (h : Beside key final w s s') : Matching :=
  w.add (.single s.nextId s'.nextId) h.fresh

theorem le_next (h : Beside key final w s s') : w ≤ h.next := Matching.le_add

/-- Each run makes a function. -/
theorem made (h : Beside key final w s s') (events events' : List Event) :
    Beside key final h.next { s with nextId := s.nextId + 1, events }
      { s' with nextId := s'.nextId + 1, events := events' } where
  options := h.options
  globals := h.globals
  shared := h.shared.mono fun _ _ => Closure.Shared.mono h.le_next
  ids := by
    have hLater := h.later
    show ∀ {i j}, h.next.rel i j → i < s.nextId + 1 ∧
      (i = j ∧ i < final.nextId ∨ final.nextId ≤ j ∧ j < s'.nextId + 1)
    rintro i j (hRel | ⟨rfl, rfl⟩)
    · have hIds := h.ids hRel
      omega
    · omega
  later := Nat.le_succ_of_le h.later
  keys hFound := Nat.lt_succ_of_lt (h.keys hFound)
  keys' hFound := Nat.lt_succ_of_lt (h.keys' hFound)
  before := h.before
  after := h.after
  results := by
    rintro k v hFound (hRel | ⟨hNew, -⟩) hBelow
    · exact (h.results hFound hRel hBelow).mono fun _ _ => Closure.Shared.mono h.le_next
    · exact absurd (h.keys hFound) (hNew ▸ Nat.lt_irrefl _)
  matched := by
    rintro i j args (hRel | ⟨rfl, rfl⟩) hLater
    · exact (h.matched args hRel hLater).mono fun _ _ => Closure.Matched.mono h.le_next
    · -- nothing is remembered for a function that is new
      show Value.LikeOption _ _ (s.cache.find? _) (s'.cache.find? _)
      cases hLeft : s.cache.find? ⟨s.nextId, args⟩ with
      | some v => exact absurd (h.keys hLeft) (Nat.lt_irrefl _)
      | none =>
        cases hRight : s'.cache.find? ⟨s'.nextId, args⟩ with
        | some v => exact absurd (h.keys' hRight) (Nat.lt_irrefl _)
        | none => exact .none
  marked := Or.inl h.marked

/-- The functions that a call of a shared function may come by: shared ones, and those that it makes. -/
def territory (final : Session) (w : Matching) (s : Session) : Territory where
  functions f := s.nextId ≤ f.id ∨ w.rel f.id f.id ∧ f.id < final.nextId
  identities i := s.nextId ≤ i ∨ w.rel i i ∧ i < final.nextId
  start := s.nextId
  cache := s.cache
  identity _ h := h
  made _ h := Or.inl h

theorem holds_of_shared (h : Beside key final w s s') {g g' : Closure Value}
    (hShared : g.Shared final.nextId w g') : (territory final w s).Holds s.nextId g g' where
  same := hShared.same
  inside := Or.inr ⟨hShared.rel, hShared.below⟩
  below := (h.ids hShared.rel).1

/-- A call of a shared function starts in the territory. -/
theorem keeps_entered (h : Beside key final w s s') (hFunction : f.Matched final.nextId w f')
    (hBelow : f'.id < final.nextId) (hKey : s.keyOf f args = some k) :
    (territory final w s).Keeps s.nextId ⟨s.entered f true, f.frame args⟩ where
  nextId := rfl
  start := Nat.le_refl _
  globals := h.shared.mono fun _ _ => h.holds_of_shared
  frame := by
    have hNone := Value.anyHoldsFunction_of_keys (keyOf_eq_some hKey).2
    have hArgs : Value.LikeAll True Eq args args := .refl trivial (fun _ => rfl) args
    exact Frame.like_closure rfl ((hFunction.captured hBelow).mono fun _ _ => h.holds_of_shared)
      (hArgs.of_no_function hNone)
  keys key v hFound := h.keys hFound
  results key v hFound hIdentity := by
    rcases hIdentity with hNew | ⟨hRel, hShared⟩
    · exact absurd (h.keys hFound) (Nat.not_lt.2 hNew)
    · exact (h.results hFound hRel hShared).mono fun _ _ => h.holds_of_shared
  others _ _ := rfl

theorem apart (h : Beside key final w s s') {next : Nat} (hNext : next ≤ final.nextId)
    {i j i' j' : Nat} (hRel : w.rel i j) (hNew : (Matching.same s.nextId next).rel i' j') :
    i ≠ i' ∧ j ≠ j' := by
  obtain ⟨rfl, hFirst, hLast⟩ := hNew
  have hIds := h.ids hRel
  omega

/-- The matching in which the functions with the next identities are shared, too. -/
def grown (h : Beside key final w s s') {next : Nat} (hNext : next ≤ final.nextId) : Matching :=
  w.add (.same s.nextId next) (h.apart hNext)

theorem shared_of_holds (h : Beside key final w s s') {next : Nat} (hNext : next ≤ final.nextId)
    {g g' : Closure Value} (hHolds : (territory final w s).Holds next g g') :
    g.Shared final.nextId (h.grown hNext) g' where
  same := hHolds.same
  rel := by
    rcases hHolds.inside with hNew | ⟨hRel, -⟩
    · exact Or.inr ⟨rfl, hNew, hHolds.below⟩
    · exact Or.inl hRel
  below := Nat.lt_of_lt_of_le hHolds.below hNext

/-- A function that the second run has made itself is not one of those that the call may come by. -/
theorem not_identity (h : Beside key final w s s') {i j : Nat} (hRel : w.rel i j)
    (hOwn : final.nextId ≤ j) : ¬ (territory final w s).identities i := by
  rintro (hNew | ⟨hSelf, hBelow⟩)
  · exact absurd (h.ids hRel).1 (Nat.not_lt.2 hNew)
  · have hSame := (w.one hSelf hRel).1 rfl
    omega

/-- What is remembered after the call that the first run has made. -/
theorem find?_caughtUp {t : Session} {m : Nat} {frame : Frame}
    (hNext : (territory final w s).Keeps m ⟨t, frame⟩) (hBelow : k.function < s.nextId)
    (hMore : s.nextId ≤ m) (hValue : Value.Like True ((territory final w s).Holds m) v v)
    {other : CallKey} {x : Value} (hFound : (t.returned (some k) v).cache.find? other = some x) :
    other.function < m ∧ ((territory final w s).identities other.function →
      Value.Like True ((territory final w s).Holds m) x x) := by
  rcases find?_returned hFound with hBefore | ⟨hSame, rfl⟩
  · exact ⟨hNext.keys other x hBefore, hNext.results other x hBefore⟩
  · cases hSame
    exact ⟨Nat.lt_of_lt_of_le hBelow hMore, fun _ => hValue⟩

/-- After the call that the first run has made, what the call has made is shared. -/
theorem beside_grown (h : Beside key final w s s') {t : Session} {frame : Frame}
    (hNext : (territory final w s).Keeps t.nextId ⟨t, frame⟩) (hOptions : t.options = s.options)
    (hGlobals : t.globals = s.globals) (hMore : s.nextId ≤ t.nextId)
    (hIds : t.nextId ≤ final.nextId) (hRel : w.rel k.function k.function)
    (hBelow : k.function < final.nextId)
    (hValue : Value.Like True ((territory final w s).Holds t.nextId) v v)
    (hFinal : (t.returned (some k) v).Keeps final) :
    Beside key final (h.grown hIds) (t.returned (some k) v) s' where
  options := h.options.trans hOptions.symm
  globals := h.globals.trans hGlobals.symm
  shared := hNext.globals.mono fun _ _ => h.shared_of_holds hIds
  ids := by
    rintro i j (hOld | ⟨rfl, hFirst, hLast⟩)
    · have hOld := h.ids hOld
      exact ⟨Nat.lt_of_lt_of_le hOld.1 hMore, hOld.2⟩
    · exact ⟨hLast, Or.inl ⟨rfl, Nat.lt_of_lt_of_le hLast hIds⟩⟩
  later := h.later
  keys hFound := (find?_caughtUp hNext (h.ids hRel).1 hMore hValue hFound).1
  keys' := h.keys'
  before := hFinal.entries _ _
  after := h.after
  results := by
    rintro other x hFound hOther hShared
    refine ((find?_caughtUp hNext (h.ids hRel).1 hMore hValue hFound).2 ?_).mono
      fun _ _ => h.shared_of_holds hIds
    rcases hOther with hOld | ⟨-, hFirst, -⟩
    · exact Or.inr ⟨hOld, hShared⟩
    · exact Or.inl hFirst
  matched := by
    rintro i j args (hOld | ⟨rfl, hFirst, hLast⟩) hLater
    · -- a function that the second run has made itself is outside, and keeps its results
      have hOther := h.not_identity hOld hLater
      have hNew : k ≠ ⟨i, args⟩ := by
        rintro rfl
        exact hOther (Or.inr ⟨hRel, hBelow⟩)
      show Value.LikeOption _ _ ((t.cache.insert k v).find? _) _
      rw [Cache.find?_insert, if_neg hNew, hNext.others _ hOther]
      exact (h.matched args hOld hLater).mono fun _ _ => Closure.Matched.mono Matching.le_add
    · omega
  marked := Or.inl h.marked

/-- The first run makes a call of which the second one finds the result: what the call has made is
shared from then on. -/
theorem caughtUp (h : Beside key final w s s') {ev : Evaluator}
    (hKeeps : ∀ T, (keepingTo T).Simulates ev ev)
    (hInnermost : ∀ n, Moves (Innermost fun _ => True) (ev n))
    (hOptions : ∀ n, Moves (fun s t => t.session.options = s.session.options) (ev n))
    (hFunction : f.Matched final.nextId w f') (hSame : f.id = f'.id) (hBelow : f.id < final.nextId)
    (hKey : s.keyOf f args = some k) {t : EvalState}
    (hBody : inOrder ev .void f.body ⟨s.entered f true, f.frame args⟩ = .ok v t)
    (hFinal : (t.session.returned (some k) v).Keeps final) :
    ∃ w', w ≤ w' ∧ Value.Like True (Closure.Shared final.nextId w') v v ∧
      Beside key final w' (t.session.returned (some k) v) s' := by
  have hId := (keyOf_eq_some hKey).1
  have hRel : w.rel k.function k.function := by
    have hRel := hFunction.rel
    rwa [← hSame, ← hId] at hRel
  have hOutcome := Comparison.outcome_inOrder (hKeeps (territory final w s))
    (Node.LikeAll.refl trivial (fun _ => rfl) f.body) .void
    ⟨rfl, h.keeps_entered hFunction (hSame ▸ hBelow) hKey⟩
  have hOptions := moves_inOrder (fun n (_ : n ∈ f.body) => hOptions n) .void
    ⟨s.entered f true, f.frame args⟩
  have hInnermost := moves_inOrder (fun n (_ : n ∈ f.body) => hInnermost n) .void
    ⟨s.entered f true, f.frame args⟩
  have hGlobals := hInnermost.globals_of_call rfl
  rw [final_ok hBody] at hOptions hGlobals
  rw [hBody] at hOutcome
  cases hOutcome with
  | @ok m _ _ _ _ hMore hValue hStates =>
    obtain ⟨-, hNext⟩ := hStates
    obtain rfl : t.session.nextId = m := hNext.nextId
    have hIds : t.session.nextId ≤ final.nextId := hFinal.nextId
    exact ⟨h.grown hIds, Matching.le_add, hValue.mono fun _ _ => h.shared_of_holds hIds,
      h.beside_grown hNext hOptions hGlobals hMore hIds hRel (hId ▸ hBelow) hValue hFinal⟩

end Beside

end Session

/-! ### Runs -/

namespace Eval

/-- The error with which a run stops before the call that it is made up to. -/
def stopped : EvalError := ⟨.emptyForm, .origin⟩

/-- The error with which a run stops that has gone too far. -/
def late : EvalError := ⟨.noClause, .origin⟩

/-- Evaluation up to a call with the key. -/
noncomputable abbrev stopping (key : CallKey) (final : Session) : List Pending → Nat → Evaluator :=
  evaluateBy (.upTo key final (fun _ => stopped) late)

end Eval

/-- Two runs side by side.  Nothing is asked of errors but that the first run is not stopped before
the call with the key while the second one succeeds. -/
def beside (key : CallKey) (final : Session) : Correspondence Matching where
  floats := True
  spans := Eq
  functions w := Closure.Matched final.nextId w
  states w s s' := s.frame.Like True (Closure.Matched final.nextId w) s'.frame ∧
    s.frame.isTop = false ∧ Session.Beside key final w s.session s'.session
  rooms _ _ := True
  watch := .never
  pardoned e := e ≠ stopped
  pardoned' _ := True

namespace beside

variable {key : CallKey} {final : Session} {w : Matching} {s s' : EvalState}

theorem stepLaws (left : Nat → Evaluator) : (beside key final).StepLaws left where
  functions_mono hWorld h := h.mono hWorld
  alarm _ h := by cases h
  rooms_succ _ := trivial
  rooms_zero _ := Or.inl fun limit span h => by cases h
  rooms_zero' _ _ _ := trivial
  enterForm := by
    rintro w s s' ⟨hFrame, hCall, h⟩
    exact ⟨hFrame, hCall, { h with }⟩
  leaveForm := by
    rintro w s s' ⟨hFrame, hCall, h⟩
    exact ⟨hFrame, hCall, { h with }⟩
  lookup := by
    rintro w room node name s s' - - ⟨hFrame, hCall, h⟩
    refine .alike (hFrame.lookup ?_ name)
    rw [h.globals]
    exact h.shared.matched
  define := by
    rintro w room span target expression operator name s ⟨session, frame⟩ ⟨session', frame'⟩ v v'
      - - - hValue ⟨hFrame, hCall, h⟩
    cases hFrame.tiers with
    | top => cases hCall
    | call hLocals hCaptured =>
      rw [announce_define_call, announce_define_call]
      exact .ok (le_refl w) trivial ⟨⟨hLocals.insert name hValue, hCaptured⟩, rfl, h⟩
  compare := by
    intro w room span first second operator s t u v v' x x' _ _ _ _ hValue hNext
    exact hValue.same_eq (fun _ _ _ _ hf hg => w.one hf.rel hg.rel) hNext
  makeFunction := by
    rintro w params body body' s s' hBody ⟨hFrame, hCall, h⟩
    have hGlobals : s.session.globals.Like True (Closure.Matched final.nextId w) s'.session.globals := by
      rw [h.globals]
      exact h.shared.matched
    have hCaptured := (hFrame.innermost hGlobals).mono fun _ _ => Closure.Matched.mono h.le_next
    rw [makeFunction_apply, makeFunction_apply]
    refine .ok h.le_next (.function ⟨Or.inr ⟨rfl, rfl⟩, rfl, hBody.eq, fun hBelow => ?_⟩ hCaptured)
      ⟨hFrame.mono fun _ _ => Closure.Matched.mono h.le_next, hCall, h.made _ _⟩
    exact absurd hBelow (Nat.not_lt.2 h.later)

section

variable {final' : Session} {ev ev' : Evaluator} {f f' : Closure Value} {args args' : List Value}
  {span span' : Span}

/-- Calls that are made up to a call end side by side if the calls themselves do. -/
theorem outcome_upTo {evs evs' : List Pending → Evaluator} {pending pending' : List Pending}
    (hKey : s.session.keyOf f args = some key → s'.session.keyOf f' args' = some key)
    (hOk : ∀ v t v' t', apply (evs pending) f args span s = .ok v t → t.session.Keeps final →
      apply (evs' pending') f' args' span' s' = .ok v' t' →
      ∃ w', w ≤ w' ∧ (beside key final).Alike w' v v' ∧ (beside key final).states w' t t')
    (hStopped : ∀ t v' t', apply (evs pending) f args span s = .error stopped t →
      (∀ other, s.session.keyOf f args = some other → final.cache.find? other = none) →
      apply (evs' pending') f' args' span' s' ≠ .ok v' t') :
    (beside key final).Outcome w (beside key final).Alike
      (Caller.upTo key final (fun _ => stopped) late pending evs f args span s)
      (Caller.upTo key final' (fun _ => stopped) late pending' evs' f' args' span' s') := by
  generalize hRun' : Caller.upTo key final' (fun _ => stopped) late pending' evs' f' args' span' s' = r'
  cases r' with
  | error e' t' => exact .pardoned' trivial
  | ok v' t' =>
    obtain ⟨hOther, hCall', -⟩ := Caller.of_upTo_ok hRun'
    generalize hRun : Caller.upTo key final (fun _ => stopped) late pending evs f args span s = r
    cases r with
    | ok v t =>
      obtain ⟨-, hCall, hKeeps⟩ := Caller.of_upTo_ok hRun
      obtain ⟨w', hWorld, hValue, hStates⟩ := hOk v t v' t' hCall hKeeps hCall'
      exact .ok hWorld hValue hStates
    | error e t =>
      by_cases hStop : e = stopped
      · subst hStop
        rcases Caller.of_upTo_error hRun (by decide) with hHere | ⟨hCall, hOpen⟩
        · exact absurd (hKey hHere) hOther
        · exact absurd hCall' (hStopped t v' t' hCall hOpen)
      · exact .pardoned hStop

/-- A body that both runs have to run. -/
theorem outcome_body (hEv : (beside key final).Simulates ev ev')
    (hFunction : f.Matched final.nextId w f')
    (hCaptured : f.captured.Like True (Closure.Matched final.nextId w) f'.captured)
    (hArgs : (beside key final).AlikeAll w args args')
    (h : Session.Beside key final w s.session s'.session) (cacheable cacheable' : Bool) :
    (beside key final).Outcome w (beside key final).Alike
      (inOrder ev .void f.body ⟨s.session.entered f cacheable, f.frame args⟩)
      (inOrder ev' .void f'.body ⟨s'.session.entered f' cacheable', f'.frame args'⟩) := by
  refine Comparison.outcome_inOrder hEv ?_ .void
    ⟨Frame.like_closure hFunction.params hCaptured hArgs, rfl, { h with }⟩
  rw [hFunction.body]
  exact Node.LikeAll.refl trivial (fun _ => rfl) f'.body

/-- Two bodies that were run leave the runs side by side, their results remembered. -/
theorem states_returned {u u' : EvalState} {v v' : Value} (hFunction : f.Matched final.nextId w f')
    (hArgs : (beside key final).AlikeAll w args args') (hStates : (beside key final).states w s s')
    (hMissing' : (s'.session.keyOf f' args').bind s'.session.cache.find? = none)
    (hFinal : (u.session.returned (s.session.keyOf f args) v).Keeps final)
    (hOutcome : (beside key final).Outcome w (beside key final).Alike (.ok v u) (.ok v' u')) :
    ∃ w', w ≤ w' ∧ (beside key final).Alike w' v v' ∧ (beside key final).states w'
      ⟨u.session.returned (s.session.keyOf f args) v, s.frame⟩
      ⟨u'.session.returned (s'.session.keyOf f' args') v', s'.frame⟩ := by
  obtain ⟨hFrame, hInCall, h⟩ := hStates
  have hKeys := Session.keyOf_like h.options f f' hArgs
  cases hOutcome with
  | @ok w' _ _ _ _ hWorld hValue hInside =>
    refine ⟨w', hWorld, hValue, hFrame.mono fun _ _ => Closure.Matched.mono hWorld, hInCall, ?_⟩
    cases hKey : s.session.keyOf f args with
    | none =>
      rw [hKeys, hKey]
      exact hInside.2.2
    | some k =>
      rw [hKey] at hKeys hFinal
      have hId := (Session.keyOf_eq_some hKey).1
      have hk : (⟨f.id, k.args⟩ : CallKey) = k := by rw [← hId]
      rcases h.shared_or hFunction with ⟨hSame, hBelow⟩ | hOwn
      · -- the call has ended before the second run began, which would have found its result
        rw [hKeys, Option.map_some, Option.bind_some, ← hSame, hk, h.after (hId ▸ hBelow),
          hFinal.find?_of_returned] at hMissing'
        cases hMissing'
      · rw [hKeys]
        rw [← hk] at hFinal ⊢
        exact hInside.2.2.returned (hFunction.mono hWorld) hOwn k.args hValue hFinal

section

variable {evs evs' : List Pending → Evaluator} {pending pending' : List Pending}

/-- Calls that succeed leave the runs side by side. -/
theorem states_of_ok {t t' : EvalState} {v v' : Value}
    (hEv : (beside key final).Simulates (evs pending) (evs' pending'))
    (hKeeps : ∀ T, (keepingTo T).Simulates (evs pending) (evs pending))
    (hInnermost : ∀ n, Moves (Innermost fun _ => True) (evs pending n))
    (hOptions : ∀ n, Moves (fun s t => t.session.options = s.session.options) (evs pending n))
    (hFunction : f.Matched final.nextId w f')
    (hCaptured : f.captured.Like True (Closure.Matched final.nextId w) f'.captured)
    (hArgs : (beside key final).AlikeAll w args args') (hStates : (beside key final).states w s s')
    (hCall : apply (evs pending) f args span s = .ok v t) (hFinal : t.session.Keeps final)
    (hCall' : apply (evs' pending') f' args' span' s' = .ok v' t') :
    ∃ w', w ≤ w' ∧ (beside key final).Alike w' v v' ∧ (beside key final).states w' t t' := by
  obtain ⟨hFrame, hInCall, h⟩ := hStates
  have hEnds := apply_ends (evs pending) f args span s
  have hEnds' := apply_ends (evs' pending') f' args' span' s'
  rw [hCall] at hEnds
  rw [hCall'] at hEnds'
  cases hEnds with
  | remembered hArity hFound =>
    obtain ⟨x', hFound', hValue⟩ := h.found hFunction hArgs hFound
    cases hEnds' with
    | remembered hArity' hHit =>
      obtain rfl := Option.some.inj (hFound'.symm.trans hHit)
      exact ⟨w, le_refl w, hValue, hFrame, hInCall, { h with }⟩
    | returned hArity' hMissing' hRun' =>
      rw [hFound'] at hMissing'
      cases hMissing'
  | @returned _ u hArity hMissing hRun =>
    cases hEnds' with
    | remembered hArity' hHit =>
      obtain ⟨k, hKey, hSame, hBelow, hLater⟩ := h.found_later hFunction hArgs hMissing hHit
      rw [hKey] at hRun hFinal ⊢
      obtain rfl := Option.some.inj (hFinal.find?_of_returned.symm.trans hLater)
      obtain ⟨w', hWorld, hValue, hNext⟩ :=
        h.caughtUp hKeeps hInnermost hOptions hFunction hSame hBelow hKey hRun hFinal
      exact ⟨w', hWorld, hValue.matched, hFrame.mono fun _ _ => Closure.Matched.mono hWorld, hInCall,
        { hNext with }⟩
    | @returned _ u' hArity' hMissing' hRun' =>
      have hOutcome := outcome_body hEv hFunction hCaptured hArgs h
        (s.session.keyOf f args).isSome (s'.session.keyOf f' args').isSome
      rw [hRun, hRun'] at hOutcome
      exact states_returned hFunction hArgs ⟨hFrame, hInCall, h⟩ hMissing' hFinal hOutcome

/-- A call does not succeed where another one was stopped whose result the later session lacks. -/
theorem not_ok_of_open {t t' : EvalState} {v' : Value}
    (hEv : (beside key final).Simulates (evs pending) (evs' pending'))
    (hFunction : f.Matched final.nextId w f')
    (hCaptured : f.captured.Like True (Closure.Matched final.nextId w) f'.captured)
    (hArgs : (beside key final).AlikeAll w args args')
    (h : Session.Beside key final w s.session s'.session)
    (hCall : apply (evs pending) f args span s = .error stopped t)
    (hOpen : ∀ other, s.session.keyOf f args = some other → final.cache.find? other = none) :
    apply (evs' pending') f' args' span' s' ≠ .ok v' t' := by
  intro hCall'
  have hEnds := apply_ends (evs pending) f args span s
  have hEnds' := apply_ends (evs' pending') f' args' span' s'
  rw [hCall] at hEnds
  rw [hCall'] at hEnds'
  cases hEnds with
  | failed hArity hMissing hRun =>
    cases hEnds' with
    | remembered hArity' hHit =>
      obtain ⟨k, hKey, -, -, hLater⟩ := h.found_later hFunction hArgs hMissing hHit
      rw [hOpen k hKey] at hLater
      cases hLater
    | returned hArity' hMissing' hRun' =>
      have hOutcome := outcome_body hEv hFunction hCaptured hArgs h
        (s.session.keyOf f args).isSome (s'.session.keyOf f' args').isSome
      rw [hRun, hRun'] at hOutcome
      cases hOutcome with
      | pardoned h => exact h rfl

/-- Calls of matched functions. -/
theorem outcome_call (hEv : (beside key final).Simulates (evs pending) (evs' pending'))
    (hKeeps : ∀ T, (keepingTo T).Simulates (evs pending) (evs pending))
    (hInnermost : ∀ n, Moves (Innermost fun _ => True) (evs pending n))
    (hOptions : ∀ n, Moves (fun s t => t.session.options = s.session.options) (evs pending n))
    (hFunction : f.Matched final.nextId w f')
    (hCaptured : f.captured.Like True (Closure.Matched final.nextId w) f'.captured)
    (hArgs : (beside key final).AlikeAll w args args') (hStates : (beside key final).states w s s') :
    (beside key final).Outcome w (beside key final).Alike
      (Caller.upTo key final (fun _ => stopped) late pending evs f args span s)
      (Caller.upTo key final' (fun _ => stopped) late pending' evs' f' args' span' s') := by
  have h := hStates.2.2
  refine outcome_upTo (fun hKey => ?_)
    (fun _ _ _ _ => states_of_ok hEv hKeeps hInnermost hOptions hFunction hCaptured hArgs hStates)
    fun _ _ _ => not_ok_of_open hEv hFunction hCaptured hArgs h
  have hSame : f'.id = key.function := by
    have hRel := hFunction.rel
    rw [← (Session.keyOf_eq_some hKey).1] at hRel
    exact ((w.one h.marked hRel).1 rfl).symm
  rw [Session.keyOf_like h.options f f' hArgs, hKey, hSame]
  rfl

end

end

/-- **Runs up to a call go side by side.** -/
theorem simulates (key : CallKey) (final final' : Session) (pending pending' : List Pending)
    (room room' : Nat) : (beside key final).Simulates (stopping key final pending room)
      (stopping key final' pending' room') := by
  refine Correspondence.StepLaws.simulates_evaluateBy (fun _ => stepLaws _) (fun _ _ _ => rfl)
    (fun _ _ => True) ?_ trivial trivial
  rintro room room' pending pending' - - hEv w f f' args args' span span' s s' hFunction hCaptured
    hArgs - hStates
  exact outcome_call (hEv pending pending' trivial)
    (fun T => keepingTo.simulates_upTo (fun _ _ _ => rfl) pending room)
    (moves_innermost_upTo key final _ _ pending room) (moves_options_upTo key final _ _ pending room)
    hFunction hCaptured hArgs hStates

/-- **A later run of a body cannot succeed where an earlier one was stopped.** -/
theorem not_ok_of_stopped {key : CallKey} {final final' : Session} {w : Matching} {s s' : Session}
    (h : Session.Beside key final w s s') {f : Closure Value} {args : List Value}
    (hFunction : f.Matched final.nextId w f)
    (hCaptured : f.captured.Like True (Closure.Matched final.nextId w) f.captured)
    (hArgs : Value.LikeAll True (Closure.Matched final.nextId w) args args) {cacheable : Bool}
    {pending pending' : List Pending} {room room' : Nat} {x : EvalState}
    (hStopped : inOrder (stopping key final pending room) .void f.body
      ⟨s.entered f cacheable, f.frame args⟩ = .error stopped x) (v : Value) (t : EvalState) :
    inOrder (stopping key final' pending' room') .void f.body ⟨s'.entered f cacheable, f.frame args⟩ ≠
      .ok v t := by
  have hStates : Session.Beside key final w (⟨s, .top⟩ : EvalState).session
    (⟨s', .top⟩ : EvalState).session := h
  have hOutcome := outcome_body (simulates key final final' pending pending' room room') hFunction
    hCaptured hArgs hStates cacheable cacheable
  intro hRun
  rw [hStopped, hRun] at hOutcome
  cases hOutcome with
  | pardoned h => exact h rfl

end beside

end PostLisp

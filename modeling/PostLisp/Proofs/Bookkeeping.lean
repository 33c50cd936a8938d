import PostLisp.Proofs.Recursion

/-!
# The books of a session

Whatever is asked of a session, and however it ends, the depth is back to what it was, the counters
and the cache only grow, and a result is remembered only for a call that was counted.  `Booked` is
this relation between a session and a later one.  Evaluation moves along it: a call counts before
its body starts, and what it remembers afterwards is one entry at most, which makes up for the call
that it counted (`moves_booked_apply`).  So in a session that was new there are never more results
remembered than calls counted (`books_kept`).
-/

namespace PostLisp

open EvalM

namespace Session

/-- What a later session has kept of an earlier one. -/
structure Booked (s t : Session) : Prop where
  counted : s.Counted t
  keys : ∀ key, (s.cache.find? key).isSome → (t.cache.find? key).isSome
  /-- The cache has grown by no more entries than there were calls. -/
  size : t.cache.size + s.calls ≤ s.cache.size + t.calls
  plain : s.options.memoize = false → t.cache = s.cache

namespace Booked

variable {s t u : Session}

/-- Nothing was remembered. -/
theorem of_cache (hCounted : s.Counted t) (hCache : t.cache = s.cache) : s.Booked t where
  counted := hCounted
  keys _ h := by rwa [hCache]
  size := by
    have hCalls := hCounted.calls
    rw [hCache]
    omega
  plain _ := hCache

theorem refl (s : Session) : s.Booked s := of_cache ⟨rfl, rfl, Nat.le_refl _, Nat.le_refl _⟩ rfl

theorem trans (h : s.Booked t) (g : t.Booked u) : s.Booked u where
  counted := h.counted.trans g.counted
  keys key hKey := g.keys key (h.keys key hKey)
  size := by
    have hSize := h.size
    have gSize := g.size
    omega
  plain hMemoize := by
    have gMemoize : t.options.memoize = false := by rw [h.counted.options, hMemoize]
    rw [g.plain gMemoize, h.plain hMemoize]

/-- A call that was counted may remember its result. -/
theorem returned {f : Closure Value} {args : List Value} {cacheable : Bool}
    (h : (s.entered f cacheable).Booked t) (v : Value) : s.Booked (t.returned (s.keyOf f args) v) := by
  have hEntered : s.Counted (s.entered f cacheable) := ⟨rfl, rfl, Nat.le_succ _, Nat.le_refl _⟩
  have hCounted := hEntered.trans h.counted
  cases hKey : s.keyOf f args with
  | none => exact (of_cache hEntered rfl).trans h
  | some key =>
    refine ⟨⟨hCounted.options, hCounted.depth, hCounted.calls, hCounted.nextId⟩, ?_, ?_, ?_⟩
    · intro other hOther
      show ((t.cache.insert key v).find? other).isSome
      rw [Cache.find?_insert]
      split
      · rfl
      · exact h.keys other hOther
    · have hSize : t.cache.size + (s.calls + 1) ≤ s.cache.size + t.calls := h.size
      show (t.cache.insert key v).size + s.calls ≤ s.cache.size + t.calls
      rw [Cache.size_insert]
      split <;> omega
    · intro hMemoize
      rw [keyOf_eq_none hMemoize] at hKey
      cases hKey

end Booked

end Session

instance : IsPreorder EvalState fun s t => s.session.Booked t.session where
  refl s := Session.Booked.refl s.session
  trans _ _ _ := Session.Booked.trans

namespace Eval

theorem moves_booked_define (name : String) (v : Value) :
    Moves (fun s t => s.session.Booked t.session) (do announce name v; EvalM.define name v) := by
  rintro ⟨session, frame⟩
  refine .of_cache (moves_counted_define name v ⟨session, frame⟩) ?_
  cases frame <;> rfl

theorem moves_booked_apply {ev : Evaluator}
    (hEv : ∀ n, Moves (fun s t => s.session.Booked t.session) (ev n)) (f : Closure Value)
    (args : List Value) (span : Span) :
    Moves (fun s t => s.session.Booked t.session) (apply ev f args span) := by
  have hBody := moves_inOrder (fun n (_ : n ∈ f.body) => hEv n) .void
  refine moves_apply_ends (fun s => .of_cache ?_ rfl) (fun s t cacheable e h => ?_) fun s t v h => ?_
  · exact ⟨rfl, rfl, Nat.le_refl _, Nat.le_refl _⟩
  · have hRun := hBody ⟨s.session.entered f cacheable, f.frame args⟩
    rw [final_error h] at hRun
    have hEntered : s.session.Counted (s.session.entered f cacheable) :=
      ⟨rfl, rfl, Nat.le_succ _, Nat.le_refl _⟩
    exact (Session.Booked.of_cache hEntered rfl).trans hRun
  · have hRun := hBody ⟨s.session.entered f (s.session.keyOf f args).isSome, f.frame args⟩
    rw [final_ok h] at hRun
    exact hRun.returned v

theorem moves_booked_evaluateWithin (room : Nat) (n : Node) :
    Moves (fun s t => s.session.Booked t.session) (evaluateWithin room n) := by
  refine moves_evaluateWithin moves_booked_define (fun params body s => ?_)
    (fun ev hEv f args span => moves_booked_apply hEv f args span) (fun s t h => ?_) room n
  · exact .of_cache (moves_counted_makeFunction params body s) rfl
  · have hDepth : t.session.depth = s.session.depth + 1 := h.counted.depth
    refine ⟨⟨h.counted.options, ?_, h.counted.calls, h.counted.nextId⟩, h.keys, h.size, h.plain⟩
    show t.session.depth - 1 = s.session.depth
    omega

theorem moves_booked_evaluate (n : Node) :
    Moves (fun s t => s.session.Booked t.session) (evaluate n) := fun s =>
  moves_booked_evaluateWithin s.session.room n s

end Eval

/-! ### Requests -/

/-- What can be asked of a session: to run a text, to evaluate a node in a frame, to call a function.
-/
inductive Request where
  | text (source : String)
  | node (frame : Frame) (n : Node)
  | call (f : Closure Value) (args : List Value) (span : Span)

namespace Session

/-- The session after a request, whatever its result. -/
def serve (s : Session) : Request → Session
  | .text source => (s.runText source).2
  | .node frame n => (s.evaluate frame n).2.session
  | .call f args span => (s.apply f args span).2

/-- The session after several requests. -/
def serveAll (s : Session) (requests : List Request) : Session := requests.foldl serve s

theorem booked_runText (s : Session) (text : String) : s.Booked (s.runText text).2 := by
  obtain ⟨frame, hBooked⟩ := s.moves_runText Eval.moves_booked_evaluate text
  exact hBooked

/-- Every request keeps the books. -/
theorem booked_serve (s : Session) (r : Request) : s.Booked (s.serve r) := by
  cases r with
  | text source => exact s.booked_runText source
  | node frame n =>
    show s.Booked (s.perform frame _).2.session
    rw [session_perform]
    exact Eval.moves_booked_evaluate n ⟨s, frame⟩
  | call f args span =>
    show s.Booked (s.perform .top _).2.session
    rw [session_perform]
    exact Eval.moves_booked_apply Eval.moves_booked_evaluate f args span ⟨s, .top⟩

theorem booked_serveAll (s : Session) (requests : List Request) :
    s.Booked (s.serveAll requests) := by
  induction requests generalizing s with
  | nil => exact .refl s
  | cons r requests ih => exact (s.booked_serve r).trans (ih (s.serve r))

/-- **The books are kept.**  Whatever was asked of a session since it was new, and whatever is asked
of it next: the depth is as before the request, so there is room for as many forms as at first;
calls and functions are only counted upwards; every key that has a result keeps one; and there are
no more results than counted calls, none at all if calls are not remembered. -/
theorem books_kept (options : Options) (requests : List Request) (r : Request) :
    let s := (new options).serveAll requests
    let t := s.serve r
    t.depth = s.depth ∧ t.room = options.maxDepth ∧ s.calls ≤ t.calls ∧ s.nextId ≤ t.nextId ∧
      (∀ key, (s.cache.find? key).isSome → (t.cache.find? key).isSome) ∧
      t.cache.size ≤ t.calls ∧ (options.memoize = false → t.cache = .empty) := by
  intro s t
  have hBefore : (new options).Booked s := booked_serveAll _ requests
  have hStep : s.Booked t := s.booked_serve r
  have hAll := hBefore.trans hStep
  refine ⟨hStep.counted.depth, ?_, hStep.counted.calls, hStep.counted.nextId, hStep.keys, ?_,
    hAll.plain⟩
  · rw [room, hAll.counted.options, hAll.counted.depth]
    rfl
  · have hSize : t.cache.size + 0 ≤ Cache.empty.size + t.calls := hAll.size
    rwa [Cache.size_empty, Nat.zero_add] at hSize

end Session

end PostLisp

import PostLisp.Syntax.Program
import PostLisp.Proofs.Likeness

/-!
# Reading the same tokens elsewhere

Two readings are compared that take tokens of the same kinds.  The second may have nodes below
those of the first: what was read before them.  No token reaches down to these nodes, except for a
quote mark with nothing before it, and such a mark keeps the first reading from success.  So a text
whose tokens are those of two readable texts, one after the other, is readable, and its nodes are
those of the two (`ofTokens_append`).
-/

namespace PostLisp

/-- The nodes have the same shape and the same atoms. -/
abbrev Node.SameShapes : List Node → List Node → Prop := Node.LikeAll True fun _ _ => True

theorem Node.Like.quoted {floats : Prop} {n m : Node} (h : Node.Like floats (fun _ _ => True) n m)
    (mark mark' : Span) : Node.Like floats (fun _ _ => True) (n.quoted mark) (m.quoted mark') := by
  refine .list (fun hWord => ?_) (.cons h (.cons (.atom (fun x hx => by cases hx) trivial) .nil))
    trivial
  exact absurd (Option.some.inj hWord) (by decide)

namespace Reading

/-- The second stack of open lists is the first one, up to spans, with `base` at its bottom. -/
inductive Above (base : List Node) : List Node → List OpenList → List Node → List OpenList → Prop
  | outermost {items items' : List Node} (hItems : Node.SameShapes (items ++ base) items') :
      Above base items [] items' []
  | inside {items items' : List Node} {l l' : OpenList} {ls ls' : List OpenList}
      (hItems : Node.SameShapes items items') (around : Above base l.before ls l'.before ls') :
      Above base items (l :: ls) items' (l' :: ls')

namespace Above

variable {base items items' : List Node} {ls ls' : List OpenList}

theorem add (h : Above base items ls items' ls') {n m : Node}
    (hNode : Node.Like True (fun _ _ => True) n m) : Above base (n :: items) ls (m :: items') ls' := by
  cases h with
  | outermost hItems => exact .outermost (.cons hNode hItems)
  | inside hItems around => exact .inside (.cons hNode hItems) around

theorem openList (h : Above base items ls items' ls') (s s' : Span) :
    Above base [] (⟨s, items⟩ :: ls) [] (⟨s', items'⟩ :: ls') :=
  .inside .nil h

/-- At the bottom of the stack, what was there before is in reach. -/
theorem of_nil (h : Above base items [] items' ls') :
    ls' = [] ∧ Node.SameShapes (items ++ base) items' := by
  cases h with
  | outermost hItems => exact ⟨rfl, hItems⟩

theorem quoteLast {n : Node} (h : Above base (n :: items) ls items' ls') (s s' : Span) :
    ∃ m rest, items' = m :: rest ∧ Above base (n.quoted s :: items) ls (m.quoted s' :: rest) ls' := by
  cases h with
  | outermost hItems =>
    cases hItems with
    | cons head tail => exact ⟨_, _, rfl, .outermost (.cons (head.quoted s s') tail)⟩
  | inside hItems around =>
    cases hItems with
    | cons head tail => exact ⟨_, _, rfl, .inside (.cons (head.quoted s s') tail) around⟩

end Above

/-- A mark that had nothing before it is never forgotten. -/
theorem dangling_step {r r' : Reading} {t : Token} (h : r.step t = .ok r')
    (hDangling : r'.dangling = none) : r.dangling = none := by
  rw [step] at h
  split at h
  · cases h
    exact hDangling
  · cases h
    exact hDangling
  · rw [closeList] at h
    split at h
    · cases h
    · cases h
      exact hDangling
  · rw [quoteLast] at h
    split at h
    · cases h
      have hSet : (r.dangling <|> some t.span) = none := hDangling
      simp at hSet
    · cases h
      exact hDangling

theorem dangling_foldlM {ts : List Token} {r r' : Reading} (h : ts.foldlM step r = .ok r')
    (hDangling : r'.dangling = none) : r.dangling = none := by
  induction ts generalizing r with
  | nil =>
    cases h
    exact hDangling
  | cons t ts ih =>
    rw [List.foldlM_cons] at h
    cases hStep : r.step t with
    | error e =>
      rw [hStep] at h
      cases h
    | ok next =>
      rw [hStep] at h
      exact dangling_step hStep (ih h)

/-- One token does the same to both readings. -/
theorem step_above {base : List Node} {r next r' : Reading} {t t' : Token} (hKind : t.kind = t'.kind)
    (h : Above base r.items r.enclosing r'.items r'.enclosing) (hDangling' : r'.dangling = none)
    (hStep : r.step t = .ok next) (hDangling : next.dangling = none) :
    ∃ next', r'.step t' = .ok next' ∧ next'.dangling = none ∧
      Above base next.items next.enclosing next'.items next'.enclosing := by
  rw [step] at hStep
  rw [step, ← hKind]
  split at hStep
  · cases hStep
    exact ⟨_, rfl, hDangling', h.add (.atom (fun _ _ => trivial) trivial)⟩
  · cases hStep
    exact ⟨_, rfl, hDangling', h.openList t.span t'.span⟩
  · rw [closeList] at hStep
    obtain ⟨items, enclosing, dangling⟩ := r
    obtain ⟨items', enclosing', dangling'⟩ := r'
    cases h with
    | outermost hItems => cases hStep
    | inside hItems around =>
      cases hStep
      exact ⟨_, rfl, hDangling', around.add (.list (fun _ => trivial) hItems.reverse trivial)⟩
  · obtain ⟨items, enclosing, dangling⟩ := r
    obtain ⟨items', enclosing', dangling'⟩ := r'
    cases items with
    | nil =>
      cases hStep
      have hSet : (dangling <|> some t.span) = none := hDangling
      cases dangling <;> cases hSet
    | cons n items =>
      cases hStep
      obtain ⟨m, rest, rfl, hAbove⟩ := h.quoteLast t.span t'.span
      exact ⟨_, rfl, hDangling', hAbove⟩

/-- After a token there is a node, or a list is open, or a mark had nothing before it. -/
theorem nonempty_step {r next : Reading} {t : Token} (hStep : r.step t = .ok next)
    (hDangling : next.dangling = none) : next.items ≠ [] ∨ next.enclosing ≠ [] := by
  rw [step] at hStep
  split at hStep
  · cases hStep
    exact Or.inl (List.cons_ne_nil _ _)
  · cases hStep
    exact Or.inr (List.cons_ne_nil _ _)
  · rw [closeList] at hStep
    split at hStep
    · cases hStep
    · cases hStep
      exact Or.inl (List.cons_ne_nil _ _)
  · rw [quoteLast] at hStep
    split at hStep
    · cases hStep
      have hSet : (r.dangling <|> some t.span) = none := hDangling
      simp at hSet
    · cases hStep
      exact Or.inl (List.cons_ne_nil _ _)

/-- **Tokens of the same kinds do the same to both readings**, if the first one succeeds. -/
theorem foldlM_above {base : List Node} {ts ts' : List Token}
    (hKinds : ts.map (·.kind) = ts'.map (·.kind)) {r last r' : Reading}
    (h : Above base r.items r.enclosing r'.items r'.enclosing) (hDangling' : r'.dangling = none)
    (hRead : ts.foldlM step r = .ok last) (hDangling : last.dangling = none) :
    ∃ last', ts'.foldlM step r' = .ok last' ∧ last'.dangling = none ∧
      Above base last.items last.enclosing last'.items last'.enclosing := by
  induction ts generalizing ts' r r' with
  | nil =>
    cases ts' with
    | nil =>
      cases hRead
      exact ⟨r', rfl, hDangling', h⟩
    | cons t' ts' => cases hKinds
  | cons t ts ih =>
    cases ts' with
    | nil => cases hKinds
    | cons t' ts' =>
      obtain ⟨hKind, hRest⟩ := List.cons.inj hKinds
      rw [List.foldlM_cons] at hRead
      cases hStep : r.step t with
      | error e =>
        rw [hStep] at hRead
        cases hRead
      | ok next =>
        rw [hStep] at hRead
        obtain ⟨next', hStep', hNone, hAbove⟩ := step_above hKind h hDangling' hStep
          (dangling_foldlM hRead hDangling)
        obtain ⟨last', hRead', hLast⟩ := ih hRest hAbove hNone hRead
        refine ⟨last', ?_, hLast⟩
        rw [List.foldlM_cons, hStep']
        exact hRead'

/-- What a reading has to be for its nodes to be a program. -/
theorem finish_eq_ok {r : Reading} {program : List Node} :
    r.finish = .ok program ↔
      r.enclosing = [] ∧ r.dangling = none ∧ program = r.items.reverse := by
  obtain ⟨items, enclosing, dangling⟩ := r
  cases enclosing with
  | cons l ls => simp [finish]
  | nil =>
    cases dangling with
    | some s => simp [finish]
    | none => simp [finish, eq_comm]

end Reading

namespace Program

open Reading

theorem ofTokens_eq_ok {ts : List Token} {program : List Node} :
    ofTokens ts = .ok program ↔ ∃ r : Reading, ts.foldlM step start = .ok r ∧ r.enclosing = [] ∧
      r.dangling = none ∧ program = r.items.reverse := by
  show (ts.foldlM step start >>= Reading.finish) = .ok program ↔ _
  cases ts.foldlM step start with
  | error e =>
    constructor
    · rintro h
      cases h
    · rintro ⟨r, h, -⟩
      cases h
  | ok r =>
    show r.finish = .ok program ↔ _
    rw [finish_eq_ok]
    constructor
    · exact fun h => ⟨r, rfl, h⟩
    · rintro ⟨r', h, hRest⟩
      cases h
      exact hRest

/-- **Two programs one after the other.**  Tokens of the kinds of two readable lists of tokens, one
after the other, spell the nodes of both. -/
theorem ofTokens_append {ts us all : List Token} {first second : List Node}
    (hFirst : ofTokens ts = .ok first) (hSecond : ofTokens us = .ok second)
    (hKinds : all.map (·.kind) = ts.map (·.kind) ++ us.map (·.kind)) :
    ∃ program, ofTokens all = .ok program ∧ Node.SameShapes (first ++ second) program := by
  obtain ⟨r, hRead, hOpen, hDangling, rfl⟩ := ofTokens_eq_ok.1 hFirst
  obtain ⟨q, hRead', hOpen', hDangling', rfl⟩ := ofTokens_eq_ok.1 hSecond
  obtain ⟨ts', us', rfl, hLeft, hRight⟩ := List.map_eq_append_iff.1 hKinds
  have hBottom : Above [] start.items start.enclosing start.items start.enclosing :=
    .outermost .nil
  obtain ⟨p, hReadLeft, hNone, hAbove⟩ := foldlM_above hLeft.symm hBottom rfl hRead hDangling
  rw [hOpen] at hAbove
  obtain ⟨hClosed, hItems⟩ := hAbove.of_nil
  rw [List.append_nil] at hItems
  -- the other tokens are read above the nodes that the first ones have left
  have hStart : Above r.items start.items start.enclosing p.items p.enclosing := by
    rw [hClosed]
    exact .outermost hItems
  obtain ⟨p', hReadRight, hNone', hAbove'⟩ := foldlM_above hRight.symm hStart hNone hRead' hDangling'
  rw [hOpen'] at hAbove'
  obtain ⟨hClosed', hItems'⟩ := hAbove'.of_nil
  refine ⟨p'.items.reverse, ofTokens_eq_ok.2 ⟨p', ?_, hClosed', hNone', rfl⟩, ?_⟩
  · rw [List.foldlM_append, hReadLeft]
    exact hReadRight
  · have hAll := hItems'.reverse
    rwa [List.reverse_append] at hAll

/-- A program that is spelt by tokens has nodes. -/
theorem ofTokens_ne_nil {ts : List Token} {program : List Node} (h : ofTokens ts = .ok program)
    (hTokens : ts ≠ []) : program ≠ [] := by
  obtain ⟨r, hRead, hOpen, hDangling, rfl⟩ := ofTokens_eq_ok.1 h
  rcases List.eq_nil_or_concat ts with rfl | ⟨init, t, rfl⟩
  · exact absurd rfl hTokens
  · rw [List.concat_eq_append, List.foldlM_append] at hRead
    cases hInit : init.foldlM step start with
    | error e =>
      rw [hInit] at hRead
      cases hRead
    | ok q =>
      rw [hInit] at hRead
      have hStep : q.step t = .ok r := by
        change (q.step t >>= fun r => Except.ok r) = _ at hRead
        cases hLast : q.step t <;> rw [hLast] at hRead <;> exact hRead
      rcases nonempty_step hStep hDangling with hItems | hEnclosing
      · simpa using hItems
      · exact absurd hOpen hEnclosing

end Program

end PostLisp

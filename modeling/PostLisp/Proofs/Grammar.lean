import PostLisp.Proofs.Reading

/-!
# The grammar of programs

Reading goes over the tokens once and rearranges what it has read.  The grammar says what a node is
by itself: a word spells an atom, nodes between brackets spell a list, and a node with a mark behind
it spells the quoted node.  Both give the same programs: what is read from tokens is spelt by them
(`Program.spelt_of_ofTokens`), and tokens that spell a node are read as this node wherever they
stand (`Node.Spelt.read`).  So a node can be looked at apart from the text around it, with the
tokens that spell it (`Node.Part.spelt`).
-/

namespace PostLisp

namespace Node

mutual

/-- The tokens spell the node. -/
inductive Spelt : List Token → Node → Prop
  | atom (a : Atom) (s : Span) : Spelt [⟨.atom a, s⟩] (.atom a s)
  | list {ts : List Token} {items : List Node} (h : SpeltAll ts items) (s s' : Span) :
      Spelt (⟨.mark .opening, s⟩ :: (ts ++ [⟨.mark .closing, s'⟩]))
        (.list items.reverse (s.join s'))
  | quoted {ts : List Token} {n : Node} (h : Spelt ts n) (s : Span) :
      Spelt (ts ++ [⟨.mark .quote, s⟩]) (n.quoted s)

/-- The tokens spell the nodes one after the other.  As in a reading, the last node comes first. -/
inductive SpeltAll : List Token → List Node → Prop
  | nil : SpeltAll [] []
  | cons {ts us : List Token} {ns : List Node} {n : Node} (before : SpeltAll ts ns)
      (last : Spelt us n) : SpeltAll (ts ++ us) (n :: ns)

end

/-- The node is the second one, or stands inside it at some depth. -/
inductive Part (n : Node) : Node → Prop
  | self : Part n n
  | item {m : Node} {items : List Node} {span : Span} (h : m ∈ items) (part : Part n m) :
      Part n (.list items span)

/-- The node is the symbol that stands for one of the quote marks. -/
def Inserted (n : Node) (ts : List Token) : Prop :=
  ∃ s, ⟨.mark .quote, s⟩ ∈ ts ∧ n = .atom (.symbol quoteSymbol) s

theorem Inserted.mono {n : Node} {ts us : List Token} (h : n.Inserted ts) (hSub : ts ⊆ us) :
    n.Inserted us :=
  let ⟨s, hMem, hEq⟩ := h
  ⟨s, hSub hMem, hEq⟩

end Node

/-! ### What is read is spelt -/

namespace Reading

open Node

/-- The tokens spell what a reading has at hand: the nodes of the innermost list, and before its
opening bracket the lists around it. -/
inductive Spelt : List Token → List Node → List OpenList → Prop
  | outermost {ts : List Token} {items : List Node} (h : SpeltAll ts items) : Spelt ts items []
  | inside {ts us : List Token} {items : List Node} {l : OpenList} {ls : List OpenList}
      (around : Spelt ts l.before ls) (h : SpeltAll us items) :
      Spelt (ts ++ ⟨.mark .opening, l.opening⟩ :: us) items (l :: ls)

namespace Spelt

variable {ts us : List Token} {items : List Node} {ls : List OpenList} {n : Node}

theorem add (h : Spelt ts items ls) (hNode : n.Spelt us) : Spelt (ts ++ us) (n :: items) ls := by
  cases h with
  | outermost h => exact .outermost (.cons h hNode)
  | inside around h =>
    rw [List.append_assoc, List.cons_append]
    exact .inside around (.cons h hNode)

theorem openList (h : Spelt ts items ls) (s : Span) :
    Spelt (ts ++ [⟨.mark .opening, s⟩]) [] (⟨s, items⟩ :: ls) :=
  .inside (l := ⟨s, items⟩) h .nil

theorem quoteLast (h : Spelt ts (n :: items) ls) (s : Span) :
    Spelt (ts ++ [⟨.mark .quote, s⟩]) (n.quoted s :: items) ls := by
  cases h with
  | outermost h =>
    cases h with
    | cons before last =>
      rw [List.append_assoc]
      exact .outermost (.cons before (last.quoted s))
  | inside around h =>
    cases h with
    | cons before last =>
      rw [List.append_assoc, List.cons_append, List.append_assoc]
      exact .inside around (.cons before (last.quoted s))

end Spelt

/-- One token more. -/
theorem step_spelt {ts : List Token} {r next : Reading} {t : Token}
    (h : Spelt ts r.items r.enclosing) (hStep : r.step t = .ok next)
    (hDangling : next.dangling = none) : Spelt (ts ++ [t]) next.items next.enclosing := by
  obtain ⟨items, enclosing, dangling⟩ := r
  obtain ⟨kind, span⟩ := t
  cases kind with
  | atom a =>
    cases hStep
    exact h.add (.atom a span)
  | mark m =>
    cases m with
    | opening =>
      cases hStep
      exact h.openList span
    | closing =>
      cases h with
      | outermost h => cases hStep
      | inside around h =>
        cases hStep
        rw [List.append_assoc, List.cons_append]
        exact around.add (.list h _ span)
    | quote =>
      cases items with
      | nil =>
        cases hStep
        cases dangling <;> cases hDangling
      | cons n items =>
        cases hStep
        exact h.quoteLast span

theorem foldlM_spelt {ts us : List Token} {r last : Reading} (h : Spelt ts r.items r.enclosing)
    (hRead : us.foldlM step r = .ok last) (hDangling : last.dangling = none) :
    Spelt (ts ++ us) last.items last.enclosing := by
  induction us generalizing ts r with
  | nil =>
    cases hRead
    rwa [List.append_nil]
  | cons u us ih =>
    rw [List.foldlM_cons] at hRead
    cases hStep : r.step u with
    | error e =>
      rw [hStep] at hRead
      cases hRead
    | ok next =>
      rw [hStep] at hRead
      rw [List.append_cons]
      exact ih (step_spelt h hStep (dangling_foldlM hRead hDangling)) hRead

end Reading

/-- **The tokens of a program spell its nodes.** -/
theorem Program.spelt_of_ofTokens {ts : List Token} {program : List Node}
    (h : Program.ofTokens ts = .ok program) : Node.SpeltAll ts program.reverse := by
  obtain ⟨r, hRead, hOpen, hDangling, rfl⟩ := Program.ofTokens_eq_ok.1 h
  have hSpelt := Reading.foldlM_spelt (.outermost .nil) hRead hDangling
  rw [hOpen] at hSpelt
  cases hSpelt with
  | outermost h =>
    rw [List.reverse_reverse]
    exact h

/-! ### What is spelt is read -/

namespace Node

mutual

/-- **The tokens of a node add just this node**, to any reading. -/
theorem Spelt.read {ts : List Token} {n : Node} :
    n.Spelt ts → ∀ r : Reading, ts.foldlM Reading.step r = .ok (r.add n)
  | .atom a s, r => rfl
  | @Spelt.list ts items h s s', r => by
    show (ts ++ [_]).foldlM Reading.step (r.openList s) = _
    rw [List.foldlM_append, h.read (r.openList s)]
    show Except.ok (r.add (.list (items ++ []).reverse (s.join s'))) = _
    rw [List.append_nil]
  | .quoted h s, r => by
    rw [List.foldlM_append, h.read r]
    rfl

theorem SpeltAll.read {ts : List Token} {ns : List Node} :
    SpeltAll ts ns → ∀ r : Reading, ts.foldlM Reading.step r = .ok { r with items := ns ++ r.items }
  | .nil, r => rfl
  | .cons before last, r => by
    rw [List.foldlM_append, before.read r]
    exact last.read _

end

theorem Spelt.ofTokens {ts : List Token} {n : Node} (h : n.Spelt ts) :
    Program.ofTokens ts = .ok [n] := by
  rw [Program.ofTokens, h.read]
  rfl

/-! ### The parts of a node -/

theorem Part.of_atom {n : Node} {a : Atom} {s : Span} (h : n.Part (.atom a s)) : n = .atom a s := by
  cases h
  rfl

theorem SpeltAll.mem {ts : List Token} {m : Node} {ns : List Node} :
    SpeltAll ts ns → m ∈ ns → ∃ us, us <:+: ts ∧ m.Spelt us
  | @SpeltAll.cons us vs _ _ before last, hMem => by
    rcases List.mem_cons.1 hMem with rfl | hMem
    · exact ⟨vs, (List.suffix_append us vs).isInfix, last⟩
    · obtain ⟨ws, hRun, hSpelt⟩ := before.mem hMem
      exact ⟨ws, hRun.trans (List.prefix_append us vs).isInfix, hSpelt⟩

/-- **Every part of a node is spelt by some of its tokens**, in a row, unless it is the symbol that
stands for a quote mark. -/
theorem Part.spelt {ts : List Token} {n m : Node} (h : n.Part m) (hSpelt : m.Spelt ts) :
    n.Inserted ts ∨ ∃ us, us <:+: ts ∧ n.Spelt us := by
  induction h generalizing ts with
  | self => exact Or.inr ⟨ts, List.infix_rfl, hSpelt⟩
  | @item m items span hMem part ih =>
    have hInner : ∀ {us}, m.Spelt us → us <:+: ts → n.Inserted ts ∨ ∃ us, us <:+: ts ∧ n.Spelt us := by
      intro us hUs hRun
      rcases ih hUs with hInserted | ⟨vs, hRun', hVs⟩
      · exact Or.inl (hInserted.mono hRun.subset)
      · exact Or.inr ⟨vs, hRun'.trans hRun, hVs⟩
    cases hSpelt with
    | @list inner items h s s' =>
      obtain ⟨us, hRun, hUs⟩ := h.mem (List.mem_reverse.1 hMem)
      exact hInner hUs (hRun.trans ⟨[⟨.mark .opening, s⟩], [⟨.mark .closing, s'⟩], rfl⟩)
    | @quoted inner n' h s =>
      rcases List.mem_cons.1 hMem with rfl | hSymbol
      · exact hInner h (List.prefix_append inner _).isInfix
      · obtain rfl := List.mem_singleton.1 hSymbol
        exact Or.inl ⟨s, List.mem_append_right _ (List.mem_singleton.2 rfl), part.of_atom⟩

/-! ### Where a node stands -/

theorem Spelt.ne_nil {ts : List Token} {n : Node} (h : n.Spelt ts) : ts ≠ [] := by
  cases h with
  | atom a s => exact List.cons_ne_nil _ _
  | list h s s' => exact List.cons_ne_nil _ _
  | quoted h s => exact List.append_ne_nil_of_right_ne_nil _ (List.cons_ne_nil _ _)

/-- **A node goes from its first token to its last one**, if the tokens come in the order of the
text. -/
theorem Spelt.ends {ts : List Token} {n : Node} (h : n.Spelt ts)
    (hOrder : ts.Pairwise fun t u => t.span.start ≤ u.span.start ∧ t.span.stop ≤ u.span.stop) :
    (∃ t, ts.head? = some t ∧ t.span.start = n.span.start) ∧
      ∃ t, ts.getLast? = some t ∧ t.span.stop = n.span.stop := by
  cases h with
  | atom a s => exact ⟨⟨_, rfl, rfl⟩, _, rfl, rfl⟩
  | @list inner items h s s' =>
    have hMem : (⟨.mark .closing, s'⟩ : Token) ∈ inner ++ [⟨.mark .closing, s'⟩] :=
      List.mem_append_right _ (List.mem_singleton.2 rfl)
    obtain ⟨hStart, hStop⟩ := (List.pairwise_cons.1 hOrder).1 _ hMem
    refine ⟨⟨_, rfl, (Nat.min_eq_left hStart).symm⟩, ⟨.mark .closing, s'⟩, ?_,
      (Nat.max_eq_right hStop).symm⟩
    rw [← List.cons_append, List.getLast?_concat]
  | @quoted inner n h s =>
    obtain ⟨hInner, -, hMark⟩ := List.pairwise_append.1 hOrder
    obtain ⟨⟨first, hFirst, hFirstStart⟩, last, hLast, hLastStop⟩ := h.ends hInner
    have hStart := (hMark first (List.mem_of_mem_head? hFirst) _ (List.mem_singleton.2 rfl)).1
    have hStop := (hMark last (List.mem_of_mem_getLast? hLast) _ (List.mem_singleton.2 rfl)).2
    rw [hFirstStart] at hStart
    rw [hLastStop] at hStop
    refine ⟨⟨first, ?_, ?_⟩, ⟨.mark .quote, s⟩, List.getLast?_concat, ?_⟩
    · rw [List.head?_append, hFirst]
      rfl
    · exact hFirstStart.trans (Nat.min_eq_left hStart).symm
    · exact (Nat.max_eq_right hStop).symm

end Node

end PostLisp

import PostLisp.Proofs.Grammar
import PostLisp.Proofs.Offenders

/-!
# What a reading keeps

A reading moves nodes on and off a stack, and takes the last one up again for each quote mark.  In
the end nothing is lost, doubled or out of order: from left to right, the atoms of a program are the
words and the quote marks of its tokens, and every list of it stands for an opening bracket or a
quote mark (`Program.ofTokens_conserves`).  This holds wherever the spans of the tokens lie.
-/

namespace PostLisp

/-- The atom that a token puts into a program, and where. -/
def Token.leaf? (t : Token) : Option (Atom × Span) :=
  match t.kind with
  | .atom a => some (a, t.span)
  | .mark .quote => some (.symbol Node.quoteSymbol, t.span)
  | .mark .opening | .mark .closing => none

namespace Node

mutual

/-- The atoms in a node from left to right, each with its span. -/
def leaves : Node → List (Atom × Span)
  | .atom a s => [(a, s)]
  | .list items _ => leavesAll items

def leavesAll : List Node → List (Atom × Span)
  | [] => []
  | n :: ns => n.leaves ++ leavesAll ns

end

mutual

/-- How many lists there are in a node, itself included. -/
def lists : Node → Nat
  | .atom _ _ => 0
  | .list items _ => listsAll items + 1

def listsAll : List Node → Nat
  | [] => 0
  | n :: ns => n.lists + listsAll ns

end

/-- The list is made of its brackets and what stands between them, or of a node and its quote mark,
and its span contains theirs. -/
inductive BuiltFrom : List Token → Node → Prop
  | brackets {inside : List Token} {items : List Node} {s s' span : Span}
      (hInside : SpeltAll inside items.reverse) (hOpening : s.Within span)
      (hClosing : s'.Within span) :
      BuiltFrom (⟨.mark .opening, s⟩ :: (inside ++ [⟨.mark .closing, s'⟩])) (.list items span)
  | quoteMark {quoted : List Token} {n : Node} {s span : Span} (hQuoted : n.Spelt quoted)
      (hNode : n.span.Within span) (hMark : s.Within span) :
      BuiltFrom (quoted ++ [⟨.mark .quote, s⟩]) (.list [n, .atom (.symbol quoteSymbol) s] span)

variable {ns ms : List Node}

@[simp]
theorem leavesAll_append : leavesAll (ns ++ ms) = leavesAll ns ++ leavesAll ms := by
  induction ns with
  | nil => rfl
  | cons n ns ih => rw [List.cons_append, leavesAll, leavesAll, ih, List.append_assoc]

@[simp]
theorem listsAll_append : listsAll (ns ++ ms) = listsAll ns + listsAll ms := by
  induction ns with
  | nil => exact (Nat.zero_add _).symm
  | cons n ns ih => rw [List.cons_append, listsAll, listsAll, ih, Nat.add_assoc]

/-- The order does not matter for how many lists there are. -/
@[simp]
theorem listsAll_reverse : listsAll ns.reverse = listsAll ns := by
  induction ns with
  | nil => rfl
  | cons n ns ih => simp [listsAll, ih, Nat.add_comm]

/-! ### The tokens of a node -/

mutual

theorem Spelt.leaves_eq {ts : List Token} {n : Node} :
    n.Spelt ts → n.leaves = ts.filterMap Token.leaf?
  | .atom a s => rfl
  | @Spelt.list inside items h s s' => by
    have hInside : leavesAll items.reverse = inside.filterMap Token.leaf? := h.leaves_eq
    rw [leaves, hInside, List.filterMap_cons_none rfl, List.filterMap_append]
    exact (List.append_nil _).symm
  | @Spelt.quoted ts n h s => by
    have hNode : n.leaves = ts.filterMap Token.leaf? := h.leaves_eq
    simp [quoted, leaves, leavesAll, hNode, Token.leaf?]

theorem SpeltAll.leaves_eq {ts : List Token} {ns : List Node} :
    SpeltAll ts ns → leavesAll ns.reverse = ts.filterMap Token.leaf?
  | .nil => rfl
  | @SpeltAll.cons ts us ns n before last => by
    have hBefore : leavesAll ns.reverse = ts.filterMap Token.leaf? := before.leaves_eq
    have hLast : n.leaves = us.filterMap Token.leaf? := last.leaves_eq
    simp [leavesAll, hBefore, hLast]

end

mutual

theorem Spelt.lists_eq {ts : List Token} {n : Node} :
    n.Spelt ts → n.lists = Token.count .opening ts + Token.count .quote ts
  | .atom a s => rfl
  | @Spelt.list inside items h s s' => by
    have hInside : listsAll items = Token.count .opening inside + Token.count .quote inside :=
      h.lists_eq
    simp [lists, Token.isMark, hInside]
    omega
  | @Spelt.quoted ts n h s => by
    have hNode : n.lists = Token.count .opening ts + Token.count .quote ts := h.lists_eq
    simp [quoted, lists, listsAll, Token.isMark, hNode]
    omega

theorem SpeltAll.lists_eq {ts : List Token} {ns : List Node} :
    SpeltAll ts ns → listsAll ns = Token.count .opening ts + Token.count .quote ts
  | .nil => rfl
  | @SpeltAll.cons ts us ns n before last => by
    have hBefore : listsAll ns = Token.count .opening ts + Token.count .quote ts := before.lists_eq
    have hLast : n.lists = Token.count .opening us + Token.count .quote us := last.lists_eq
    rw [listsAll, hBefore, hLast, Token.count_append, Token.count_append]
    omega

end

theorem Spelt.builtFrom {ts : List Token} {items : List Node} {span : Span}
    (h : Spelt ts (.list items span)) : BuiltFrom ts (.list items span) := by
  generalize hNode : Node.list items span = n at h
  cases h with
  | atom a s => cases hNode
  | @list inside items' h s s' =>
    refine .brackets ?_ (s.within_join_left s') (s.within_join_right s')
    rwa [List.reverse_reverse]
  | @quoted ts n h s =>
    exact .quoteMark h (n.span.within_join_left s) (n.span.within_join_right s)

end Node

namespace Program

/-- **Reading loses, doubles and reorders nothing.**  From left to right, the atoms of a program are
the words and quote marks of its tokens, each at the span of its token; there is one list for each
opening bracket and each quote mark; and every list, at any depth, is built from tokens that stand
in a row, within its span its brackets, or the quoted node and the quote mark. -/
theorem ofTokens_conserves {ts : List Token} {program : List Node}
    (h : ofTokens ts = .ok program) :
    Node.leavesAll program = ts.filterMap Token.leaf? ∧
    Node.listsAll program = Token.count .opening ts + Token.count .quote ts ∧
    ∀ m ∈ program, ∀ items span, (Node.list items span).Part m →
      ∃ us, us <:+: ts ∧ Node.BuiltFrom us (.list items span) := by
  have hSpelt := spelt_of_ofTokens h
  have hLeaves := hSpelt.leaves_eq
  have hLists := hSpelt.lists_eq
  rw [List.reverse_reverse] at hLeaves
  rw [Node.listsAll_reverse] at hLists
  refine ⟨hLeaves, hLists, fun m hMem items span hPart => ?_⟩
  obtain ⟨us, hRun, hNode⟩ := hSpelt.mem (List.mem_reverse.2 hMem)
  rcases hPart.spelt hNode with ⟨s, -, hAtom⟩ | ⟨vs, hPartRun, hPartSpelt⟩
  · cases hAtom
  · exact ⟨vs, hPartRun.trans hRun, hPartSpelt.builtFrom⟩

/-- A list quoted twice, from tokens whose spans are out of order: the closing bracket is before the
opening one, and the marks lie in between. -/
theorem ofTokens_conserves_disordered :
    let ts : List Token := [⟨.atom (.int 7), ⟨90, 91⟩⟩, ⟨.mark .opening, ⟨50, 51⟩⟩,
      ⟨.atom (.symbol "a"), ⟨0, 99⟩⟩, ⟨.mark .quote, ⟨30, 31⟩⟩, ⟨.mark .closing, ⟨10, 11⟩⟩,
      ⟨.mark .quote, ⟨20, 21⟩⟩]
    let a : Node := .list [.atom (.symbol "a") ⟨0, 99⟩, .atom (.symbol "quote") ⟨30, 31⟩] ⟨0, 99⟩
    let inner : Node := .list [a] ⟨10, 51⟩
    let program : List Node := [.atom (.int 7) ⟨90, 91⟩,
      .list [inner, .atom (.symbol "quote") ⟨20, 21⟩] ⟨10, 51⟩]
    ofTokens ts = .ok program ∧ Node.leavesAll program = [(.int 7, ⟨90, 91⟩),
      (.symbol "a", ⟨0, 99⟩), (.symbol "quote", ⟨30, 31⟩), (.symbol "quote", ⟨20, 21⟩)] ∧
    Node.listsAll program = 3 ∧ ∃ us, us <:+: ts ∧ Node.BuiltFrom us inner := by
  intro ts a inner program
  have hRead : ofTokens ts = .ok program := rfl
  obtain ⟨hLeaves, hLists, hBuilt⟩ := ofTokens_conserves hRead
  have hPart : inner.Part (.list [inner, .atom (.symbol "quote") ⟨20, 21⟩] ⟨10, 51⟩) :=
    .item List.mem_cons_self .self
  refine ⟨hRead, hLeaves, hLists, hBuilt _ ?_ _ _ hPart⟩
  exact List.mem_cons_of_mem _ (List.mem_singleton.2 rfl)

end Program

end PostLisp

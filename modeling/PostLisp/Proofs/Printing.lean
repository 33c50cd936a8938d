import PostLisp.Proofs.Lexing
import PostLisp.Proofs.Numerals
import PostLisp.Proofs.Reading

/-!
# Reading what was printed

The nodes of a text, printed one after the other, make a text with the same nodes, up to spans.
Printing a node gives back the tokens that it is read from, with a quote mark spelt out as a list;
so there are two things to see.  The atoms of a text that was read are read back from what they
write, and the tokens of a node, read at any place, add just this node.
-/

namespace PostLisp

open Token Lexeme

/-! ### Nodes up to spans -/

/-- The same atom, where what is not a number counts as the same as what is not a number. -/
inductive Atom.Same : Atom → Atom → Prop
  | refl (a : Atom) : Atom.Same a a
  | nan {x y : Float} (hx : Number.Binary64.magnitude x = .nan)
      (hy : Number.Binary64.magnitude y = .nan) : Atom.Same (.float x) (.float y)

namespace Node

mutual

/-- The nodes have the same shape and the same atoms. -/
inductive Same : Node → Node → Prop
  | atom {a b : Atom} (h : a.Same b) (s s' : Span) : Same (.atom a s) (.atom b s')
  | list {ns ms : List Node} (h : SameAll ns ms) (s s' : Span) : Same (.list ns s) (.list ms s')

inductive SameAll : List Node → List Node → Prop
  | nil : SameAll [] []
  | cons {n m : Node} {ns ms : List Node} (head : Same n m) (tail : SameAll ns ms) :
      SameAll (n :: ns) (m :: ms)

end

mutual

/-- The atoms of a node, from left to right. -/
def atoms : Node → List Atom
  | .atom a _ => [a]
  | .list items _ => atomsAll items

def atomsAll : List Node → List Atom
  | [] => []
  | n :: ns => n.atoms ++ atomsAll ns

end

theorem atomsAll_append (ns ms : List Node) : atomsAll (ns ++ ms) = atomsAll ns ++ atomsAll ms := by
  induction ns with
  | nil => rfl
  | cons n ns ih => rw [List.cons_append, atomsAll, atomsAll, ih, List.append_assoc]

theorem mem_atomsAll_reverse {ns : List Node} {a : Atom} :
    a ∈ atomsAll ns.reverse ↔ a ∈ atomsAll ns := by
  induction ns with
  | nil => exact Iff.rfl
  | cons n ns ih =>
    rw [List.reverse_cons, atomsAll_append, atomsAll, List.mem_append, List.mem_append, ih]
    simp [atomsAll, or_comm]

end Node

/-! ### The atoms of a text -/

/-- The atom can be read: a word spells it. -/
def Atom.Readable (a : Atom) : Prop := ∃ cs, IsWord cs ∧ a = Atom.ofWord cs

namespace Reading

/-- The atoms of all nodes that a reading has at hand have a property. -/
structure AllAtoms (P : Atom → Prop) (r : Reading) : Prop where
  items : ∀ a ∈ Node.atomsAll r.items, P a
  before : ∀ l ∈ r.enclosing, ∀ a ∈ Node.atomsAll l.before, P a

variable {P : Atom → Prop} {r next : Reading}

theorem AllAtoms.step (h : r.AllAtoms P) (hQuote : P (.symbol Node.quoteSymbol)) {t : Token}
    (hToken : ∀ a, t.kind = .atom a → P a) (hStep : r.step t = .ok next) : next.AllAtoms P := by
  rw [Reading.step] at hStep
  split at hStep
  · rename_i a hKind
    cases hStep
    refine ⟨fun b hb => ?_, h.before⟩
    rcases List.mem_cons.1 hb with rfl | hItems
    · exact hToken _ hKind
    · exact h.items b hItems
  · cases hStep
    refine ⟨fun a ha => ?_, List.forall_mem_cons.2 ⟨h.items, h.before⟩⟩
    cases ha
  · rw [closeList] at hStep
    split at hStep
    · cases hStep
    · rename_i l ls hEnclosing
      cases hStep
      have hBefore := h.before
      rw [hEnclosing] at hBefore
      obtain ⟨hOuter, hRest⟩ := List.forall_mem_cons.1 hBefore
      refine ⟨fun a ha => ?_, hRest⟩
      rcases List.mem_append.1 ha with hItems | hItems
      · exact h.items a (Node.mem_atomsAll_reverse.1 hItems)
      · exact hOuter a hItems
  · cases hStep
    rw [quoteLast]
    split
    · exact { h with }
    · rename_i n items hItems
      refine ⟨fun a ha => ?_, h.before⟩
      have hAtoms := h.items
      rw [hItems] at hAtoms
      rcases List.mem_append.1 ha with hQuoted | hRest
      · rcases List.mem_append.1 hQuoted with hn | hWord
        · exact hAtoms a (List.mem_append_left _ hn)
        · obtain rfl := List.mem_singleton.1 hWord
          exact hQuote
      · exact hAtoms a (List.mem_append_right _ hRest)

theorem AllAtoms.foldlM {ts : List Token} (h : r.AllAtoms P) (hQuote : P (.symbol Node.quoteSymbol))
    (hTokens : ∀ t ∈ ts, ∀ a, t.kind = .atom a → P a) (hRead : ts.foldlM Reading.step r = .ok next) :
    next.AllAtoms P := by
  induction ts generalizing r with
  | nil =>
    cases hRead
    exact h
  | cons t ts ih =>
    obtain ⟨hToken, hTokens⟩ := List.forall_mem_cons.1 hTokens
    rw [List.foldlM_cons] at hRead
    cases hStep : r.step t with
    | error e =>
      rw [hStep] at hRead
      cases hRead
    | ok middle =>
      rw [hStep] at hRead
      exact ih (h.step hQuote hToken hStep) hTokens hRead

end Reading

namespace Program

/-- Every atom of a text is spelt by a word. -/
theorem readable_ofString {text : String} {nodes : List Node} (hRead : ofString text = .ok nodes)
    {a : Atom} (ha : a ∈ Node.atomsAll nodes) : a.Readable := by
  obtain ⟨r, hFold, -, -, rfl⟩ := ofTokens_eq_ok.1 hRead
  have hStart : Reading.start.AllAtoms Atom.Readable := ⟨nofun, nofun⟩
  have hQuote : (Atom.symbol Node.quoteSymbol).Readable :=
    ⟨Node.quoteSymbol.toList, by decide, by rfl⟩
  refine (hStart.foldlM hQuote (fun t ht a hKind => ?_) hFold).items a
    (Node.mem_atomsAll_reverse.1 ha)
  obtain ⟨l, hLexeme, rfl⟩ := List.mem_map.1 ht
  cases l with
  | mark m s => cases hKind
  | word cs s =>
    cases hKind
    exact ⟨cs, (of_mem_ofChars hLexeme).2 cs s rfl, rfl⟩

end Program

/-! ### Printed atoms -/

/-- What floats and integers are written with makes up a word. -/
theorem Number.FloatChars.isWord {s : String} (h : Number.FloatChars s) (hSome : s.toList ≠ []) :
    IsWord s.toList := by
  have hMarks : ∀ c ∈ Number.floatMarks, InWord c := by
    simp only [Number.floatMarks, List.forall_mem_cons, List.not_mem_nil, false_implies,
      implies_true]
    decide
  exact ⟨hSome, fun c hc => (h c hc).elim inWord_of_isDigit (hMarks c)⟩

namespace Atom

/-- **An atom that was read is read back from what it writes.** -/
theorem Readable.same_ofString {a : Atom} (h : a.Readable)
    (hFloat : ∀ x, a = .float x → Number.Binary64.magnitude x ≠ .nan →
      Number.readFloat? (Number.renderFloat x).toList = some x) :
    IsWord a.render.toList ∧ a.Same (Atom.ofString a.render) := by
  obtain ⟨cs, hWord, rfl⟩ := h
  cases hInt : Number.readInt64? cs with
  | some n =>
    have hAtom : Atom.ofWord cs = .int n := by rw [Atom.ofWord, hInt]
    have hBack : Atom.ofWord (Number.renderInt64 n).toList = .int n := by
      rw [Atom.ofWord, Number.readInt64?_renderInt64]
    rw [hAtom]
    refine ⟨(Number.floatChars_toString n.toInt).isWord fun hNil => ?_, ?_⟩
    · have hRead := Number.readInt64?_renderInt64 n
      rw [Number.renderInt64, hNil] at hRead
      cases hRead
    · rw [render, Atom.ofString, hBack]
      exact .refl _
  | none =>
    cases hFloats : Number.readFloat? cs with
    | some x =>
      have hAtom : Atom.ofWord cs = .float x := by
        rw [Atom.ofWord, hInt]
        dsimp only
        rw [hFloats]
      obtain ⟨hChars, hTelling⟩ := Number.renderFloat_written x
      have hSome : (Number.renderFloat x).toList ≠ [] := by
        obtain ⟨c, hc, -⟩ := hTelling
        exact List.ne_nil_of_mem hc
      rw [hAtom]
      refine ⟨hChars.isWord hSome, ?_⟩
      rw [render, Atom.ofString, Atom.ofWord, Number.readInt64?_renderFloat]
      dsimp only
      by_cases hNan : Number.Binary64.magnitude x = .nan
      · rw [Number.readFloat?_renderFloat_nan hNan]
        exact .nan hNan Number.magnitude_notANumber
      · rw [hFloat x hAtom hNan]
        exact .refl _
    | none =>
      have hAtom : Atom.ofWord cs = .symbol (String.ofList cs) := by
        rw [Atom.ofWord, hInt]
        dsimp only
        rw [hFloats]
      have hText : (Atom.ofWord cs).render.toList = cs := by
        rw [hAtom, render, String.toList_ofList]
      rw [Atom.ofString, hText]
      exact ⟨hWord, .refl _⟩

end Atom

/-! ### Printed nodes -/

namespace Node

mutual

/-- The kinds of the tokens that a node is printed with. -/
def kinds : Node → List TokenKind
  | .atom a _ => [.atom (Atom.ofString a.render)]
  | .list items _ => .mark .opening :: kindsAll items ++ [.mark .closing]

def kindsAll : List Node → List TokenKind
  | [] => []
  | n :: ns => n.kinds ++ kindsAll ns

end

mutual

/-- A printed node falls into its tokens. -/
theorem spells_render : (n : Node) → (∀ a ∈ n.atoms, IsWord a.render.toList) →
    Spells n.render.toList n.kinds
  | .atom a _, hWords => spells_word (hWords a List.mem_cons_self)
  | .list items s, hWords => by
    have hItems := spells_renderAll items hWords
    have hText : (Node.list items s).render.toList =
        '(' :: (String.intercalate " " (renderAll items)).toList ++ [')'] := by
      rw [render, String.toList_append, String.toList_append]
      rfl
    rw [hText, kinds]
    exact hItems.bracketed

theorem spells_renderAll : (ns : List Node) → (∀ a ∈ atomsAll ns, IsWord a.render.toList) →
    Spells (String.intercalate " " (renderAll ns)).toList (kindsAll ns)
  | [], _ => spells_nil
  | [n], hWords => by
    have hNode := spells_render n fun a ha => hWords a (List.mem_append_left _ ha)
    rw [renderAll, renderAll, String.intercalate_singleton, kindsAll, kindsAll, List.append_nil]
    exact hNode
  | n :: m :: ns, hWords => by
    have hNode := spells_render n fun a ha => hWords a (List.mem_append_left _ ha)
    have hRest := spells_renderAll (m :: ns) fun a ha => hWords a (List.mem_append_right _ ha)
    have hText : (String.intercalate " " (renderAll (n :: m :: ns))).toList =
        n.render.toList ++ ' ' :: (String.intercalate " " (renderAll (m :: ns))).toList := by
      rw [renderAll, renderAll, String.intercalate_cons_cons, String.toList_append,
        String.toList_append, List.append_assoc]
      rfl
    rw [hText, kindsAll]
    exact hNode.spaced hRest

end

mutual

/-- The tokens of a printed node add the node to what is read. -/
theorem read_kinds : (n : Node) → (∀ a ∈ n.atoms, a.Same (Atom.ofString a.render)) →
    ∀ (r : Reading) (ts : List Token), ts.map (·.kind) = n.kinds →
      ∃ m, ts.foldlM Reading.step r = .ok (r.add m) ∧ n.Same m
  | .atom a s, hAtoms, r, ts, hKinds => by
    obtain ⟨t, rfl, hKind⟩ := List.map_eq_singleton_iff.1 hKinds
    refine ⟨.atom (Atom.ofString a.render) t.span, ?_, .atom (hAtoms a List.mem_cons_self) s t.span⟩
    rw [List.foldlM_cons, Reading.step, hKind]
    rfl
  | .list items s, hAtoms, r, ts, hKinds => by
    obtain ⟨us, closing, rfl, hRest, hClosing⟩ := List.map_eq_append_iff.1 hKinds
    obtain ⟨opening, inside, rfl, hOpening, hInside⟩ := List.map_eq_cons_iff.1 hRest
    obtain ⟨t, rfl, hKind⟩ := List.map_eq_singleton_iff.1 hClosing
    obtain ⟨ms, hRead, hItems⟩ := read_kindsAll items hAtoms (r.openList opening.span) inside hInside
    refine ⟨.list ms (opening.span.join t.span), ?_, .list hItems s _⟩
    have hOpen : r.step opening = .ok (r.openList opening.span) := by rw [Reading.step, hOpening]
    rw [List.foldlM_append, List.foldlM_cons, hOpen]
    show (inside.foldlM Reading.step (r.openList opening.span) >>= fun r => [t].foldlM Reading.step r) = _
    rw [hRead]
    show (Reading.step _ t >>= pure) = _
    rw [Reading.step, hKind]
    show Except.ok _ = _
    simp [Reading.add, Reading.openList]

theorem read_kindsAll : (ns : List Node) → (∀ a ∈ atomsAll ns, a.Same (Atom.ofString a.render)) →
    ∀ (r : Reading) (ts : List Token), ts.map (·.kind) = kindsAll ns →
      ∃ ms, ts.foldlM Reading.step r = .ok { r with items := ms.reverse ++ r.items } ∧ SameAll ns ms
  | [], _, r, ts, hKinds => by
    obtain rfl := List.map_eq_nil_iff.1 hKinds
    exact ⟨[], rfl, .nil⟩
  | n :: ns, hAtoms, r, ts, hKinds => by
    obtain ⟨us, vs, rfl, hNode, hRest⟩ := List.map_eq_append_iff.1 hKinds
    obtain ⟨m, hRead, hSame⟩ :=
      read_kinds n (fun a ha => hAtoms a (List.mem_append_left _ ha)) r us hNode
    obtain ⟨ms, hReadRest, hSameRest⟩ :=
      read_kindsAll ns (fun a ha => hAtoms a (List.mem_append_right _ ha)) (r.add m) vs hRest
    refine ⟨m :: ms, ?_, .cons hSame hSameRest⟩
    rw [List.foldlM_append, hRead]
    refine hReadRest.trans ?_
    rw [List.reverse_cons, List.append_assoc]
    rfl

end

end Node

namespace Program

/-- **Printing and reading are inverse.**  The nodes of a text, printed one after the other and
apart by spaces, are a text that has the same nodes, as long as every float among them is read back
from what it writes. -/
theorem ofString_render {text : String} {nodes : List Node} (hRead : ofString text = .ok nodes)
    (hFloats : ∀ x, .float x ∈ Node.atomsAll nodes → Number.Binary64.magnitude x ≠ .nan →
      Number.readFloat? (Number.renderFloat x).toList = some x) :
    ∃ nodes', ofString (String.intercalate " " (Node.renderAll nodes)) = .ok nodes' ∧
      Node.SameAll nodes nodes' := by
  have hAtoms : ∀ a ∈ Node.atomsAll nodes,
      IsWord a.render.toList ∧ a.Same (Atom.ofString a.render) := fun a ha =>
    (readable_ofString hRead ha).same_ofString fun x hx => hFloats x (hx ▸ ha)
  have hSpells := Node.spells_renderAll nodes fun a ha => (hAtoms a ha).1
  obtain ⟨nodes', hFold, hSame⟩ := Node.read_kindsAll nodes (fun a ha => (hAtoms a ha).2) .start
    (Token.ofString (String.intercalate " " (Node.renderAll nodes)))
    (by rw [map_kind_ofString, hSpells.kinds_eq])
  refine ⟨nodes', ofTokens_eq_ok.2 ⟨_, hFold, rfl, rfl, ?_⟩, hSame⟩
  show nodes' = (nodes'.reverse ++ []).reverse
  rw [List.append_nil, List.reverse_reverse]

/-- A quote mark, two kinds of floats and an integer with a sign: the text is printed as
`((x quote) NaN -2.5 7)`. -/
theorem ofString_render_mixed : ∃ nodes nodes', ofString "(x' nan -2.5 +7)" = .ok nodes ∧
    ofString (String.intercalate " " (Node.renderAll nodes)) = .ok nodes' ∧
    Node.SameAll nodes nodes' := by
  have hRead : ofString "(x' nan -2.5 +7)" = .ok [.list
      [.list [.atom (.symbol "x") ⟨1, 2⟩, .atom (.symbol "quote") ⟨2, 3⟩] ⟨1, 3⟩,
        .atom (.float Number.notANumber) ⟨4, 7⟩, .atom (.float (-2.5)) ⟨8, 12⟩,
        .atom (.int 7) ⟨13, 15⟩] ⟨0, 16⟩] := by rfl
  obtain ⟨nodes', hBack, hSame⟩ := ofString_render hRead fun x hx hNumber => by
    have hFloat : x = Number.notANumber ∨ x = -2.5 := by simpa [Node.atomsAll, Node.atoms] using hx
    rcases hFloat with rfl | rfl
    · exact absurd Number.magnitude_notANumber hNumber
    · decide +kernel
  exact ⟨_, nodes', hRead, hBack, hSame⟩

end Program

end PostLisp

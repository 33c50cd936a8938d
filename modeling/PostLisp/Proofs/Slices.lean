import Mathlib.Data.String.Basic
import PostLisp.Proofs.Grammar
import PostLisp.Proofs.Lexing

/-!
# What a span marks

The span of a node marks the text that the node was read from: this slice of the text, read alone,
is the same node, with its spans counted from where the slice starts (`Program.slice_reads_back`).
The tokens that spell the node stand in a row; a text can be cut before a token and behind one
without a change to the tokens on either side; and a text that starts later has the same tokens,
moved up.
-/

namespace PostLisp

namespace Span

/-- The text is the slice, with something before it and behind it, and the span says in bytes where
the slice starts and stops. -/
def Marks (s : Span) (text slice : String) : Prop :=
  ∃ before behind, text = before ++ slice ++ behind ∧
    before.utf8ByteSize = s.start ∧ (before ++ slice).utf8ByteSize = s.stop

/-- The span of a text that starts `k` bytes later. -/
def moved (k : Nat) (s : Span) : Span := ⟨k + s.start, k + s.stop⟩

theorem join_moved (k : Nat) (s s' : Span) : (s.moved k).join (s'.moved k) = (s.join s').moved k := by
  simp [moved, join, Nat.add_min_add_left, Nat.add_max_add_left]

end Span

/-! ### Cutting a text -/

namespace Lexeme

open String (utf8Len)

def moved (k : Nat) : Lexeme → Lexeme
  | .mark m s => .mark m (s.moved k)
  | .word cs s => .word cs (s.moved k)

theorem extend_moved (k offset : Nat) (c : Char) (ls : List Lexeme) :
    extend (k + offset) c (ls.map (moved k)) = (extend offset c ls).map (moved k) := by
  cases ls with
  | nil => simp [extend, moved, Span.moved, Nat.add_assoc]
  | cons l ls =>
    cases l with
    | mark m s => simp [extend, moved, Span.moved, Nat.add_assoc]
    | word cs s =>
      simp only [extend, List.map_cons, moved, Span.moved, Nat.add_assoc, Nat.add_left_cancel_iff]
      split <;> rfl

/-- **A text that starts later has the same lexemes, moved up.** -/
theorem ofChars_moved (k offset : Nat) (cs : List Char) :
    ofChars (k + offset) cs = (ofChars offset cs).map (moved k) := by
  induction cs generalizing offset with
  | nil => rfl
  | cons c cs ih =>
    rw [ofChars, ofChars, Nat.add_assoc, ih]
    split
    · rfl
    · split
      · rfl
      · exact extend_moved k offset c _

/-- Lexemes come in the order of the text. -/
theorem ofChars_ordered (offset : Nat) (cs : List Char) :
    (ofChars offset cs).Pairwise fun l m =>
      l.span.start ≤ m.span.start ∧ l.span.stop ≤ m.span.stop := by
  have hApart := (cut_ofChars offset cs).apart
  refine hApart.behind.imp_of_mem fun {l m} hl hm hBehind => ?_
  have hFirst := hApart.nonempty l hl
  have hSecond := hApart.nonempty m hm
  exact ⟨by omega, by omega⟩

/-- **A text can be cut before a lexeme.** -/
theorem ofChars_cut_before {offset : Nat} {cs : List Char} {ls ms : List Lexeme} {l : Lexeme}
    (h : ofChars offset cs = ls ++ l :: ms) :
    ∃ before rest, cs = before ++ rest ∧ offset + utf8Len before = l.span.start ∧
      ofChars l.span.start rest = l :: ms := by
  induction cs generalizing offset ls l with
  | nil => exact absurd h.symm (List.append_ne_nil_of_right_ne_nil _ (List.cons_ne_nil _ _))
  | cons c cs ih =>
    have hDeeper : ∀ ls', ofChars (offset + c.utf8Size) cs = ls' ++ l :: ms →
        ∃ before rest, c :: cs = before ++ rest ∧ offset + utf8Len before = l.span.start ∧
          ofChars l.span.start rest = l :: ms := by
      intro ls' hRest
      obtain ⟨before, rest, rfl, hStart, hCut⟩ := ih hRest
      exact ⟨c :: before, rest, rfl, (add_utf8Len_cons offset c before).trans hStart, hCut⟩
    have hHere : ls = [] → l.span.start = offset →
        ∃ before rest, c :: cs = before ++ rest ∧ offset + utf8Len before = l.span.start ∧
          ofChars l.span.start rest = l :: ms := by
      rintro rfl hStart
      refine ⟨[], c :: cs, rfl, hStart.symm, ?_⟩
      rw [hStart]
      exact h
    have hPuts := puts_ofChars offset c cs
    rw [h] at hPuts
    generalize hRest : ofChars (offset + c.utf8Size) cs = rest at hPuts
    generalize hAll : ls ++ l :: ms = all at hPuts
    cases hPuts with
    | blank hMark hBlank => exact hDeeper _ (hRest.trans hAll.symm)
    | mark hMark =>
      rcases List.append_eq_cons_iff.1 hAll with ⟨hNil, hCons⟩ | ⟨ls', rfl, hMore⟩
      · cases hCons
        exact hHere hNil rfl
      · exact hDeeper _ (hRest.trans hMore)
    | @grow rest ws s hChar hStart =>
      rcases List.append_eq_cons_iff.1 hAll with ⟨hNil, hCons⟩ | ⟨ls', rfl, hMore⟩
      · cases hCons
        exact hHere hNil rfl
      · exact hDeeper (.word ws s :: ls') (hRest.trans (congrArg _ hMore))
    | begin hChar hApart =>
      rcases List.append_eq_cons_iff.1 hAll with ⟨hNil, hCons⟩ | ⟨ls', rfl, hMore⟩
      · cases hCons
        exact hHere hNil rfl
      · exact hDeeper _ (hRest.trans hMore)

/-- **A text can be cut behind a lexeme.** -/
theorem ofChars_cut_behind {offset : Nat} {cs : List Char} {ls ms : List Lexeme} {l : Lexeme}
    (h : ofChars offset cs = ls ++ l :: ms) :
    ∃ slice behind, cs = slice ++ behind ∧ offset + utf8Len slice = l.span.stop ∧
      ofChars offset slice = ls ++ [l] := by
  induction cs generalizing offset ls l with
  | nil => exact absurd h.symm (List.append_ne_nil_of_right_ne_nil _ (List.cons_ne_nil _ _))
  | cons c cs ih =>
    have hDeeper : ∀ ls' (m : Lexeme), ofChars (offset + c.utf8Size) cs = ls' ++ m :: ms →
        m.span.stop = l.span.stop → Puts offset c (ls' ++ [m]) (ls ++ [l]) →
        ∃ slice behind, c :: cs = slice ++ behind ∧ offset + utf8Len slice = l.span.stop ∧
          ofChars offset slice = ls ++ [l] := by
      intro ls' m hRest hStop hPuts
      obtain ⟨slice, behind, rfl, hSize, hSlice⟩ := ih hRest
      refine ⟨c :: slice, behind, rfl, ?_, hPuts.ofChars_eq hSlice⟩
      rw [add_utf8Len_cons, hSize, hStop]
    have hHere : ls = [] → l.span.stop = offset + c.utf8Size → Puts offset c [] [l] →
        ∃ slice behind, c :: cs = slice ++ behind ∧ offset + utf8Len slice = l.span.stop ∧
          ofChars offset slice = ls ++ [l] := by
      rintro rfl hStop hPuts
      refine ⟨[c], cs, rfl, ?_, hPuts.ofChars_eq rfl⟩
      rw [hStop, String.utf8Len_cons, String.utf8Len_nil, Nat.zero_add]
    have hPuts := puts_ofChars offset c cs
    rw [h] at hPuts
    generalize hRest : ofChars (offset + c.utf8Size) cs = rest at hPuts
    generalize hAll : ls ++ l :: ms = all at hPuts
    cases hPuts with
    | blank hMark hBlank => exact hDeeper _ _ (hRest.trans hAll.symm) rfl (.blank hMark hBlank)
    | mark hMark =>
      rcases List.append_eq_cons_iff.1 hAll with ⟨hNil, hCons⟩ | ⟨ls', rfl, hMore⟩
      · cases hCons
        exact hHere hNil rfl (.mark hMark)
      · exact hDeeper _ _ (hRest.trans hMore) rfl (.mark hMark)
    | @grow rest ws s hChar hStart =>
      rcases List.append_eq_cons_iff.1 hAll with ⟨rfl, hCons⟩ | ⟨ls', rfl, hMore⟩
      · cases hCons
        exact hDeeper [] _ hRest rfl (.grow hChar hStart)
      · exact hDeeper (.word ws s :: ls') _ (hRest.trans (congrArg _ hMore)) rfl
          (.grow hChar hStart)
    | begin hChar hApart =>
      rcases List.append_eq_cons_iff.1 hAll with ⟨hNil, hCons⟩ | ⟨ls', rfl, hMore⟩
      · cases hCons
        exact hHere hNil rfl (.begin hChar nofun)
      · refine hDeeper _ _ (hRest.trans hMore) rfl (.begin hChar fun ws s hHead => hApart ws s ?_)
        rw [hMore]
        cases ls' <;> exact hHead

end Lexeme

/-! ### The tokens of a slice -/

namespace Token

def moved (k : Nat) (t : Token) : Token := ⟨t.kind, t.span.moved k⟩

theorem ofLexeme_moved (k : Nat) (l : Lexeme) : ofLexeme (l.moved k) = (ofLexeme l).moved k := by
  cases l <;> rfl

theorem span_ofLexeme (l : Lexeme) : (ofLexeme l).span = l.span := by
  cases l <;> rfl

theorem ofString_ordered (text : String) : (ofString text).Pairwise fun t u =>
    t.span.start ≤ u.span.start ∧ t.span.stop ≤ u.span.stop := by
  rw [ofString, ofChars, List.pairwise_map]
  simpa only [span_ofLexeme] using Lexeme.ofChars_ordered 0 text.toList

/-- **Tokens in a row are the tokens of a slice**, which goes from the first of them to the last. -/
theorem exists_slice {text : String} {us : List Token} {first last : Token}
    (hRun : us <:+: ofString text) (hFirst : us.head? = some first)
    (hLast : us.getLast? = some last) :
    ∃ slice : String, Span.Marks ⟨first.span.start, last.span.stop⟩ text slice ∧
      us = (ofString slice).map (moved first.span.start) := by
  obtain ⟨ts, vs, hTokens⟩ := hRun
  obtain ⟨lexemes, ls, hAll, hLexemes, -⟩ := List.map_eq_append_iff.1 hTokens.symm
  obtain ⟨ks, ms, rfl, -, rfl⟩ := List.map_eq_append_iff.1 hLexemes
  rw [List.head?_map, Option.map_eq_some_iff] at hFirst
  rw [List.getLast?_map, Option.map_eq_some_iff] at hLast
  obtain ⟨l, hl, rfl⟩ := hFirst
  obtain ⟨m, hm, rfl⟩ := hLast
  obtain ⟨more, rfl⟩ := List.head?_eq_some_iff.1 hl
  obtain ⟨init, hInit⟩ := List.getLast?_eq_some_iff.1 hm
  rw [List.append_assoc, List.cons_append] at hAll
  obtain ⟨before, rest, hText, hStart, hRest⟩ := Lexeme.ofChars_cut_before hAll
  rw [← List.cons_append, hInit, List.append_assoc, List.singleton_append] at hRest
  obtain ⟨slice, behind, rfl, hStop, hSlice⟩ := Lexeme.ofChars_cut_behind hRest
  simp only [span_ofLexeme]
  refine ⟨String.ofList slice, ⟨String.ofList before, String.ofList behind, ?_, ?_, ?_⟩, ?_⟩
  · rw [← String.ofList_append, ← String.ofList_append, List.append_assoc, ← hText,
      String.ofList_toList]
  · rw [String.utf8ByteSize_ofList]
    exact (Nat.zero_add _).symm.trans hStart
  · rw [String.utf8ByteSize_append, String.utf8ByteSize_ofList, String.utf8ByteSize_ofList]
    show _ = m.span.stop
    omega
  · rw [ofString, ofChars, String.toList_ofList, List.map_map, hInit, ← hSlice]
    have hMoved := Lexeme.ofChars_moved l.span.start 0 slice
    rw [Nat.add_zero] at hMoved
    rw [hMoved, List.map_map]
    exact List.map_congr_left fun l _ => ofLexeme_moved _ l

end Token

/-! ### Nodes of a slice -/

namespace Node

mutual

/-- The node of a text that starts `k` bytes later. -/
def moved (k : Nat) : Node → Node
  | .atom a s => .atom a (s.moved k)
  | .list items s => .list (movedAll k items) (s.moved k)

def movedAll (k : Nat) : List Node → List Node
  | [] => []
  | n :: ns => n.moved k :: movedAll k ns

end

theorem movedAll_eq_map (k : Nat) (ns : List Node) : movedAll k ns = ns.map (moved k) := by
  induction ns with
  | nil => rfl
  | cons n ns ih => rw [movedAll, ih, List.map_cons]

theorem span_moved (k : Nat) (n : Node) : (n.moved k).span = n.span.moved k := by
  cases n <;> rfl

mutual

/-- What tokens spell that were moved up is a node that was moved up. -/
theorem Spelt.of_moved {k : Nat} {us : List Token} {n : Node} :
    n.Spelt us → ∀ ts : List Token, us = ts.map (·.moved k) → ∃ m : Node, m.Spelt ts ∧ m.moved k = n
  | .atom a s, ts, hTokens => by
    obtain ⟨⟨kind, span⟩, rfl, hToken⟩ := List.map_eq_singleton_iff.1 hTokens.symm
    cases hToken
    exact ⟨.atom a span, .atom a span, rfl⟩
  | .list h s s', ts, hTokens => by
    obtain ⟨⟨kind, span⟩, rest, rfl, hOpening, hRest⟩ := List.map_eq_cons_iff.1 hTokens.symm
    obtain ⟨inner, last, rfl, hInner, hLast⟩ := List.map_eq_append_iff.1 hRest
    obtain ⟨⟨kind', span'⟩, rfl, hClosing⟩ := List.map_eq_singleton_iff.1 hLast
    cases hOpening
    cases hClosing
    obtain ⟨ms, hMs, rfl⟩ := h.of_moved inner hInner.symm
    refine ⟨_, .list hMs span span', ?_⟩
    rw [moved, movedAll_eq_map, List.map_reverse, Span.join_moved]
  | .quoted h s, ts, hTokens => by
    obtain ⟨inner, last, rfl, hInner, hLast⟩ := List.map_eq_append_iff.1 hTokens.symm
    obtain ⟨⟨kind, span⟩, rfl, hQuote⟩ := List.map_eq_singleton_iff.1 hLast
    cases hQuote
    obtain ⟨m, hm, rfl⟩ := h.of_moved inner hInner.symm
    refine ⟨_, .quoted hm span, ?_⟩
    rw [quoted, quoted, span_moved, Span.join_moved]
    rfl

theorem SpeltAll.of_moved {k : Nat} {us : List Token} {ns : List Node} :
    SpeltAll us ns → ∀ ts : List Token, us = ts.map (·.moved k) →
      ∃ ms, SpeltAll ts ms ∧ ms.map (moved k) = ns
  | .nil, ts, hTokens => by
    obtain rfl := List.map_eq_nil_iff.1 hTokens.symm
    exact ⟨[], .nil, rfl⟩
  | .cons before last, ts, hTokens => by
    obtain ⟨ts, vs, rfl, hBefore, hLast⟩ := List.map_eq_append_iff.1 hTokens.symm
    obtain ⟨ms, hMs, rfl⟩ := before.of_moved ts hBefore.symm
    obtain ⟨m, hm, rfl⟩ := last.of_moved vs hLast.symm
    exact ⟨m :: ms, .cons hMs hm, rfl⟩

end

end Node

namespace Program

/-- **What a span marks is what the node was read from.**  Every node of a program, at any depth,
other than the symbols that stand for quote marks: its span marks a slice of the text that is not
empty, and the slice, read alone, is this very node, its spans counted from the start of the
slice. -/
theorem slice_reads_back {text : String} {program : List Node} {m n : Node}
    (hRead : ofString text = .ok program) (hMem : m ∈ program) (hPart : n.Part m)
    (hWritten : ¬n.Inserted (Token.ofString text)) :
    ∃ slice, slice ≠ "" ∧ n.span.Marks text slice ∧
      ∃ alone, ofString slice = .ok [alone] ∧ alone.moved n.span.start = n := by
  obtain ⟨us, hRun, hSpelt⟩ :=
    (spelt_of_ofTokens hRead).mem (List.mem_reverse.2 hMem)
  rcases hPart.spelt hSpelt with hInserted | ⟨vs, hPartRun, hPartSpelt⟩
  · exact absurd (hInserted.mono hRun.subset) hWritten
  have hTokens := hPartRun.trans hRun
  obtain ⟨⟨first, hFirst, hStart⟩, last, hLast, hStop⟩ :=
    hPartSpelt.ends ((Token.ofString_ordered text).sublist hTokens.sublist)
  obtain ⟨slice, hMarks, hMoved⟩ := Token.exists_slice hTokens hFirst hLast
  rw [hStart] at hMoved
  rw [hStart, hStop] at hMarks
  obtain ⟨alone, hAlone, hNode⟩ := hPartSpelt.of_moved _ hMoved
  refine ⟨slice, ?_, hMarks, alone, hAlone.ofTokens, hNode⟩
  rintro rfl
  exact hAlone.ne_nil rfl

/-- A list quoted twice, with blanks before each mark and characters of two bytes: the inner
quotation goes from byte 3 to byte 12. -/
theorem slice_reads_back_quoted :
    ∃ slice, slice ≠ "" ∧ Span.Marks ⟨3, 12⟩ "é (ü  7) ' '" slice ∧
      ∃ alone, ofString slice = .ok [alone] ∧ alone.moved 3 =
        Node.quoted (.list [.atom (.symbol "ü") ⟨4, 6⟩, .atom (.int 7) ⟨8, 9⟩] ⟨3, 10⟩) ⟨11, 12⟩ := by
  have hRead : ofString "é (ü  7) ' '" = .ok [.atom (.symbol "é") ⟨0, 2⟩, Node.quoted (Node.quoted
      (.list [.atom (.symbol "ü") ⟨4, 6⟩, .atom (.int 7) ⟨8, 9⟩] ⟨3, 10⟩) ⟨11, 12⟩) ⟨13, 14⟩] := by
    rfl
  refine slice_reads_back hRead (List.mem_cons_of_mem _ (List.mem_singleton.2 rfl))
    (.item List.mem_cons_self .self) ?_
  rintro ⟨s, -, hEq⟩
  cases hEq

end Program

end PostLisp

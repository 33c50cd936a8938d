import Mathlib.Data.String.Basic
import PostLisp.Syntax.Token

/-!
# How a text falls into tokens

The lexemes of a text are found from its end: a word grows to the left as long as there is no gap.
Read from its beginning, a text gives one token for every word that stands before a blank, a mark
or the end (`Lexeme.ofChars_word`), whatever comes afterwards.  `Puts` is one step from the end, and
`Cut` the whole text from its beginning: it falls into blanks, marks and whole words, and these are
its lexemes (`Lexeme.cut_ofChars`); texts that meet at a boundary have the lexemes of the one and of
the other (`Lexeme.ofChars_append`).  `Spells` says that a stretch of text gives certain kinds of
tokens in every such place.
-/

namespace PostLisp

namespace Lexeme

open String (utf8Len)

/-- The character belongs to a word. -/
def InWord (c : Char) : Prop := Mark.ofChar? c = none ∧ Text.isBlank c = false

/-- The characters make up a word. -/
def IsWord (cs : List Char) : Prop := cs ≠ [] ∧ ∀ c ∈ cs, InWord c

/-- A word may end before the text. -/
def Boundary (cs : List Char) : Prop := ∀ c ∈ cs.head?, ¬InWord c

instance (c : Char) : Decidable (InWord c) := inferInstanceAs (Decidable (_ ∧ _))

instance (cs : List Char) : Decidable (IsWord cs) :=
  haveI := List.decidableBAll InWord cs
  inferInstanceAs (Decidable (_ ∧ _))

variable {cs rest ws : List Char} {c : Char} {l : Lexeme}

theorem inWord_of_isDigit (hDigit : c.isDigit = true) : InWord c := by
  have hRange : 48 ≤ c.toNat ∧ c.toNat ≤ 57 := by
    simpa [Char.isDigit, UInt32.le_iff_toNat_le] using hDigit
  constructor
  · rw [Mark.ofChar?.eq_def]
    split <;> first | rfl | cases hDigit
  · have hNone : ∀ range ∈ Text.blankRanges, range.2 < 48 ∨ 57 < range.1 := by decide
    rw [Text.isBlank, Text.inRanges, List.any_eq_false]
    intro range hMem
    have hOutside := hNone range hMem
    simp only [Bool.and_eq_true, decide_eq_true_eq, not_and]
    omega

theorem boundary_nil : Boundary [] := nofun

theorem boundary_mark (m : Mark) (cs : List Char) : Boundary (m.char :: cs) := by
  rintro c ⟨⟩ ⟨hMark, -⟩
  rw [Mark.ofChar?_char] at hMark
  cases hMark

theorem boundary_blank (hBlank : Text.isBlank c = true) (cs : List Char) : Boundary (c :: cs) := by
  rintro c ⟨⟩ ⟨-, hNot⟩
  rw [hBlank] at hNot
  cases hNot

theorem ofChars_mark (offset : Nat) (m : Mark) (cs : List Char) :
    ofChars offset (m.char :: cs) =
      .mark m ⟨offset, offset + m.char.utf8Size⟩ :: ofChars (offset + m.char.utf8Size) cs := by
  rw [ofChars, Mark.ofChar?_char]

theorem ofChars_blank (offset : Nat) (hMark : Mark.ofChar? c = none)
    (hBlank : Text.isBlank c = true) (cs : List Char) :
    ofChars offset (c :: cs) = ofChars (offset + c.utf8Size) cs := by
  rw [ofChars, hMark]
  exact if_pos hBlank

theorem ofChars_inWord (offset : Nat) (hChar : InWord c) (cs : List Char) :
    ofChars offset (c :: cs) = extend offset c (ofChars (offset + c.utf8Size) cs) := by
  rw [ofChars, hChar.1]
  exact if_neg (by rw [hChar.2]; exact Bool.false_ne_true)

/-- What a character in a word does to the lexemes behind it. -/
theorem extend_cases (offset : Nat) (c : Char) (ls : List Lexeme) :
    (∃ cs s more, ls = .word cs s :: more ∧ s.start = offset + c.utf8Size ∧
      extend offset c ls = .word (c :: cs) ⟨offset, s.stop⟩ :: more) ∨
    extend offset c ls = .word [c] ⟨offset, offset + c.utf8Size⟩ :: ls := by
  rw [extend.eq_def]
  dsimp only
  split
  · rename_i cs s more
    split
    · rename_i hStart
      exact Or.inl ⟨cs, s, more, rfl, hStart, rfl⟩
    · exact Or.inr rfl
  · exact Or.inr rfl

/-- The lexemes of a text are words of characters that belong to words, and none starts before the
text. -/
theorem of_mem_ofChars {offset : Nat} (h : l ∈ ofChars offset cs) :
    offset ≤ l.span.start ∧ ∀ ws s, l = .word ws s → IsWord ws := by
  induction cs generalizing offset l with
  | nil => cases h
  | cons c cs ih =>
    have hLater : l ∈ ofChars (offset + c.utf8Size) cs →
        offset ≤ l.span.start ∧ ∀ ws s, l = .word ws s → IsWord ws := fun h =>
      ⟨Nat.le_trans (Nat.le_add_right _ _) (ih h).1, (ih h).2⟩
    rw [ofChars] at h
    split at h
    · rcases List.mem_cons.1 h with rfl | hRest
      · exact ⟨Nat.le_refl _, nofun⟩
      · exact hLater hRest
    · rename_i hMark
      split at h
      · exact hLater h
      · rename_i hBlank
        have hChar : InWord c := ⟨hMark, Bool.eq_false_iff.2 hBlank⟩
        rcases extend_cases offset c (ofChars (offset + c.utf8Size) cs) with
          ⟨ws, s, more, hRest, -, hExtend⟩ | hExtend
        · rw [hExtend] at h
          rcases List.mem_cons.1 h with rfl | hMore
          · refine ⟨Nat.le_refl _, fun us t hSame => ?_⟩
            cases hSame
            have hWord := (ih (hRest ▸ List.mem_cons_self)).2 ws s rfl
            exact ⟨List.cons_ne_nil _ _, List.forall_mem_cons.2 ⟨hChar, hWord.2⟩⟩
          · exact hLater (hRest ▸ List.mem_cons_of_mem _ hMore)
        · rw [hExtend] at h
          rcases List.mem_cons.1 h with rfl | hMore
          · refine ⟨Nat.le_refl _, fun us t hSame => ?_⟩
            cases hSame
            exact ⟨List.cons_ne_nil _ _, List.forall_mem_cons.2 ⟨hChar, nofun⟩⟩
          · exact hLater hMore

/-- Before a boundary a word starts anew. -/
theorem extend_boundary (offset : Nat) (c : Char) (hRest : Boundary rest) :
    extend offset c (ofChars (offset + c.utf8Size) rest) =
      .word [c] ⟨offset, offset + c.utf8Size⟩ :: ofChars (offset + c.utf8Size) rest := by
  rcases extend_cases offset c (ofChars (offset + c.utf8Size) rest) with
    ⟨ws, s, more, hLexemes, hStart, -⟩ | hExtend
  · exfalso
    cases rest with
    | nil => cases hLexemes
    | cons d rest =>
      cases hMark : Mark.ofChar? d with
      | some m =>
        rw [ofChars, hMark] at hLexemes
        cases hLexemes
      | none =>
        -- what stands behind a blank starts too late to be joined
        have hBlank : Text.isBlank d = true := by
          refine Bool.of_not_eq_false fun hNot => ?_
          exact hRest d rfl ⟨hMark, hNot⟩
        rw [ofChars_blank _ hMark hBlank] at hLexemes
        have hLate := (of_mem_ofChars (hLexemes ▸ List.mem_cons_self)).1
        have hSize := d.utf8Size_pos
        change offset + c.utf8Size + d.utf8Size ≤ s.start at hLate
        omega
  · exact hExtend

/-- Behind its first character, a text starts later. -/
theorem add_utf8Len_cons (offset : Nat) (c : Char) (cs : List Char) :
    offset + utf8Len (c :: cs) = offset + c.utf8Size + utf8Len cs := by
  rw [String.utf8Len_cons, Nat.add_assoc, Nat.add_comm c.utf8Size]

/-- **A word before a boundary is one lexeme**, and behind it the text goes on. -/
theorem ofChars_word (offset : Nat) (hWord : IsWord ws) (hRest : Boundary rest) :
    ofChars offset (ws ++ rest) =
      .word ws ⟨offset, offset + utf8Len ws⟩ :: ofChars (offset + utf8Len ws) rest := by
  obtain ⟨hSome, hChars⟩ := hWord
  induction ws generalizing offset with
  | nil => exact absurd rfl hSome
  | cons c ws ih =>
    obtain ⟨hChar, hChars⟩ := List.forall_mem_cons.1 hChars
    rw [List.cons_append, ofChars_inWord offset hChar, add_utf8Len_cons]
    cases ws with
    | nil => exact extend_boundary offset c hRest
    | cons d ws =>
      rw [ih (offset + c.utf8Size) (List.cons_ne_nil _ _) hChars, extend]
      exact if_pos rfl

/-! ### One character more -/

/-- What a character at `offset` does to the lexemes of the text behind it. -/
inductive Puts (offset : Nat) (c : Char) : List Lexeme → List Lexeme → Prop
  | blank {ls : List Lexeme} (hMark : Mark.ofChar? c = none) (hBlank : Text.isBlank c = true) :
      Puts offset c ls ls
  | mark {ls : List Lexeme} {m : Mark} (hMark : Mark.ofChar? c = some m) :
      Puts offset c ls (.mark m ⟨offset, offset + c.utf8Size⟩ :: ls)
  | grow {ls : List Lexeme} {ws : List Char} {s : Span} (hChar : InWord c)
      (hStart : s.start = offset + c.utf8Size) :
      Puts offset c (.word ws s :: ls) (.word (c :: ws) ⟨offset, s.stop⟩ :: ls)
  | begin {ls : List Lexeme} (hChar : InWord c)
      (hApart : ∀ ws s, ls.head? = some (.word ws s) → s.start ≠ offset + c.utf8Size) :
      Puts offset c ls (.word [c] ⟨offset, offset + c.utf8Size⟩ :: ls)

theorem puts_extend (offset : Nat) {c : Char} (hChar : InWord c) (ls : List Lexeme) :
    Puts offset c ls (extend offset c ls) := by
  rw [extend.eq_def]
  dsimp only
  split
  · split
    · rename_i hStart
      exact .grow hChar hStart
    · rename_i hStart
      exact .begin hChar fun ws s hHead => by
        cases hHead
        exact hStart
  · rename_i hNoWord
    refine .begin hChar fun ws s hHead => ?_
    obtain ⟨more, hMore⟩ := List.head?_eq_some_iff.1 hHead
    exact absurd hMore (hNoWord ws s more)

theorem puts_ofChars (offset : Nat) (c : Char) (cs : List Char) :
    Puts offset c (ofChars (offset + c.utf8Size) cs) (ofChars offset (c :: cs)) := by
  rw [ofChars]
  split
  · rename_i m hMark
    exact .mark hMark
  · rename_i hMark
    split
    · rename_i hBlank
      exact .blank hMark hBlank
    · rename_i hBlank
      exact puts_extend offset ⟨hMark, Bool.eq_false_iff.2 hBlank⟩ _

theorem Puts.unique {offset : Nat} {c : Char} {ls ms ms' : List Lexeme} (h : Puts offset c ls ms)
    (h' : Puts offset c ls ms') : ms = ms' := by
  cases h <;> cases h' <;> simp_all [InWord]

theorem Puts.ofChars_eq {offset : Nat} {c : Char} {cs : List Char} {ls ms : List Lexeme}
    (h : Puts offset c ls ms) (hRest : ofChars (offset + c.utf8Size) cs = ls) :
    ofChars offset (c :: cs) = ms :=
  (puts_ofChars offset c cs).unique (hRest ▸ h)

/-! ### The whole text -/

/-- A text that starts at the byte `offset` falls into blanks, marks and whole words. -/
inductive Cut : Nat → List Char → List Lexeme → Prop
  | nil (offset : Nat) : Cut offset [] []
  | blank {offset : Nat} {c : Char} {cs : List Char} {ls : List Lexeme}
      (hBlank : Text.isBlank c = true) (rest : Cut (offset + c.utf8Size) cs ls) :
      Cut offset (c :: cs) ls
  | mark {offset : Nat} {cs : List Char} {ls : List Lexeme} (m : Mark)
      (rest : Cut (offset + m.char.utf8Size) cs ls) :
      Cut offset (m.char :: cs) (.mark m ⟨offset, offset + m.char.utf8Size⟩ :: ls)
  | word {offset : Nat} {ws cs : List Char} {ls : List Lexeme} (hWord : IsWord ws)
      (hEnd : Boundary cs) (rest : Cut (offset + utf8Len ws) cs ls) :
      Cut offset (ws ++ cs) (.word ws ⟨offset, offset + utf8Len ws⟩ :: ls)

variable {offset : Nat} {ls : List Lexeme}

theorem eq_char_of_ofChar? {m : Mark} (h : Mark.ofChar? c = some m) : c = m.char := by
  rw [Mark.ofChar?.eq_def] at h
  split at h <;> cases h <;> rfl

theorem isBlank_char (m : Mark) : Text.isBlank m.char = false := by
  cases m <;> decide

theorem ofChar?_of_isBlank (hBlank : Text.isBlank c = true) : Mark.ofChar? c = none := by
  cases hMark : Mark.ofChar? c with
  | none => rfl
  | some m =>
    rw [eq_char_of_ofChar? hMark, isBlank_char] at hBlank
    cases hBlank

theorem IsWord.utf8Len_pos (h : IsWord ws) : 0 < utf8Len ws :=
  Nat.pos_of_ne_zero fun hZero => h.1 (String.utf8Len_eq_zero.1 hZero)

theorem IsWord.not_boundary (h : IsWord ws) : ¬ Boundary (ws ++ cs) := by
  obtain ⟨hSome, hChars⟩ := h
  cases ws with
  | nil => exact absurd rfl hSome
  | cons c ws => exact fun hEnd => hEnd c rfl (hChars c List.mem_cons_self)

/-- The lexemes of a text that starts at the byte `offset` come one behind the other, each with some
bytes of its own. -/
structure Apart (offset : Nat) (ls : List Lexeme) : Prop where
  later : ∀ l ∈ ls, offset ≤ l.span.start
  nonempty : ∀ l ∈ ls, l.span.start < l.span.stop
  behind : ls.Pairwise fun l m => l.span.stop ≤ m.span.start

theorem Apart.cons {size : Nat} (h : Apart (offset + size) ls)
    (hSpan : l.span = ⟨offset, offset + size⟩) (hSize : 0 < size) : Apart offset (l :: ls) where
  later := by
    refine List.forall_mem_cons.2 ⟨?_, fun m hMem => Nat.le_of_add_right_le (h.later m hMem)⟩
    rw [hSpan]
  nonempty := by
    refine List.forall_mem_cons.2 ⟨?_, h.nonempty⟩
    rw [hSpan]
    exact Nat.lt_add_of_pos_right hSize
  behind := by
    refine .cons (fun m hMem => ?_) h.behind
    rw [hSpan]
    exact h.later m hMem

namespace Cut

theorem apart (h : Cut offset cs ls) : Apart offset ls := by
  induction h with
  | nil => exact ⟨nofun, nofun, .nil⟩
  | blank hBlank rest ih =>
    exact { ih with later := fun l hMem => Nat.le_of_add_right_le (ih.later l hMem) }
  | mark m rest ih => exact ih.cons rfl m.char.utf8Size_pos
  | word hWord hEnd rest ih => exact ih.cons rfl hWord.utf8Len_pos

/-- A word that starts where the text starts is there to be read. -/
theorem starts {s : Span} (h : Cut offset cs (.word ws s :: ls)) (hStart : s.start = offset) :
    ∃ rest, cs = ws ++ rest ∧ IsWord ws ∧ Boundary rest ∧ s.stop = offset + utf8Len ws ∧
      Cut (offset + utf8Len ws) rest ls := by
  cases h with
  | @blank _ c _ _ hBlank rest =>
    have hLate := rest.apart.later _ List.mem_cons_self
    have hSize := c.utf8Size_pos
    change offset + c.utf8Size ≤ s.start at hLate
    omega
  | word hWord hEnd rest => exact ⟨_, rfl, hWord, hEnd, rfl, rest⟩

end Cut

/-- What starts with no word starts at a boundary. -/
theorem boundary_of_head (offset : Nat) (cs : List Char)
    (h : ∀ ws s, (ofChars offset cs).head? = some (.word ws s) → s.start ≠ offset) :
    Boundary cs := by
  intro c hHead hChar
  obtain ⟨cs, rfl⟩ := List.head?_eq_some_iff.1 hHead
  rw [ofChars_inWord offset hChar] at h
  rcases extend_cases offset c (ofChars (offset + c.utf8Size) cs) with
    ⟨ws, s, more, -, -, hExtend⟩ | hExtend
  · rw [hExtend] at h
    exact h _ _ rfl rfl
  · rw [hExtend] at h
    exact h _ _ rfl rfl

/-- **A text falls into its lexemes.** -/
theorem cut_ofChars (offset : Nat) (cs : List Char) : Cut offset cs (ofChars offset cs) := by
  induction cs generalizing offset with
  | nil => exact .nil offset
  | cons c cs ih =>
    have hRest := ih (offset + c.utf8Size)
    have hBoundary := boundary_of_head (offset + c.utf8Size) cs
    have hPuts := puts_ofChars offset c cs
    generalize ofChars (offset + c.utf8Size) cs = ls at hRest hBoundary hPuts
    generalize ofChars offset (c :: cs) = all at hPuts ⊢
    cases hPuts with
    | blank hMark hBlank => exact .blank hBlank hRest
    | @mark ls m hMark =>
      obtain rfl := eq_char_of_ofChar? hMark
      exact .mark m hRest
    | begin hChar hApart =>
      have hWord : IsWord [c] := ⟨List.cons_ne_nil _ _, List.forall_mem_singleton.2 hChar⟩
      have hCut : Cut offset ([c] ++ cs) (.word [c] ⟨offset, offset + utf8Len [c]⟩ :: ls) :=
        .word hWord (hBoundary hApart) (by simpa using hRest)
      simpa using hCut
    | @grow ls ws s hChar hStart =>
      obtain ⟨rest, rfl, hWord, hEnd, hStop, hCut⟩ := hRest.starts hStart
      have hLonger : IsWord (c :: ws) :=
        ⟨List.cons_ne_nil _ _, List.forall_mem_cons.2 ⟨hChar, hWord.2⟩⟩
      rw [hStop, ← add_utf8Len_cons]
      rw [← add_utf8Len_cons] at hCut
      exact .word hLonger hEnd hCut

/-! ### Texts that meet at a boundary -/

variable {ds : List Char}

theorem Boundary.of_append (h : Boundary (cs ++ ds)) : Boundary cs := by
  intro c hHead
  exact h c (by rw [List.head?_append, hHead]; rfl)

theorem Cut.append (h : Cut offset cs ls) (hSeam : Boundary cs.reverse ∨ Boundary ds) :
    ofChars offset (cs ++ ds) = ls ++ ofChars (offset + utf8Len cs) ds := by
  induction h with
  | nil offset => rfl
  | @blank offset c cs ls hBlank rest ih =>
    rw [List.cons_append, ofChars_blank offset (ofChar?_of_isBlank hBlank) hBlank,
      add_utf8Len_cons]
    refine ih (hSeam.imp_left fun hEnd => ?_)
    rw [List.reverse_cons] at hEnd
    exact hEnd.of_append
  | @mark offset cs ls m rest ih =>
    rw [List.cons_append, ofChars_mark, add_utf8Len_cons, List.cons_append, ih]
    refine hSeam.imp_left fun hEnd => ?_
    rw [List.reverse_cons] at hEnd
    exact hEnd.of_append
  | @word offset ws cs ls hWord hEnd rest ih =>
    -- the word stops before `ds` too, also where nothing stands between them
    have hStops : Boundary (cs ++ ds) := by
      cases cs with
      | cons c cs => exact hEnd
      | nil =>
        refine hSeam.resolve_left ?_
        have hReverse : IsWord ws.reverse := by simpa [IsWord] using hWord
        rw [List.append_nil, ← List.append_nil ws.reverse]
        exact hReverse.not_boundary
    rw [List.append_assoc, ofChars_word offset hWord hStops, String.utf8Len_append,
      ← Nat.add_assoc, List.cons_append, ih]
    refine hSeam.imp_left fun hEnd => ?_
    rw [List.reverse_append] at hEnd
    exact hEnd.of_append

/-- **The lexemes of two texts that meet at a boundary** are those of the one and of the other. -/
theorem ofChars_append (offset : Nat) (hSeam : Boundary cs.reverse ∨ Boundary ds) :
    ofChars offset (cs ++ ds) = ofChars offset cs ++ ofChars (offset + utf8Len cs) ds :=
  (cut_ofChars offset cs).append hSeam

end Lexeme

open Lexeme

namespace Token

/-- The kinds of the tokens of a text that starts at the byte `offset`. -/
def kindsFrom (offset : Nat) (cs : List Char) : List TokenKind :=
  (Lexeme.ofChars offset cs).map fun l => (ofLexeme l).kind

theorem map_kind_ofString (s : String) : (ofString s).map (·.kind) = kindsFrom 0 s.toList := by
  rw [ofString, ofChars, List.map_map]
  rfl

/-- Before a boundary, the text gives tokens of these kinds, and then those of what follows. -/
def Spells (cs : List Char) (kinds : List TokenKind) : Prop :=
  ∀ rest, Boundary rest → ∀ offset, ∃ stop,
    kindsFrom offset (cs ++ rest) = kinds ++ kindsFrom stop rest

variable {cs ds : List Char} {ks ls : List TokenKind}

theorem Spells.kinds_eq (h : Spells cs ks) (offset : Nat) : kindsFrom offset cs = ks := by
  obtain ⟨stop, hKinds⟩ := h [] boundary_nil offset
  rw [List.append_nil] at hKinds
  rw [hKinds]
  exact List.append_nil ks

theorem spells_nil : Spells [] [] := fun _ _ offset => ⟨offset, rfl⟩

theorem spells_word (hWord : IsWord cs) : Spells cs [.atom (Atom.ofWord cs)] := by
  intro rest hRest offset
  refine ⟨offset + String.utf8Len cs, ?_⟩
  rw [kindsFrom, ofChars_word offset hWord hRest]
  rfl

/-- Two stretches of text, apart by a space. -/
theorem Spells.spaced (hLeft : Spells cs ks) (hRight : Spells ds ls) :
    Spells (cs ++ ' ' :: ds) (ks ++ ls) := by
  intro rest hRest offset
  obtain ⟨middle, hFirst⟩ := hLeft (' ' :: (ds ++ rest)) (boundary_blank (by decide) _) offset
  obtain ⟨stop, hSecond⟩ := hRight rest hRest (middle + ' '.utf8Size)
  refine ⟨stop, ?_⟩
  have hSpace : kindsFrom middle (' ' :: (ds ++ rest)) =
      kindsFrom (middle + ' '.utf8Size) (ds ++ rest) := by
    rw [kindsFrom, ofChars_blank middle (by decide) (by decide), kindsFrom]
  rw [List.append_assoc, List.cons_append, hFirst, hSpace, hSecond, List.append_assoc]

/-- A stretch of text between brackets. -/
theorem Spells.bracketed (h : Spells cs ks) :
    Spells ('(' :: cs ++ [')']) (.mark .opening :: ks ++ [.mark .closing]) := by
  intro rest _ offset
  have hMark : ∀ (m : Mark) offset cs, kindsFrom offset (m.char :: cs) =
      .mark m :: kindsFrom (offset + m.char.utf8Size) cs := by
    intro m offset cs
    rw [kindsFrom, ofChars_mark, kindsFrom]
    rfl
  obtain ⟨middle, hInside⟩ := h (')' :: rest) (boundary_mark .closing rest)
    (offset + Mark.opening.char.utf8Size)
  refine ⟨middle + Mark.closing.char.utf8Size, ?_⟩
  have hText : '(' :: cs ++ [')'] ++ rest = Mark.opening.char :: (cs ++ ')' :: rest) := by
    rw [List.append_assoc]
    rfl
  have hClosing : kindsFrom middle (')' :: rest) =
      .mark .closing :: kindsFrom (middle + Mark.closing.char.utf8Size) rest :=
    hMark .closing middle rest
  rw [hText, hMark, hInside, hClosing]
  simp

end Token

end PostLisp

import Mathlib.Data.List.Sort
import PostLisp.Proofs.WithinText

/-!
# Maximal munch

The tokens of a text are its only division into marks and words in which the words are as long as
they can be (`Token.maximalMunch_iff`): the spans lie one behind the other, what they leave out is
blank and nothing else is, and a word ends on either side only at a blank, a mark, or an end of the
text.

A text falls into its lexemes one after the other (`Lexeme.Cut`), and each of them stands in the
text in this way.  Two tokens that stand in a text and share a character are the same, so there is
no second division.
-/

namespace PostLisp

open String (utf8Len)

namespace Token

open Lexeme

/-- The token stands in the text: it is a mark, or a word that goes on as far as it can on both
sides, as the atom that the word spells. -/
inductive StandsIn (cs : List Char) : Token → Prop
  | mark {before behind : List Char} (m : Mark) (hText : cs = before ++ m.char :: behind) :
      StandsIn cs ⟨.mark m, ⟨utf8Len before, utf8Len before + m.char.utf8Size⟩⟩
  | word {before ws behind : List Char} (hText : cs = before ++ (ws ++ behind)) (hWord : IsWord ws)
      (hLeft : Boundary before.reverse) (hRight : Boundary behind) :
      StandsIn cs ⟨.atom (Atom.ofWord ws), ⟨utf8Len before, utf8Len before + utf8Len ws⟩⟩

/-- The tokens divide the text: each stands in it, and has a stretch of it; they come one behind the
other; and the characters that they leave out are those that are blank. -/
structure MaximalMunch (text : String) (ts : List Token) : Prop where
  token : ∀ t ∈ ts, t.StandsIn text.toList
  stretch : ∀ t ∈ ts, t.span.StretchOf text
  apart : ts.Pairwise fun t u => t.span.start < u.span.start ∧ t.span.stop ≤ u.span.start
  covers : ∀ before c behind, text.toList = before ++ c :: behind →
    (Text.isBlank c = false ↔
      ∃ t ∈ ts, t.span.start ≤ utf8Len before ∧ utf8Len before < t.span.stop)

end Token

namespace Lexeme

/-- A character of a text stands behind its first part or within it. -/
theorem place_cases {ws cs before behind : List Char} {c : Char}
    (h : ws ++ cs = before ++ c :: behind) :
    (∃ rest, before = ws ++ rest ∧ cs = rest ++ c :: behind) ∨
      ∃ more, ws = before ++ c :: more := by
  rcases List.append_eq_append_iff.1 h with hBehind | ⟨more, hWithin, hMore⟩
  · exact Or.inl hBehind
  · cases more with
    | nil => exact Or.inl ⟨[], by simp [hWithin], by simpa using hMore.symm⟩
    | cons d more =>
      cases hMore
      exact Or.inr ⟨more, hWithin⟩

end Lexeme

namespace Lexeme.Cut

open Token

variable {offset : Nat} {before cs : List Char} {ls : List Lexeme} {l : Lexeme}

/-- **A lexeme stands in the text**, whatever stands before the place where the text is cut off,
unless a word goes on there. -/
theorem standsIn (h : Cut offset cs ls) (hOffset : offset = utf8Len before)
    (hSeam : Boundary before.reverse ∨ Boundary cs) (hMem : l ∈ ls) :
    StandsIn (before ++ cs) (ofLexeme l) := by
  induction h generalizing before with
  | nil => cases hMem
  | @blank offset c cs ls hBlank rest ih =>
    rw [List.append_cons]
    refine ih (by simp [hOffset]) (Or.inl ?_) hMem
    rw [List.reverse_concat]
    exact boundary_blank hBlank _
  | @mark offset cs ls m rest ih =>
    rcases List.mem_cons.1 hMem with rfl | hMem
    · subst hOffset
      exact .mark m rfl
    · rw [List.append_cons]
      refine ih (by simp [hOffset]) (Or.inl ?_) hMem
      rw [List.reverse_concat]
      exact boundary_mark m _
  | @word offset ws cs ls hWord hEnd rest ih =>
    rcases List.mem_cons.1 hMem with rfl | hMem
    · subst hOffset
      exact .word rfl hWord (hSeam.resolve_right hWord.not_boundary) hEnd
    · rw [← List.append_assoc]
      exact ih (by simp [hOffset]) (Or.inr hEnd) hMem

/-- A place behind the first lexeme is in one of the others, if it is in any. -/
theorem placed_later {p : Nat} (hBehind : l.span.stop ≤ p) :
    (∃ m ∈ l :: ls, m.span.start ≤ p ∧ p < m.span.stop) ↔
      ∃ m ∈ ls, m.span.start ≤ p ∧ p < m.span.stop := by
  refine ⟨fun ⟨m, hMem, hStart, hStop⟩ => ?_, fun ⟨m, hMem, hPlace⟩ =>
    ⟨m, List.mem_cons_of_mem _ hMem, hPlace⟩⟩
  rcases List.mem_cons.1 hMem with rfl | hMem
  · omega
  · exact ⟨m, hMem, hStart, hStop⟩

/-- **The characters outside of lexemes are those that are blank.** -/
theorem covers {c : Char} {behind : List Char} (h : Cut offset cs ls)
    (hText : cs = before ++ c :: behind) : Text.isBlank c = false ↔
      ∃ l ∈ ls, l.span.start ≤ offset + utf8Len before ∧ offset + utf8Len before < l.span.stop := by
  induction h generalizing before with
  | nil => exact absurd hText.symm (List.append_ne_nil_of_right_ne_nil _ (List.cons_ne_nil _ _))
  | @blank offset b cs ls hBlank rest ih =>
    rcases List.cons_eq_append_iff.1 hText with ⟨rfl, hHead⟩ | ⟨before, rfl, hCs⟩
    · cases hHead
      refine iff_of_false (by simp [hBlank]) ?_
      rintro ⟨l, hMem, hStart, -⟩
      have hLate := rest.apart.later l hMem
      have hSize := c.utf8Size_pos
      rw [String.utf8Len_nil] at hStart
      omega
    · rw [add_utf8Len_cons]
      exact ih hCs
  | @mark offset cs ls m rest ih =>
    rcases List.cons_eq_append_iff.1 hText with ⟨rfl, hHead⟩ | ⟨before, rfl, hCs⟩
    · cases hHead
      refine iff_of_true (isBlank_char m) ⟨_, List.mem_cons_self, Nat.le_refl _, ?_⟩
      exact Nat.lt_add_of_pos_right m.char.utf8Size_pos
    · rw [add_utf8Len_cons]
      refine (ih hCs).trans (placed_later ?_).symm
      exact Nat.le_add_right _ _
  | @word offset ws cs ls hWord hEnd rest ih =>
    rcases place_cases hText with ⟨rest, rfl, hCs⟩ | ⟨more, rfl⟩
    · rw [String.utf8Len_append, ← Nat.add_assoc]
      refine (ih hCs).trans (placed_later ?_).symm
      exact Nat.le_add_right _ _
    · refine iff_of_true (hWord.2 c (by simp)).2 ⟨_, List.mem_cons_self, Nat.le_add_right _ _, ?_⟩
      have hSize := c.utf8Size_pos
      show offset + utf8Len before < offset + utf8Len (before ++ c :: more)
      rw [String.utf8Len_append, String.utf8Len_cons]
      omega

end Lexeme.Cut

namespace Token

open Lexeme

variable {cs : List Char} {t u : Token}

/-- A token takes up the character that it starts with. -/
theorem StandsIn.first (h : t.StandsIn cs) : ∃ before c behind, cs = before ++ c :: behind ∧
    t.span.start = utf8Len before ∧ t.span.start < t.span.stop := by
  cases h with
  | @mark before behind m hText =>
    exact ⟨before, m.char, behind, hText, rfl, Nat.lt_add_of_pos_right m.char.utf8Size_pos⟩
  | @word before ws behind hText hWord hLeft hRight =>
    have hBytes := hWord.utf8Len_pos
    cases ws with
    | nil => exact absurd rfl hWord.1
    | cons c ws => exact ⟨before, c, ws ++ behind, hText, rfl, Nat.lt_add_of_pos_right hBytes⟩

/-- Of two places in a text, the later one is reached from the other. -/
theorem reached_of_le {before before' behind behind' : List Char}
    (h : before' ++ behind' = before ++ behind) (hLe : utf8Len before' ≤ utf8Len before) :
    ∃ between, before = before' ++ between ∧ behind' = between ++ behind := by
  rcases List.append_eq_append_iff.1 h with hReached | ⟨between, rfl, rfl⟩
  · exact hReached
  · rw [String.utf8Len_append] at hLe
    obtain rfl : between = [] := String.utf8Len_eq_zero.1 (by omega)
    exact ⟨[], by simp, rfl⟩

/-- A word that takes up a character. -/
theorem mem_word_of_place {before before' ws behind behind' : List Char} {c : Char}
    (hText : before' ++ (ws ++ behind') = before ++ c :: behind)
    (hStart : utf8Len before' ≤ utf8Len before)
    (hStop : utf8Len before < utf8Len before' + utf8Len ws) :
    ∃ left right, before = before' ++ left ∧ ws = left ++ c :: right := by
  obtain ⟨left, rfl, hRest⟩ := reached_of_le hText hStart
  rw [String.utf8Len_append] at hStop
  rcases place_cases hRest with ⟨more, rfl, -⟩ | ⟨right, hWord⟩
  · rw [String.utf8Len_append] at hStop
    omega
  · exact ⟨left, right, rfl, hWord⟩

/-- A word that ends at a boundary is the only one at its place. -/
theorem word_unique {ws ws' behind behind' : List Char} (hWord : IsWord ws)
    (hWord' : IsWord ws') (hRight : Boundary behind) (hRight' : Boundary behind')
    (h : ws ++ behind = ws' ++ behind') : ws = ws' := by
  have hFirst := ofChars_word 0 hWord hRight
  have hFirst' := ofChars_word 0 hWord' hRight'
  rw [h, hFirst'] at hFirst
  exact (Lexeme.word.inj (List.cons.inj hFirst).1).1.symm

/-- What is at a place within a mark is the mark. -/
theorem mark_of_place {before before' rest behind' : List Char} {m : Mark}
    (hText : before' ++ m.char :: behind' = before ++ rest)
    (hStart : utf8Len before' ≤ utf8Len before)
    (hStop : utf8Len before < utf8Len before' + m.char.utf8Size) :
    before = before' ∧ rest = m.char :: behind' := by
  obtain ⟨left, rfl, hRest⟩ := reached_of_le hText hStart
  cases left with
  | nil => exact ⟨List.append_nil _, hRest.symm⟩
  | cons d left =>
    cases hRest
    rw [String.utf8Len_append, String.utf8Len_cons] at hStop
    omega

theorem not_inWord_char (m : Mark) : ¬ InWord m.char := boundary_mark m [] m.char rfl

/-- **Tokens that share a character are the same.** -/
theorem StandsIn.eq_of_overlap (h : t.StandsIn cs) (h' : u.StandsIn cs)
    (hStart : u.span.start ≤ t.span.start) (hStop : t.span.start < u.span.stop) : t = u := by
  cases h' with
  | @mark before' behind' m hText' =>
    cases h with
    | @mark before behind m' hText =>
      obtain ⟨rfl, hRest⟩ := mark_of_place (hText'.symm.trans hText) hStart hStop
      have hSame : Mark.ofChar? m'.char = Mark.ofChar? m.char :=
        congrArg Mark.ofChar? (List.cons.inj hRest).1
      rw [Mark.ofChar?_char, Mark.ofChar?_char] at hSame
      cases hSame
      rfl
    | @word before ws behind hText hWord hLeft hRight =>
      obtain ⟨-, hRest⟩ := mark_of_place (hText'.symm.trans hText) hStart hStop
      refine absurd (hRest ▸ boundary_mark m behind') hWord.not_boundary
  | @word before' ws' behind' hText' hWord' hLeft' hRight' =>
    cases h with
    | @mark before behind m hText =>
      obtain ⟨left, right, -, rfl⟩ := mem_word_of_place (hText'.symm.trans hText) hStart hStop
      exact absurd (hWord'.2 m.char (by simp)) (not_inWord_char m)
    | @word before ws behind hText hWord hLeft hRight =>
      cases ws with
      | nil => exact absurd rfl hWord.1
      | cons c ws =>
        obtain ⟨left, right, rfl, hSlice⟩ :=
          mem_word_of_place (hText'.symm.trans hText) hStart hStop
        -- the later word would go on to the left within the other one
        obtain rfl : left = [] := by
          rcases List.eq_nil_or_concat left with hNil | ⟨more, d, rfl⟩
          · exact hNil
          · refine absurd (hWord'.2 d (by simp [hSlice])) (hLeft d ?_)
            simp
        rw [List.append_nil] at hText ⊢
        have hRest := List.append_cancel_left (hText'.symm.trans hText)
        rw [word_unique hWord' hWord hRight' hRight hRest]

theorem MaximalMunch.subset {text : String} {ts us : List Token} (h : MaximalMunch text ts)
    (h' : MaximalMunch text us) : ts ⊆ us := by
  intro t hMem
  obtain ⟨before, c, behind, hText, hStart, hBytes⟩ := (h.token t hMem).first
  have hVisible : Text.isBlank c = false :=
    (h.covers before c behind hText).2 ⟨t, hMem, Nat.le_of_eq hStart, hStart ▸ hBytes⟩
  obtain ⟨u, hMem', hFrom, hTo⟩ := (h'.covers before c behind hText).1 hVisible
  rw [← hStart] at hFrom hTo
  rwa [(h.token t hMem).eq_of_overlap (h'.token u hMem') hFrom hTo]

theorem standsIn_of_mem (hMem : t ∈ ofChars cs) : t.StandsIn cs := by
  obtain ⟨l, hLexeme, rfl⟩ := List.mem_map.1 hMem
  have hStands : StandsIn ([] ++ cs) (ofLexeme l) :=
    (cut_ofChars 0 cs).standsIn rfl (Or.inl boundary_nil) hLexeme
  exact hStands

theorem maximalMunch_ofString (text : String) : MaximalMunch text (ofString text) := by
  have hCut := cut_ofChars 0 text.toList
  have hApart := hCut.apart
  refine ⟨fun t hMem => standsIn_of_mem hMem, fun t hMem => stretchOf hMem, ?_,
    fun before c behind hText => ?_⟩
  · rw [ofString, ofChars, List.pairwise_map]
    simp only [span_ofLexeme]
    refine hApart.behind.imp_of_mem fun {l m} hl hm hBehind => ⟨?_, hBehind⟩
    exact Nat.lt_of_lt_of_le (hApart.nonempty l hl) hBehind
  · have hCovers := hCut.covers hText
    simpa [ofString, ofChars, span_ofLexeme] using hCovers

/-- **The tokens of a text are its maximal munch partition**, and there is no other one. -/
theorem maximalMunch_iff (text : String) (ts : List Token) :
    MaximalMunch text ts ↔ ts = ofString text := by
  constructor
  · intro h
    have h' := maximalMunch_ofString text
    have hOrder {us : List Token} (hUs : MaximalMunch text us) :
        us.Pairwise fun t u => t.span.start < u.span.start := hUs.apart.imp And.left
    have : Std.Irrefl fun t u : Token => t.span.start < u.span.start := ⟨fun t => Nat.lt_irrefl _⟩
    have : Std.Antisymm fun t u : Token => t.span.start < u.span.start :=
      ⟨fun t u hLess hMore => absurd hLess (Nat.lt_asymm hMore)⟩
    exact (h.subset h').antisymm_of_pairwise (hOrder h) (hOrder h') (h'.subset h)
  · rintro rfl
    exact maximalMunch_ofString text

end Token

end PostLisp

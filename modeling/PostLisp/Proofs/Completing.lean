import Mathlib.Data.List.DropRight
import PostLisp.Proofs.GlobalNames
import PostLisp.Proofs.MaximalMunch
import PostLisp.Repl.Completion

/-!
# What completion offers

The word before the cursor is the longest stretch of characters of words that the text before it
ends with (`Lexeme.suffix_wordAtEnd_iff`), whatever stands behind the cursor.  If it is a symbol,
completion offers just what is missing of the global names and reserved words that go on from it, in
increasing order (`Repl.complete_offers`).  What is put in makes the name the last token of the text
before the cursor, because every such name can be read as a symbol.  It is a token of the whole line
if no word goes on behind the cursor, and only then (`Repl.complete_inside_word`).
-/

namespace PostLisp

open String (utf8Len)

/-! ### The word at the end of a text -/

namespace Lexeme

/-- The longest stretch of characters of words that the text ends with. -/
def wordAtEnd (cs : List Char) : List Char := cs.rtakeWhile fun c => decide (InWord c)

variable {cs ws : List Char}

theorem inWord_of_mem_wordAtEnd {c : Char} (h : c ∈ wordAtEnd cs) : InWord c :=
  of_decide_eq_true (List.mem_rtakeWhile_imp (p := fun c => decide (InWord c)) h)

theorem wordAtEnd_append (hWord : ∀ c ∈ ws, InWord c) :
    wordAtEnd (cs ++ ws) = wordAtEnd cs ++ ws := by
  rw [wordAtEnd, List.rtakeWhile, List.reverse_append, List.takeWhile_append_of_pos,
    List.reverse_append, List.reverse_reverse]
  · rfl
  · exact fun c hMem => decide_eq_true (hWord c (List.mem_reverse.1 hMem))

theorem wordAtEnd_eq_nil (hEnd : Boundary cs.reverse) : wordAtEnd cs = [] := by
  rw [wordAtEnd, List.rtakeWhile, List.reverse_eq_nil_iff]
  cases hReverse : cs.reverse with
  | nil => rfl
  | cons c rest =>
    rw [hReverse] at hEnd
    exact List.takeWhile_cons_of_neg fun hWord => hEnd c rfl (of_decide_eq_true hWord)

/-- Every stretch of characters of words that the text ends with is at the end of the longest. -/
theorem suffix_wordAtEnd_iff : ws <:+ wordAtEnd cs ↔ ws <:+ cs ∧ ∀ c ∈ ws, InWord c := by
  constructor
  · intro h
    exact ⟨h.trans (List.rtakeWhile_suffix _ _), fun c hMem =>
      inWord_of_mem_wordAtEnd (h.subset hMem)⟩
  · rintro ⟨⟨left, rfl⟩, hWord⟩
    rw [wordAtEnd_append hWord]
    exact List.suffix_append _ _

/-- What stands before the word ends at a boundary. -/
theorem exists_before_wordAtEnd (cs : List Char) :
    ∃ left, cs = left ++ wordAtEnd cs ∧ Boundary left.reverse := by
  refine ⟨cs.rdropWhile fun c => decide (InWord c), List.rdropWhile_append_rtakeWhile.symm, ?_⟩
  rw [List.rdropWhile, List.reverse_reverse]
  intro c hHead hWord
  have hStops := List.head?_dropWhile_not (fun c => decide (InWord c)) cs.reverse
  rw [hHead] at hStops
  exact of_decide_eq_false hStops hWord

end Lexeme

namespace Token

open Lexeme

variable {before behind : List Char} {a : Atom} {start : Nat}

/-- The word at the end of what stands before a boundary is a token. -/
theorem ofChars_wordAtEnd (hSome : wordAtEnd before ≠ []) (hRight : Boundary behind) :
    ∃ left, utf8Len left + utf8Len (wordAtEnd before) = utf8Len before ∧
      ofChars (before ++ behind) = ofChars left ++
        ⟨.atom (Atom.ofWord (wordAtEnd before)), ⟨utf8Len left, utf8Len before⟩⟩ ::
          (Lexeme.ofChars (utf8Len before) behind).map ofLexeme := by
  obtain ⟨left, hText, hLeft⟩ := exists_before_wordAtEnd before
  have hWord : IsWord (wordAtEnd before) := ⟨hSome, fun c => inWord_of_mem_wordAtEnd⟩
  generalize wordAtEnd before = ws at hText hWord ⊢
  subst hText
  refine ⟨left, (String.utf8Len_append left ws).symm, ?_⟩
  rw [ofChars, List.append_assoc, Lexeme.ofChars_append 0 (Or.inl hLeft), Nat.zero_add,
    ofChars_word _ hWord hRight, List.map_append, List.map_cons, String.utf8Len_append]
  rfl

/-- **The atom that ends at a place** is the word at the end of what stands before it, unless the
word goes on there. -/
theorem atom_ends_iff :
    ⟨.atom a, ⟨start, utf8Len before⟩⟩ ∈ ofChars (before ++ behind) ↔
      wordAtEnd before ≠ [] ∧ a = Atom.ofWord (wordAtEnd before) ∧
        start + utf8Len (wordAtEnd before) = utf8Len before ∧ Boundary behind := by
  constructor
  · intro h
    have hStands := standsIn_of_mem h
    generalize hStop : utf8Len before = stop at hStands
    cases hStands with
    | @word left ws rest hText hWord hLeft hRight =>
      rw [← String.utf8Len_append] at hStop
      rw [← List.append_assoc] at hText
      -- the word and `before` end at the same byte, so nothing stands between their ends
      obtain ⟨between, rfl, rfl⟩ := reached_of_le hText.symm (Nat.le_of_eq hStop.symm)
      rw [String.utf8Len_append (left ++ ws)] at hStop
      obtain rfl : between = [] := String.utf8Len_eq_zero.1 (by omega)
      have hWordAtEnd : wordAtEnd (left ++ ws) = ws := by
        rw [wordAtEnd_append hWord.2, wordAtEnd_eq_nil hLeft, List.nil_append]
      rw [List.append_nil, hWordAtEnd]
      exact ⟨hWord.1, rfl, rfl, hRight⟩
  · rintro ⟨hSome, rfl, hStart, hRight⟩
    obtain ⟨left, hSize, hTokens⟩ := ofChars_wordAtEnd hSome hRight
    obtain rfl : start = utf8Len left := by omega
    rw [hTokens]
    exact List.mem_append_right _ List.mem_cons_self

/-- A text that ends with a word ends with the token of this word. -/
theorem getLast?_of_wordAtEnd (hSome : wordAtEnd before ≠ []) : ∃ start,
    (ofChars before).getLast? =
      some ⟨.atom (Atom.ofWord (wordAtEnd before)), ⟨start, utf8Len before⟩⟩ := by
  obtain ⟨left, -, hTokens⟩ := ofChars_wordAtEnd hSome boundary_nil
  rw [List.append_nil, Lexeme.ofChars, List.map_nil] at hTokens
  exact ⟨utf8Len left, by rw [hTokens, List.getLast?_concat]⟩

/-- The token is this symbol, and ends at the byte `stop`. -/
def IsSymbolUpTo (t : Token) (name : String) (stop : Nat) : Prop :=
  t.kind = .atom (.symbol name) ∧ t.span.stop = stop

theorem symbol_ends_iff {name : String} :
    (∃ t ∈ ofChars (before ++ behind), t.IsSymbolUpTo name (utf8Len before)) ↔
      wordAtEnd before ≠ [] ∧ Atom.ofWord (wordAtEnd before) = .symbol name ∧ Boundary behind := by
  constructor
  · rintro ⟨⟨kind, start, stop⟩, hMem, rfl, rfl⟩
    obtain ⟨hSome, hAtom, -, hRight⟩ := atom_ends_iff.1 hMem
    exact ⟨hSome, hAtom.symm, hRight⟩
  · rintro ⟨hSome, hAtom, hRight⟩
    obtain ⟨left, hSize, -⟩ := ofChars_wordAtEnd hSome hRight
    exact ⟨_, atom_ends_iff.2 ⟨hSome, hAtom.symm, hSize, hRight⟩, rfl, rfl⟩

end Token

namespace Repl

open Lexeme

/-! ### The symbol before the cursor -/

variable {before behind : List Char} {globals : Bindings Value} {line name r w : String}
  {position : Nat} {ws : List String}

theorem takeBytes_append (before behind : List Char) :
    takeBytes (utf8Len before) (before ++ behind) = before := by
  induction before with
  | nil =>
    cases behind with
    | nil => rfl
    | cons c behind => exact if_neg (Nat.not_le.2 c.utf8Size_pos)
  | cons c before ih =>
    have hFits : c.utf8Size ≤ utf8Len (c :: before) := by
      rw [String.utf8Len_cons]
      exact Nat.le_add_left _ _
    rw [List.cons_append, takeBytes, if_pos hFits, String.utf8Len_cons, Nat.add_sub_cancel, ih]

/-- The word that ends at the cursor; nothing, where no word ends. -/
def wordBefore (before : String) : String := String.ofList (wordAtEnd before.toList)

theorem toList_wordBefore (before : String) :
    (wordBefore before).toList = wordAtEnd before.toList := String.toList_ofList

theorem wordBefore_ne_iff {before : String} :
    wordBefore before ≠ "" ↔ wordAtEnd before.toList ≠ [] := by
  rw [← toList_wordBefore, Ne, Ne, String.toList_eq_nil_iff]

/-- A name that goes on from the word before the cursor is the word before the new cursor. -/
theorem wordAtEnd_completed {before r : String} (hName : IsWord (wordBefore before ++ r).toList) :
    wordAtEnd (before ++ r).toList = (wordBefore before ++ r).toList := by
  rw [String.toList_append] at hName
  rw [String.toList_append, String.toList_append, toList_wordBefore]
  exact wordAtEnd_append fun c hMem => hName.2 c (List.mem_append_right _ hMem)

/-- **The symbol before the cursor** is the word there, if it is no number. -/
theorem symbolBefore?_eq_some_iff (before behind : String) :
    symbolBefore? before.utf8ByteSize (before ++ behind) = some name ↔
      wordBefore before ≠ "" ∧ Atom.ofString (wordBefore before) = .symbol name := by
  rw [symbolBefore?, String.toList_append, ← String.utf8Len_toList, takeBytes_append,
    wordBefore_ne_iff, Atom.ofString, toList_wordBefore]
  constructor
  · intro h
    split at h
    · rename_i symbol span hLast
      split at h
      · rename_i hStop
        cases h
        have hMem := List.mem_of_getLast? hLast
        rw [← List.append_nil before.toList] at hMem
        obtain ⟨hSome, hAtom, -⟩ := Token.symbol_ends_iff.1 ⟨_, hMem, rfl, hStop⟩
        exact ⟨hSome, hAtom⟩
      · cases h
    · cases h
  · rintro ⟨hSome, hAtom⟩
    obtain ⟨start, hLast⟩ := Token.getLast?_of_wordAtEnd hSome
    rw [hLast, hAtom]
    exact if_pos rfl

/-! ### Names in order -/

theorem mem_insertWord : r ∈ insertWord w ws ↔ r = w ∨ r ∈ ws := by
  induction ws with
  | nil => simp [insertWord]
  | cons v ws ih =>
    rw [insertWord]
    split
    · rename_i hSame
      simp [hSame]
    · split
      · exact List.mem_cons
      · rw [List.mem_cons, ih, List.mem_cons, or_left_comm]

theorem mem_ascending : r ∈ ascending ws ↔ r ∈ ws := by
  induction ws with
  | nil => exact Iff.rfl
  | cons w ws ih =>
    rw [ascending, List.foldr_cons, mem_insertWord, List.mem_cons]
    exact or_congr_right ih

theorem pairwise_insertWord (w : String) (h : ws.Pairwise (· < ·)) :
    (insertWord w ws).Pairwise (· < ·) := by
  induction ws with
  | nil => exact List.pairwise_singleton _ _
  | cons v ws ih =>
    obtain ⟨hFirst, hRest⟩ := List.pairwise_cons.1 h
    rw [insertWord]
    split
    · exact h
    · rename_i hOther
      split
      · rename_i hLess
        refine .cons (List.forall_mem_cons.2 ⟨hLess, fun u hu => ?_⟩) h
        exact String.lt_trans hLess (hFirst u hu)
      · rename_i hNotLess
        refine .cons (fun u hu => ?_) (ih hRest)
        rcases mem_insertWord.1 hu with rfl | hu
        · exact lt_of_le_of_ne (String.not_lt.1 hNotLess) (Ne.symm hOther)
        · exact hFirst u hu

/-- **Words are put in increasing order**, so that none comes twice. -/
theorem pairwise_ascending (ws : List String) : (ascending ws).Pairwise (· < ·) := by
  induction ws with
  | nil => exact .nil
  | cons w ws ih => exact pairwise_insertWord w ih

/-! ### What is offered -/

theorem remainder?_eq_some_iff : remainder? w name = some r ↔ r ≠ "" ∧ name = w ++ r := by
  have hPrefix (cs : List Char) :
      List.isPrefixOf? w.toList name.toList = some cs ↔ name = w ++ String.ofList cs := by
    rw [List.isPrefixOf?_eq_some_iff_append_eq, ← String.toList_inj, String.toList_append,
      String.toList_ofList, eq_comm]
  rw [remainder?]
  split
  · rename_i c cs hRest
    rw [hPrefix] at hRest
    subst hRest
    rw [Option.some_inj, String.append_right_inj]
    refine ⟨fun h => ⟨?_, h⟩, And.right⟩
    rintro rfl
    simp at h
  · rename_i hNone
    refine iff_of_false nofun ?_
    rintro ⟨hSome, hName⟩
    cases hRest : r.toList with
    | nil => exact hSome (String.toList_eq_nil_iff.1 hRest)
    | cons c cs =>
      refine hNone c cs ((hPrefix _).2 ?_)
      rw [hName, ← hRest, String.ofList_toList]

/-- **What is offered** is what is missing of the names that go on from the symbol before the
cursor. -/
theorem mem_completions_iff {before behind : String} :
    r ∈ completions globals (before ++ behind) before.utf8ByteSize ↔
      (wordBefore before ≠ "" ∧ Atom.ofString (wordBefore before) = .symbol (wordBefore before)) ∧
        r ≠ "" ∧ wordBefore before ++ r ∈ globals.names ++ reservedWords := by
  rw [completions]
  split
  · rename_i hNone
    refine iff_of_false List.not_mem_nil ?_
    rintro ⟨hSymbol, -⟩
    rw [(symbolBefore?_eq_some_iff before behind).2 hSymbol] at hNone
    cases hNone
  · rename_i start hStart
    obtain ⟨hSome, hAtom⟩ := (symbolBefore?_eq_some_iff before behind).1 hStart
    obtain rfl : start = wordBefore before := by
      rw [Atom.eq_ofList_of_symbol hAtom, String.ofList_toList]
    rw [mem_ascending, List.mem_filterMap]
    constructor
    · rintro ⟨name, hName, hRest⟩
      obtain ⟨hSomeRest, rfl⟩ := remainder?_eq_some_iff.1 hRest
      exact ⟨⟨hSome, hAtom⟩, hSomeRest, hName⟩
    · rintro ⟨-, hSomeRest, hName⟩
      exact ⟨_, hName, remainder?_eq_some_iff.2 ⟨hSomeRest, rfl⟩⟩

theorem pairwise_completions (globals : Bindings Value) (line : String) (position : Nat) :
    (completions globals line position).Pairwise (· < ·) := by
  rw [completions]
  split
  · exact .nil
  · exact pairwise_ascending _

/-- **Completion is sound and complete.**  Whatever texts a session has run, what is offered at a
place in a line depends on the word `w` that ends there.  Unless this is a symbol, nothing is
offered; if it is one, just what is missing of the global names and reserved words that go on from
it, in increasing order.  Put in at the place, it makes the name the last token up to the new place,
and this token is one of the whole line just when no word goes on behind the place. -/
theorem complete_offers (options : Options) (texts : List String) (before behind : String) :
    let globals := ((Session.new options).after texts).globals
    let w := wordBefore before
    let offer := complete globals (before ++ behind) before.utf8ByteSize
    offer.1 = before.utf8ByteSize ∧
    (w = "" ∨ (Atom.ofString w).symbol? = none → offer.2 = []) ∧
    (w ≠ "" → (Atom.ofString w).symbol? ≠ none → ∀ r, r ∈ offer.2 ↔
      r ≠ "" ∧ (globals.find? (w ++ r) ≠ none ∨ w ++ r ∈ reservedWords)) ∧
    offer.2.Pairwise (· < ·) ∧
    ∀ r ∈ offer.2,
      (∃ t, (Token.ofString (before ++ r)).getLast? = some t ∧
        t.IsSymbolUpTo (w ++ r) (before ++ r).utf8ByteSize) ∧
      ((∃ t ∈ Token.ofString (before ++ r ++ behind),
        t.IsSymbolUpTo (w ++ r) (before ++ r).utf8ByteSize) ↔ Boundary behind.toList) := by
  intro globals w offer
  have hReadable (name : String) (hName : name ∈ globals.names ++ reservedWords) :
      (Atom.symbol name).Readable := by
    rcases List.mem_append.1 hName with hBound | hReserved
    · exact Session.namesReadable_after_new options texts name hBound
    · exact readable_of_mem_reservedWords hReserved
  refine ⟨rfl, fun hNone => ?_, fun hSome hSymbol r => ?_, pairwise_completions _ _ _,
    fun r hMem => ?_⟩
  · refine List.eq_nil_iff_forall_not_mem.2 fun r hMem => ?_
    obtain ⟨⟨hSome, hAtom⟩, -⟩ := mem_completions_iff.1 hMem
    exact hNone.elim hSome (Atom.symbol?_ofString_ne_none_iff.2 hAtom)
  · have hAtom := Atom.symbol?_ofString_ne_none_iff.1 hSymbol
    refine mem_completions_iff.trans ((and_iff_right ⟨hSome, hAtom⟩).trans ?_)
    rw [List.mem_append, Bindings.mem_names_iff]
  · obtain ⟨-, -, hName⟩ := mem_completions_iff.1 hMem
    obtain ⟨hWord, hAtom⟩ := Atom.readable_symbol_iff.1 (hReadable _ hName)
    -- no name can be offered that would not be read as one word
    have hAtEnd := wordAtEnd_completed hWord
    rw [Token.ofString, Token.ofString, ← String.utf8Len_toList]
    constructor
    · obtain ⟨start, hLast⟩ := Token.getLast?_of_wordAtEnd (hAtEnd ▸ hWord.1)
      refine ⟨_, hLast, ?_, rfl⟩
      rw [hAtEnd]
      exact congrArg _ hAtom
    · have hText : (before ++ r ++ behind).toList = (before ++ r).toList ++ behind.toList :=
        String.toList_append
      rw [hText, Token.symbol_ends_iff, hAtEnd]
      exact (and_iff_right hWord.1).trans (and_iff_right hAtom)

/-- A global name and a reserved word that go on from `d`, in the order of their characters. -/
theorem complete_offers_accented :
    let globals := ((Session.new .standard).after ["(déjà 1 define)"]).globals
    let offer := complete globals ("é (d" ++ ")") "é (d".utf8ByteSize
    offer = (5, ["efine", "éjà"]) ∧ ∃ t ∈ Token.ofString ("é (d" ++ "éjà" ++ ")"),
      t.IsSymbolUpTo ("d" ++ "éjà") ("é (d" ++ "éjà").utf8ByteSize := by
  intro globals offer
  have hOffer : offer = (5, ["efine", "éjà"]) := by decide +kernel
  obtain ⟨-, -, -, -, hPutIn⟩ := complete_offers .standard ["(déjà 1 define)"] "é (d" ")"
  obtain ⟨-, hToken⟩ := hPutIn "éjà" (by rw [show complete _ _ _ = _ from hOffer]; simp)
  exact ⟨hOffer, hToken.2 (boundary_mark .closing [])⟩

/-- **A word that goes on behind the cursor takes in what is put there.**  With the cursor before
the last character of `def`, `fine` is offered, and no token of `definef` ends behind `define`. -/
theorem complete_inside_word :
    let globals := ((Session.new .standard).after []).globals
    "fine" ∈ (complete globals ("de" ++ "f") "de".utf8ByteSize).2 ∧
      ∀ t ∈ Token.ofString ("de" ++ "fine" ++ "f"),
        t.span.stop ≠ ("de" ++ "fine").utf8ByteSize := by
  decide +kernel

end Repl

end PostLisp

import Mathlib.Data.List.Infix
import PostLisp.Proofs.Balance
import PostLisp.Repl.Highlight

/-!
# Which characters are coloured

What a highlighted line looks like is told character by character, from what stands before and
behind each (`style?`): brackets match when the brackets between them are balanced.  The line is
shown in one pass instead, which cannot know yet whether an opening bracket will turn blue.  What is
shown so far (`Tracks`) leaves these brackets out, one segment for each, and has everything else as
it will be in the end; so in the end the line is shown as it should be (`highlight_colours`).
-/

namespace PostLisp.Repl

open String (utf8Len)

/-- The text holds an opening bracket that a closing one behind it matches: from there on, its
brackets are balanced. -/
def OpensBehind (before : List Char) : Prop :=
  ∃ earlier inner, before = earlier ++ '(' :: inner ∧ Balance.ofChars inner = .balanced

/-- The closing bracket that matches an opening one between `before` and `behind` ends at the byte
`cursor`. -/
def ClosesAt (cursor : Nat) (before behind : List Char) : Prop :=
  ∃ inner rest, behind = inner ++ ')' :: rest ∧ Balance.ofChars inner = .balanced ∧
    utf8Len (before ++ '(' :: inner ++ [')']) = cursor

theorem opensBehind_iff {before : List Char} : OpensBehind before ↔
    ∃ cs ∈ before.tails, cs.head? = some '(' ∧ Balance.ofChars cs.tail = .balanced := by
  constructor
  · rintro ⟨earlier, inner, rfl, hInner⟩
    exact ⟨'(' :: inner, (List.mem_tails _ _).2 (List.suffix_append _ _), rfl, hInner⟩
  · rintro ⟨cs, hSuffix, hHead, hInner⟩
    obtain ⟨inner, rfl⟩ := List.head?_eq_some_iff.1 hHead
    obtain ⟨earlier, rfl⟩ := (List.mem_tails _ _).1 hSuffix
    exact ⟨earlier, inner, rfl, hInner⟩

theorem closesAt_iff {cursor : Nat} {before behind : List Char} : ClosesAt cursor before behind ↔
    ∃ inner ∈ behind.inits, (behind.drop inner.length).head? = some ')' ∧
      Balance.ofChars inner = .balanced ∧ utf8Len (before ++ '(' :: inner ++ [')']) = cursor := by
  constructor
  · rintro ⟨inner, rest, rfl, hInner⟩
    refine ⟨inner, (List.mem_inits _ _).2 (List.prefix_append _ _), ?_, hInner⟩
    rw [List.drop_left]
    rfl
  · rintro ⟨inner, hPrefix, hHead, hInner⟩
    obtain ⟨rest, rfl⟩ := (List.mem_inits _ _).1 hPrefix
    rw [List.drop_left] at hHead
    obtain ⟨rest, rfl⟩ := List.head?_eq_some_iff.1 hHead
    exact ⟨inner, rest, rfl, hInner⟩

instance (before : List Char) : Decidable (OpensBehind before) :=
  decidable_of_iff' _ opensBehind_iff

instance (cursor : Nat) (before behind : List Char) : Decidable (ClosesAt cursor before behind) :=
  decidable_of_iff' _ closesAt_iff

/-- The style of the character `c` between `before` and `behind`, if it has one. -/
def style? (cursor : Nat) (before : List Char) (c : Char) (behind : List Char) : Option Style :=
  if c = '\'' then some .yellow
  else if c = ')' then
    if OpensBehind before then if utf8Len (before ++ [')']) = cursor then some .blue else none
    else some .red
  else if c = '(' ∧ ClosesAt cursor before behind then some .boldBlue
  else none

/-- The characters of a stretch between `before` and `behind`, each with its style. -/
def styled (cursor : Nat) (before : List Char) : List Char → List Char → List (Option Style × Char)
  | [], _ => []
  | c :: cs, behind =>
    (style? cursor before c (cs ++ behind), c) :: styled cursor (before ++ [c]) cs behind

/-- A character in its style. -/
def dressed : Option Style × Char → List Char
  | (none, c) => [c]
  | (some s, c) => s.wrap c

/-- A stretch between `before` and `behind` as it should be shown. -/
def painted (cursor : Nat) (before cs behind : List Char) : List Char :=
  (styled cursor before cs behind).flatMap dressed

variable {cursor : Nat} {before behind cs ds inner rest : List Char} {c : Char} {s : Shown}

theorem map_styled (cursor : Nat) (before cs behind : List Char) :
    (styled cursor before cs behind).map (·.2) = cs := by
  induction cs generalizing before with
  | nil => rfl
  | cons c cs ih => rw [styled, List.map_cons, ih]

theorem styled_append : styled cursor before (cs ++ ds) behind =
    styled cursor before cs (ds ++ behind) ++ styled cursor (before ++ cs) ds behind := by
  induction cs generalizing before with
  | nil => simp [styled]
  | cons c cs ih => simp [styled, ih]

theorem painted_append : painted cursor before (cs ++ ds) behind =
    painted cursor before cs (ds ++ behind) ++ painted cursor (before ++ cs) ds behind := by
  rw [painted, styled_append, List.flatMap_append]
  rfl

theorem painted_singleton :
    painted cursor before [c] behind = dressed (style? cursor before c behind, c) := by
  simp [painted, styled]

theorem style?_opening : style? cursor before '(' behind =
    if ClosesAt cursor before behind then some .boldBlue else none := by
  simp [style?]

theorem style?_closing : style? cursor before ')' behind =
    if OpensBehind before then if utf8Len (before ++ [')']) = cursor then some .blue else none
    else some .red := by
  simp [style?]

theorem style?_other (hOpening : c ≠ '(') (hClosing : c ≠ ')') :
    style? cursor before c behind = if c = '\'' then some .yellow else none := by
  simp [style?, hOpening, hClosing]

/-! ### Balanced stretches -/

namespace Balance

/-- Behind a stretch that closes `e` brackets and balances its own, the check goes on with the
brackets that were open before these. -/
theorem ofCharsFrom_append {p e : Nat} (h : ofCharsFrom p e cs = .balanced) (q d : Nat)
    (ds : List Char) : ofCharsFrom q (e + d) (cs ++ ds) = ofCharsFrom (q + cs.length) d ds := by
  induction cs generalizing p q e with
  | nil =>
    cases e with
    | zero => rw [Nat.zero_add, List.nil_append, List.length_nil, Nat.add_zero]
    | succ e => cases h
  | cons c cs ih =>
    have hIndex : q + (c :: cs).length = q + 1 + cs.length := by
      rw [List.length_cons]
      omega
    rw [hIndex, List.cons_append]
    by_cases hOpening : c = '('
    · subst hOpening
      have hRest : ofCharsFrom (p + 1) (e + 1) cs = .balanced := h
      rw [← ih hRest, Nat.add_right_comm]
      rfl
    by_cases hClosing : c = ')'
    · subst hClosing
      cases e with
      | zero => cases h
      | succ e =>
        have hRest : ofCharsFrom (p + 1) e cs = .balanced := h
        rw [← ih hRest, Nat.add_right_comm]
        rfl
    · rw [ofCharsFrom_other hOpening hClosing] at h ⊢
      exact ih h (q + 1)

/-- A balanced stretch changes nothing for the check of what is behind it. -/
theorem ofCharsFrom_append_balanced (h : ofChars cs = .balanced) (q d : Nat) (ds : List Char) :
    ofCharsFrom q d (cs ++ ds) = ofCharsFrom (q + cs.length) d ds := by
  have hRest := ofCharsFrom_append h q d ds
  rwa [Nat.zero_add] at hRest

/-- Where the counting starts does not matter. -/
theorem ofCharsFrom_balanced (h : ofChars cs = .balanced) (q : Nat) :
    ofCharsFrom q 0 cs = .balanced := by
  have hRest := ofCharsFrom_append_balanced h q 0 []
  rwa [List.append_nil] at hRest

theorem ofChars_append (h : ofChars cs = .balanced) (h' : ofChars ds = .balanced) :
    ofChars (cs ++ ds) = .balanced := by
  rw [ofChars, ofCharsFrom_append_balanced h]
  exact ofCharsFrom_balanced h' _

theorem ofChars_bracketed (h : ofChars inner = .balanced) :
    ofChars ('(' :: inner ++ [')']) = .balanced :=
  ofCharsFrom_append_balanced h 1 1 [')']

theorem ofChars_other (hOpening : c ≠ '(') (hClosing : c ≠ ')') : ofChars [c] = .balanced := by
  rw [ofChars, ofCharsFrom_other hOpening hClosing]
  rfl

/-- A bracket that is closed is closed once. -/
theorem eq_of_closes {inner' rest' : List Char} (h : ofChars inner = .balanced)
    (h' : ofChars inner' = .balanced) (hText : inner ++ ')' :: rest = inner' ++ ')' :: rest') :
    inner = inner' := by
  have hStops : ∀ cs ds, ofChars cs = .balanced →
      ofChars (cs ++ ')' :: ds) = .unmatched cs.length := by
    intro cs ds hBalanced
    rw [ofChars, ofCharsFrom_append_balanced hBalanced, Nat.zero_add]
    rfl
  have hLength := hStops _ rest h
  rw [hText, hStops _ _ h'] at hLength
  exact List.append_inj_left hText (Balance.unmatched.inj hLength).symm

/-- No bracket of the text closes one before it. -/
def ClosesNone (cs : List Char) : Prop := ∀ p i, ofCharsFrom p 0 cs ≠ .unmatched i

theorem ClosesNone.append (h : ClosesNone cs) (hInner : ofChars inner = .balanced) :
    ClosesNone (inner ++ cs) := by
  intro p i
  rw [ofCharsFrom_append_balanced hInner]
  exact h _ i

/-- With one bracket more open, fewer closing ones are unmatched. -/
theorem exists_unmatched {p d i : Nat} (h : ofCharsFrom p (d + 1) cs = .unmatched i) :
    ∃ j, ofCharsFrom p d cs = .unmatched j := by
  induction cs generalizing p d with
  | nil => cases h
  | cons c cs ih =>
    by_cases hOpening : c = '('
    · subst hOpening
      exact ih h
    by_cases hClosing : c = ')'
    · subst hClosing
      cases d with
      | zero => exact ⟨p, rfl⟩
      | succ d => exact ih h
    · rw [ofCharsFrom_other hOpening hClosing] at h ⊢
      exact ih h

theorem ClosesNone.cons_opening (h : ClosesNone cs) : ClosesNone ('(' :: cs) := by
  intro p i hUnmatched
  have hInside : ofCharsFrom (p + 1) 1 cs = .unmatched i := hUnmatched
  obtain ⟨j, hOutside⟩ := exists_unmatched hInside
  exact h _ j hOutside

theorem ClosesNone.not_closesAt (h : ClosesNone behind) : ¬ ClosesAt cursor before behind := by
  rintro ⟨inner, rest, rfl, hInner, -⟩
  refine h 0 inner.length ?_
  rw [ofCharsFrom_append_balanced hInner, Nat.zero_add]
  rfl

/-- How many brackets wait for the closing one that matches them, when `depth` have waited before.
-/
def waiting (depth : Nat) (cs : List Char) : Nat :=
  cs.foldl (fun d c => if c = '(' then d + 1 else if c = ')' then d - 1 else d) depth

theorem waiting_append (depth : Nat) (cs ds : List Char) :
    waiting depth (cs ++ ds) = waiting (waiting depth cs) ds := List.foldl_append

theorem waiting_balanced {p e : Nat} (h : ofCharsFrom p e cs = .balanced) (d : Nat) :
    waiting (e + d) cs = d := by
  induction cs generalizing p e with
  | nil =>
    cases e with
    | zero => exact Nat.zero_add d
    | succ e => cases h
  | cons c cs ih =>
    by_cases hOpening : c = '('
    · subst hOpening
      have hRest := ih (show ofCharsFrom (p + 1) (e + 1) cs = .balanced from h)
      rwa [Nat.add_right_comm] at hRest
    by_cases hClosing : c = ')'
    · subst hClosing
      cases e with
      | zero => cases h
      | succ e =>
        have hRest := ih (show ofCharsFrom (p + 1) e cs = .balanced from h)
        rw [Nat.add_right_comm]
        exact hRest
    · rw [ofCharsFrom_other hOpening hClosing] at h
      rw [waiting, List.foldl_cons, if_neg hOpening, if_neg hClosing]
      exact ih h

theorem not_opensBehind (h : waiting 0 before = 0) : ¬ OpensBehind before := by
  rintro ⟨earlier, inner, rfl, hInner⟩
  rw [waiting_append] at h
  have hStays := waiting_balanced hInner (waiting 0 earlier + 1)
  rw [Nat.zero_add] at hStays
  have hSome : waiting (waiting 0 earlier) ('(' :: inner) = waiting 0 earlier + 1 := hStays
  omega

end Balance

/-! ### One pass over the line -/

open Balance

theorem closesAt_iff_of_balanced (hInner : ofChars inner = .balanced) :
    ClosesAt cursor before (inner ++ ')' :: behind) ↔
      utf8Len (before ++ '(' :: inner ++ [')']) = cursor := by
  constructor
  · rintro ⟨inner', rest, hText, hInner', hCursor⟩
    rwa [eq_of_closes hInner hInner' hText]
  · exact fun hCursor => ⟨inner, behind, rfl, hInner, hCursor⟩

/-- Two brackets that match are coloured together. -/
theorem painted_bracketed {atCursor : Bool} (hInner : ofChars inner = .balanced)
    (hCursor : atCursor = decide (utf8Len (before ++ '(' :: inner ++ [')']) = cursor)) :
    painted cursor before ('(' :: inner ++ [')']) behind =
      (if atCursor then Style.boldBlue.wrap '(' else ['(']) ++
        (painted cursor (before ++ ['(']) inner (')' :: behind) ++
          if atCursor then Style.blue.wrap ')' else [')']) := by
  have hOpens : OpensBehind (before ++ '(' :: inner) := ⟨before, inner, rfl, hInner⟩
  rw [List.cons_append, ← List.singleton_append, painted_append, painted_append, painted_singleton,
    painted_singleton, style?_opening, style?_closing]
  simp only [List.append_assoc, List.cons_append, List.nil_append, if_pos hOpens,
    closesAt_iff_of_balanced hInner, hCursor, decide_eq_true_eq]
  split <;> rfl

theorem closeBracket_inside (cs : List Char) (s : Shown) (atCursor : Bool) :
    Shown.closeBracket ⟨cs.reverse, s.tail :: s.segments⟩ atCursor =
      s.add ((if atCursor then Style.boldBlue.wrap '(' else ['(']) ++
        (cs ++ if atCursor then Style.blue.wrap ')' else [')'])) := by
  simp [Shown.closeBracket, Shown.add]

theorem foldl_segments (cs ds : List Char) (segments : List (List Char)) :
    segments.foldl (fun shown segment => shown ++ '(' :: segment) (cs ++ ds) =
      cs ++ segments.foldl (fun shown segment => shown ++ '(' :: segment) ds := by
  induction segments generalizing ds with
  | nil => rfl
  | cons segment segments ih => rw [List.foldl_cons, List.append_assoc, ih, List.foldl_cons]

theorem finish_inside (cs : List Char) (s : Shown) :
    Shown.finish ⟨cs.reverse, s.tail :: s.segments⟩ = s.finish ++ ['('] ++ cs := by
  rw [Shown.finish, List.foldl_cons, List.append_cons, foldl_segments]
  simp [Shown.finish]

/-- What is shown of a line, when `before` is shown already and `behind` is not: all of `before` as
it should be, but for the brackets that wait. -/
inductive Tracks (cursor : Nat) : List Char → List Char → Shown → Prop
  | outermost {before behind : List Char} (hNone : waiting 0 before = 0) :
      Tracks cursor before behind ⟨(painted cursor [] before behind).reverse, []⟩
  | inside {before inner behind : List Char} {s : Shown}
      (around : Tracks cursor before ('(' :: (inner ++ behind)) s)
      (hInner : ofChars inner = .balanced) :
      Tracks cursor (before ++ '(' :: inner) behind
        ⟨(painted cursor (before ++ ['(']) inner behind).reverse, s.tail :: s.segments⟩

namespace Tracks

/-- A balanced stretch is shown behind what is shown. -/
theorem append (h : Tracks cursor before (cs ++ behind) s) (hBalanced : ofChars cs = .balanced) :
    Tracks cursor (before ++ cs) behind (s.add (painted cursor before cs behind)) := by
  generalize hRest : cs ++ behind = rest at h
  cases h with
  | outermost hNone =>
    have hStays : waiting 0 (before ++ cs) = 0 := by
      have hSame := waiting_balanced hBalanced 0
      rw [waiting_append, hNone]
      exact hSame
    have hShown : Tracks cursor (before ++ cs) behind
        ⟨(painted cursor [] (before ++ cs) behind).reverse, []⟩ := .outermost hStays
    rw [painted_append, List.reverse_append, hRest] at hShown
    exact hShown
  | @inside before inner _ s around hInner =>
    subst hRest
    rw [← List.append_assoc inner] at around
    have hShown := around.inside (ofChars_append hInner hBalanced)
    rw [painted_append, List.reverse_append, List.append_assoc, List.singleton_append] at hShown
    rw [List.append_assoc, List.cons_append]
    exact hShown

/-- An opening bracket waits. -/
theorem openBracket (h : Tracks cursor before ('(' :: behind) s) :
    Tracks cursor (before ++ ['(']) behind s.openBracket :=
  h.inside rfl

/-- A closing bracket is shown with the one that it matches, or in red. -/
theorem closeBracket (h : Tracks cursor before (')' :: behind) s) :
    Tracks cursor (before ++ [')']) behind
      (s.closeBracket (utf8Len (before ++ [')']) = cursor)) := by
  generalize hRest : ')' :: behind = rest at h
  cases h with
  | outermost hNone =>
    have hStays : waiting 0 (before ++ [')']) = 0 := by
      rw [waiting_append, hNone]
      rfl
    have hShown : Tracks cursor (before ++ [')']) behind
        ⟨(painted cursor [] (before ++ [')']) behind).reverse, []⟩ := .outermost hStays
    rw [painted_append, List.nil_append, painted_singleton, style?_closing,
      if_neg (not_opensBehind hNone), List.reverse_append, List.singleton_append, hRest] at hShown
    exact hShown
  | @inside before inner _ s around hInner =>
    subst hRest
    have hPair : Tracks cursor before (('(' :: inner ++ [')']) ++ behind) s := by
      simpa using around
    have hShown := hPair.append (ofChars_bracketed hInner)
    rw [painted_bracketed hInner rfl, ← List.append_assoc before] at hShown
    rw [closeBracket_inside]
    exact hShown

/-- **Every character is shown as it should be.** -/
theorem step (h : Tracks cursor before (c :: behind) s) :
    Tracks cursor (before ++ [c]) behind (s.step cursor (utf8Len (before ++ [c])) c) := by
  by_cases hOpening : c = '('
  · subst hOpening
    exact h.openBracket
  by_cases hClosing : c = ')'
  · subst hClosing
    exact h.closeBracket
  have hOne : Tracks cursor before ([c] ++ behind) s := h
  have hShown := hOne.append (ofChars_other hOpening hClosing)
  rw [painted_singleton, style?_other hOpening hClosing] at hShown
  by_cases hQuote : c = '\''
  · subst hQuote
    exact hShown
  · rw [if_neg hQuote] at hShown
    rw [Shown.step]
    · exact hShown
    · exact hOpening
    · exact hClosing
    · exact hQuote

theorem steps (h : Tracks cursor before cs s) :
    Tracks cursor (before ++ cs) [] (s.steps cursor (utf8Len before) cs) := by
  induction cs generalizing before s with
  | nil =>
    rw [List.append_nil]
    exact h
  | cons c cs ih =>
    have hStep := ih h.step
    have hSize : utf8Len (before ++ [c]) = utf8Len before + c.utf8Size := by simp
    rw [List.append_assoc, hSize] at hStep
    exact hStep

/-- **In the end the whole line is shown**, since the brackets that still wait are plain. -/
theorem finish_eq (h : Tracks cursor before behind s) (hEnd : ClosesNone behind) :
    s.finish = painted cursor [] before behind := by
  induction h with
  | outermost hNone => exact List.reverse_reverse _
  | @inside before inner behind s around hInner ih =>
    have hRest : ClosesNone (inner ++ behind) := hEnd.append hInner
    have hPlain : painted cursor before ('(' :: inner) behind =
        '(' :: painted cursor (before ++ ['(']) inner behind := by
      rw [← List.singleton_append, painted_append, painted_singleton, style?_opening,
        if_neg hRest.not_closesAt]
      rfl
    rw [finish_inside, ih hRest.cons_opening, painted_append, List.nil_append, hPlain,
      List.append_assoc]
    rfl

end Tracks

/-! ### Without the colours -/

/-- A text without its colour codes, each of which is an escape character and everything behind it
up to an `m`; `inCode` says whether one has been started. -/
def withoutCodes (inCode : Bool) : List Char → List Char
  | [] => []
  | c :: cs =>
    if inCode then withoutCodes (c != 'm') cs
    else if c = '\x1b' then withoutCodes true cs
    else c :: withoutCodes false cs

theorem withoutCodes_dressed (style : Option Style) (hChar : c ≠ '\x1b') (cs : List Char) :
    withoutCodes false (dressed (style, c) ++ cs) = c :: withoutCodes false cs := by
  cases style with
  | none => simp [dressed, withoutCodes, hChar]
  | some s => cases s <;> simp [dressed, Style.wrap, Style.codes, withoutCodes, hChar]

theorem withoutCodes_painted (hEscape : '\x1b' ∉ cs) :
    withoutCodes false (painted cursor before cs behind) = cs := by
  induction cs generalizing before with
  | nil => rfl
  | cons c cs ih =>
    rw [List.mem_cons, not_or] at hEscape
    rw [← List.singleton_append, painted_append, painted_singleton,
      withoutCodes_dressed _ (Ne.symm hEscape.1), ih hEscape.2]
    rfl

theorem toList_highlight (line : String) (cursor : Nat) :
    (highlight line cursor).toList = painted cursor [] line.toList [] := by
  have hStart : Tracks cursor [] line.toList .start := .outermost rfl
  rw [highlight, String.toList_ofList]
  exact hStart.steps.finish_eq nofun

/-- **Highlighting colours the right characters**, and changes nothing else: a line is shown
character by character, each in the style that it should have, if any.  Without the styles it is the
line again; where the line has no codes of its own, this means without the codes in what is shown.
-/
theorem highlight_colours (line : String) (cursor : Nat) :
    (highlight line cursor).toList = (styled cursor [] line.toList []).flatMap dressed ∧
      (styled cursor [] line.toList []).map (·.2) = line.toList ∧
      ('\x1b' ∉ line.toList → withoutCodes false (highlight line cursor).toList = line.toList) := by
  refine ⟨toList_highlight line cursor, map_styled cursor [] line.toList [], fun hEscape => ?_⟩
  rw [toList_highlight]
  exact withoutCodes_painted hEscape

/-- The cursor stands behind the closing bracket of the list inside a list that is still open; the
bracket before that list matches nothing. -/
theorem highlight_colours_inside :
    let line := ")(é (' b)"
    '\x1b' ∉ line.toList ∧
      highlight line 10 =
        "\x1b[31m)\x1b[0m(é \x1b[1;34m(\x1b[0m\x1b[33m'\x1b[0m b\x1b[34m)\x1b[0m" ∧
      withoutCodes false (highlight line 10).toList = line.toList := by
  intro line
  have hEscape : '\x1b' ∉ line.toList := by decide
  obtain ⟨hShown, -, hPlain⟩ := highlight_colours line 10
  refine ⟨hEscape, String.toList_inj.1 (hShown.trans ?_), hPlain hEscape⟩
  decide

end PostLisp.Repl

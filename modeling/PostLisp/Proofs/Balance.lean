import PostLisp.Eval.Run
import PostLisp.Proofs.Slices
import PostLisp.Repl.Brackets

/-!
# Two views of balance

Typed text is checked for balance character by character, and read token by token.  Between the two
stands the count of open lists behind some tokens (`Token.openBehind`): words have no part in it, so
it is what the check of the characters finds (`Balance.tells_ofCharsFrom`), and every open list of a
reading counts, so it says by which bracket, if any, a text cannot be read
(`Program.judged_ofTokens`).
-/

namespace PostLisp

open String (utf8Len)

namespace Token

/-- The number of lists that are open behind the tokens, when `depth` are open before them.  A
closing bracket that has none to close ends the count. -/
def openBehind (depth : Nat) : List Token → Except Span Nat
  | [] => .ok depth
  | t :: ts =>
    match t.kind, depth with
    | .mark .opening, _ => openBehind (depth + 1) ts
    | .mark .closing, 0 => .error t.span
    | .mark .closing, depth + 1 => openBehind depth ts
    | _, _ => openBehind depth ts

end Token

/-! ### What a reading makes of the brackets -/

namespace Program

/-- How a text is read, given the count of its open lists. -/
inductive Judged : Except Span Nat → Except ParseError (List Node) → Prop
  | unmatched (s : Span) : Judged (.error s) (.error ⟨.unmatchedClosing, s⟩)
  | unclosed (depth : Nat) (s : Span) : Judged (.ok (depth + 1)) (.error ⟨.unclosedOpening, s⟩)
  | dangling (s : Span) : Judged (.ok 0) (.error ⟨.danglingQuote, s⟩)
  | read (program : List Node) : Judged (.ok 0) (.ok program)

theorem judged_finish (r : Reading) : Judged (.ok r.enclosing.length) r.finish := by
  obtain ⟨items, enclosing, dangling⟩ := r
  cases enclosing with
  | cons l ls => exact .unclosed ls.length l.opening
  | nil =>
    cases dangling with
    | some s => exact .dangling s
    | none => exact .read items.reverse

/-- The count goes on where a reading has arrived. -/
theorem judged_foldlM (ts : List Token) (r : Reading) :
    Judged (Token.openBehind r.enclosing.length ts)
      (ts.foldlM Reading.step r >>= Reading.finish) := by
  induction ts generalizing r with
  | nil => exact judged_finish r
  | cons t ts ih =>
    rw [List.foldlM_cons, bind_assoc]
    obtain ⟨kind, span⟩ := t
    cases kind with
    | atom a => exact ih (r.add (.atom a span))
    | mark m =>
      cases m with
      | opening => exact ih (r.openList span)
      | closing =>
        obtain ⟨items, enclosing, dangling⟩ := r
        cases enclosing with
        | nil => exact .unmatched span
        | cons l ls =>
          exact ih ⟨.list items.reverse (l.opening.join span) :: l.before, ls, dangling⟩
      | quote =>
        obtain ⟨items, enclosing, dangling⟩ := r
        cases items with
        | nil => exact ih ⟨[], enclosing, dangling <|> some span⟩
        | cons n ns => exact ih ⟨n.quoted span :: ns, enclosing, dangling⟩

theorem judged_ofTokens (ts : List Token) : Judged (Token.openBehind 0 ts) (ofTokens ts) :=
  judged_foldlM ts .start

end Program

/-! ### What the check makes of the characters -/

namespace Repl.Balance

variable {offset position depth : Nat} {c : Char} {cs : List Char}

theorem ofCharsFrom_other (hOpening : c ≠ '(') (hClosing : c ≠ ')') :
    ofCharsFrom position depth (c :: cs) = ofCharsFrom (position + 1) depth cs := by
  rw [ofCharsFrom]
  · exact hOpening
  · exact fun h _ => hClosing h
  · exact fun _ h _ => hClosing h

theorem ofCharsFrom_of_noMark (hMark : Mark.ofChar? c = none) :
    ofCharsFrom position depth (c :: cs) = ofCharsFrom (position + 1) depth cs := by
  refine ofCharsFrom_other ?_ ?_
  · rintro rfl
    cases hMark
  · rintro rfl
    cases hMark

/-- The check of characters, the first of which has the index `position` and starts at the byte
`offset`, says what the count of open lists says. -/
inductive Tells (offset position : Nat) (cs : List Char) : Balance → Except Span Nat → Prop
  | balanced : Tells offset position cs .balanced (.ok 0)
  | incomplete (depth : Nat) : Tells offset position cs .incomplete (.ok (depth + 1))
  | unmatched {i : Nat} {s : Span} (hIndex : i < cs.length)
      (hStart : s.start = offset + utf8Len (cs.take i)) :
      Tells offset position cs (.unmatched (position + i)) (.error s)

theorem Tells.cons {b : Balance} {r : Except Span Nat}
    (h : Tells (offset + c.utf8Size) (position + 1) cs b r) :
    Tells offset position (c :: cs) b r := by
  cases h with
  | balanced => exact .balanced
  | incomplete depth => exact .incomplete depth
  | @unmatched i s hIndex hStart =>
    have hPlace : position + 1 + i = position + (i + 1) := by omega
    rw [hPlace]
    refine .unmatched (Nat.succ_lt_succ hIndex) ?_
    rw [hStart, List.take_succ_cons, String.utf8Len_cons]
    omega

/-- **The check of the characters counts the brackets of the tokens.** -/
theorem tells_ofCharsFrom (offset position depth : Nat) (cs : List Char) :
    Tells offset position cs (ofCharsFrom position depth cs)
      (Token.openBehind depth ((Lexeme.ofChars offset cs).map Token.ofLexeme)) := by
  induction cs generalizing offset position depth with
  | nil =>
    cases depth with
    | zero => exact .balanced
    | succ depth => exact .incomplete depth
  | cons c cs ih =>
    have hPuts := Lexeme.puts_ofChars offset c cs
    have hRest := ih (offset + c.utf8Size) (position + 1)
    generalize Lexeme.ofChars (offset + c.utf8Size) cs = ls at hPuts hRest
    generalize Lexeme.ofChars offset (c :: cs) = all at hPuts ⊢
    cases hPuts with
    | blank hMark hBlank =>
      rw [ofCharsFrom_of_noMark hMark]
      exact (hRest depth).cons
    | grow hChar hStart =>
      rw [ofCharsFrom_of_noMark hChar.1]
      exact (hRest depth).cons
    | begin hChar hApart =>
      rw [ofCharsFrom_of_noMark hChar.1]
      exact (hRest depth).cons
    | @mark ls m hMark =>
      rw [Mark.ofChar?.eq_def] at hMark
      split at hMark <;> cases hMark
      · exact (hRest (depth + 1)).cons
      · cases depth with
        | zero => exact .unmatched (i := 0) (Nat.succ_pos _) rfl
        | succ depth => exact (hRest depth).cons
      · rw [ofCharsFrom_other (by decide) (by decide)]
        exact (hRest depth).cons

/-! ### Blanks around a text -/

/-- Whether brackets are balanced does not depend on blanks, nor on where the counting starts. -/
theorem ofCharsFrom_filter (position' : Nat) :
    ofCharsFrom position depth cs = .balanced ↔
      ofCharsFrom position' depth (cs.filter fun c => !Text.isBlank c) = .balanced := by
  induction cs generalizing position position' depth with
  | nil => rfl
  | cons c cs ih =>
    by_cases hOpening : c = '('
    · subst hOpening
      exact ih (position' + 1)
    by_cases hClosing : c = ')'
    · subst hClosing
      cases depth with
      | zero => exact ⟨nofun, nofun⟩
      | succ depth => exact ih (position' + 1)
    rw [ofCharsFrom_other hOpening hClosing, List.filter_cons]
    split
    · rw [ofCharsFrom_other hOpening hClosing]
      exact ih (position' + 1)
    · exact ih position'

theorem filter_dropWhile (cs : List Char) :
    ((cs.dropWhile Text.isBlank).filter fun c => !Text.isBlank c) =
      cs.filter fun c => !Text.isBlank c := by
  induction cs with
  | nil => rfl
  | cons c cs ih => by_cases hBlank : Text.isBlank c <;> simp [hBlank, ih]

/-- Balanced brackets are balanced without the blanks around them. -/
theorem ofChars_trim (h : ofChars cs = .balanced) : ofChars (Text.trim cs) = .balanced := by
  rw [ofChars, ofCharsFrom_filter 0] at h ⊢
  rwa [Text.trim, List.filter_reverse, filter_dropWhile, List.filter_reverse, List.reverse_reverse,
    filter_dropWhile]

/-! ### The check and the reading -/

theorem utf8Len_take_lt {i j : Nat} (hIndex : i < j) (hLength : j ≤ cs.length) :
    utf8Len (cs.take i) < utf8Len (cs.take j) := by
  induction cs generalizing i j with
  | nil =>
    rw [List.length_nil] at hLength
    omega
  | cons c cs ih =>
    cases j with
    | zero => omega
    | succ j =>
      have hSize := c.utf8Size_pos
      cases i with
      | zero =>
        rw [List.take_succ_cons, String.utf8Len_cons]
        exact Nat.add_pos_right _ hSize
      | succ i =>
        have hTail := ih (Nat.lt_of_succ_lt_succ hIndex) (Nat.le_of_succ_le_succ hLength)
        rw [List.take_succ_cons, List.take_succ_cons, String.utf8Len_cons, String.utf8Len_cons]
        omega

/-- Characters that start at the same byte are one character. -/
theorem eq_of_utf8Len_take {i j : Nat} (hi : i < cs.length) (hj : j < cs.length)
    (h : utf8Len (cs.take i) = utf8Len (cs.take j)) : i = j := by
  rcases Nat.lt_trichotomy i j with hLess | hSame | hMore
  · have := utf8Len_take_lt hLess (Nat.le_of_lt hj)
    omega
  · exact hSame
  · have := utf8Len_take_lt hMore (Nat.le_of_lt hi)
    omega

/-- What the check says of a text, and how the text is read. -/
inductive Agrees (text : String) : Balance → Except ParseError (List Node) → Prop
  | incomplete (s : Span) : Agrees text .incomplete (.error ⟨.unclosedOpening, s⟩)
  | unmatched {i : Nat} {s : Span} (hIndex : i < text.toList.length)
      (hStart : s.start = utf8Len (text.toList.take i)) :
      Agrees text (.unmatched i) (.error ⟨.unmatchedClosing, s⟩)
  | dangling (s : Span) : Agrees text .balanced (.error ⟨.danglingQuote, s⟩)
  | read (program : List Node) : Agrees text .balanced (.ok program)

theorem agrees_ofString (text : String) :
    Agrees text (ofChars text.toList) (Program.ofString text) := by
  have hTells := tells_ofCharsFrom 0 0 0 text.toList
  have hJudged := Program.judged_ofTokens (Token.ofString text)
  change Tells 0 0 text.toList (ofChars text.toList)
    (Token.openBehind 0 (Token.ofString text)) at hTells
  change Program.Judged _ (Program.ofString text) at hJudged
  generalize Token.openBehind 0 (Token.ofString text) = count at hTells hJudged
  generalize ofChars text.toList = b at hTells ⊢
  generalize Program.ofString text = r at hJudged ⊢
  cases hTells with
  | balanced =>
    cases hJudged with
    | dangling s => exact .dangling s
    | read program => exact .read program
  | incomplete depth =>
    cases hJudged with
    | unclosed _ s => exact .incomplete s
  | @unmatched i s hIndex hStart =>
    cases hJudged
    rw [Nat.zero_add] at hStart ⊢
    exact .unmatched hIndex hStart

/-- **The check of brackets and the reading agree on every text.**  It is incomplete just when the
text ends inside a list; a closing bracket is unmatched just when reading fails at it; and brackets
are balanced just when the text is read, or fails for another reason.  So what the check lets
through never fails by its brackets when it is run, with or without the blanks around it. -/
theorem check_agrees_with_reading (text : String) :
    (ofChars text.toList = .incomplete ↔
      ∃ e, Program.ofString text = .error e ∧ e.fault = .unclosedOpening) ∧
    (∀ i, ofChars text.toList = .unmatched i ↔ i < text.toList.length ∧
      ∃ e, Program.ofString text = .error e ∧ e.fault = .unmatchedClosing ∧
        e.span.start = utf8Len (text.toList.take i)) ∧
    (ofChars text.toList = .balanced ↔ (∃ program, Program.ofString text = .ok program) ∨
      ∃ e, Program.ofString text = .error e ∧ e.fault = .danglingQuote) ∧
    (ofChars text.toList = .balanced → ∀ (s : Session) (e : ParseError),
      (s.runText text).1 = .error (.parse e) ∨
        (s.runText (String.ofList (Text.trim text.toList))).1 = .error (.parse e) →
      e.fault = .danglingQuote) := by
  have hAgrees := agrees_ofString text
  refine ⟨?_, fun i => ?_, ?_, ?_⟩
  · generalize ofChars text.toList = b at hAgrees
    generalize Program.ofString text = r at hAgrees
    cases hAgrees <;> simp
  · generalize ofChars text.toList = b at hAgrees
    generalize Program.ofString text = r at hAgrees
    cases hAgrees with
    | @unmatched j s hIndex hStart =>
      constructor
      · intro h
        cases h
        exact ⟨hIndex, _, rfl, rfl, hStart⟩
      · rintro ⟨hi, e, hError, -, hPlace⟩
        cases hError
        rw [eq_of_utf8Len_take hIndex hi (hStart.symm.trans hPlace)]
    | _ => simp
  · generalize ofChars text.toList = b at hAgrees
    generalize Program.ofString text = r at hAgrees
    cases hAgrees <;> simp
  · have hBalanced : ∀ (source : String) (s : Session) (e : ParseError),
        ofChars source.toList = .balanced → (s.runText source).1 = .error (.parse e) →
          e.fault = .danglingQuote := by
      intro source s e hBalanced hError
      have hSource := agrees_ofString source
      rw [hBalanced, Session.runText_eq_parse.1 hError] at hSource
      cases hSource
      rfl
    rintro h s e (hError | hError)
    · exact hBalanced text s e h hError
    · refine hBalanced _ s e ?_ hError
      rw [String.toList_ofList]
      exact ofChars_trim h

end Repl.Balance

end PostLisp

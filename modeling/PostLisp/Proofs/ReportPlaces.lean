import PostLisp.Proofs.WithinText
import PostLisp.Report

/-!
# Where reports point

The place of a character is told by the lines of its text: how many stand before its line, and how
many characters stand before it on its line (`Text.StandsAt`, which `Text.placeAt` finds).  The span
of an error counts bytes, and a report takes the counts for counts of characters.  So a report shows
the place of its error just when all characters before the error have one byte, and the span does
not end too far behind the text; with longer characters before it, the place of a later character is
shown, or none (`Session.report_place_iff`).
-/

namespace PostLisp

open String (utf8Len)

namespace Text

/-- The lines of a text, each with the characters that end it. -/
def lines : List Char → List (List Char)
  | [] => []
  | c :: cs =>
    match lines cs with
    | [] => [[c]]
    | l :: ls => if endsLine c cs then [c] :: l :: ls else (c :: l) :: ls

/-- The place of the character `c` of a text, in lines and columns counted from one. -/
def StandsAt (before : List Char) (c : Char) (behind : List Char) (p : Place) : Prop :=
  ∃ earlier left right later,
    lines (before ++ c :: behind) = earlier ++ (left ++ c :: right) :: later ∧
    before = earlier.flatten ++ left ∧ p = ⟨earlier.length + 1, left.length + 1⟩

/-- The place behind `earlier` lines and `left` on the next one, when the first of these lines goes
on from `p`. -/
def Place.behind (p : Place) (earlier : List (List Char)) (left : List Char) : Place :=
  match earlier with
  | [] => ⟨p.line, p.column + left.length⟩
  | _ :: _ => ⟨p.line + earlier.length, left.length + 1⟩

variable {p q : Place} {c : Char} {cs before behind left right : List Char}
  {earlier later : List (List Char)}

theorem flatten_lines (cs : List Char) : (lines cs).flatten = cs := by
  induction cs with
  | nil => rfl
  | cons c cs ih =>
    rw [lines]
    split
    · rename_i hLines
      rw [hLines] at ih
      rw [← ih]
      rfl
    · rename_i l ls hLines
      rw [hLines] at ih
      split <;> simpa using ih

/-! ### Walking along the lines -/

theorem lines_ne_nil (h : cs ≠ []) : lines cs ≠ [] := by
  intro hNone
  have hText := flatten_lines cs
  rw [hNone] at hText
  exact h hText.symm

/-- A character before a text is on a line of its own, and the text starts the next one, or it is on
the first line of the text. -/
theorem lines_cons_cases (p : Place) (d : Char) (cs : List Char) :
    cs = [] ∧ lines (d :: cs) = [[d]] ∨ ∃ l ls, lines cs = l :: ls ∧
      (p.advance d cs = ⟨p.line + 1, 1⟩ ∧ lines (d :: cs) = [d] :: l :: ls ∨
        p.advance d cs = ⟨p.line, p.column + 1⟩ ∧ lines (d :: cs) = (d :: l) :: ls) := by
  rw [lines, Place.advance]
  cases cs with
  | nil => exact Or.inl ⟨rfl, rfl⟩
  | cons c cs =>
    obtain ⟨l, ls, hLines⟩ := List.exists_cons_of_ne_nil (lines_ne_nil (List.cons_ne_nil c cs))
    refine Or.inr ⟨l, ls, hLines, ?_⟩
    rw [hLines]
    cases endsLine d (c :: cs) with
    | true => exact Or.inl ⟨rfl, rfl⟩
    | false => exact Or.inr ⟨rfl, rfl⟩

/-- **Going along a text goes along its lines.** -/
theorem after_of_lines (hLines : lines cs = earlier ++ (left ++ c :: right) :: later) :
    p.after cs (earlier.flatten ++ left).length = some (p.behind earlier left) := by
  induction cs generalizing p earlier left with
  | nil => exact absurd hLines.symm (List.append_ne_nil_of_right_ne_nil _ (List.cons_ne_nil _ _))
  | cons d cs ih =>
    -- where the walk goes on behind `d`, and along which lines
    have hOn : ∀ p' es ls, p.advance d cs = p' → lines cs = es ++ (ls ++ c :: right) :: later →
        (p.advance d cs).after cs (es.flatten ++ ls).length = some (p'.behind es ls) := by
      rintro p' es ls rfl hRest
      exact ih hRest
    rcases lines_cons_cases p d cs with
      ⟨-, hOnly⟩ | ⟨l, ls, hRest, ⟨hStep, hFirst⟩ | ⟨hStep, hFirst⟩⟩
    · rw [hOnly] at hLines
      cases earlier with
      | nil =>
        cases left with
        | nil => rfl
        | cons e left => simp at hLines
      | cons e earlier => simp at hLines
    · rw [hFirst] at hLines
      rw [hRest] at hOn
      cases earlier with
      | nil =>
        cases left with
        | nil => rfl
        | cons e left => simp at hLines
      | cons e earlier =>
        obtain ⟨rfl, hTail⟩ := List.cons.inj hLines
        refine (hOn _ _ _ hStep hTail).trans ?_
        cases earlier <;> simp [Place.behind] <;> omega
    · rw [hFirst] at hLines
      rw [hRest] at hOn
      cases earlier with
      | nil =>
        cases left with
        | nil => rfl
        | cons e left =>
          obtain ⟨hLine, rfl⟩ := List.cons.inj hLines
          obtain ⟨rfl, rfl⟩ := List.cons.inj hLine
          refine (hOn _ [] _ hStep rfl).trans ?_
          simp [Place.behind]
          omega
      | cons e earlier =>
        obtain ⟨rfl, rfl⟩ := List.cons.inj hLines
        refine (hOn _ (l :: earlier) _ hStep rfl).trans ?_
        simp [Place.behind]

/-- Every character stands somewhere on one of the lines. -/
theorem exists_standsAt (before : List Char) (c : Char) (behind : List Char) :
    ∃ p, StandsAt before c behind p := by
  rcases List.flatten_eq_append_iff.1 (flatten_lines (before ++ c :: behind)) with
    ⟨earlier, others, hLines, hBefore, hBehind⟩ |
    ⟨earlier, left, d, right, later, hLines, hBefore, hBehind⟩
  · obtain ⟨empty, right, later, rfl, hEmpty, -⟩ := List.flatten_eq_cons_iff.1 hBehind.symm
    refine ⟨_, earlier ++ empty, [], right, later, by simpa using hLines, ?_, rfl⟩
    rw [List.flatten_append, List.flatten_eq_nil_iff.2 hEmpty, hBefore]
    simp
  · cases hBehind
    exact ⟨_, earlier, left, right, later, hLines, hBefore, rfl⟩

/-- **The place of a character** is where its lines tell that it is. -/
theorem standsAt_iff :
    StandsAt before c behind p ↔ placeAt (before ++ c :: behind) before.length = some p := by
  have hPlace : ∀ {q}, StandsAt before c behind q →
      placeAt (before ++ c :: behind) before.length = some q := by
    rintro q ⟨earlier, left, right, later, hLines, hBefore, rfl⟩
    have hWalk := after_of_lines (p := .first) hLines
    rw [← hBefore] at hWalk
    rw [placeAt, hWalk]
    cases earlier <;> simp [Place.behind, Place.first, Nat.add_comm]
  refine ⟨hPlace, fun h => ?_⟩
  obtain ⟨q, hStands⟩ := exists_standsAt before c behind
  obtain rfl : p = q := Option.some.inj (h.symm.trans (hPlace hStands))
  exact hStands

/-! ### Two places of a text -/

/-- Further on in the text is further down, or further to the right on the same line. -/
theorem after_later {n : Nat} (h : p.after cs n = some q) :
    p.line < q.line ∨ q.line = p.line ∧ q.column = p.column + n := by
  induction cs generalizing p n with
  | nil =>
    cases n with
    | zero =>
      cases h
      exact Or.inr ⟨rfl, rfl⟩
    | succ n => cases h
  | cons c cs ih =>
    cases n with
    | zero =>
      cases h
      exact Or.inr ⟨rfl, rfl⟩
    | succ n =>
      have hRest : (p.advance c cs).after cs n = some q := h
      have hLater := ih hRest
      rw [Place.advance] at hLater
      split at hLater <;> simp only at hLater <;> omega

/-- No two characters of a text have one place. -/
theorem eq_of_after {m n : Nat} (h : p.after cs m = some q) (h' : p.after cs n = some q) :
    m = n := by
  induction cs generalizing p m n with
  | nil =>
    have hEnd : ∀ k, p.after [] k = some q → k = 0 := by
      rintro (_ | k) hk
      · rfl
      · cases hk
    rw [hEnd m h, hEnd n h']
  | cons c cs ih =>
    have hBehind := after_later h
    have hBehind' := after_later h'
    cases m with
    | zero =>
      cases h
      omega
    | succ m =>
      cases n with
      | zero =>
        cases h'
        omega
      | succ n => rw [ih h h']

end Text

/-! ### The characters before an error -/

theorem length_le_utf8Len (cs : List Char) : cs.length ≤ utf8Len cs := by
  induction cs with
  | nil => exact Nat.le_refl 0
  | cons c cs ih =>
    have hSize := c.utf8Size_pos
    rw [List.length_cons, String.utf8Len_cons]
    omega

/-- Characters have as many bytes as there are of them just when each has one. -/
theorem utf8Len_eq_length_iff {cs : List Char} :
    utf8Len cs = cs.length ↔ ∀ c ∈ cs, c.utf8Size = 1 := by
  induction cs with
  | nil => exact iff_of_true rfl nofun
  | cons c cs ih =>
    have hSize := c.utf8Size_pos
    have hLe := length_le_utf8Len cs
    rw [List.forall_mem_cons, ← ih, String.utf8Len_cons, List.length_cons]
    omega

/-- A stretch of a text starts at one of its characters. -/
theorem Span.StretchOf.exists_char {s : Span} {text : String} (h : s.StretchOf text) :
    ∃ before c behind, text.toList = before ++ c :: behind ∧ utf8Len before = s.start := by
  obtain ⟨before, rest, rfl, hStart⟩ := String.Pos.Raw.isValid_iff_exists_append.1 h.start_valid
  have hBytes : s.start = before.utf8ByteSize := congrArg String.Pos.Raw.byteIdx hStart
  cases hRest : rest.toList with
  | nil =>
    have hNonempty := h.nonempty
    have hWithin := h.within
    rw [String.toList_eq_nil_iff.1 hRest, String.append_empty] at hWithin
    omega
  | cons c behind =>
    exact ⟨before.toList, c, behind, by simp [hRest], by simp [hBytes]⟩

namespace Session

/-- What goes wrong in the first text of a session goes wrong in a stretch of this text. -/
theorem stretchOf_of_error {options : Options} {text : String} {e : RunError}
    (h : ((new options).runText text).1 = .error e) : e.span.StretchOf text := by
  cases e with
  | parse p =>
    obtain ⟨t, hToken, hSpan⟩ := Program.span_of_ofString_error (runText_eq_parse.1 h)
    have hStretch := Token.stretchOf hToken
    rwa [hSpan] at hStretch
  | eval x =>
    have hNew : (new options).Located (Program.HasSpan text) := located_new options
    exact ((runText_located hNew fun _ hSpan => hSpan).2 x h).stretchOf

/-- **A report shows the place of its error** just when all characters before the error have one
byte and the span, whose bytes count as characters, ends at most one character behind the text.
With `n` bytes before the error, whatever their characters, it is the place of the character with
index `n` that is shown. -/
theorem report_place_iff (options : Options) (text : String) {e : RunError}
    (h : ((new options).runText text).1 = .error e) :
    ∃ before c behind p, text.toList = before ++ c :: behind ∧ utf8Len before = e.span.start ∧
      Text.StandsAt before c behind p ∧
      ((e.report text).place = some p ↔
        (∀ d ∈ before, d.utf8Size = 1) ∧ e.span.stop ≤ text.length + 1) ∧
      ∀ before' c' behind', text.toList = before' ++ c' :: behind' →
        before'.length = utf8Len before → e.span.stop ≤ text.length + 1 →
        ∃ q, Text.StandsAt before' c' behind' q ∧ (e.report text).place = some q := by
  obtain ⟨before, c, behind, hText, hStart⟩ := (stretchOf_of_error h).exists_char
  obtain ⟨p, hStands⟩ := Text.exists_standsAt before c behind
  have hReport : (e.report text).place = if e.span.stop ≤ text.length + 1
      then Text.placeAt text.toList (utf8Len before) else none := by
    rw [hStart, ← String.length_toList]
    rfl
  refine ⟨before, c, behind, p, hText, hStart, hStands, ?_, ?_⟩
  · have hPlace := Text.standsAt_iff.1 hStands
    rw [← hText] at hPlace
    rw [hReport, ← utf8Len_eq_length_iff]
    split
    · rename_i hEnd
      refine ⟨fun hShown => ⟨Text.eq_of_after hShown hPlace, hEnd⟩, fun ⟨hBytes, _⟩ => ?_⟩
      rw [hBytes, hPlace]
    · rename_i hEnd
      exact iff_of_false nofun fun hBoth => hEnd hBoth.2
  · intro before' c' behind' hText' hIndex hEnd
    obtain ⟨q, hStands'⟩ := Text.exists_standsAt before' c' behind'
    refine ⟨q, hStands', ?_⟩
    rw [hReport, if_pos hEnd, ← hIndex, hText']
    exact Text.standsAt_iff.1 hStands'

/-- An error on the second line of a text of one-byte characters is shown where it is. -/
theorem report_place_iff_second_line :
    let text := "(1\n (2 y +)\n +)"
    ∃ e, ((new .standard).runText text).1 = .error e ∧
      ∃ before c behind p, text.toList = before ++ c :: behind ∧ utf8Len before = e.span.start ∧
        Text.StandsAt before c behind p ∧ (e.report text).place = some p := by
  intro text
  have hFails : error? ((new .standard).runText text).1 = some (.eval ⟨.unbound "y", ⟨7, 8⟩⟩) := by
    decide +kernel
  have hError := eq_error_of_error? hFails
  obtain ⟨before, c, behind, p, hText, hStart, hStands, hShown, -⟩ :=
    report_place_iff .standard text hError
  refine ⟨_, hError, before, c, behind, p, hText, hStart, hStands, hShown.2 ⟨?_, by decide⟩⟩
  have hBytes : ∀ d ∈ text.toList, d.utf8Size = 1 := utf8Len_eq_length_iff.1 (by decide)
  rw [hText] at hBytes
  exact fun d hMem => hBytes d (List.mem_append_left _ hMem)

/-- The symbol `zed` stands at the fourth column of the second line, and is reported at the eighth:
the two characters of three bytes before it count three times. -/
theorem report_misplaced :
    let text := "(日 1 define)\n(日 zed +)                    \n"
    ∃ e, ((new .standard).runText text).1 = .error e ∧
      ∃ before c behind, text.toList = before ++ c :: behind ∧ utf8Len before = e.span.start ∧
        Text.StandsAt before c behind ⟨2, 4⟩ ∧ (e.report text).place = some ⟨2, 8⟩ := by
  intro text
  have hFails : error? ((new .standard).runText text).1 =
      some (.eval ⟨.unbound "zed", ⟨20, 23⟩⟩) := by decide +kernel
  refine ⟨_, eq_error_of_error? hFails, text.toList.take 16, 'z', text.toList.drop 17, ?_⟩
  simp only [Text.standsAt_iff]
  decide +kernel

end Session

end PostLisp

import Mathlib.Data.List.Infix
import PostLisp.Proofs.ErrorSpans
import PostLisp.Proofs.Slices

/-!
# Errors of a single text

The span of a token or a node is a stretch of the text that it was read from: some bytes of it, from
one boundary of characters to another (`Token.stretchOf`, `Program.HasSpan.stretchOf`).  A session
that has run nothing yet holds no nodes of another text, so what goes wrong in its first text is
blamed on a token or a node of this very text, and the error points at some of its characters.
-/

namespace PostLisp

/-- The span has bytes, ends within the text, and cuts no character of it. -/
structure Span.StretchOf (s : Span) (text : String) : Prop where
  nonempty : s.start < s.stop
  within : s.stop ≤ text.utf8ByteSize
  start_valid : String.Pos.Raw.IsValid text ⟨s.start⟩
  stop_valid : String.Pos.Raw.IsValid text ⟨s.stop⟩

theorem Span.Marks.stretchOf {s : Span} {text slice : String} (h : s.Marks text slice)
    (hSlice : slice ≠ "") : s.StretchOf text := by
  obtain ⟨before, behind, rfl, hStart, hStop⟩ := h
  have hBytes : 0 < slice.utf8ByteSize :=
    Nat.pos_of_ne_zero fun h => hSlice (String.utf8ByteSize_eq_zero_iff.1 h)
  have hSize : (before ++ slice).utf8ByteSize = before.utf8ByteSize + slice.utf8ByteSize :=
    String.utf8ByteSize_append
  refine ⟨by omega, ?_, ?_, ?_⟩
  · rw [String.utf8ByteSize_append]
    omega
  · refine String.Pos.Raw.isValid_iff_exists_append.2 ⟨before, slice ++ behind, ?_, ?_⟩
    · exact String.append_assoc
    · exact String.Pos.Raw.ext hStart.symm
  · refine String.Pos.Raw.isValid_iff_exists_append.2 ⟨before ++ slice, behind, rfl, ?_⟩
    exact String.Pos.Raw.ext hStop.symm

namespace Token

variable {text : String}

/-- Tokens in a row take up a stretch of the text. -/
theorem stretchOf_run {us : List Token} {first last : Token} (hRun : us <:+: ofString text)
    (hFirst : us.head? = some first) (hLast : us.getLast? = some last) :
    Span.StretchOf ⟨first.span.start, last.span.stop⟩ text := by
  obtain ⟨slice, hMarks, hTokens⟩ := exists_slice hRun hFirst hLast
  refine hMarks.stretchOf ?_
  rintro rfl
  -- the empty text has no tokens
  have hNone : us = [] := hTokens
  rw [hNone] at hFirst
  cases hFirst

theorem stretchOf {t : Token} (h : t ∈ ofString text) : t.span.StretchOf text :=
  stretchOf_run ((List.singleton_infix_iff t _).2 h) rfl rfl

end Token

/-- **The span of a node is a stretch of its text**, also that of a symbol that stands for a quote
mark. -/
theorem Program.HasSpan.stretchOf {text : String} {span : Span} (h : Program.HasSpan text span) :
    span.StretchOf text := by
  obtain ⟨program, hRead, m, hMem, n, hPart, rfl⟩ := h
  obtain ⟨us, hRun, hSpelt⟩ := (Program.spelt_of_ofTokens hRead).mem (List.mem_reverse.2 hMem)
  rcases hPart.spelt hSpelt with hInserted | ⟨vs, hPartRun, hPartSpelt⟩
  · obtain ⟨s, hMark, rfl⟩ := hInserted
    exact Token.stretchOf (hRun.subset hMark)
  · have hTokens := hPartRun.trans hRun
    obtain ⟨⟨first, hFirst, hStart⟩, last, hLast, hStop⟩ :=
      hPartSpelt.ends ((Token.ofString_ordered text).sublist hTokens.sublist)
    have hStretch := Token.stretchOf_run hTokens hFirst hLast
    rwa [hStart, hStop] at hStretch

namespace Session

/-- **An error of a single text points into it.**  The first text that a session runs fails at one
of its tokens, if it cannot be read, and else at one of its nodes, whatever functions were called
on the way and whatever was remembered of them; so the error is at some of its characters. -/
theorem first_error_located (options : Options) (text : String) {e : RunError}
    (h : ((new options).runText text).1 = .error e) :
    ((∃ p, e = .parse p ∧ ∃ t ∈ Token.ofString text, t.span = p.span) ∨
      ∃ x, e = .eval x ∧ Program.HasSpan text x.span) ∧ e.span.StretchOf text := by
  cases e with
  | parse p =>
    obtain ⟨t, hToken, hSpan⟩ := Program.span_of_ofString_error (runText_eq_parse.1 h)
    refine ⟨Or.inl ⟨p, rfl, t, hToken, hSpan⟩, ?_⟩
    show p.span.StretchOf text
    rw [← hSpan]
    exact Token.stretchOf hToken
  | eval x =>
    have hNew : (new options).Located (Program.HasSpan text) := located_new options
    have hSpan : Program.HasSpan text x.span := (runText_located hNew fun _ hSpan => hSpan).2 x h
    exact ⟨Or.inr ⟨x, rfl, hSpan⟩, hSpan.stretchOf⟩

/-- A division by zero in a function made by another one; the call that makes it is answered from
the cache, and a character of two bytes stands before it. -/
theorem first_error_located_inner :
    ∃ x, ((new .standard).runText
        "(é ((n) ((m) (m n /) lambda) lambda) define) (0 é) (7 (0 é))").1 = .error (.eval x) ∧
      x.fault = .divisionByZero ∧ x.span = ⟨14, 21⟩ ∧
      Program.HasSpan "(é ((n) ((m) (m n /) lambda) lambda) define) (0 é) (7 (0 é))" x.span ∧
      x.span.StretchOf "(é ((n) ((m) (m n /) lambda) lambda) define) (0 é) (7 (0 é))" := by
  have hFails : error? ((new .standard).runText
      "(é ((n) ((m) (m n /) lambda) lambda) define) (0 é) (7 (0 é))").1 =
        some (.eval ⟨.divisionByZero, ⟨14, 21⟩⟩) := by decide +kernel
  have hError := eq_error_of_error? hFails
  obtain ⟨⟨p, hParse, -⟩ | ⟨x, hEval, hSpan⟩, hStretch⟩ := first_error_located _ _ hError
  · cases hParse
  · cases hEval
    exact ⟨_, hError, rfl, rfl, hSpan, hStretch⟩

end Session

end PostLisp

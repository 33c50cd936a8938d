import PostLisp.Proofs.Grammar
import PostLisp.Proofs.Registered

/-!
# Where errors point

A text that cannot be read fails at one of its tokens.  An error of evaluation points at a node
that was being evaluated; this is a node of the text itself or, in the body of a function, a node
of the text that the function was read from, which may be an earlier one.  `located` compares a run
with itself and keeps track of these nodes: every function that the session can reach, in its
bindings or its cache, has a body at spans of texts that were read so far.
-/

namespace PostLisp

open Eval EvalM

/-! ### Texts that cannot be read -/

namespace Reading

/-- The marks that a reading may still fail at are at spans with a property. -/
structure Marked (P : Span → Prop) (r : Reading) : Prop where
  opening : ∀ l ∈ r.enclosing, P l.opening
  dangling : ∀ s ∈ r.dangling, P s

variable {P : Span → Prop} {r next : Reading} {e : ParseError}

theorem Marked.step (h : r.Marked P) {t : Token} (hToken : P t.span) (hStep : r.step t = .ok next) :
    next.Marked P := by
  rw [Reading.step] at hStep
  split at hStep
  · cases hStep
    exact ⟨h.opening, h.dangling⟩
  · cases hStep
    exact ⟨List.forall_mem_cons.2 ⟨hToken, h.opening⟩, h.dangling⟩
  · rw [closeList] at hStep
    split at hStep
    · cases hStep
    · rename_i l ls hEnclosing
      cases hStep
      have hOpening := h.opening
      rw [hEnclosing] at hOpening
      exact ⟨(List.forall_mem_cons.1 hOpening).2, h.dangling⟩
  · cases hStep
    rw [quoteLast]
    split
    · refine ⟨h.opening, fun s hs => ?_⟩
      have hDangling := h.dangling
      change s ∈ (r.dangling <|> some t.span) at hs
      cases hBefore : r.dangling with
      | none =>
        rw [hBefore] at hs
        cases hs
        exact hToken
      | some s' =>
        rw [hBefore] at hs hDangling
        cases hs
        exact hDangling _ rfl
    · exact ⟨h.opening, h.dangling⟩

theorem step_error {t : Token} (hStep : r.step t = .error e) : e.span = t.span := by
  rw [Reading.step] at hStep
  split at hStep
  · cases hStep
  · cases hStep
  · rw [closeList] at hStep
    split at hStep
    · cases hStep
      rfl
    · cases hStep
  · cases hStep

theorem Marked.foldlM {ts : List Token} (h : r.Marked P) (hTokens : ∀ t ∈ ts, P t.span) :
    (∀ e, ts.foldlM Reading.step r = .error e → P e.span) ∧
      ∀ last, ts.foldlM Reading.step r = .ok last → last.Marked P := by
  induction ts generalizing r with
  | nil =>
    refine ⟨fun e hFail => ?_, fun last hRead => ?_⟩
    · cases hFail
    · cases hRead
      exact h
  | cons t ts ih =>
    obtain ⟨hToken, hTokens⟩ := List.forall_mem_cons.1 hTokens
    rw [List.foldlM_cons]
    cases hStep : r.step t with
    | error e =>
      refine ⟨fun e' hFail => ?_, fun last hRead => by cases hRead⟩
      cases hFail
      rw [step_error hStep]
      exact hToken
    | ok next => exact ih (h.step hToken hStep) hTokens

theorem Marked.finish (h : r.Marked P) (hFail : r.finish = .error e) : P e.span := by
  rw [Reading.finish] at hFail
  split at hFail
  · rename_i l ls hEnclosing
    cases hFail
    exact h.opening l (hEnclosing ▸ List.mem_cons_self)
  · split at hFail
    · rename_i s hDangling
      cases hFail
      exact h.dangling s hDangling
    · cases hFail

end Reading

/-- **A text that cannot be read fails at one of its tokens.** -/
theorem Program.span_of_ofString_error {text : String} {e : ParseError}
    (h : Program.ofString text = .error e) : ∃ t ∈ Token.ofString text, t.span = e.span := by
  have hMarked : Reading.start.Marked fun s => ∃ t ∈ Token.ofString text, t.span = s :=
    ⟨nofun, nofun⟩
  have hTokens : ∀ t ∈ Token.ofString text, ∃ u ∈ Token.ofString text, u.span = t.span :=
    fun t ht => ⟨t, ht, rfl⟩
  obtain ⟨hFail, hRead⟩ := hMarked.foldlM hTokens
  change ((Token.ofString text).foldlM Reading.step Reading.start >>= Reading.finish) = _ at h
  cases hFold : (Token.ofString text).foldlM Reading.step Reading.start with
  | error e' =>
    rw [hFold] at h
    cases h
    exact hFail _ hFold
  | ok r =>
    rw [hFold] at h
    exact (hRead r hFold).finish h

/-! ### Nodes at spans -/

/-- The span is that of a node, at any depth, of what the text is read as. -/
def Program.HasSpan (text : String) (span : Span) : Prop :=
  ∃ program, Program.ofString text = .ok program ∧
    ∃ m ∈ program, ∃ n : Node, n.Part m ∧ n.span = span

/-- The spans are the same, and among those with a property. -/
def Span.Among (P : Span → Prop) (s s' : Span) : Prop := s = s' ∧ P s'

namespace Node

variable {P : Span → Prop}

mutual

theorem like_among : (m : Node) → (∀ n : Node, n.Part m → P n.span) → Like True (Span.Among P) m m
  | .atom _ _, h => .atom (fun _ _ => trivial) ⟨rfl, h _ .self⟩
  | .list items _, h =>
    .list (fun _ => trivial) (likeAll_among items fun _ hm n hPart => h n (.item hm hPart))
      ⟨rfl, h _ .self⟩

theorem likeAll_among : (ms : List Node) → (∀ m ∈ ms, ∀ n : Node, n.Part m → P n.span) →
    LikeAll True (Span.Among P) ms ms
  | [], _ => .nil
  | m :: ms, h =>
    .cons (like_among m (h m List.mem_cons_self))
      (likeAll_among ms fun m hm => h m (List.mem_cons_of_mem _ hm))

end

theorem LikeAll.eq_of_among {ns ms : List Node} (h : LikeAll True (Span.Among P) ns ms) : ns = ms := by
  have hSame : LikeAll True Eq ns ms := h.mono fun _ _ hSpan => hSpan.1
  exact hSame.eq

end Node

section

variable (P : Span → Prop)

/-- The functions are the same, and their body is at spans with a property. -/
structure Closure.Located (f g : Closure Value) : Prop where
  same : f = g
  body : Node.LikeAll True (Span.Among P) g.body g.body

/-- All functions in the value are located. -/
abbrev Value.Located (v : Value) : Prop := v.Like True (Closure.Located P) v

/-- All functions that a session can reach are located. -/
structure Session.Located (s : Session) : Prop where
  globals : s.globals.Like True (Closure.Located P) s.globals
  cache : ∀ key v, s.cache.find? key = some v → v.Located P

/-- Equality of states whose functions are located; nothing is pardoned. -/
def located : Correspondence Still where
  floats := True
  spans := Span.Among P
  functions _ := Closure.Located P
  states _ s s' :=
    s' = s ∧ s.session.Located P ∧ s.frame.Like True (Closure.Located P) s.frame
  rooms := Eq
  watch := .never
  pardoned _ := False
  pardoned' _ := False

end

theorem Value.Like.eq_of_located {P : Span → Prop} {v v' : Value}
    (h : v.Like True (Closure.Located P) v') : v = v' := by
  have hSame : v.Like True Eq v' := h.mono fun _ _ hf => hf.same
  exact hSame.eq

theorem Value.LikeAll.eq_of_located {P : Span → Prop} {vs vs' : List Value}
    (h : Value.LikeAll True (Closure.Located P) vs vs') : vs = vs' := by
  have hSame : Value.LikeAll True Eq vs vs' := h.mono fun _ _ hf => hf.same
  exact hSame.eq

namespace Session.Located

variable {P : Span → Prop} {s : Session}

theorem returned (h : s.Located P) (key : Option CallKey) {v : Value} (hValue : v.Located P) :
    (s.returned key v).Located P where
  globals := by cases key <;> exact h.globals
  cache other x hFound := by
    rcases find?_returned hFound with hBefore | ⟨-, rfl⟩
    · exact h.cache other x hBefore
    · exact hValue

end Session.Located

namespace located

variable {P : Span → Prop} {w : Still} {s : EvalState}

theorem outcome_define {name : String} {v : Value} (hValue : v.Located P)
    (h : (located P).states w s s) : (located P).Outcome w (fun _ _ _ => True)
      ((do announce name v; EvalM.define name v : EvalM Unit) s)
      ((do announce name v; EvalM.define name v : EvalM Unit) s) := by
  obtain ⟨session, frame⟩ := s
  obtain ⟨-, hSession, hFrame⟩ := h
  cases frame with
  | top =>
    rw [announce_define_top]
    exact .ok (le_refl w) trivial
      ⟨rfl, ⟨hSession.globals.insert name hValue, hSession.cache⟩, trivial⟩
  | call locals captured =>
    rw [announce_define_call]
    exact .ok (le_refl w) trivial ⟨rfl, hSession, hFrame.1.insert name hValue, hFrame.2⟩

theorem outcome_makeFunction {params : List String} {body : List Node}
    (hBody : Node.LikeAll True (Span.Among P) body body) (h : (located P).states w s s) :
    (located P).Outcome w (located P).Alike (makeFunction params body s)
      (makeFunction params body s) := by
  obtain ⟨-, hSession, hFrame⟩ := h
  rw [makeFunction_apply]
  exact .ok (le_refl w) (.function ⟨rfl, hBody⟩ (hFrame.innermost hSession.globals))
    ⟨rfl, ⟨hSession.globals, hSession.cache⟩, hFrame⟩

theorem outcome_apply {room : Nat} {f : Closure Value} {args : List Value} {span span' : Span}
    (hEv : (located P).Simulates (watchedWithin .never room) (evaluateWithin room))
    (hFunction : f.Located P f) (hCaptured : f.captured.Like True (Closure.Located P) f.captured)
    (hArgs : (located P).AlikeAll w args args) (hSpan : (located P).spans span span')
    (hStates : (located P).states w s s) : (located P).Outcome w (located P).Alike
      (apply (watchedWithin .never room) f args span s) (apply (evaluateWithin room) f args span' s) := by
  obtain ⟨-, hSession, hFrame⟩ := id hStates
  by_cases hArity : args.length = f.params.length
  · cases hFound : (s.session.keyOf f args).bind s.session.cache.find? with
    | some v =>
      obtain ⟨key, -, hCached⟩ := Option.bind_eq_some_iff.1 hFound
      rw [apply_remembered hArity hFound, apply_remembered hArity hFound]
      exact .ok (le_refl w) (hSession.cache key v hCached)
        ⟨rfl, ⟨hSession.globals, hSession.cache⟩, hFrame⟩
    | none =>
      refine Comparison.outcome_apply_run hArity hArity hFound hFound ?_ ?_ ?_
      · exact Comparison.outcome_inOrder hEv hFunction.body .void
          ⟨rfl, ⟨hSession.globals, hSession.cache⟩, Frame.like_closure rfl hCaptured hArgs⟩
      · rintro w' v v' t t' - - - hValue ⟨rfl, hInside, -⟩
        have hSame := hValue.eq_of_located
        subst hSame
        exact ⟨rfl, hInside.returned _ hValue, hFrame⟩
      · rintro w' t t' - ⟨rfl, hInside, -⟩
        exact ⟨rfl, hInside, hFrame⟩
  · exact Comparison.outcome_apply_arity rfl hArgs.length_eq hSpan hStates hArity

theorem laws (P : Span → Prop) : (located P).Laws where
  functions_mono _ h := h
  alarm _ h := by cases h
  rooms_succ h := Nat.succ.inj h
  rooms_zero h := Or.inr ⟨h.symm, fun _ _ _ hStates => by rw [hStates.1]⟩
  rooms_zero' h := by cases h
  enterForm := by
    rintro w s s' ⟨rfl, hSession, hFrame⟩
    exact ⟨rfl, ⟨hSession.globals, hSession.cache⟩, hFrame⟩
  leaveForm := by
    rintro w s s' ⟨rfl, hSession, hFrame⟩
    exact ⟨rfl, ⟨hSession.globals, hSession.cache⟩, hFrame⟩
  lookup := by
    rintro w room n name s s' - - ⟨rfl, hSession, hFrame⟩
    exact .alike (hFrame.lookup hSession.globals name)
  define := by
    rintro w room span target expression operator name s t t' v v' - - - hValue ⟨rfl, hStates⟩
    have hSame := hValue.eq_of_located
    subst hSame
    exact outcome_define hValue ⟨rfl, hStates⟩
  compare := by
    intro w room span left right operator s t u v v' x x' _ _ _ _ hValue hNext
    rw [hValue.eq_of_located, hNext.eq_of_located]
  makeFunction := by
    rintro w params body body' s s' hBody ⟨rfl, hStates⟩
    have hSame := hBody.eq_of_among
    subst hSame
    exact outcome_makeFunction hBody ⟨rfl, hStates⟩
  apply := by
    rintro w room room' f f' args args' span span' s s' rfl hEv hFunction hCaptured hArgs hSpan
      ⟨rfl, hStates⟩
    obtain ⟨rfl, hBody⟩ := hFunction
    have hSame := hArgs.eq_of_located
    subst hSame
    exact outcome_apply (hEv _ rfl) ⟨rfl, hBody⟩ hCaptured hArgs hSpan ⟨rfl, hStates⟩

/-- Evaluation keeps to located functions. -/
theorem simulates_evaluate (P : Span → Prop) : (located P).Simulates evaluate evaluate := by
  rintro n n' hNodes w s s' ⟨rfl, hStates⟩
  have hAll : (located P).Simulates (watchedWithin .never s'.session.room)
      (evaluateWithin s'.session.room) := (laws P).simulates rfl
  rw [watchedWithin_never] at hAll
  exact hAll n n' hNodes w s' s' ⟨rfl, hStates⟩

end located

/-! ### Sessions of several texts -/

namespace Session

variable {P : Span → Prop} {s : Session}

theorem located_new (options : Options) : (new options).Located P :=
  ⟨.nil, fun key v hFound => by
    rw [show (new options).cache = .empty from rfl, Cache.find?_empty] at hFound
    cases hFound⟩

/-- **A program fails at a node**: one of its own, or one that a function of the session holds. -/
theorem run_located {program : List Node} (h : s.Located P)
    (hProgram : ∀ m ∈ program, ∀ n : Node, n.Part m → P n.span) :
    (s.run program).2.Located P ∧ ∀ e, (s.run program).1 = .error e → P e.span := by
  have hStates : (located P).states ⟨⟩ ⟨s, .top⟩ ⟨s, .top⟩ := ⟨rfl, h, trivial⟩
  have hOutcome := Comparison.outcome_inOrder (located.simulates_evaluate P)
    (Node.likeAll_among program hProgram) .void hStates
  rw [run, perform]
  generalize inOrder Eval.evaluate .void program ⟨s, .top⟩ = r at hOutcome
  cases hOutcome with
  | pardoned h => exact h.elim
  | pardoned' h => exact h.elim
  | ok _ _ hStates => exact ⟨hStates.2.1, fun e hError => by cases hError⟩
  | error _ _ hSpan hStates =>
    refine ⟨hStates.2.1, fun e hError => ?_⟩
    cases hError
    exact hSpan.2

theorem runText_located {text : String} (h : s.Located P)
    (hText : ∀ span, Program.HasSpan text span → P span) :
    (s.runText text).2.Located P ∧ ∀ e, (s.runText text).1 = .error (.eval e) → P e.span := by
  rw [runText]
  cases hProgram : Program.ofString text with
  | error e => exact ⟨h, fun e hError => by cases hError⟩
  | ok program =>
    obtain ⟨hAfter, hError⟩ := run_located h fun m hm n hPart =>
      hText n.span ⟨program, hProgram, m, hm, n, hPart, rfl⟩
    refine ⟨hAfter, fun e hFailed => ?_⟩
    dsimp only at hFailed
    cases hResult : (s.run program).1 with
    | ok v =>
      rw [hResult] at hFailed
      cases hFailed
    | error x =>
      rw [hResult] at hFailed
      cases hFailed
      exact hError _ hResult

theorem after_located {texts : List String} (h : s.Located P)
    (hTexts : ∀ text ∈ texts, ∀ span, Program.HasSpan text span → P span) :
    (s.after texts).Located P := by
  induction texts generalizing s with
  | nil => exact h
  | cons text texts ih =>
    obtain ⟨hText, hTexts⟩ := List.forall_mem_cons.1 hTexts
    exact ih (runText_located h hText).1 hTexts

/-- **An error points at what was read.**  Whatever texts a session has run, a text that cannot be
read fails at one of its tokens, and any other that fails does so at a node of its own or of a text
before it. -/
theorem error_located (options : Options) (texts : List String) (text : String) {e : RunError}
    (h : (((new options).after texts).runText text).1 = .error e) :
    (∃ p, e = .parse p ∧ ∃ t ∈ Token.ofString text, t.span = p.span) ∨
      ∃ x, e = .eval x ∧ ∃ source ∈ texts ++ [text], Program.HasSpan source x.span := by
  cases e with
  | parse p =>
    refine Or.inl ⟨p, rfl, Program.span_of_ofString_error ?_⟩
    rw [runText] at h
    cases hProgram : Program.ofString text with
    | error p' =>
      rw [hProgram] at h
      cases h
      rfl
    | ok program =>
      rw [hProgram] at h
      dsimp only at h
      cases hResult : (((new options).after texts).run program).1 <;> rw [hResult] at h <;> cases h
  | eval x =>
    let P : Span → Prop := fun span => ∃ source ∈ texts ++ [text], Program.HasSpan source span
    have hBefore : ((new options).after texts).Located P :=
      after_located (located_new options) fun source hSource span hSpan =>
        ⟨source, List.mem_append_left _ hSource, hSpan⟩
    have hText : ∀ span, Program.HasSpan text span → P span := fun span hSpan =>
      ⟨text, List.mem_append_right _ (List.mem_singleton.2 rfl), hSpan⟩
    exact Or.inr ⟨x, rfl, (runText_located hBefore hText).2 x h⟩

/-- The error that something ended in. -/
def error? {ε α : Type} : Except ε α → Option ε
  | .error e => some e
  | .ok _ => none

theorem eq_error_of_error? {ε α : Type} {r : Except ε α} {e : ε} (h : error? r = some e) :
    r = .error e := by
  cases r <;> cases h
  rfl

/-- A division by zero in the body of a function from an earlier text. -/
theorem error_located_earlier :
    ∃ x, (((new .standard).after ["(f ((n) (n 0 /) lambda) define)"]).runText "(1 f)").1 =
        .error (.eval x) ∧
      ∃ source ∈ ["(f ((n) (n 0 /) lambda) define)", "(1 f)"], Program.HasSpan source x.span := by
  have hFails : error? (((new .standard).after ["(f ((n) (n 0 /) lambda) define)"]).runText
      "(1 f)").1 = some (.eval ⟨.divisionByZero, ⟨8, 15⟩⟩) := by decide +kernel
  rcases error_located _ _ _ (eq_error_of_error? hFails) with ⟨p, hParse, -⟩ | ⟨x, hEval, hSpan⟩
  · cases hParse
  · cases hEval
    exact ⟨_, eq_error_of_error? hFails, hSpan⟩

/-- **An error need not point into the text that fails.**  The division by zero is at bytes 8 to 15
of the earlier text; the text that was run has five bytes. -/
theorem error_beyond_text :
    ∃ x, (((new .standard).after ["(f ((n) (n 0 /) lambda) define)"]).runText "(1 f)").1 =
        .error (.eval x) ∧
      (∀ t ∈ Token.ofString "(1 f)", t.span ≠ x.span) ∧ ¬Program.HasSpan "(1 f)" x.span := by
  have hFails : error? (((new .standard).after ["(f ((n) (n 0 /) lambda) define)"]).runText
      "(1 f)").1 = some (.eval ⟨.divisionByZero, ⟨8, 15⟩⟩) := by decide +kernel
  have hTokens : (Token.ofString "(1 f)").map (·.span) = [⟨0, 1⟩, ⟨1, 2⟩, ⟨3, 4⟩, ⟨4, 5⟩] := by rfl
  refine ⟨_, eq_error_of_error? hFails, fun t ht hSpan => ?_, ?_⟩
  · have hMem := List.mem_map_of_mem (f := (·.span)) ht
    rw [hTokens, hSpan] at hMem
    exact absurd hMem (by decide)
  · rintro ⟨program, hProgram, m, hMem, n, hPart, hSpan⟩
    have hRead : Program.ofString "(1 f)" =
        .ok [.list [.atom (.int 1) ⟨1, 2⟩, .atom (.symbol "f") ⟨3, 4⟩] ⟨0, 5⟩] := by rfl
    cases hProgram.symm.trans hRead
    obtain rfl := List.mem_singleton.1 hMem
    cases hPart with
    | self => cases hSpan
    | item hItem hPart =>
      simp only [List.mem_cons, List.not_mem_nil, or_false] at hItem
      rcases hItem with rfl | rfl <;> cases hPart.of_atom <;> cases hSpan

end Session

end PostLisp

import PostLisp.Syntax.Program

/-!
# Which token a reading fails at

A text that cannot be read can be faulty in several places.  Which of them is reported can be told
from its tokens laid out flat, without the stack of open lists: the first closing bracket too many
goes before everything else, then the last opening bracket that is never closed, then the first
quote mark that starts the text or a list (`ofTokens_offender`).

A reading stands behind some tokens (`Reading.Behind`) when they are balanced stretches, apart by
the opening brackets on its stack, and when it has noted the first misplaced quote mark of them.
-/

namespace PostLisp

namespace Token

def isMark (m : Mark) (t : Token) : Bool :=
  match t.kind with
  | .mark m' => m' == m
  | .atom _ => false

/-- How many of the tokens are the mark. -/
def count (m : Mark) (ts : List Token) : Nat := ts.countP (isMark m)

/-- There are more closing brackets than opening ones. -/
def Overclosed (ts : List Token) : Prop := count .opening ts < count .closing ts

/-- From left to right, every closing bracket has a list to close. -/
def NeverOverclosed (ts : List Token) : Prop := ∀ p, p <+: ts → ¬ Overclosed p

/-- The token opens a list that the tokens behind it do not close. -/
def Unclosed (t : Token) (after : List Token) : Prop :=
  t.kind = .mark .opening ∧ NeverOverclosed after

/-- No token stands before this place in its list. -/
def AtStart (before : List Token) : Prop :=
  before = [] ∨ ∃ earlier t, before = earlier ++ [t] ∧ t.kind = .mark .opening

/-- The token is a quote mark that comes first, or directly after an opening bracket. -/
def Misplaced (before : List Token) (t : Token) : Prop := t.kind = .mark .quote ∧ AtStart before

def NoneMisplaced (ts : List Token) : Prop :=
  ∀ before t after, ts = before ++ t :: after → ¬ Misplaced before t

def NoneUnclosed (ts : List Token) : Prop :=
  ∀ before t after, ts = before ++ t :: after → ¬ Unclosed t after

/-- Every list that is opened is closed, and no other. -/
structure Balanced (ts : List Token) : Prop where
  neverOverclosed : NeverOverclosed ts
  count_eq : count .opening ts = count .closing ts

/-! ### Counting brackets -/

section

variable {m m' : Mark} {ts us : List Token} {t : Token} {s s' : Span}

@[simp]
theorem count_nil : count m [] = 0 := rfl

@[simp]
theorem count_append : count m (ts ++ us) = count m ts + count m us := List.countP_append

@[simp]
theorem count_cons : count m (t :: ts) = count m ts + if t.isMark m then 1 else 0 :=
  List.countP_cons

theorem NeverOverclosed.le (h : NeverOverclosed ts) : count .closing ts ≤ count .opening ts :=
  Nat.le_of_not_lt (h ts (List.prefix_refl ts))

theorem NeverOverclosed.left (h : NeverOverclosed (ts ++ us)) : NeverOverclosed ts :=
  fun p hPrefix => h p (hPrefix.trans (List.prefix_append ts us))

theorem NeverOverclosed.append (h : NeverOverclosed ts)
    (hRest : ∀ p, p <+: us → ¬ Overclosed (ts ++ p)) : NeverOverclosed (ts ++ us) := by
  intro p hPrefix
  rcases List.prefix_or_prefix_of_prefix hPrefix (List.prefix_append ts us) with hShort | ⟨q, rfl⟩
  · exact h p hShort
  · exact hRest q ((List.prefix_append_right_inj ts).1 hPrefix)

/-- A stretch that closes only its own lists may stand behind any other. -/
theorem NeverOverclosed.append_own (h : NeverOverclosed ts) (h' : NeverOverclosed us) :
    NeverOverclosed (ts ++ us) := by
  refine h.append fun p hPrefix hOver => ?_
  have hLe := h.le
  have hOwn := h' p hPrefix
  simp only [Overclosed, count_append] at hOver hOwn
  omega

theorem neverOverclosed_singleton (h : t.isMark .closing = false) : NeverOverclosed [t] := by
  intro p hPrefix hOver
  have hNone : count .closing p = 0 := by
    rw [count, List.countP_eq_zero]
    intro u hu
    rw [List.mem_singleton.1 (hPrefix.subset hu), h]
    exact Bool.false_ne_true
  rw [Overclosed, hNone] at hOver
  exact absurd hOver (Nat.not_lt_zero _)

namespace Balanced

theorem nil : Balanced [] where
  neverOverclosed p hPrefix := by
    rw [List.prefix_nil.1 hPrefix]
    exact Nat.lt_irrefl 0
  count_eq := rfl

theorem append (h : Balanced ts) (h' : Balanced us) : Balanced (ts ++ us) where
  neverOverclosed := h.neverOverclosed.append_own h'.neverOverclosed
  count_eq := by rw [count_append, count_append, h.count_eq, h'.count_eq]

/-- A token that is no bracket is balanced. -/
theorem singleton (hOpening : t.isMark .opening = false) (hClosing : t.isMark .closing = false) :
    Balanced [t] where
  neverOverclosed := neverOverclosed_singleton hClosing
  count_eq := by simp [hOpening, hClosing]

theorem enclosed (h : Balanced ts) :
    Balanced (⟨.mark .opening, s⟩ :: (ts ++ [⟨.mark .closing, s'⟩])) where
  neverOverclosed := by
    have hOpened : NeverOverclosed ([⟨.mark .opening, s⟩] ++ ts) :=
      (neverOverclosed_singleton rfl).append_own h.neverOverclosed
    have hEq := h.count_eq
    rw [← List.cons_append]
    refine hOpened.append fun p hPrefix hOver => ?_
    have hLe : count .closing p ≤ 1 := hPrefix.sublist.countP_le
    simp only [Overclosed, count_append, count_cons, count_nil] at hOver
    simp [isMark] at hOver
    omega
  count_eq := by simp [isMark, h.count_eq]

/-- What is opened in a balanced stretch is closed in it. -/
theorem noneUnclosed (h : Balanced ts) : NoneUnclosed ts := by
  rintro before t after rfl ⟨hKind, hAfter⟩
  have hBefore := h.neverOverclosed.left.le
  have hEq := h.count_eq
  have hLe := hAfter.le
  simp [isMark, hKind] at hEq
  omega

end Balanced

/-! ### Where a list starts -/

theorem atStart_snoc : AtStart (ts ++ [t]) ↔ t.kind = .mark .opening := by
  constructor
  · rintro (hNil | ⟨earlier, u, hSplit, hKind⟩)
    · simp at hNil
    · rw [(List.append_singleton_inj.1 hSplit).2]
      exact hKind
  · exact fun hKind => Or.inr ⟨ts, t, rfl, hKind⟩

theorem noneMisplaced_nil : NoneMisplaced [] := by
  intro before t after hSplit
  simp at hSplit

theorem NoneMisplaced.snoc (h : NoneMisplaced ts) (hLast : ¬ Misplaced ts t) :
    NoneMisplaced (ts ++ [t]) := by
  intro before u after hSplit
  rcases List.eq_nil_or_concat after with rfl | ⟨after, v, rfl⟩
  · obtain ⟨rfl, rfl⟩ := List.append_singleton_inj.1 hSplit
    exact hLast
  · rw [List.concat_eq_append, ← List.cons_append, ← List.append_assoc] at hSplit
    exact h before u after (List.append_singleton_inj.1 hSplit).1

end

end Token

open Token

namespace Reading

/-- Some tokens and the lists that are open behind them: each list is open since its bracket, and
from there to the bracket of the next one inside it, or to the end, everything is balanced. -/
inductive Opened : List Token → List OpenList → Prop
  | outermost {ts : List Token} (hBalanced : Balanced ts) : Opened ts []
  | inside {ts inner : List Token} {s : Span} {before : List Node} {ls : List OpenList}
      (around : Opened ts ls) (hBalanced : Balanced inner) :
      Opened (ts ++ ⟨.mark .opening, s⟩ :: inner) (⟨s, before⟩ :: ls)

/-- The first misplaced quote mark of some tokens. -/
inductive Noted (ts : List Token) : Option Span → Prop
  | nothing (hNone : NoneMisplaced ts) : Noted ts none
  | first {before after : List Token} {t : Token} (hSplit : ts = before ++ t :: after)
      (hMisplaced : Misplaced before t) (hFirst : NoneMisplaced before) : Noted ts (some t.span)

structure Behind (ts : List Token) (r : Reading) : Prop where
  opened : Opened ts r.enclosing
  noted : Noted ts r.dangling
  items : r.dangling = none → (r.items = [] ↔ AtStart ts)

variable {ts us : List Token} {t : Token} {ls : List OpenList} {r : Reading} {s : Span}

theorem Opened.append (h : Opened ts ls) (h' : Balanced us) : Opened (ts ++ us) ls := by
  cases h with
  | outermost hBalanced => exact .outermost (hBalanced.append h')
  | inside around hBalanced =>
    rw [List.append_assoc, List.cons_append]
    exact around.inside (hBalanced.append h')

theorem Opened.neverOverclosed (h : Opened ts ls) : NeverOverclosed ts := by
  induction h with
  | outermost hBalanced => exact hBalanced.neverOverclosed
  | inside around hBalanced ih =>
    rw [List.append_cons]
    exact (ih.append_own (neverOverclosed_singleton rfl)).append_own hBalanced.neverOverclosed

/-- A closing bracket ends the stretch that is balanced since the last open bracket. -/
theorem Opened.close {l : OpenList} (h : Opened ts (l :: ls)) :
    Opened (ts ++ [⟨.mark .closing, s⟩]) ls := by
  cases h with
  | inside around hBalanced =>
    rw [List.append_assoc, List.cons_append]
    exact around.append hBalanced.enclosed

/-- What was noted stays; a token is noted only where nothing was. -/
theorem Noted.snoc {noted : Option Span} (h : Noted ts noted)
    (hLast : noted = none → ¬ Misplaced ts t) : Noted (ts ++ [t]) noted := by
  cases h with
  | nothing hNone => exact .nothing (hNone.snoc (hLast rfl))
  | @first before after u hSplit hMisplaced hFirst =>
    have hSplit' : ts ++ [t] = before ++ u :: (after ++ [t]) := by
      rw [hSplit, List.append_assoc, List.cons_append]
    exact .first hSplit' hMisplaced hFirst

namespace Behind

theorem start : Behind [] start where
  opened := .outermost .nil
  noted := .nothing noneMisplaced_nil
  items _ := ⟨fun _ => Or.inl rfl, fun _ => rfl⟩

/-- A token that puts a node into the innermost list, and is no quote mark. -/
theorem node (h : Behind ts r) {enclosing : List OpenList} {n : Node} {items : List Node}
    (hOpened : Opened (ts ++ [t]) enclosing) (hQuote : t.kind ≠ .mark .quote)
    (hOpening : t.kind ≠ .mark .opening) : Behind (ts ++ [t]) ⟨n :: items, enclosing, r.dangling⟩ where
  opened := hOpened
  noted := h.noted.snoc fun _ hMisplaced => hQuote hMisplaced.1
  items _ := by simp [atStart_snoc, hOpening]

theorem openList (h : Behind ts r) : Behind (ts ++ [⟨.mark .opening, s⟩]) (r.openList s) where
  opened := h.opened.inside .nil
  noted := h.noted.snoc fun _ hMisplaced => by cases hMisplaced.1
  items _ := by simp [atStart_snoc, Reading.openList]

theorem quoteLast (h : Behind ts r) : Behind (ts ++ [⟨.mark .quote, s⟩]) (r.quoteLast s) := by
  have hOpened : Opened (ts ++ [⟨.mark .quote, s⟩]) r.enclosing :=
    h.opened.append (.singleton rfl rfl)
  obtain ⟨items, enclosing, dangling⟩ := r
  cases items with
  | cons n ns =>
    refine ⟨hOpened, h.noted.snoc fun hDangling hMisplaced => ?_, fun _ => ?_⟩
    · cases (h.items hDangling).2 hMisplaced.2
    · simp [atStart_snoc, Reading.quoteLast]
  | nil =>
    cases dangling with
    | none =>
      have hStart : AtStart ts := (h.items rfl).1 rfl
      cases h.noted with
      | nothing hNone => exact ⟨hOpened, .first rfl ⟨rfl, hStart⟩ hNone, nofun⟩
    | some s' => exact ⟨hOpened, h.noted.snoc nofun, nofun⟩

end Behind

end Reading

/-! ### The offender -/

namespace Program

open Reading

/-- What can be said of a text from its tokens alone, beside how it is read. -/
inductive Verdict (ts : List Token) : Except ParseError (List Node) → Prop
  | unmatched {before after : List Token} {t : Token} (hSplit : ts = before ++ t :: after)
      (hBefore : NeverOverclosed before) (hOver : Overclosed (before ++ [t])) :
      Verdict ts (.error ⟨.unmatchedClosing, t.span⟩)
  | unclosed {before after : List Token} {t : Token} (hSplit : ts = before ++ t :: after)
      (hNever : NeverOverclosed ts) (hUnclosed : Unclosed t after) (hLast : NoneUnclosed after) :
      Verdict ts (.error ⟨.unclosedOpening, t.span⟩)
  | dangling {before after : List Token} {t : Token} (hSplit : ts = before ++ t :: after)
      (hBalanced : Balanced ts) (hMisplaced : Misplaced before t) (hFirst : NoneMisplaced before) :
      Verdict ts (.error ⟨.danglingQuote, t.span⟩)
  | read (program : List Node) (hBalanced : Balanced ts) (hNone : NoneMisplaced ts) :
      Verdict ts (.ok program)

theorem verdict_finish {ts : List Token} {r : Reading} (h : Behind ts r) :
    Verdict ts r.finish := by
  obtain ⟨items, enclosing, dangling⟩ := r
  have hOpened := h.opened
  have hNoted := h.noted
  have hNever := hOpened.neverOverclosed
  cases hOpened with
  | inside around hBalanced =>
    exact .unclosed rfl hNever ⟨rfl, hBalanced.neverOverclosed⟩ hBalanced.noneUnclosed
  | outermost hBalanced =>
    cases hNoted with
    | nothing hNone => exact .read items.reverse hBalanced hNone
    | first hSplit hMisplaced hFirst => exact .dangling hSplit hBalanced hMisplaced hFirst

theorem verdict_foldlM {before : List Token} (ts : List Token) {r : Reading}
    (h : Behind before r) :
    Verdict (before ++ ts) (ts.foldlM Reading.step r >>= Reading.finish) := by
  induction ts generalizing before r with
  | nil =>
    rw [List.append_nil]
    exact verdict_finish h
  | cons t ts ih =>
    rw [List.append_cons, List.foldlM_cons, bind_assoc]
    obtain ⟨kind, span⟩ := t
    cases kind with
    | atom a => exact ih (h.node (h.opened.append (.singleton rfl rfl)) nofun nofun)
    | mark m =>
      cases m with
      | opening => exact ih h.openList
      | quote => exact ih h.quoteLast
      | closing =>
        obtain ⟨items, enclosing, dangling⟩ := r
        have hOpened := h.opened
        cases enclosing with
        | cons l ls => exact ih (h.node hOpened.close nofun nofun)
        | nil =>
          cases hOpened with
          | outermost hBalanced =>
            rw [← List.append_cons]
            refine .unmatched rfl hBalanced.neverOverclosed ?_
            simp [Overclosed, isMark, hBalanced.count_eq]

theorem verdict_ofTokens (ts : List Token) : Verdict ts (ofTokens ts) := verdict_foldlM ts .start

/-- **A reading fails at the right token, or succeeds.**  If some tokens from the start on have more
closing brackets than opening ones, reading fails at the first token where that happens.  Otherwise,
if an opening bracket is never closed, it fails at the last such bracket.  Otherwise, if a quote
mark comes first or directly after an opening bracket, it fails at the first such mark.  Otherwise
it succeeds. -/
theorem ofTokens_offender (ts : List Token) :
    ((∃ p, p <+: ts ∧ Overclosed p) → ∃ before t after, ts = before ++ t :: after ∧
      NeverOverclosed before ∧ Overclosed (before ++ [t]) ∧
      ofTokens ts = .error ⟨.unmatchedClosing, t.span⟩) ∧
    (NeverOverclosed ts → ¬ NoneUnclosed ts → ∃ before t after, ts = before ++ t :: after ∧
      Unclosed t after ∧ NoneUnclosed after ∧
      ofTokens ts = .error ⟨.unclosedOpening, t.span⟩) ∧
    (NeverOverclosed ts → NoneUnclosed ts → ¬ NoneMisplaced ts →
      ∃ before t after, ts = before ++ t :: after ∧ Misplaced before t ∧ NoneMisplaced before ∧
      ofTokens ts = .error ⟨.danglingQuote, t.span⟩) ∧
    (NeverOverclosed ts → NoneUnclosed ts → NoneMisplaced ts →
      ∃ program, ofTokens ts = .ok program) := by
  have hVerdict := verdict_ofTokens ts
  generalize ofTokens ts = r at hVerdict
  cases hVerdict with
  | @unmatched before after t hSplit hBefore hOver =>
    have hNot : ¬ NeverOverclosed ts := by
      rw [hSplit, List.append_cons]
      exact fun hNever => hNever _ (List.prefix_append _ _) hOver
    exact ⟨fun _ => ⟨before, t, after, hSplit, hBefore, hOver, rfl⟩, fun h => absurd h hNot,
      fun h => absurd h hNot, fun h => absurd h hNot⟩
  | @unclosed before after t hSplit hNever hUnclosed hLast =>
    have hNot : ¬ NoneUnclosed ts := fun hNone => hNone before t after hSplit hUnclosed
    exact ⟨fun ⟨p, hPrefix, hOver⟩ => absurd hOver (hNever p hPrefix),
      fun _ _ => ⟨before, t, after, hSplit, hUnclosed, hLast, rfl⟩, fun _ h => absurd h hNot,
      fun _ h => absurd h hNot⟩
  | @dangling before after t hSplit hBalanced hMisplaced hFirst =>
    have hNot : ¬ NoneMisplaced ts := fun hNone => hNone before t after hSplit hMisplaced
    exact ⟨fun ⟨p, hPrefix, hOver⟩ => absurd hOver (hBalanced.neverOverclosed p hPrefix),
      fun _ h => absurd hBalanced.noneUnclosed h,
      fun _ _ _ => ⟨before, t, after, hSplit, hMisplaced, hFirst, rfl⟩, fun _ _ h => absurd h hNot⟩
  | read program hBalanced hNone =>
    exact ⟨fun ⟨p, hPrefix, hOver⟩ => absurd hOver (hBalanced.neverOverclosed p hPrefix),
      fun _ h => absurd hBalanced.noneUnclosed h, fun _ _ h => absurd hNone h,
      fun _ _ _ => ⟨program, rfl⟩⟩

end Program

end PostLisp

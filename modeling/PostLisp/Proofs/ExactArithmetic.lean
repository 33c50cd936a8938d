import Mathlib.Data.List.Basic
import PostLisp.Operation.Arith

/-!
# Exact or refused

Without floats, and without division, nothing is rounded.  A step of a fold gives the exact integer,
or the two lists as one, or it is refused (`combine_ok_iff`, `combine_error_iff`); so a fold gives
the exact result of all its operands, or fails at the first step that is refused, even when the
result in the end would fit again (`fold_exact_or_refused`).
-/

namespace PostLisp.Arith

/-- What the operator makes of two integers. -/
def exact : (op : ArithOp) → op ≠ .divide → Int → Int → Int
  | .add, _ => (· + ·)
  | .subtract, _ => (· - ·)
  | .multiply, _ => (· * ·)
  | .divide, h => absurd rfl h

/-- The results of an exact computation that starts with `n`, before and behind each further
integer. -/
def partials (op : ArithOp) (hOp : op ≠ .divide) (n : Int) : List Int → List Int
  | [] => [n]
  | m :: ms => n :: partials op hOp (exact op hOp n m) ms

/-- What operands come to exactly: integers, all of whose results on the way fit a word, to the last
of these, and lists that are added to one list. -/
inductive Exactly (op : ArithOp) (hOp : op ≠ .divide) : List Value → Value → Prop
  | integers {a : Int64} {as : List Int64} {c : Int64}
      (hFits : ∀ n ∈ partials op hOp a.toInt (as.map (·.toInt)), Number.fitsInt64 n = true)
      (hTotal : c.toInt = (as.map (·.toInt)).foldl (exact op hOp) a.toInt) :
      Exactly op hOp ((a :: as).map .integer) (.integer c)
  | lists (hAdd : op = .add) (ls : List (List Value)) :
      Exactly op hOp (ls.map .list) (.list ls.flatten)

/-- The step is exact: its result is that of the integers, and a word holds it, or two lists are
added. -/
inductive Combines (op : ArithOp) (hOp : op ≠ .divide) : Value → Value → Value → Prop
  | integers {a b c : Int64} (hExact : c.toInt = exact op hOp a.toInt b.toInt) :
      Combines op hOp (.integer a) (.integer b) (.integer c)
  | lists (hAdd : op = .add) (vs ws : List Value) :
      Combines op hOp (.list vs) (.list ws) (.list (vs ++ ws))

/-- The step cannot be done, and why: no word holds the result of two integers, or a value is
neither an integer nor a list to be added to another one.  The value on the left is blamed before
the one on the right. -/
inductive Refused (op : ArithOp) (hOp : op ≠ .divide) : Value → Value → Fault → Prop
  | overflow {a b : Int64} (hTooBig : Number.fitsInt64 (exact op hOp a.toInt b.toInt) = false) :
      Refused op hOp (.integer a) (.integer b) (.overflow op)
  | left {v w : Value} (hKind : v.kind ≠ .integer)
      (hLists : ¬ (op = .add ∧ v.kind = .list ∧ w.kind = .list)) :
      Refused op hOp v w (.mismatch (.arith op) v.kind)
  | right {a : Int64} {w : Value} (hKind : w.kind ≠ .integer) :
      Refused op hOp (.integer a) w (.mismatch (.arith op) w.kind)

variable {op : ArithOp} {hOp : op ≠ .divide} {u v w : Value} {vs ws : List Value} {f : Fault}

theorem exactResult?_eq (hOp : op ≠ .divide) (m n : Int) :
    exactResult? op m n = some (exact op hOp m n) := by
  cases op with
  | divide => exact absurd rfl hOp
  | _ => rfl

/-! ### One step -/

/-- What a step is, by the kinds of its values. -/
inductive Step (op : ArithOp) (hOp : op ≠ .divide) (v w : Value) : Except Fault Value → Prop
  | done {u : Value} (h : Combines op hOp v w u) : Step op hOp v w (.ok u)
  | refused {f : Fault} (h : Refused op hOp v w f) : Step op hOp v w (.error f)

theorem step_integers (a b : Int64) :
    Step op hOp (.integer a) (.integer b) (combine op (.integer a) (.integer b)) := by
  rw [combine, integers, exactResult?_eq hOp]
  dsimp only
  split
  · rename_i c hWord
    exact .done (.integers (Number.toInt_of_int64? hWord))
  · rename_i hWord
    refine .refused (.overflow (Bool.eq_false_iff.2 fun hFits => ?_))
    rw [Number.int64?, if_pos hFits] at hWord
    cases hWord

/-- Without floats, values that are not two integers are no two numbers. -/
theorem step_mixed (hv : v.kind ≠ .float) (hw : w.kind ≠ .float)
    (hIntegers : ¬ (v.kind = .integer ∧ w.kind = .integer))
    (hLists : ¬ (op = .add ∧ v.kind = .list ∧ w.kind = .list)) :
    Step op hOp v w (mixed op v w) := by
  cases v with
  | float x => exact absurd rfl hv
  | integer a =>
    have hKind : w.kind ≠ .integer := fun h => hIntegers ⟨rfl, h⟩
    have hNumber : w.number? = none := by
      cases w with
      | integer b => exact absurd rfl hKind
      | float y => exact absurd rfl hw
      | _ => rfl
    rw [mixed, hNumber]
    exact .refused (.right hKind)
  | _ => exact .refused (.left nofun hLists)

/-- **A step without floats is exact or refused.** -/
theorem step_combine (hv : v.kind ≠ .float) (hw : w.kind ≠ .float) :
    Step op hOp v w (combine op v w) := by
  rw [combine.eq_def]
  split
  · exact step_integers _ _
  · rename_i vs ws
    split
    · rename_i hAdd
      exact .done (.lists hAdd vs ws)
    · rename_i hAdd
      exact step_mixed nofun nofun nofun fun h => hAdd h.1
  · rename_i hIntegers hLists
    refine step_mixed hv hw (fun ⟨hv, hw⟩ => ?_) fun ⟨_, hv, hw⟩ => ?_
    · cases v <;> cases hv
      cases w <;> cases hw
      exact hIntegers _ _ rfl rfl
    · cases v <;> cases hv
      cases w <;> cases hw
      exact hLists _ _ rfl rfl

theorem Combines.unique {u' : Value} (h : Combines op hOp v w u) (h' : Combines op hOp v w u') :
    u = u' := by
  cases h with
  | integers hExact =>
    cases h' with
    | integers hExact' => rw [Int64.toInt_inj.1 (hExact.trans hExact'.symm)]
  | lists hAdd vs ws =>
    cases h' with
    | lists => rfl

theorem Combines.not_refused (h : Combines op hOp v w u) : ¬ Refused op hOp v w f := by
  cases h with
  | @integers a b c hExact =>
    rintro (⟨hTooBig⟩ | ⟨hKind, -⟩ | ⟨hKind⟩)
    · have hWord := Number.int64?_toInt c
      rw [hExact, Number.int64?, hTooBig] at hWord
      cases hWord
    · exact hKind rfl
    · exact hKind rfl
  | lists hAdd vs ws =>
    rintro (_ | ⟨-, hLists⟩ | _)
    exact hLists ⟨hAdd, rfl, rfl⟩

theorem Refused.unique {g : Fault} (h : Refused op hOp v w f) (h' : Refused op hOp v w g) :
    f = g := by
  cases h with
  | overflow hTooBig =>
    cases h' with
    | overflow => rfl
    | left hKind => exact absurd rfl hKind
    | right hKind => exact absurd rfl hKind
  | left hKind hLists =>
    cases h' with
    | left => rfl
    | _ => exact absurd rfl hKind
  | right hKind =>
    cases h' with
    | right => rfl
    | overflow => exact absurd rfl hKind
    | left hKind' => exact absurd rfl hKind'

theorem combine_ok_iff (hOp : op ≠ .divide) (hv : v.kind ≠ .float) (hw : w.kind ≠ .float) :
    combine op v w = .ok u ↔ Combines op hOp v w u := by
  have hStep : Step op hOp v w (combine op v w) := step_combine hv hw
  constructor
  · intro h
    rw [h] at hStep
    cases hStep with
    | done h => exact h
  · intro h
    generalize combine op v w = r at hStep
    cases hStep with
    | done h' => rw [h.unique h']
    | refused h' => exact absurd h' h.not_refused

theorem combine_error_iff (hOp : op ≠ .divide) (hv : v.kind ≠ .float) (hw : w.kind ≠ .float) :
    combine op v w = .error f ↔ Refused op hOp v w f := by
  have hStep : Step op hOp v w (combine op v w) := step_combine hv hw
  constructor
  · intro h
    rw [h] at hStep
    cases hStep with
    | refused h => exact h
  · intro h
    generalize combine op v w = r at hStep
    cases hStep with
    | done h' => exact absurd h h'.not_refused
    | refused h' => rw [h.unique h']

theorem Combines.kind_ne (h : Combines op hOp v w u) : u.kind ≠ .float := by
  cases h <;> exact nofun

/-! ### All steps -/

/-- A fold that succeeds does so with its first step. -/
theorem foldlM_cons_ok (hOp : op ≠ .divide) (hv : v.kind ≠ .float) (hw : w.kind ≠ .float) :
    (w :: ws).foldlM (combine op) v = .ok u ↔
      ∃ x, Combines op hOp v w x ∧ ws.foldlM (combine op) x = .ok u := by
  rw [List.foldlM_cons]
  constructor
  · intro h
    cases hStep : combine op v w with
    | error f =>
      rw [hStep] at h
      cases h
    | ok x =>
      rw [hStep] at h
      exact ⟨x, (combine_ok_iff hOp hv hw).1 hStep, h⟩
  · rintro ⟨x, hStep, h⟩
    rw [(combine_ok_iff hOp hv hw).2 hStep]
    exact h

theorem fits_toInt (n : Int64) : Number.fitsInt64 n.toInt = true := by
  have hWord := Number.int64?_toInt n
  rw [Number.int64?] at hWord
  split at hWord
  · assumption
  · cases hWord

theorem exists_toInt {n : Int} (h : Number.fitsInt64 n = true) : ∃ c : Int64, c.toInt = n :=
  ⟨Int64.ofInt n, Number.toInt_of_int64? (if_pos h)⟩

theorem head_mem_partials (n : Int) (ns : List Int) : n ∈ partials op hOp n ns := by
  cases ns <;> exact List.mem_cons_self

/-- Integers are combined with integers only, and as long as the results fit. -/
theorem foldlM_integer (hOp : op ≠ .divide) {a : Int64} (hFloat : ∀ w ∈ ws, w.kind ≠ .float) :
    ws.foldlM (combine op) (.integer a) = .ok v ↔ ∃ (as : List Int64) (c : Int64),
      ws = as.map .integer ∧
      (∀ n ∈ partials op hOp a.toInt (as.map (·.toInt)), Number.fitsInt64 n = true) ∧
      v = .integer c ∧ c.toInt = (as.map (·.toInt)).foldl (exact op hOp) a.toInt := by
  induction ws generalizing a with
  | nil =>
    constructor
    · rintro ⟨⟩
      exact ⟨[], a, rfl, List.forall_mem_singleton.2 (fits_toInt a), rfl, rfl⟩
    · rintro ⟨as, c, hNil, -, rfl, hTotal⟩
      obtain rfl := List.map_eq_nil_iff.1 hNil.symm
      rw [Int64.toInt_inj.1 hTotal]
      rfl
  | cons w ws ih =>
    obtain ⟨hHead, hTail⟩ := List.forall_mem_cons.1 hFloat
    have hKind : (Value.integer a).kind ≠ .float := nofun
    rw [foldlM_cons_ok hOp hKind hHead]
    constructor
    · rintro ⟨x, hStep, hRest⟩
      cases hStep with
      | @integers _ b c hExact =>
        obtain ⟨as, d, rfl, hFits, rfl, hTotal⟩ := (ih hTail).1 hRest
        rw [hExact] at hFits hTotal
        exact ⟨b :: as, d, rfl, List.forall_mem_cons.2 ⟨fits_toInt a, hFits⟩, rfl, hTotal⟩
    · rintro ⟨as, d, hMap, hFits, rfl, hTotal⟩
      obtain ⟨b, as, rfl, rfl, rfl⟩ := List.map_eq_cons_iff.1 hMap.symm
      have hLater := (List.forall_mem_cons.1 hFits).2
      obtain ⟨c, hExact⟩ := exists_toInt (hLater _ (head_mem_partials _ _))
      refine ⟨.integer c, .integers hExact, (ih hTail).2 ⟨as, d, rfl, ?_, rfl, ?_⟩⟩
      · rwa [hExact]
      · rwa [hExact]

/-- Lists are combined with lists only, and by addition only. -/
theorem foldlM_list (hOp : op ≠ .divide) (hFloat : ∀ w ∈ ws, w.kind ≠ .float) :
    ws.foldlM (combine op) (.list vs) = .ok v ↔ ∃ ls : List (List Value),
      ws = ls.map .list ∧ (ls = [] ∨ op = .add) ∧ v = .list (vs ++ ls.flatten) := by
  induction ws generalizing vs with
  | nil =>
    constructor
    · rintro ⟨⟩
      exact ⟨[], rfl, Or.inl rfl, by simp⟩
    · rintro ⟨ls, hNil, -, rfl⟩
      obtain rfl := List.map_eq_nil_iff.1 hNil.symm
      rw [List.flatten_nil, List.append_nil]
      rfl
  | cons w ws ih =>
    obtain ⟨hHead, hTail⟩ := List.forall_mem_cons.1 hFloat
    have hKind : (Value.list vs).kind ≠ .float := nofun
    rw [foldlM_cons_ok hOp hKind hHead]
    constructor
    · rintro ⟨x, hStep, hRest⟩
      cases hStep with
      | lists hAdd _ l =>
        obtain ⟨ls, rfl, -, rfl⟩ := (ih hTail).1 hRest
        exact ⟨l :: ls, rfl, Or.inr hAdd, by simp⟩
    · rintro ⟨ls, hMap, hAdd, rfl⟩
      obtain ⟨l, ls, rfl, rfl, rfl⟩ := List.map_eq_cons_iff.1 hMap.symm
      replace hAdd : op = .add := hAdd.resolve_left (List.cons_ne_nil _ _)
      exact ⟨_, .lists hAdd vs l, (ih hTail).2 ⟨ls, rfl, Or.inr hAdd, by simp⟩⟩

/-- **A fold without floats gives the exact result**, or none. -/
theorem fold_ok_iff (hOp : op ≠ .divide) (hTwo : 2 ≤ vs.length)
    (hFloat : ∀ v ∈ vs, v.kind ≠ .float) : fold op vs = .ok v ↔ Exactly op hOp vs v := by
  match vs, hTwo with
  | u :: w :: ws, _ =>
    obtain ⟨hFirst, hRest⟩ := List.forall_mem_cons.1 hFloat
    rw [fold]
    generalize hAll : u :: w :: ws = all
    cases u with
    | float x => exact absurd rfl hFirst
    | integer a =>
      rw [foldlM_integer hOp hRest]
      constructor
      · rintro ⟨as, c, hMap, hFits, rfl, hTotal⟩
        rw [← hAll, hMap]
        exact .integers hFits hTotal
      · rintro (⟨hFits, hTotal⟩ | ⟨-, ls⟩)
        · obtain ⟨hHead, hTail⟩ := List.cons.inj hAll
          cases hHead
          exact ⟨_, _, hTail, hFits, rfl, hTotal⟩
        · cases ls <;> cases hAll
    | list l =>
      rw [foldlM_list hOp hRest]
      constructor
      · rintro ⟨ls, hMap, hNil | hAdd, rfl⟩
        · rw [hNil] at hMap
          cases hMap
        · rw [← hAll, hMap]
          exact .lists hAdd (l :: ls)
      · rintro (⟨-, -⟩ | ⟨hAdd, ls⟩)
        · cases hAll
        · obtain ⟨l', ls, rfl, hHead, hTail⟩ := List.map_eq_cons_iff.1 hAll.symm
          cases hHead
          exact ⟨ls, hTail.symm, Or.inr hAdd, rfl⟩
    | _ =>
      rw [foldlM_cons_ok hOp hFirst (List.forall_mem_cons.1 hRest).1]
      refine iff_of_false (fun ⟨x, hStep, _⟩ => by cases hStep) ?_
      rintro (⟨-, -⟩ | ⟨-, ls⟩)
      · cases hAll
      · cases ls <;> cases hAll

/-- What a fold without floats leads to is no float. -/
theorem kind_ne_of_foldlM (hOp : op ≠ .divide) (hFirst : v.kind ≠ .float)
    (hFloat : ∀ w ∈ ws, w.kind ≠ .float) (h : ws.foldlM (combine op) v = .ok u) :
    u.kind ≠ .float := by
  induction ws generalizing v with
  | nil =>
    cases h
    exact hFirst
  | cons w ws ih =>
    obtain ⟨hHead, hTail⟩ := List.forall_mem_cons.1 hFloat
    obtain ⟨x, hStep, hRest⟩ := (foldlM_cons_ok hOp hFirst hHead).1 h
    exact ih hStep.kind_ne hTail hRest

/-- A fold fails at the first step that does. -/
theorem foldlM_error_iff {step : Value → Value → Except Fault Value} :
    ws.foldlM step v = .error f ↔ ∃ before acc w behind, ws = before ++ w :: behind ∧
      before.foldlM step v = .ok acc ∧ step acc w = .error f := by
  constructor
  · intro h
    induction ws generalizing v with
    | nil => cases h
    | cons w ws ih =>
      rw [List.foldlM_cons] at h
      cases hStep : step v w with
      | error g =>
        rw [hStep] at h
        cases h
        exact ⟨[], v, w, ws, rfl, rfl, hStep⟩
      | ok x =>
        rw [hStep] at h
        obtain ⟨before, acc, y, behind, rfl, hBefore, hFails⟩ := ih h
        refine ⟨w :: before, acc, y, behind, rfl, ?_, hFails⟩
        rw [List.foldlM_cons, hStep]
        exact hBefore
  · rintro ⟨before, acc, w, behind, rfl, hBefore, hFails⟩
    rw [List.foldlM_append, hBefore]
    show (w :: behind).foldlM step acc = _
    rw [List.foldlM_cons, hFails]
    rfl

/-- **A fold without floats fails at the first step that is refused.** -/
theorem fold_error_iff (hOp : op ≠ .divide) (hSome : vs ≠ [])
    (hFloat : ∀ v ∈ vs, v.kind ≠ .float) :
    fold op vs = .error f ↔ ∃ before acc w behind, vs = before ++ w :: behind ∧
      fold op before = .ok acc ∧ Refused op hOp acc w f := by
  match vs, hSome with
  | v :: vs, _ =>
    obtain ⟨hFirst, hRest⟩ := List.forall_mem_cons.1 hFloat
    rw [fold, foldlM_error_iff]
    constructor
    · rintro ⟨before, acc, w, behind, rfl, hBefore, hFails⟩
      obtain ⟨hEarlier, hLater⟩ := List.forall_mem_append.1 hRest
      have hAcc := kind_ne_of_foldlM hOp hFirst hEarlier hBefore
      refine ⟨v :: before, acc, w, behind, rfl, hBefore, ?_⟩
      exact (combine_error_iff hOp hAcc (List.forall_mem_cons.1 hLater).1).1 hFails
    · rintro ⟨before, acc, w, behind, hSplit, hBefore, hRefused⟩
      cases before with
      | nil => cases hBefore
      | cons u before =>
        cases hSplit
        obtain ⟨hEarlier, hLater⟩ := List.forall_mem_append.1 hRest
        have hAcc := kind_ne_of_foldlM hOp hFirst hEarlier hBefore
        refine ⟨before, acc, w, behind, rfl, hBefore, ?_⟩
        exact (combine_error_iff hOp hAcc (List.forall_mem_cons.1 hLater).1).2 hRefused

/-- **Arithmetic without floats is exact or refused.**  Without division, a fold of two operands or
more succeeds just when the operands are integers whose exact results all fit on the way, or lists
that are added, and gives the exact result.  Otherwise it fails at the first step that is refused,
for the reason of this step. -/
theorem fold_exact_or_refused (op : ArithOp) (hOp : op ≠ .divide) (vs : List Value)
    (hTwo : 2 ≤ vs.length) (hFloat : ∀ v ∈ vs, v.kind ≠ .float) :
    (∀ v, fold op vs = .ok v ↔ Exactly op hOp vs v) ∧
    ∀ f, fold op vs = .error f ↔ ∃ before acc w behind, vs = before ++ w :: behind ∧
      fold op before = .ok acc ∧ Refused op hOp acc w f := by
  have hSome : vs ≠ [] := by
    rintro rfl
    cases hTwo
  exact ⟨fun v => fold_ok_iff hOp hTwo hFloat, fun f => fold_error_iff hOp hSome hFloat⟩

/-- The product of three integers fits, and yet it cannot be had from left to right: its first two
factors overflow. -/
theorem fold_exact_or_refused_product :
    let vs : List Value := [.integer (-9223372036854775808), .integer (-1), .integer 0]
    ArithOp.multiply ≠ .divide ∧ 2 ≤ vs.length ∧ (∀ v ∈ vs, v.kind ≠ .float) ∧
      fold .multiply vs = .error (.overflow .multiply) := by
  intro vs
  have hOp : ArithOp.multiply ≠ .divide := by decide
  have hFloat : ∀ v ∈ vs, v.kind ≠ .float := by decide
  refine ⟨hOp, by decide, hFloat, ?_⟩
  refine ((fold_exact_or_refused .multiply hOp vs (by decide) hFloat).2 _).2 ?_
  exact ⟨[.integer (-9223372036854775808)], _, .integer (-1), [.integer 0], rfl, rfl,
    .overflow rfl⟩

end PostLisp.Arith

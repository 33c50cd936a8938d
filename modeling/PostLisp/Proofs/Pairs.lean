import PostLisp.Proofs.Registered

/-!
# Pairs and lists do not overlap

A pair whose second part is a list would look like a list that is one value longer: putting together
what it is taken apart into gives that list and not the pair.  No program makes one.  `Value.Apart`
says of a value that there is none at any depth inside it; every operation on values keeps this, and
so does evaluation, as the comparison of a run with itself: the states are the same, with only such
values in them, and so are the values.  So taking apart and putting together are inverse to each
other on all values that a session can reach.
-/

namespace PostLisp

open Eval EvalM

/-! ### Values inside values -/

namespace Value

/-- `w` is in the value, at any depth: it is the value itself, or it is in an item of a list, in a
part of a pair or in what a function has captured. -/
inductive Inside (w : Value) : Value → Prop
  | self : Inside w w
  | item {vs : List Value} {v : Value} (hItem : v ∈ vs) (inside : Inside w v) : Inside w (.list vs)
  | head {v x : Value} (inside : Inside w v) : Inside w (.pair v x)
  | tail {v x : Value} (inside : Inside w x) : Inside w (.pair v x)
  | captured {f : Closure Value} {name : String} {v : Value}
      (hEntry : (name, v) ∈ f.captured.entries) (inside : Inside w v) : Inside w (.function f)

theorem Inside.trans {u v w : Value} (h : u.Inside v) (g : v.Inside w) : u.Inside w := by
  induction g with
  | self => exact h
  | item hItem _ ih => exact .item hItem ih
  | head _ ih => exact .head ih
  | tail _ ih => exact .tail ih
  | captured hEntry _ ih => exact .captured hEntry ih

/-- No pair in the value has a list as its second part. -/
def Apart (v : Value) : Prop := ∀ head items, ¬Inside (.pair head (.list items)) v

/-- What has a first value and something behind it: pairs and lists that are not empty. -/
def HasParts : Value → Prop
  | .pair _ _ => True
  | .list (_ :: _) => True
  | _ => False

theorem Apart.of_inside {v w : Value} (h : v.Apart) (hInside : w.Inside v) : w.Apart :=
  fun head items hPair => h head items (hPair.trans hInside)

theorem apart_list {vs : List Value} (h : ∀ v ∈ vs, v.Apart) : (list vs).Apart := by
  intro head items hPair
  cases hPair with
  | item hItem inside => exact h _ hItem head items inside

theorem Apart.of_mem {vs : List Value} (h : (list vs).Apart) {v : Value} (hItem : v ∈ vs) :
    v.Apart :=
  h.of_inside (.item hItem .self)

theorem apart_pair {v w : Value} (hHead : v.Apart) (hTail : w.Apart) (hAtom : w.isAtom = true) :
    (pair v w).Apart := by
  intro head items hPair
  cases hPair with
  | self => cases hAtom
  | head inside => exact hHead head items inside
  | tail inside => exact hTail head items inside

theorem apart_function {f : Closure Value}
    (h : ∀ name v, (name, v) ∈ f.captured.entries → v.Apart) : (function f).Apart := by
  intro head items hPair
  cases hPair with
  | captured hEntry inside => exact h _ _ hEntry head items inside

theorem apart_void : void.Apart := by
  intro head items hPair
  cases hPair

theorem apart_boolean (b : Bool) : (boolean b).Apart := by
  intro head items hPair
  cases hPair

theorem apart_ofAtom (a : Atom) : (ofAtom a).Apart := by
  intro head items hPair
  cases a <;> cases hPair

mutual

/-- Quoted data has no pairs at all. -/
theorem apart_ofNode : (n : Node) → (ofNode n).Apart
  | .atom a _ => apart_ofAtom a
  | .list items _ => apart_list (apart_ofNodes items)

theorem apart_ofNodes : (ns : List Node) → ∀ v ∈ ofNodes ns, v.Apart
  | [], _, h => by cases h
  | n :: ns, v, h => (List.mem_cons.1 h).elim (fun hHead => hHead ▸ apart_ofNode n)
      fun hTail => apart_ofNodes ns v hTail

end

/-! ### Operations -/

/-- Putting a value in front makes a pair only where there is no list. -/
theorem Apart.cons {v w : Value} (h : v.Apart) (g : w.Apart) : (v.cons w).Apart := by
  cases w with
  | list items => exact apart_list (List.forall_mem_cons.2 ⟨h, fun _ hItem => g.of_mem hItem⟩)
  | _ => exact apart_pair h g rfl

theorem Apart.car {v w : Value} (h : v.Apart) (hCar : v.car = .ok w) : w.Apart := by
  cases v with
  | list items =>
    cases items with
    | nil => cases hCar
    | cons head items =>
      cases hCar
      exact h.of_mem List.mem_cons_self
  | pair head tail =>
    cases hCar
    exact h.of_inside (.head .self)
  | _ => cases hCar

theorem Apart.cdr {v w : Value} (h : v.Apart) (hCdr : v.cdr = .ok w) : w.Apart := by
  cases v with
  | list items =>
    cases hCdr
    exact apart_list fun v hItem => h.of_mem (List.mem_of_mem_tail hItem)
  | pair head tail =>
    cases hCdr
    exact h.of_inside (.tail .self)
  | _ => cases hCdr

theorem apart_floats {op : ArithOp} {x y : Float} {v : Value} (h : Arith.floats op x y = .ok v) :
    v.Apart := by
  intro head items hPair
  cases op with
  | divide =>
    rw [Arith.floats] at h
    split at h <;> cases h
    cases hPair
  | _ =>
    cases h
    cases hPair

theorem apart_integers {op : ArithOp} {a b : Int64} {v : Value}
    (h : Arith.integers op a b = .ok v) : v.Apart := by
  rw [Arith.integers] at h
  split at h
  · exact apart_floats h
  · split at h <;> cases h
    intro head items hPair
    cases hPair

theorem apart_mixed {op : ArithOp} {x y v : Value} (h : Arith.mixed op x y = .ok v) : v.Apart := by
  rw [Arith.mixed] at h
  split at h
  · exact apart_floats h
  · cases h
  · cases h

theorem Apart.combine {op : ArithOp} {x y v : Value} (hx : x.Apart) (hy : y.Apart)
    (h : Arith.combine op x y = .ok v) : v.Apart := by
  unfold Arith.combine at h
  split at h
  · exact apart_integers h
  · split at h
    · cases h
      exact apart_list fun v hItem => (List.mem_append.1 hItem).elim hx.of_mem hy.of_mem
    · exact apart_mixed h
  · exact apart_mixed h

theorem apart_fold {op : ArithOp} {vs : List Value} {v : Value} (hAll : ∀ v ∈ vs, v.Apart)
    (h : Arith.fold op vs = .ok v) : v.Apart := by
  cases vs with
  | nil => cases h
  | cons x vs =>
    change vs.foldlM (Arith.combine op) x = .ok v at h
    induction vs generalizing x with
    | nil =>
      cases h
      exact hAll v List.mem_cons_self
    | cons y vs ih =>
      simp only [List.forall_mem_cons] at hAll
      obtain ⟨hx, hy, hAll⟩ := hAll
      rw [List.foldlM_cons] at h
      cases hFirst : Arith.combine op x y with
      | error f =>
        rw [hFirst] at h
        cases h
      | ok u =>
        rw [hFirst] at h
        exact ih u (List.forall_mem_cons.2 ⟨hx.combine hy hFirst, hAll⟩) h

/-- **What is taken apart is put together again**, unless it is a pair that ends in a list. -/
theorem Apart.cons_parts {v : Value} (h : v.Apart) (hParts : v.HasParts) :
    ∃ head tail, v.car = .ok head ∧ v.cdr = .ok tail ∧ head.cons tail = v := by
  cases v with
  | list items =>
    cases items with
    | nil => exact hParts.elim
    | cons head items => exact ⟨head, .list items, rfl, rfl, rfl⟩
  | pair head tail =>
    refine ⟨head, tail, rfl, rfl, ?_⟩
    cases tail with
    | list items => exact (h head items .self).elim
    | _ => rfl
  | _ => exact hParts.elim

end Value

/-! ### States -/

namespace Bindings

def Apart (b : Bindings Value) : Prop := ∀ name v, (name, v) ∈ b.entries → v.Apart

variable {b : Bindings Value}

theorem apart_empty : (empty : Bindings Value).Apart := by
  intro name v hEntry
  cases hEntry

theorem mem_of_findIn? {name : String} {v : Value} {entries : List (String × Value)}
    (h : findIn? name entries = some v) : ∃ other, (other, v) ∈ entries := by
  induction entries with
  | nil => cases h
  | cons entry rest ih =>
    rw [findIn?] at h
    split at h
    · cases h
      exact ⟨_, List.mem_cons_self⟩
    · obtain ⟨other, hRest⟩ := ih h
      exact ⟨other, List.mem_cons_of_mem _ hRest⟩

theorem mem_insertEntry {name : String} {v : Value} {entries : List (String × Value)}
    {entry : String × Value} (h : entry ∈ insertEntry name v entries) :
    entry = (name, v) ∨ entry ∈ entries := by
  induction entries with
  | nil => exact Or.inl (List.mem_singleton.1 h)
  | cons e rest ih =>
    rw [insertEntry] at h
    split at h
    · exact (List.mem_cons.1 h).imp_right (List.mem_cons_of_mem e)
    · split at h
      · exact List.mem_cons.1 h
      · rcases List.mem_cons.1 h with hHead | hTail
        · exact Or.inr (hHead ▸ List.mem_cons_self)
        · exact (ih hTail).imp_right (List.mem_cons_of_mem e)

theorem Apart.find? (h : b.Apart) {name : String} {v : Value} (hFound : b.find? name = some v) :
    v.Apart := by
  obtain ⟨other, hEntry⟩ := mem_of_findIn? hFound
  exact h other v hEntry

theorem Apart.insert (h : b.Apart) (name : String) {v : Value} (hValue : v.Apart) :
    (b.insert name v).Apart := by
  intro other w hEntry
  rcases mem_insertEntry hEntry with hNew | hOld
  · cases hNew
    exact hValue
  · exact h other w hOld

theorem Apart.insertAll (h : b.Apart) {names : List String} {vs : List Value}
    (hValues : ∀ v ∈ vs, v.Apart) : (b.insertAll (names.zip vs)).Apart := by
  induction names generalizing vs b with
  | nil => exact h
  | cons name names ih =>
    cases vs with
    | nil => exact h
    | cons v vs =>
      obtain ⟨hHead, hTail⟩ := List.forall_mem_cons.1 hValues
      exact ih (h.insert name hHead) hTail

end Bindings

/-- The values in the bindings of a call are apart. -/
def Frame.Apart : Frame → Prop
  | .top => True
  | .call locals captured => locals.Apart ∧ captured.Apart

/-- So are those that are bound globally or remembered. -/
structure Session.Apart (s : Session) : Prop where
  globals : s.globals.Apart
  cache : ∀ key v, s.cache.find? key = some v → v.Apart

structure EvalState.Apart (s : EvalState) : Prop where
  session : s.session.Apart
  frame : s.frame.Apart

namespace EvalState.Apart

variable {s : EvalState}

theorem lookup (h : s.Apart) {name : String} {v : Value}
    (hFound : s.frame.lookup s.session.globals name = some v) : v.Apart := by
  obtain ⟨session, frame⟩ := s
  obtain ⟨hSession, hFrame⟩ := h
  cases frame with
  | top => exact hSession.globals.find? hFound
  | call locals captured =>
    change (locals.find? name <|> captured.find? name <|> session.globals.find? name) = some v
      at hFound
    cases hLocal : locals.find? name with
    | some w =>
      rw [hLocal] at hFound
      cases hFound
      exact hFrame.1.find? hLocal
    | none =>
      cases hCaptured : captured.find? name with
      | some w =>
        rw [hLocal, hCaptured] at hFound
        cases hFound
        exact hFrame.2.find? hCaptured
      | none =>
        rw [hLocal, hCaptured] at hFound
        exact hSession.globals.find? hFound

theorem innermost (h : s.Apart) : (s.frame.innermost s.session.globals).Apart := by
  obtain ⟨session, frame⟩ := s
  cases frame with
  | top => exact h.session.globals
  | call locals captured => exact h.frame.1

end EvalState.Apart

theorem Session.Apart.returned {s : Session} (h : s.Apart) (key : Option CallKey) {v : Value}
    (hValue : v.Apart) : (s.returned key v).Apart where
  globals := by cases key <;> exact h.globals
  cache other x hFound := by
    rcases find?_returned hFound with hBefore | ⟨-, rfl⟩
    · exact h.cache other x hBefore
    · exact hValue

/-! ### Runs -/

/-- A watched run beside the run itself, with the same states, whose values are apart; nothing is
pardoned. -/
def keepingApart (watch : Watch) : Comparison Still where
  floats := True
  spans := Eq
  states _ s s' := s = s' ∧ s.Apart
  rooms := Eq
  watch := watch
  pardoned _ := False
  pardoned' _ := False

namespace keepingApart

/-- The values of the two runs. -/
def Values (_ : Still) (v v' : Value) : Prop := v = v' ∧ v.Apart

variable {watch : Watch} {w : Still} {s : EvalState}

theorem results {r : Except Fault Value} (h : ∀ v, r = .ok v → v.Apart) :
    (keepingApart watch).Results (Values w) r r := by
  cases r with
  | ok v => exact .ok ⟨rfl, h v rfl⟩
  | error f => exact .error f

theorem eq_of_forall₂ {vs vs' : List Value} (h : List.Forall₂ (Values w) vs vs') :
    vs = vs' ∧ ∀ v ∈ vs, v.Apart := by
  induction h with
  | nil => exact ⟨rfl, by simp⟩
  | cons head _ ih => exact ⟨by rw [head.1, ih.1], List.forall_mem_cons.2 ⟨head.2, ih.2⟩⟩

theorem outcome_define {name : String} {v : Value} (hValue : v.Apart) (h : s.Apart) :
    (keepingApart watch).Outcome w (fun _ _ _ => True)
      ((do announce name v; EvalM.define name v : EvalM Unit) s)
      ((do announce name v; EvalM.define name v : EvalM Unit) s) := by
  obtain ⟨session, frame⟩ := s
  obtain ⟨hSession, hFrame⟩ := h
  cases frame with
  | top =>
    rw [announce_define_top]
    exact .ok (le_refl w) trivial
      ⟨rfl, ⟨hSession.globals.insert name hValue, hSession.cache⟩, trivial⟩
  | call locals captured =>
    rw [announce_define_call]
    exact .ok (le_refl w) trivial ⟨rfl, hSession, hFrame.1.insert name hValue, hFrame.2⟩

theorem outcome_makeFunction (params : List String) (body : List Node) (h : s.Apart) :
    (keepingApart watch).Outcome w Values (makeFunction params body s)
      (makeFunction params body s) := by
  rw [makeFunction_apply]
  exact .ok (le_refl w) ⟨rfl, Value.apart_function h.innermost⟩
    ⟨rfl, ⟨h.session.globals, h.session.cache⟩, h.frame⟩

theorem outcome_apply {ev ev' : Evaluator} (hEv : (keepingApart watch).SimulatesBy Values ev ev')
    {f : Closure Value} {args : List Value} (hFunction : (Value.function f).Apart)
    (hArgs : ∀ v ∈ args, v.Apart) (span : Span) (h : s.Apart) :
    (keepingApart watch).Outcome w Values (apply ev f args span s) (apply ev' f args span s) := by
  have hCaptured : f.captured.Apart := fun name v hEntry =>
    hFunction.of_inside (.captured hEntry .self)
  by_cases hArity : args.length = f.params.length
  · cases hFound : (s.session.keyOf f args).bind s.session.cache.find? with
    | some v =>
      obtain ⟨key, -, hCached⟩ := Option.bind_eq_some_iff.1 hFound
      rw [apply_remembered hArity hFound, apply_remembered hArity hFound]
      exact .ok (le_refl w) ⟨rfl, h.session.cache key v hCached⟩
        ⟨rfl, ⟨h.session.globals, h.session.cache⟩, h.frame⟩
    | none =>
      have hFrame : (f.frame args).Apart := ⟨Bindings.apart_empty.insertAll hArgs, hCaptured⟩
      have hBody : (keepingApart watch).AlikeNodes f.body f.body :=
        Node.LikeAll.refl trivial (fun _ => rfl) _
      refine Comparison.outcome_apply_run hArity hArity hFound hFound ?_ ?_ ?_
      · exact Comparison.outcome_inOrder hEv hBody ⟨rfl, Value.apart_void⟩
          ⟨rfl, ⟨h.session.globals, h.session.cache⟩, hFrame⟩
      · rintro w' v v' t t' - - - ⟨rfl, hValue⟩ ⟨rfl, hInside⟩
        exact ⟨rfl, hInside.session.returned _ hValue, h.frame⟩
      · rintro w' t t' - ⟨rfl, hInside⟩
        exact ⟨rfl, hInside.session, h.frame⟩
  · exact Comparison.outcome_apply_arity rfl rfl rfl ⟨rfl, h⟩ hArity

/-- A watch that is quiet wherever all values are apart stops nothing. -/
theorem rules (hQuiet : ∀ room n s, s.Apart → watch.alarm room n s = false) :
    (keepingApart watch).Rules Values where
  alarm h hAlarm := Bool.noConfusion ((hQuiet _ _ _ h.2).symm.trans hAlarm)
  rooms_succ h := Nat.succ.inj h
  rooms_zero h := Or.inr ⟨h.symm, fun _ _ _ hStates => by rw [hStates.1]⟩
  rooms_zero' h := by cases h
  enterForm := by
    rintro w s _ ⟨rfl, h⟩
    exact ⟨rfl, ⟨h.session.globals, h.session.cache⟩, h.frame⟩
  leaveForm := by
    rintro w s _ ⟨rfl, h⟩
    exact ⟨rfl, ⟨h.session.globals, h.session.cache⟩, h.frame⟩
  mono _ h := h
  ofNode h := ⟨congrArg Value.ofNode h.eq, Value.apart_ofNode _⟩
  void := ⟨rfl, Value.apart_void⟩
  boolean := ⟨rfl, Value.apart_boolean _⟩
  callee := by
    rintro w v _ ⟨rfl, -⟩
    cases v with
    | function f => exact Or.inl ⟨f, f, rfl, rfl⟩
    | _ => exact Or.inr ⟨rfl, rfl, Or.inl rfl⟩
  isAtom h := by rw [h.1]
  holds h := by rw [h.1]
  cons := by
    rintro w v _ x _ ⟨rfl, h⟩ ⟨rfl, h'⟩
    exact ⟨rfl, h.cons h'⟩
  car := by
    rintro w v _ ⟨rfl, h⟩
    exact results fun x => h.car
  cdr := by
    rintro w v _ ⟨rfl, h⟩
    exact results fun x => h.cdr
  fold := by
    intro w room span op operands operator s t vs vs' _ _ _ _ h
    obtain ⟨rfl, hAll⟩ := eq_of_forall₂ h
    exact results fun v => Value.apart_fold hAll
  lookup := by
    rintro w room n name s _ - - ⟨rfl, h⟩
    cases hFound : s.frame.lookup s.session.globals name with
    | none => exact .none
    | some v => exact .some ⟨rfl, h.lookup hFound⟩
  define := by
    rintro w room span target expression operator name s t _ v _ - - - ⟨rfl, hValue⟩ ⟨rfl, h⟩
    exact outcome_define hValue h
  compare _ _ _ _ h h' := by rw [h.1, h'.1]
  makeFunction := by
    rintro w params body body' s _ hBody ⟨rfl, h⟩
    rw [← hBody.eq]
    exact outcome_makeFunction params body h
  apply := by
    rintro w room room' f _ args args' span span' s _ hRooms hEv ⟨hSame, hFunction⟩ hArgs hSpan
      ⟨rfl, h⟩
    cases hSame
    cases hSpan
    obtain ⟨rfl, hAll⟩ := eq_of_forall₂ hArgs
    exact outcome_apply (hEv _ hRooms) hFunction hAll _ h

/-- The two runs end in the same. -/
theorem eq_of_outcome {r r' : EStateM.Result EvalError EvalState Value}
    (h : (keepingApart watch).Outcome w Values r r') : r = r' := by
  cases h with
  | pardoned h => exact h.elim
  | pardoned' h => exact h.elim
  | ok _ hValue hStates => rw [hValue.1, hStates.1]
  | error _ hFault hSpan hStates => rw [EvalError.eq_of_parts hFault hSpan, hStates.1]

theorem simulates_watched (hQuiet : ∀ room n s, s.Apart → watch.alarm room n s = false) :
    (keepingApart watch).SimulatesBy Values (Session.watched watch) evaluate := by
  rintro n n' hNodes w s _ ⟨rfl, h⟩
  exact (rules hQuiet).simulates rfl n n' hNodes w s s ⟨rfl, h⟩

theorem simulates_evaluate : (keepingApart .never).SimulatesBy Values evaluate evaluate := by
  have hNever : (keepingApart .never).SimulatesBy Values (Session.watched .never) evaluate :=
    simulates_watched fun _ _ _ _ => rfl
  have hSame : Session.watched .never = evaluate := by
    funext n s
    rw [Session.watched, watchedWithin_never, evaluate]
  rwa [hSame] at hNever

end keepingApart

/-! ### Sessions -/

namespace Session

theorem apart_new (options : Options) : (new options).Apart where
  globals := Bindings.apart_empty
  cache key v hFound := by
    rw [show (new options).cache = .empty from rfl, Cache.find?_empty] at hFound
    cases hFound

/-- What an action leaves and what it returns. -/
theorem perform_apart {s : Session} {frame : Frame} {act : EvalM Value} {w : Still}
    (h : (keepingApart .never).Outcome w keepingApart.Values (act ⟨s, frame⟩) (act ⟨s, frame⟩)) :
    (s.perform frame act).2.session.Apart ∧ ∀ v, (s.perform frame act).1 = .ok v → v.Apart := by
  rw [perform]
  generalize act ⟨s, frame⟩ = r at h
  cases h with
  | pardoned h => exact h.elim
  | pardoned' h => exact h.elim
  | ok _ hValue hStates =>
    refine ⟨hStates.2.session, fun v hv => ?_⟩
    cases hv
    exact hValue.2
  | error _ _ _ hStates => exact ⟨hStates.2.session, fun v hv => by cases hv⟩

theorem run_apart {s : Session} (h : s.Apart) (program : List Node) :
    (s.run program).2.Apart ∧ ∀ v, (s.run program).1 = .ok v → v.Apart := by
  have hNodes : (keepingApart .never).AlikeNodes program program :=
    Node.LikeAll.refl trivial (fun _ => rfl) program
  have hOutcome := Comparison.outcome_inOrder (w := ⟨⟩) (s := ⟨s, .top⟩)
    keepingApart.simulates_evaluate hNodes ⟨rfl, Value.apart_void⟩ ⟨rfl, h, trivial⟩
  exact perform_apart hOutcome

theorem apply_apart {s : Session} (h : s.Apart) {f : Closure Value} {args : List Value}
    (hFunction : (Value.function f).Apart) (hArgs : ∀ v ∈ args, v.Apart) (span : Span) :
    (s.apply f args span).2.Apart ∧ ∀ v, (s.apply f args span).1 = .ok v → v.Apart := by
  have hOutcome := keepingApart.outcome_apply (w := ⟨⟩) (s := ⟨s, .top⟩)
    keepingApart.simulates_evaluate hFunction hArgs span ⟨h, trivial⟩
  exact perform_apart hOutcome

theorem runText_apart {s : Session} (h : s.Apart) (text : String) :
    (s.runText text).2.Apart ∧ ∀ v, (s.runText text).1 = .ok v → v.Apart := by
  rw [runText]
  cases Program.ofString text with
  | error e => exact ⟨h, fun v hv => by cases hv⟩
  | ok program =>
    obtain ⟨hAfter, hValue⟩ := run_apart h program
    refine ⟨hAfter, fun v hv => hValue v ?_⟩
    dsimp only at hv
    cases hResult : (s.run program).1 <;> rw [hResult] at hv <;> cases hv
    rfl

open Classical in
/-- An alarm that goes off where a value in the bindings or among the remembered results is not
apart. -/
noncomputable def overlap (_ : Nat) (_ : Node) (s : EvalState) : Bool := !decide s.Apart

/-- **No evaluation starts where a pair overlaps with a list**, in the course of any texts. -/
theorem undisturbed_overlap {s : Session} (h : s.Apart) (texts : List String) :
    s.Undisturbed overlap texts := by
  intro e
  have hQuiet : ∀ room n (s : EvalState), s.Apart →
      (⟨overlap, e⟩ : Watch).alarm room n s = false := fun room n s h => by
    simp [overlap, h]
  have hText (s : Session) (h : s.Apart) (text : String) :
      s.runTextBy (watched ⟨overlap, e⟩) text = s.runText text := by
    rw [← runTextBy_evaluate, runTextBy, runTextBy]
    cases Program.ofString text with
    | error e => rfl
    | ok program =>
      have hNodes : (keepingApart ⟨overlap, e⟩).AlikeNodes program program :=
        Node.LikeAll.refl trivial (fun _ => rfl) program
      have hOutcome := Comparison.outcome_inOrder (w := ⟨⟩) (s := ⟨s, .top⟩)
        (keepingApart.simulates_watched hQuiet) hNodes ⟨rfl, Value.apart_void⟩ ⟨rfl, h, trivial⟩
      dsimp only
      rw [perform, perform, keepingApart.eq_of_outcome hOutcome]
  show s.runAllBy _ texts = s.runAllBy Eval.evaluate texts
  induction texts generalizing s with
  | nil => rfl
  | cons text texts ih =>
    rw [runAllBy, runAllBy, hText s h, runTextBy_evaluate, ih (runText_apart h text).1]

/-- At some depth in a global binding or in a remembered result. -/
inductive Contains (s : Session) (w : Value) : Prop
  | bound {name : String} {v : Value} (hEntry : (name, v) ∈ s.globals.entries) (inside : w.Inside v)
  | remembered {key : CallKey} {v : Value} (hFound : s.cache.find? key = some v)
      (inside : w.Inside v)

/-- What can be got hold of: what the session contains, and what is in a value that it returned. -/
inductive Reveals (s : Session) (returned : List Value) (w : Value) : Prop
  | contained (h : s.Contains w)
  | returned {v : Value} (hv : v ∈ returned) (inside : w.Inside v)

/-- The sessions that a new one can become, with the values that were returned on the way: texts and
programs are run, and functions that were got hold of are called with such arguments. -/
inductive Reached (options : Options) : Session → List Value → Prop
  | new : Reached options (new options) []
  | text {s : Session} {returned : List Value} (prior : Reached options s returned)
      (text : String) :
      Reached options (s.runText text).2 ((s.runText text).1.toOption.toList ++ returned)
  | program {s : Session} {returned : List Value} (prior : Reached options s returned)
      (nodes : List Node) :
      Reached options (s.run nodes).2 ((s.run nodes).1.toOption.toList ++ returned)
  | call {s : Session} {returned : List Value} {f : Closure Value} {args : List Value}
      (prior : Reached options s returned) (hFunction : s.Reveals returned (.function f))
      (hArgs : ∀ v ∈ args, s.Reveals returned v) (span : Span) :
      Reached options (s.apply f args span).2 ((s.apply f args span).1.toOption.toList ++ returned)

variable {options : Options} {s : Session} {returned : List Value}

theorem Reveals.apart (h : s.Apart) (hReturned : ∀ v ∈ returned, v.Apart) {w : Value}
    (hReveals : s.Reveals returned w) : w.Apart := by
  cases hReveals with
  | contained hContains =>
    cases hContains with
    | bound hEntry inside => exact (h.globals _ _ hEntry).of_inside inside
    | remembered hFound inside => exact (h.cache _ _ hFound).of_inside inside
  | returned hv inside => exact (hReturned _ hv).of_inside inside

/-- One more result among those that were returned. -/
theorem forall_mem_result {ε : Type} {r : Except ε Value} (h : ∀ v, r = .ok v → v.Apart)
    (hReturned : ∀ v ∈ returned, v.Apart) : ∀ v ∈ r.toOption.toList ++ returned, v.Apart := by
  cases r with
  | error e => exact hReturned
  | ok v => exact List.forall_mem_cons.2 ⟨h v rfl, hReturned⟩

/-- **Whatever a session does, its pairs and lists stay apart.** -/
theorem Reached.apart (h : Reached options s returned) : s.Apart ∧ ∀ v ∈ returned, v.Apart := by
  induction h with
  | new => exact ⟨apart_new options, fun v hv => by cases hv⟩
  | text _ text ih =>
    obtain ⟨hSession, hReturned⟩ := ih
    obtain ⟨hAfter, hValue⟩ := runText_apart hSession text
    exact ⟨hAfter, forall_mem_result hValue hReturned⟩
  | program _ nodes ih =>
    obtain ⟨hSession, hReturned⟩ := ih
    obtain ⟨hAfter, hValue⟩ := run_apart hSession nodes
    exact ⟨hAfter, forall_mem_result hValue hReturned⟩
  | call _ hFunction hArgs span ih =>
    obtain ⟨hSession, hReturned⟩ := ih
    obtain ⟨hAfter, hValue⟩ := apply_apart hSession (hFunction.apart hSession hReturned)
      (fun v hv => (hArgs v hv).apart hSession hReturned) span
    exact ⟨hAfter, forall_mem_result hValue hReturned⟩

/-- **Pairs and lists never overlap.**  Nothing that can be got hold of, at any depth, is a pair
whose second part is a list, neither between runs nor where an evaluation starts in one.  So what
is taken apart is put together again, and what was put together is taken apart again. -/
theorem pairs_and_lists_apart (h : Reached options s returned) :
    (∀ v, s.Reveals returned v → (∀ head items, v ≠ .pair head (.list items)) ∧
      (v.HasParts → ∃ head tail, v.car = .ok head ∧ v.cdr = .ok tail ∧ head.cons tail = v)) ∧
    (∀ texts, s.Undisturbed overlap texts) ∧
    ∀ head tail : Value, (head.cons tail).car = .ok head ∧ (head.cons tail).cdr = .ok tail := by
  obtain ⟨hSession, hReturned⟩ := h.apart
  refine ⟨fun v hv => ?_, undisturbed_overlap hSession, fun head tail =>
    ⟨Value.car_cons head tail, Value.cdr_cons head tail⟩⟩
  have hApart : v.Apart := hv.apart hSession hReturned
  refine ⟨fun head items hSame => ?_, hApart.cons_parts⟩
  subst hSame
  exact hApart head items .self

/-- A pair in front of a list. -/
theorem pairs_and_lists_apart_nested :
    let s := ((new .standard).runText "(p ((1 2 cons) ((3) quote) cons) define)").2
    let v : Value := .list [.pair (.integer 1) (.integer 2), .integer 3]
    s.globals.find? "p" = some v ∧
      ∃ head tail, v.car = .ok head ∧ v.cdr = .ok tail ∧ head.cons tail = v := by
  intro s v
  have hReached : Reached .standard s _ := .text .new "(p ((1 2 cons) ((3) quote) cons) define)"
  have hRead : Program.ofString "(p ((1 2 cons) ((3) quote) cons) define)" =
      .ok [.list [.atom (.symbol "p") ⟨1, 2⟩, .list [.list [.atom (.int 1) ⟨5, 6⟩,
        .atom (.int 2) ⟨7, 8⟩, .atom (.symbol "cons") ⟨9, 13⟩] ⟨4, 14⟩,
        .list [.list [.atom (.int 3) ⟨17, 18⟩] ⟨16, 19⟩, .atom (.symbol "quote") ⟨20, 25⟩] ⟨15, 26⟩,
        .atom (.symbol "cons") ⟨27, 31⟩] ⟨3, 32⟩, .atom (.symbol "define") ⟨33, 39⟩] ⟨0, 40⟩] := by
    rfl
  have hGlobals : s.globals = ⟨[("p", v)]⟩ := by
    show (runText _ _).2.globals = _
    rw [runText, hRead]
    rfl
  have hEntry : ("p", v) ∈ s.globals.entries := by
    rw [hGlobals]
    exact List.mem_cons_self
  refine ⟨by rw [hGlobals]; rfl, ?_⟩
  exact ((pairs_and_lists_apart hReached).1 v (.contained (.bound hEntry .self))).2 trivial

end Session

end PostLisp

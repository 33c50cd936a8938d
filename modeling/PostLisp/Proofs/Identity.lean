import PostLisp.Proofs.Registered

/-!
# What the identity of a function stands for

A remembered result is found by the identity of the function, so two functions of one identity
would share their results.  There are none: the functions that can be reached from the globals and
from the remembered results, through lists, pairs and captured bindings, are told apart by their
identities, all of which lie below the counter that makes new ones.  So what the cache answers to a
call was computed by the function that is called, at every point of every run.
-/

namespace PostLisp

open Eval EvalM

/-! ### Functions inside values -/

/-- `g` is in the value: it is the value itself, or it is in an item of a list, in a part of a pair
or in what a function has captured. -/
inductive Value.Holds (g : Closure Value) : Value → Prop
  | self : Holds g (.function g)
  | captured {f : Closure Value} {name : String} {v : Value} (hEntry : (name, v) ∈ f.captured.entries)
      (inside : Holds g v) : Holds g (.function f)
  | item {vs : List Value} {v : Value} (hItem : v ∈ vs) (inside : Holds g v) : Holds g (.list vs)
  | head {v w : Value} (inside : Holds g v) : Holds g (.pair v w)
  | tail {v w : Value} (inside : Holds g w) : Holds g (.pair v w)

namespace Value

variable {floats : Prop} {functions : Closure Value → Closure Value → Prop}

theorem LikeAll.of_mem {vs : List Value} {v : Value} (h : LikeAll floats functions vs vs)
    (hItem : v ∈ vs) : Like floats functions v v := by
  induction vs with
  | nil => cases hItem
  | cons w ws ih =>
    cases h with
    | cons head tail =>
      rcases List.mem_cons.1 hItem with rfl | hRest
      · exact head
      · exact ih tail hRest

theorem LikeEntries.of_mem {es : List (String × Value)} {name : String} {v : Value}
    (h : LikeEntries floats functions es es) (hEntry : (name, v) ∈ es) :
    Like floats functions v v := by
  induction es with
  | nil => cases hEntry
  | cons e es ih =>
    cases h with
    | cons head tail =>
      rcases List.mem_cons.1 hEntry with hHead | hRest
      · cases hHead
        exact head
      · exact ih tail hRest

/-- The functions in a value that conforms to a registry are the registered ones. -/
theorem Holds.registered {w : Registry} {v : Value} {f : Closure Value} (h : v.Holds f)
    (hValue : v.Conforms True w) : w f.id = some f := by
  induction h with
  | self =>
    cases hValue with
    | function hKnown _ => exact hKnown.registered
  | captured hEntry _ ih =>
    cases hValue with
    | function _ hCaptured => exact ih (hCaptured.of_mem hEntry)
  | item hItem _ ih =>
    cases hValue with
    | list items => exact ih (items.of_mem hItem)
  | head _ ih =>
    cases hValue with
    | pair head _ => exact ih head
  | tail _ ih =>
    cases hValue with
    | pair _ tail => exact ih tail

end Value

/-! ### Functions inside sessions -/

namespace Session

/-- The function can be reached from a global binding or from a remembered result. -/
inductive Holds (s : Session) (f : Closure Value) : Prop
  | bound {name : String} {v : Value} (hEntry : (name, v) ∈ s.globals.entries) (inside : v.Holds f)
  | remembered {key : CallKey} {v : Value} (hFound : s.cache.find? key = some v) (inside : v.Holds f)

/-- Identities tell the functions of a session apart, and new ones will be told apart from them;
what is remembered under an identity was computed by the function that has it. -/
structure SoundIdentities (s : Session) : Prop where
  below : ∀ f, s.Holds f → f.id < s.nextId
  keys_below : ∀ key v, s.cache.find? key = some v → key.function < s.nextId
  unique : ∀ f g, s.Holds f → s.Holds g → f.id = g.id → f = g
  computed : ∀ f key v, s.Holds f → s.cache.find? key = some v → key.function = f.id →
    f.Computed key v s.events

end Session

namespace Registered

variable {w : Registry} {s : EvalState} {f : Closure Value}

theorem function (h : Registered True w s) (hHolds : s.session.Holds f) : w f.id = some f := by
  cases hHolds with
  | bound hEntry inside => exact inside.registered (h.globals.of_mem hEntry)
  | remembered hFound inside => exact inside.registered (h.cache _ _ hFound).value

/-- What is remembered under the identity of a registered function was computed by it. -/
theorem computed (h : Registered True w s) (hFunction : w f.id = some f) {key : CallKey} {v : Value}
    (hFound : s.session.cache.find? key = some v) (hKey : key.function = f.id) :
    f.Computed key v s.session.events := by
  obtain ⟨g, hRegistered, hComputed⟩ := (h.cache key v hFound).computed
  rw [hKey, hFunction] at hRegistered
  cases hRegistered
  exact hComputed

theorem soundIdentities (h : Registered True w s) : s.session.SoundIdentities where
  below f hf := h.below _ f (h.function hf)
  keys_below key v hFound := by
    obtain ⟨f, hRegistered, -⟩ := (h.cache key v hFound).computed
    exact h.below _ f hRegistered
  unique f g hf hg hIds := by
    have hFunction := h.function hf
    rw [hIds, h.function hg] at hFunction
    exact (Option.some.inj hFunction).symm
  computed f _ _ hf hFound hKey := h.computed (h.function hf) hFound hKey

end Registered

/-! ### Calls in the course of a run -/

namespace Eval

/-- The form with these items comes to call `f`, by its name or as the value of the last item: all
of the items have been evaluated in `u`, where the call starts. -/
inductive Calls (room : Nat) (f : Closure Value) (args : List Value) (u : EvalState) :
    List Node → EvalState → Prop
  | named {operands : List Node} {operator : Node} {name : String} {s : EvalState}
      (hName : operator.symbol? = some name) (hArith : ArithOp.ofSymbol? name = none)
      (hSpecial : SpecialForm.ofSymbol? name = none)
      (hFunction : s.frame.lookup s.session.globals name = some (.function f))
      (hArgs : operandValues (evaluateWithin room) operands s = .ok args u) :
      Calls room f args u (operands ++ [operator]) s
  | inline {operands : List Node} {operator : Node} {s t : EvalState}
      (hName : operator.symbol? = none)
      (hFunction : evaluateWithin room operator s = .ok (.function f) t)
      (hArgs : operandValues (evaluateWithin room) operands t = .ok args u) :
      Calls room f args u (operands ++ [operator]) s

variable {room : Nat} {f : Closure Value} {args : List Value} {s u : EvalState} {items : List Node}

/-- The form is the call. -/
theorem Calls.form_eq (h : Calls room f args u items s) (span : Span) :
    form (evaluateWithin room) items span s = apply (evaluateWithin room) f args span u := by
  cases h with
  | @named operands operator name _ hName hArith hSpecial hFunction hArgs =>
    have hLookup : EvalM.lookup name s = .ok (some (.function f)) s := by
      show EStateM.Result.ok _ s = _
      rw [hFunction]
    rw [form, List.getLast?_concat, List.dropLast_concat]
    simp only [hName]
    rw [namedForm, hArith, hSpecial]
    dsimp only
    rw [bind_ok hLookup]
    exact bind_ok hArgs
  | @inline operands operator _ t hName hFunction hArgs =>
    rw [form, List.getLast?_concat, List.dropLast_concat]
    simp only [hName]
    rw [bind_ok hFunction]
    exact bind_ok hArgs

/-- The function that a form comes to call is registered when the call starts. -/
theorem Calls.registered {w : Registry} (h : Calls room f args u items s) (hState : Registered True w s) :
    ∃ w', Registered True w' u ∧ w' f.id = some f := by
  -- the operands are evaluated where the function is known already
  have hOperands : ∀ {w : Registry} {t : EvalState} {operands : List Node}, Registered True w t →
      w f.id = some f → operandValues (evaluateWithin room) operands t = .ok args u →
      ∃ w', Registered True w' u ∧ w' f.id = some f := by
    intro w t operands hState hFunction hArgs
    have hStates : (conforming True .never).states w t t := ⟨rfl, hState⟩
    have hOutcome := Comparison.outcome_operandValues
      (conforming.laws conforming.quiet_never).rules.toStepRules
      (conforming.simulates_evaluateWithin room)
      (Node.LikeAll.refl trivial (fun _ => rfl) operands) hStates
    rw [hArgs] at hOutcome
    cases hOutcome with
    | @ok w' _ _ _ _ hWorld _ hNext => exact ⟨w', hNext.2, hWorld _ _ hFunction⟩
  cases h with
  | @named operands operator name _ _ _ _ hFunction hArgs =>
    have hFound := hState.frame.lookup hState.globals name
    rw [hFunction] at hFound
    cases hFound with
    | some hValue => exact hOperands hState (Value.Holds.self.registered hValue) hArgs
  | @inline operands operator _ t _ hFunction hArgs =>
    have hStates : (conforming True .never).states w s s := ⟨rfl, hState⟩
    have hOutcome := conforming.simulates_evaluateWithin room operator operator
      (Node.Like.refl trivial (fun _ => rfl) operator) w s s hStates
    rw [hFunction] at hOutcome
    cases hOutcome with
    | @ok w' _ _ _ _ _ hValue hNext =>
      exact hOperands hNext.2 (Value.Holds.self.registered hValue) hArgs

/-- The node is a form that comes to call a function, and the cache has an answer to the call that
this function has not computed. -/
inductive ForeignAnswer : Nat → Node → EvalState → Prop
  | intro {room : Nat} {items : List Node} {span : Span} {s u : EvalState} {f : Closure Value}
      {args : List Value} {key : CallKey} {v : Value} (hCalls : Calls room f args u items s.enterForm)
      (hKey : u.session.keyOf f args = some key) (hFound : u.session.cache.find? key = some v)
      (hForeign : ¬ f.Computed key v u.session.events) :
      ForeignAnswer (room + 1) (.list items span) s

theorem not_foreignAnswer {w : Registry} {n : Node} (h : Registered True w s) :
    ¬ ForeignAnswer room n s := by
  rintro ⟨hCalls, hKey, hFound, hForeign⟩
  obtain ⟨w', hState, hFunction⟩ := hCalls.registered h.enterForm
  exact hForeign (hState.computed hFunction hFound (Session.keyOf_eq_some hKey).1)

end Eval

namespace Session

/-- No node has the property when its evaluation starts, in the whole course of the texts: no alarm
that goes off at such nodes only makes a difference. -/
def Never (happens : Nat → Node → EvalState → Prop) (s : Session) (texts : List String) : Prop :=
  ∀ alarm, (∀ room n t, alarm room n t = true → happens room n t) → s.Undisturbed alarm texts

/-- Where floats may occur, every text may be read. -/
theorem allowed_true (text : String) : Allowed True text := fun program _ =>
  Node.LikeAll.refl trivial (fun _ => rfl) program

theorem runAllBy_quiet {watch : Watch} (hQuiet : watch.Quiet True) {w : Registry} {s : Session}
    (h : Registered True w ⟨s, .top⟩) (texts : List String) :
    s.runAllBy (watched watch) texts = s.runAll texts := by
  induction texts generalizing w s with
  | nil => rfl
  | cons text texts ih =>
    obtain ⟨hSame, w', hNext⟩ := runText_registered hQuiet h (allowed_true text)
    show s.runTextBy (watched watch) text ::
        (s.runTextBy (watched watch) text).2.runAllBy (watched watch) texts =
      s.runText text :: (s.runText text).2.runAll texts
    rw [hSame, ih hNext]

/-- **The identity of a function is sound.**  After any texts the functions of a session are told
apart by identities below the counter, and never in the course of the texts does the cache answer a
call with a result of another function than the one that is called. -/
theorem identities_sound (options : Options) (texts : List String) :
    ((new options).after texts).SoundIdentities ∧ (new options).Never ForeignAnswer texts := by
  have hNew : Registered True .empty ⟨new options, .top⟩ := registered_new options
  constructor
  · obtain ⟨w, hAfter⟩ := after_registered hNew fun text _ => allowed_true text
    exact hAfter.soundIdentities
  · intro alarm hAlarm e
    refine runAllBy_quiet (fun w room n s hState => ?_) hNew texts
    cases hRings : alarm room n s with
    | false => exact hRings
    | true => exact (not_foreignAnswer hState (hAlarm room n s hRings)).elim

end Session

end PostLisp

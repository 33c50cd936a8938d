import PostLisp.Proofs.Scope

/-!
# Functions that call themselves

A function made at top level captures the globals as they are before its own definition.  So the
name that it is defined under is found behind the captured bindings, among the globals, only if
they did not bind it yet.  `definition_resolves` says what the name means in every frame of the
function until the next definition of the name: the function itself if the name was free before,
and the older value if it was not.
-/

namespace PostLisp

open EvalM

/-! ### Later sessions -/

namespace Session

/-- The sessions that can follow a session.  The evaluation of any node in any frame may come next,
and so may any change that keeps the globals and the number of definitions of each name. -/
inductive Later (s : Session) : Session → Prop
  | refl : Later s s
  | evaluated {t : Session} (room : Nat) (n : Node) (frame : Frame) (prior : Later s t) :
      Later s ((Eval.evaluateWithin room n).final ⟨t, frame⟩).session
  | aside {t u : Session} (prior : Later s t) (hGlobals : u.globals = t.globals)
      (hEvents : ∀ name, u.definitionsOf name = t.definitionsOf name) : Later s u

namespace Later

variable {s t u : Session}

theorem trans (h : Later s t) (g : Later t u) : Later s u := by
  induction g with
  | refl => exact h
  | evaluated room n frame _ ih => exact .evaluated room n frame ih
  | aside _ hGlobals hEvents ih => exact .aside ih hGlobals hEvents

theorem logged (h : Later s t) : s.Logged t := by
  induction h with
  | refl => exact .refl s
  | evaluated room n frame _ ih => exact ih.trans (Eval.evaluateWithin_logged room n ⟨_, frame⟩)
  | aside _ hGlobals hEvents ih => exact ih.trans (.of_eq hGlobals hEvents)

end Later

end Session

instance : IsPreorder EvalState fun s t => s.session.Later t.session where
  refl _ := .refl
  trans _ _ _ := Session.Later.trans

namespace Eval

theorem moves_later_evaluate (n : Node) :
    Moves (fun s t => s.session.Later t.session) (evaluate n) := fun s =>
  .evaluated s.session.room n s.frame .refl

theorem moves_later_apply (f : Closure Value) (args : List Value) (span : Span) :
    Moves (fun s t => s.session.Later t.session) (apply evaluate f args span) := by
  refine moves_apply (fun s => ?_) (fun s cacheable => ?_) fun s key v => ?_
  · exact .aside .refl rfl fun _ => by simp [Session.definitionsOf, Session.answered]
  · have hEntered : s.session.Later (s.session.entered f cacheable) :=
      .aside .refl rfl fun _ => by simp [Session.definitionsOf, Session.entered]
    exact hEntered.trans (moves_inOrder (fun n _ => moves_later_evaluate n) _
      ⟨s.session.entered f cacheable, f.frame args⟩)
  · exact .aside .refl (by cases key <;> rfl) fun _ => by cases key <;> rfl

end Eval

namespace Session

theorem later_run (s : Session) (program : List Node) : s.Later (s.run program).2 := by
  show s.Later (s.perform .top _).2.session
  rw [session_perform]
  exact Eval.moves_inOrder (fun n _ => Eval.moves_later_evaluate n) _ ⟨s, .top⟩

theorem later_runText (s : Session) (text : String) : s.Later (s.runText text).2 := by
  obtain ⟨frame, hLater⟩ := s.moves_runText Eval.moves_later_evaluate text
  exact hLater

/-- What a session offers leads to later sessions only. -/
theorem later_apply (s : Session) (f : Closure Value) (args : List Value) (span : Span) :
    s.Later (s.apply f args span).2 := by
  show s.Later (s.perform .top _).2.session
  rw [session_perform]
  exact Eval.moves_later_apply f args span ⟨s, .top⟩

end Session

/-! ### The frames of a function -/

namespace Node

/-- The nodes that are evaluated in the frame in which `ns` are. -/
inductive Within (ns : List Node) : Node → Prop
  | item {n : Node} (hn : n ∈ ns) : Within ns n
  | part {items : List Node} {span : Span} {n : Node} (around : Within ns (.list items span))
      (hn : n ∈ evaluated items) : Within ns n

theorem Within.defined_subset {ns : List Node} {n : Node} (h : Within ns n) {name : String}
    (hName : name ∈ n.defined) : name ∈ definedAll ns := by
  induction h with
  | item hn => exact mem_definedAll.2 ⟨_, hn, hName⟩
  | part _ hn ih => exact ih (mem_defined.2 (Or.inr ⟨_, hn, hName⟩))

/-- The parameters and the body that a list ending in `lambda` spells, if it is written well. -/
def lambda? : Node → Option (List String × List Node)
  | .atom _ _ => none
  | .list items _ =>
    if EndsWith items SpecialForm.lambda.symbol then
      match items.dropLast with
      | .list params _ :: n :: body => (params.mapM symbol?).map (·, n :: body)
      | _ => none
    else none

end Node

/-- The frames in which the body of a function runs, in calls with any arguments, whatever was
evaluated in them and in whatever sessions. -/
inductive Closure.RunsIn (g : Closure Value) : Frame → Prop
  | start (args : List Value) : RunsIn g (g.frame args)
  | step {frame : Frame} (room : Nat) {n : Node} (s : Session) (prior : RunsIn g frame)
      (hn : Node.Within g.body n) :
      RunsIn g ((Eval.evaluateWithin room n).final ⟨s, frame⟩).frame

namespace Bindings

variable {α : Type}

theorem find?_insertAll_of_notMem {name : String} {entries : List (String × α)}
    (hName : ∀ entry ∈ entries, entry.1 ≠ name) (b : Bindings α) :
    (b.insertAll entries).find? name = b.find? name := by
  induction entries generalizing b with
  | nil => rfl
  | cons entry entries ih =>
    have hRest := ih (fun e he => hName e (List.mem_cons_of_mem entry he))
      (b.insert entry.1 entry.2)
    have hEntry := hName entry List.mem_cons_self
    exact hRest.trans (by rw [find?_insert, if_neg hEntry])

end Bindings

/-- A name that neither the parameters nor the body bind is not among the locals. -/
theorem Closure.RunsIn.locals {g : Closure Value} {frame : Frame} (h : g.RunsIn frame)
    {name : String} (hParams : name ∉ g.params) (hBody : name ∉ Node.definedAll g.body) :
    ∃ locals, frame = .call locals g.captured ∧ locals.find? name = none := by
  induction h with
  | start args =>
    refine ⟨_, rfl, ?_⟩
    rw [Bindings.find?_insertAll_of_notMem]
    · rfl
    · rintro entry hEntry rfl
      exact hParams (List.of_mem_zip hEntry).1
  | @step frame room n s _ hn ih =>
    obtain ⟨locals, rfl, hNone⟩ := ih
    have hMoves := Eval.evaluateWithin_innermost room n ⟨s, .call locals g.captured⟩
    obtain ⟨locals', hFrame, hLocals⟩ := hMoves.frame_of_call rfl
    refine ⟨locals', hFrame, ?_⟩
    rw [hLocals name fun hName => hBody (hn.defined_subset hName)]
    exact hNone

/-! ### Definitions of functions -/

namespace Eval

variable {ev : Evaluator}

theorem parameters_of_mapM {ns : List Node} {names : List String}
    (h : ns.mapM Node.symbol? = some names) : parameters ns = pure names := by
  induction ns generalizing names with
  | nil =>
    rw [List.mapM_nil] at h
    cases h
    rfl
  | cons n ns ih =>
    rw [List.mapM_cons] at h
    obtain ⟨name, hName, h⟩ := Option.bind_eq_some_iff.1 h
    obtain ⟨rest, hRest, h⟩ := Option.bind_eq_some_iff.1 h
    cases h
    rw [parameters, hName]
    dsimp only
    rw [ih hRest]
    rfl

theorem evaluateWithin_lambda {L : Node} {params : List String} {body : List Node} (room : Nat)
    (hLambda : L.lambda? = some (params, body)) :
    evaluateWithin (room + 1) L = nested (makeFunction params body) := by
  cases L with
  | atom a span => cases hLambda
  | list items span =>
    rw [Node.lambda?] at hLambda
    split at hLambda
    · rename_i hWord
      split at hLambda
      · rename_i params' span' n body' hItems
        obtain ⟨names, hNames, hBoth⟩ := Option.map_eq_some_iff.1 hLambda
        cases hBoth
        rcases List.eq_nil_or_concat items with rfl | ⟨operands, operator, rfl⟩
        · cases hItems
        · rw [List.concat_eq_append] at *
          rw [List.dropLast_concat] at hItems
          rw [evaluateWithin, form_eq_specialForm span (Node.endsWith_concat.1 hWord), hItems]
          show nested (parameters params' >>= fun names => makeFunction names (n :: body')) = _
          rw [parameters_of_mapM hNames]
          rfl
      · cases hLambda
    · cases hLambda

end Eval

/-- The function that these parameters and this body make at top level. -/
def Session.newFunction (s : Session) (params : List String) (body : List Node) :
    Closure Value where
  id := s.nextId
  params := params
  body := body
  captured := s.globals

/-- The session after this function was made and a name was defined to mean it, at top level. -/
def Session.defining (s : Session) (name : String) (params : List String) (body : List Node) :
    Session :=
  { s with
    globals := s.globals.insert name (.function (s.newFunction params body))
    nextId := s.nextId + 1
    events := .globalDefined name (.function (s.newFunction params body)) ::
      .functionCreated s.nextId params.length s.globals.size :: s.events }

namespace Eval

section

variable {target L operator : Node} {span : Span} {f : String} {params : List String}
  {body : List Node} {s : Session}

theorem form_definition (ev : Evaluator) (hTarget : target.symbol? = some f)
    (hOperator : operator.symbol? = some SpecialForm.define.symbol) :
    form ev [target, L, operator] span =
      (do let v ← ev L; announce f v; EvalM.define f v; pure .void) := by
  have hSpecial : form ev ([target, L] ++ [operator]) span = specialForm ev .define [target, L] span :=
    form_eq_specialForm span hOperator
  refine hSpecial.trans ?_
  rw [specialForm, define, hTarget]

/-- A definition of a function at top level makes the function and defines the name, if there is
room for the two forms. -/
theorem evaluateWithin_definition_room (hTarget : target.symbol? = some f)
    (hOperator : operator.symbol? = some SpecialForm.define.symbol)
    (hLambda : L.lambda? = some (params, body)) (room : Nat) :
    evaluateWithin (room + 2) (.list [target, L, operator] span) ⟨s, .top⟩ =
      .ok .void ⟨s.defining f params body, .top⟩ := by
  rw [evaluateWithin, form_definition _ hTarget hOperator, evaluateWithin_lambda room hLambda]
  rfl

theorem room_of_definition {room : Nat} {t : EvalState} {v : Value} (hTarget : target.symbol? = some f)
    (hOperator : operator.symbol? = some SpecialForm.define.symbol)
    (hLambda : L.lambda? = some (params, body))
    (hRun : evaluateWithin room (.list [target, L, operator] span) ⟨s, .top⟩ = .ok v t) :
    2 ≤ room := by
  cases room with
  | zero => cases hRun
  | succ room =>
    rw [evaluateWithin, form_definition _ hTarget hOperator] at hRun
    cases room with
    | zero =>
      cases L with
      | atom a span => cases hLambda
      | list items span' => cases hRun
    | succ room => omega

/-- A definition of a function at top level binds a new function. -/
theorem evaluateWithin_definition {room : Nat} {t : EvalState} {v : Value}
    (hTarget : target.symbol? = some f)
    (hOperator : operator.symbol? = some SpecialForm.define.symbol)
    (hLambda : L.lambda? = some (params, body))
    (hRun : evaluateWithin room (.list [target, L, operator] span) ⟨s, .top⟩ = .ok v t) :
    t.session.globals = s.globals.insert f (.function (s.newFunction params body)) := by
  have hRoom := room_of_definition hTarget hOperator hLambda hRun
  obtain ⟨rest, rfl⟩ := Nat.exists_eq_add_of_le' hRoom
  rw [evaluateWithin_definition_room hTarget hOperator hLambda] at hRun
  cases hRun
  rfl

end

/-- What a name means that is looked up in a form. -/
theorem form_of_lookup {operands : List Node} {operator : Node} {span : Span} {name : String}
    {s : EvalState} {v : Value} (hName : operator.symbol? = some name)
    (hReserved : name ∉ reservedWords) (hFound : s.frame.lookup s.session.globals name = some v) :
    form ev (operands ++ [operator]) span s = call ev v operator operands span s := by
  have hArith : ArithOp.ofSymbol? name = none := by
    refine List.find?_eq_none.2 fun op _ hSymbol => hReserved ?_
    rw [← eq_of_beq hSymbol]
    cases op <;> decide
  have hSpecial : SpecialForm.ofSymbol? name = none := by
    refine List.find?_eq_none.2 fun form _ hSymbol => hReserved ?_
    rw [← eq_of_beq hSymbol]
    cases form <;> decide
  have hLookup : EvalM.lookup name s = .ok (some v) s := by
    show EStateM.Result.ok _ s = _
    rw [hFound]
  rw [form, List.getLast?_concat, List.dropLast_concat]
  simp only [hName]
  rw [namedForm, hArith, hSpecial]
  exact bind_ok hLookup

/-- **What a function finds under the name that it was defined by.**  Until the name is defined
again it means, wherever the body of the function runs, the function itself if the name was free
before the definition, and otherwise what the name meant before; and a form that ends in the name
calls just that. -/
theorem definition_resolves {s : Session} {target L operator : Node} {span : Span} {f : String}
    {params : List String} {body : List Node} {t : EvalState} {v : Value}
    (hTarget : target.symbol? = some f)
    (hOperator : operator.symbol? = some SpecialForm.define.symbol)
    (hReserved : f ∉ reservedWords) (hLambda : L.lambda? = some (params, body))
    (hParams : f ∉ params) (hBody : f ∉ Node.definedAll body)
    (hRun : s.evaluate .top (.list [target, L, operator] span) = (.ok v, t)) :
    ∃ g : Closure Value, g.id = s.nextId ∧ g.params = params ∧ g.body = body ∧
      t.session.globals.find? f = some (.function g) ∧
      ∀ (later : Session) (frame : Frame), t.session.Later later →
        later.definitionsOf f = t.session.definitionsOf f → g.RunsIn frame →
        frame.lookup later.globals f = some ((s.globals.find? f).getD (.function g)) ∧
        ∀ (room : Nat) (operands : List Node) (name : Node) (span : Span), name.symbol? = some f →
          form (evaluateWithin room) (operands ++ [name]) span ⟨later, frame⟩ =
            call (evaluateWithin room) ((s.globals.find? f).getD (.function g)) name operands span
              ⟨later, frame⟩ := by
  have hOk : evaluateWithin s.room (.list [target, L, operator] span) ⟨s, .top⟩ = .ok v t := by
    rw [Session.evaluate, Session.perform] at hRun
    split at hRun
    · rename_i hAct
      cases hRun
      exact hAct
    · cases hRun
  have hGlobals := evaluateWithin_definition hTarget hOperator hLambda hOk
  have hFound : t.session.globals.find? f = some (.function (s.newFunction params body)) := by
    rw [hGlobals, Bindings.find?_insert, if_pos rfl]
  refine ⟨s.newFunction params body, rfl, rfl, rfl, hFound, ?_⟩
  intro later frame hLater hSame hFrame
  have hStill := (hLater.logged f).2 hSame
  obtain ⟨locals, rfl, hNone⟩ := hFrame.locals hParams hBody
  have hLookup : (Frame.call locals (s.newFunction params body).captured).lookup later.globals f =
      some ((s.globals.find? f).getD (.function (s.newFunction params body))) := by
    show (locals.find? f <|> s.globals.find? f <|> later.globals.find? f) = _
    rw [hNone, hStill, hFound]
    cases s.globals.find? f <;> rfl
  refine ⟨hLookup, fun room operands name span hName => ?_⟩
  exact form_of_lookup hName hReserved hLookup

/-- The definition `(f ((n) (n f) lambda) define)` in a new session. -/
theorem definition_resolves_new : ∃ (t : EvalState) (g : Closure Value),
    t.session.globals.find? "f" = some (.function g) ∧
    ∀ (later : Session) (frame : Frame), t.session.Later later →
      later.definitionsOf "f" = t.session.definitionsOf "f" → g.RunsIn frame →
      frame.lookup later.globals "f" = some (.function g) := by
  let word (name : String) : Node := .atom (.symbol name) .origin
  let body : List Node := [.list [word "n", word "f"] .origin]
  let L : Node := .list (.list [word "n"] .origin :: body ++ [word "lambda"]) .origin
  obtain ⟨g, -, -, -, hFound, hAll⟩ := definition_resolves (s := .new ⟨true, 2⟩) (f := "f") (L := L)
    (v := .void) (t := _) (rfl : (word "f").symbol? = _) (rfl : (word "define").symbol? = _)
    (by decide) (rfl : L.lambda? = some (["n"], body)) (by decide) (by decide)
    (rfl : Session.evaluate _ .top (.list [word "f", L, word "define"] .origin) = _)
  exact ⟨_, g, hFound, fun later frame hLater hSame hFrame =>
    (hAll later frame hLater hSame hFrame).1⟩

/-- **A new definition of a function does not reach its own recursive calls**: they find the
function that the name meant before. -/
theorem redefinition_calls_older :
    let s := ((Session.new .standard).runText "(f ((n) 0 lambda) define)").2
    let t := (s.runText "(f ((n) (((n 0 eq?) 10) (else ((n 1 -) f)) cond) lambda) define)").2
    ∃ g older : Closure Value, t.globals.find? "f" = some (.function g) ∧
      (g.frame [.integer 1]).lookup t.globals "f" = some (.function older) ∧ older.id ≠ g.id ∧
      (t.runText "(1 f)").1.toOption.any (· == .integer 0) = true := by
  intro s t
  have hIds : ((t.function? "f").bind fun g =>
      (((g.frame [.integer 1]).lookup t.globals "f").bind Value.function?).map (·.id != g.id)) =
        some true := by decide +kernel
  have hCall : (t.runText "(1 f)").1.toOption.any (· == .integer 0) = true := by decide +kernel
  obtain ⟨g, hFound, hRest⟩ := Option.bind_eq_some_iff.1 hIds
  obtain ⟨older, hOlder, hDiffer⟩ := Option.map_eq_some_iff.1 hRest
  obtain ⟨v, hLookup, hFunction⟩ := Option.bind_eq_some_iff.1 hOlder
  rw [Value.eq_function hFunction] at hLookup
  exact ⟨g, older, Session.find?_of_function? hFound, hLookup, by simpa using hDiffer, hCall⟩

end Eval

end PostLisp

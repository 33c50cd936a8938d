import PostLisp.Proofs.Moments
import PostLisp.Proofs.Reentry

/-!
# Results stay

In a session the cache is written once, as long as no call has the key of a call that is still in
progress and other arguments (`results_stay`).  A call with the same arguments does no harm, as it
does not end while the other one is in progress.  Without floats, arguments with the same key are the
same (`apart_without_floats`).  With floats they need not be, and a result may be replaced
(`result_replaced`).
-/

namespace PostLisp

open Eval EvalM

namespace Eval

variable {e e' : EvalError} {pending pending' : List Pending} {room : Nat} {n : Node} {s : EvalState}

theorem Caller.apart_or_stopped {caller : Caller} {evs evs' : List Pending → Evaluator}
    {f : Closure Value} {args : List Value} {span : Span}
    (hCaller : ∀ pending, caller pending evs f args span s = caller pending' evs' f args span s ∨
      ∃ t, caller pending evs f args span s = .error e t) :
    Caller.apart e caller pending evs f args span s = caller pending' evs' f args span s ∨
      ∃ t, Caller.apart e caller pending evs f args span s = .error e t := by
  by_cases hClashes : Clashes pending f args s
  · exact Or.inr ⟨s, Caller.apart_refused hClashes⟩
  · rw [Caller.apart_eq hClashes]
    exact hCaller _

/-- Evaluation that refuses calls is evaluation, or it stops. -/
theorem evaluateBy_apart_plain :
    evaluateBy (.apart e .plain) pending room n s = evaluateWithin room n s ∨
      ∃ t, evaluateBy (.apart e .plain) pending room n s = .error e t := by
  rw [← evaluateBy_plain []]
  exact evaluateBy_or_stopped (fun _ pending' _ _ hEv _ _ _ s => Caller.apart_or_stopped
    fun pending => apply_or_stopped (hEv pending pending') s) pending [] room n s

theorem evaluateWithin_of_apart {v : Value} {t : EvalState}
    (h : evaluateBy (.apart e .plain) pending room n s = .ok v t) : evaluateWithin room n s = .ok v t := by
  have hOr : evaluateBy (.apart e .plain) pending room n s = _ ∨ _ := evaluateBy_apart_plain
  rcases hOr with hSame | ⟨u, hStopped⟩
  · exact hSame.symm.trans h
  · rw [hStopped] at h
    cases h

theorem evaluateBy_apart_once :
    carefully e e' pending room n s = evaluateBy (.once e') pending' room n s ∨
      ∃ t, carefully e e' pending room n s = .error e t :=
  evaluateBy_or_stopped (fun _ pending' _ _ hEv _ _ _ s => Caller.apart_or_stopped
    fun pending => Caller.once_or_stopped (hEv pending pending') s) pending pending' room n s

theorem evaluateBy_once_plain :
    evaluateBy (.once e) pending room n s = evaluateWithin room n s ∨
      ∃ t, evaluateBy (.once e) pending room n s = .error e t := by
  rw [← evaluateBy_plain []]
  refine evaluateBy_or_stopped (fun pending pending' evs _ hEv f args _ s => ?_) pending [] room n s
  by_cases hReplaces : Replaces (evs pending) f args s
  · exact Or.inr ⟨s, Caller.once_refused hReplaces⟩
  · rw [Caller.once_eq hReplaces]
    exact apply_or_stopped (hEv pending pending') s

/-- A form that comes to a call that replaces a result is refused, or it was stopped before. -/
theorem refused_of_replaces {operands : List Node} {operator : Node} {span : Span}
    {f : Closure Value} {args : List Value} {t : EvalState} (hCallee : operator.isCallee = true)
    (hCalling : calling (evaluateBy (.once e) pending room) operands operator s.enterForm =
      .ok (f, args) t)
    (hReplaces : Replaces (evaluateWithin room) f args t) :
    ∃ u, evaluateBy (.once e) pending (room + 1) (.list (operands ++ [operator]) span) s =
      .error e u := by
  have hCall : ∃ u, Caller.once e pending (evaluateBy (.once e) · room) f args span t =
      .error e u := by
    have hEv (n : Node) (s : EvalState) : evaluateBy (.once e) pending room n s =
        evaluateWithin room n s ∨ ∃ t, evaluateBy (.once e) pending room n s = .error e t :=
      evaluateBy_once_plain
    let evs (pending : List Pending) : Evaluator := evaluateBy (.once e) pending room
    have hEither : Replaces (evs pending) f args t ∨
        ∃ u, Caller.once e pending evs f args span t = .error e u :=
      Caller.once_of_replaces hEv hReplaces
    rcases hEither with hAlso | hStopped
    · exact ⟨t, Caller.once_refused hAlso⟩
    · exact hStopped
  obtain ⟨u, hRefused⟩ := hCall
  refine ⟨u.leaveForm, nested_error ?_⟩
  rw [formBy_callee hCallee, bind_ok hCalling, hRefused]

end Eval

/-! ### Registered states -/

namespace Registered

variable {floats : Prop} {w : Registry} {s : EvalState} {f : Closure Value} {args : List Value}

/-- In a state that conforms to a registry a function is the only one with its identity. -/
theorem holds (h : Registered floats w s) (hFunction : w f.id = some f) {g g' : Closure Value}
    (hKnown : g.Known floats w g') :
    (Territory.around f s.session (h.below _ f hFunction)).Holds s.session.nextId g g' := by
  obtain ⟨rfl, hRegistered, -⟩ := hKnown
  refine ⟨rfl, fun hSame => ?_, h.below _ g hRegistered⟩
  rw [hSame, hFunction] at hRegistered
  exact (Option.some.inj hRegistered).symm

/-- A call starts in the territory of all functions. -/
theorem keeps_entered (h : Registered floats w s) (hFunction : w f.id = some f)
    (hCaptured : f.captured.Conforms floats w)
    (hArgs : Value.LikeAll floats (Closure.Known floats w) args args) (cacheable : Bool) :
    (Territory.around f s.session (h.below _ f hFunction)).Keeps s.session.nextId
      ⟨s.session.entered f cacheable, f.frame args⟩ where
  nextId := rfl
  start := Nat.le_refl _
  globals := Value.LikeEntries.imp (fun _ => trivial) (fun _ _ => h.holds hFunction) h.globals
  frame := Frame.like_closure rfl
    (Value.LikeEntries.imp (fun _ => trivial) (fun _ _ => h.holds hFunction) hCaptured)
    (hArgs.imp (fun _ => trivial) fun _ _ => h.holds hFunction)
  keys key v hFound := by
    obtain ⟨g, hRegistered, -⟩ := (h.cache key v hFound).computed
    exact h.below _ g hRegistered
  results key v hFound _ :=
    (h.cache key v hFound).value.imp (fun _ => trivial) fun _ _ => h.holds hFunction
  others _ hOther := absurd trivial hOther

end Registered

/-! ### Careful runs -/

namespace conforming

variable {floats : Prop}

/-- **In a session a careful run replaces no result.** -/
theorem simulates_carefully (e e' : EvalError) (pending : List Pending) (room : Nat) :
    (conforming floats .never).Simulates (carefully e e' pending room)
      (evaluateBy (.apart e .plain) pending room) := by
  refine Correspondence.StepLaws.simulates_evaluateBy (fun _ => stepLaws quiet_never _)
    (fun _ _ _ => rfl) Eq ?_ rfl rfl
  rintro room _ pending _ rfl rfl hEv w f f' args args' span span' s s' hFunction hCaptured hArgs rfl
    ⟨rfl, h⟩
  obtain ⟨rfl, hRegistered, hBody⟩ := hFunction
  have hSame := hArgs.eq_of_known
  subst hSame
  by_cases hClashes : Clashes pending f args s'
  · rw [Caller.apart_refused hClashes, Caller.apart_refused hClashes]
    exact .error (le_refl w) rfl rfl ⟨rfl, h⟩
  · rw [Caller.apart_eq hClashes, Caller.apart_eq hClashes, Caller.once_eq]
    · exact outcome_apply (hEv _ _ rfl) (fun _ _ _ _ => evaluateWithin_of_apart)
        ⟨rfl, hRegistered, hBody⟩ hCaptured hArgs h
    · rintro ⟨-, key, v, t, hKey, hMissing, hRun, hFound⟩
      rw [Caller.inside, hKey] at hRun
      have hNone := not_remembered (h.keeps_entered hRegistered hCaptured hArgs true)
        (hArgs.imp (fun _ => trivial) fun _ _ => h.holds hRegistered) hKey hMissing hRun
      rw [hNone] at hFound
      cases hFound

end conforming

/-! ### Without floats -/

/-- A call in progress without floats among its arguments. -/
structure Eval.Pending.WithoutFloats (p : Pending) : Prop where
  args : Value.LikeAll False (fun _ _ => True) p.args p.args
  key : ArgKey.ofValues? p.args = some p.key.args

/-- Without floats a call that has the key of a call in progress has its arguments. -/
theorem Eval.Pending.WithoutFloats.args_eq {p : Pending} (h : p.WithoutFloats) {args : List Value}
    {functions : Closure Value → Closure Value → Prop} (hArgs : Value.LikeAll False functions args args)
    (hKeys : ArgKey.ofValues? args = some p.key.args) : p.args = args := by
  have hSame : Value.LikeAll False Eq p.args args := h.args.of_keys_eq hArgs h.key hKeys
  exact hSame.eq

/-- Without floats no call is refused. -/
theorem conforming.simulates_apart (e : EvalError) {pending : List Pending}
    (hPending : ∀ p ∈ pending, p.WithoutFloats) (room : Nat) :
    (conforming False .never).Simulates (evaluateBy (.apart e .plain) pending room)
      (evaluateWithin room) := by
  rw [← evaluateBy_plain []]
  refine Correspondence.StepLaws.simulates_evaluateBy (fun _ => stepLaws quiet_never _)
    (fun _ _ _ => rfl) (fun pending _ => ∀ p ∈ pending, p.WithoutFloats) ?_ hPending rfl
  rintro room _ pending pending' hPending rfl hEv w f f' args args' span span' s s' hFunction
    hCaptured hArgs rfl ⟨rfl, h⟩
  obtain ⟨rfl, hRegistered, hBody⟩ := hFunction
  have hSame := hArgs.eq_of_known
  subst hSame
  have hApart : ¬ Clashes pending f args s' := by
    rintro ⟨p, hMem, hKey, hOther⟩
    exact hOther ((hPending p hMem).args_eq hArgs (Session.keyOf_eq_some hKey).2)
  have hInside : ∀ p ∈ Caller.inside pending f args s', p.WithoutFloats := by
    rw [Caller.inside]
    split
    · exact hPending
    · rename_i key hKey
      refine List.forall_mem_cons.2 ⟨?_, hPending⟩
      exact ⟨hArgs.mono fun _ _ _ => trivial, (Session.keyOf_eq_some hKey).2⟩
  have hRuns : ∀ n s v t, evaluateBy .plain pending' room n s = .ok v t →
      evaluateWithin room n s = .ok v t := by
    rw [evaluateBy_plain]
    exact fun _ _ _ _ hRun => hRun
  rw [Caller.apart_eq hApart]
  exact outcome_apply (hEv _ _ hInside) hRuns ⟨rfl, hRegistered, hBody⟩ hCaptured hArgs h

/-! ### Sessions of several texts -/

/-- Evaluates a node with calls made in a given way, with what room the session has left. -/
def Eval.evaluateWith (caller : Caller) : Evaluator := fun n s =>
  evaluateBy caller [] s.session.room n s

theorem Eval.evaluateWith_plain : evaluateWith .plain = evaluate := by
  funext n s
  rw [evaluateWith, evaluateBy_plain, evaluate]

namespace Session

variable {floats : Prop} {s : Session} {text : String} {texts : List String}

/-- In the course of the texts no call is made that is refused: whatever error it is refused with,
the session does not differ. -/
def Unhindered (caller : EvalError → Caller) (s : Session) (texts : List String) : Prop :=
  ∀ e, s.runAllBy (evaluateWith (caller e)) texts = s.runAll texts

/-- The session at the first moment in the course of the text, right before a call or right after it,
at which the state meets a condition; the session after the text if there is none. -/
noncomputable def moment (stop : EvalState → Prop) (e : EvalError) (s : Session) (text : String) :
    Session :=
  (s.runTextBy (evaluateWith (.interrupted stop e)) text).2

theorem moment_never (e : EvalError) (s : Session) (text : String) :
    s.moment (fun _ => False) e text = (s.runText text).2 := by
  rw [moment, Caller.interrupted_never, evaluateWith_plain, runTextBy_evaluate]

/-- A text with an evaluator that stops what another one does ends alike, or it was stopped. -/
theorem runTextBy_or_stopped {ev ev' : Evaluator} {e : EvalError}
    (hEv : ∀ n s, ev n s = ev' n s ∨ ∃ t, ev n s = .error e t) (s : Session) (text : String) :
    s.runTextBy ev text = s.runTextBy ev' text ∨ (s.runTextBy ev text).1 = .error (.eval e) := by
  rw [runTextBy, runTextBy]
  cases Program.ofString text with
  | error e => exact Or.inl rfl
  | ok program =>
    dsimp only
    rw [perform, perform]
    rcases (asks_inOrder .void program).or_stopped hEv ⟨s, .top⟩ with hSame | ⟨t, hStopped⟩
    · exact Or.inl (by rw [hSame])
    · exact Or.inr (by rw [hStopped]; rfl)

/-- An evaluator runs a text as usual if others do that only stop it, each with an error of its own. -/
theorem runTextBy_of_stopped {ev : EvalError → Evaluator} {ev' : Evaluator}
    (hEv : ∀ e n s, ev e n s = ev' n s ∨ ∃ t, ev e n s = .error e t) (s : Session) (text : String)
    (h : ∀ e, s.runTextBy (ev e) text = s.runText text) :
    s.runTextBy ev' text = s.runText text := by
  obtain ⟨e, hOther⟩ := exists_other_error (s.runText text).1
  rcases runTextBy_or_stopped (hEv e) s text with hSame | hStopped
  · exact hSame.symm.trans (h e)
  · rw [h e] at hStopped
    exact absurd hStopped hOther

/-- **If no call of a text would replace a result**, what is remembered at one moment is so at every
later one. -/
theorem keeps_moments (h : ∀ e, s.runTextBy (evaluateWith (.once e)) text = s.runText text)
    (e : EvalError) (stop stop' : EvalState → Prop) (hStop : ∀ t, stop' t → stop t) :
    s.Keeps (s.moment stop' e text) ∧ (s.moment stop e text).Keeps (s.moment stop' e text) := by
  obtain ⟨refused, hOther⟩ := exists_other_error (s.runText text).1
  rw [← h refused] at hOther
  rw [moment, moment]
  rw [runTextBy] at hOther
  rw [runTextBy, runTextBy]
  cases hProgram : Program.ofString text with
  | error e => exact ⟨.refl s, .refl s⟩
  | ok program =>
    rw [hProgram] at hOther
    dsimp only at hOther ⊢
    rw [session_perform, session_perform]
    have hRun : ∀ t, inOrder (evaluateWith (.once refused)) .void program ⟨s, .top⟩ ≠
        .error refused t := by
      intro t hFails
      rw [perform, hFails] at hOther
      exact hOther rfl
    have hEv (n : Node) (s : EvalState)
        (hRun : ∀ t, evaluateWith (.once refused) n s ≠ .error refused t) :
        Interrupts e (evaluateWith (.once refused) n) (evaluateWith (.interrupted stop e) n)
          (evaluateWith (.interrupted stop' e) n) s := by
      have hAt := interrupts_evaluateBy (e := e) hStop hRun
      refine .of_eq (.refl _) ?_ ?_ ?_ hAt <;> rfl
    have hInterrupts := (asks_inOrder .void program).interrupts hEv hRun
    exact ⟨hInterrupts.start, hInterrupts.keeps⟩

/-- A text that starts with a call that replaces a result is refused. -/
theorem runTextBy_refused {e : EvalError} {operands rest : List Node} {operator : Node} {span : Span}
    {room : Nat} {f : Closure Value} {args : List Value} {t : EvalState}
    (hProgram : Program.ofString text = .ok (.list (operands ++ [operator]) span :: rest))
    (hRoom : s.room = room + 1) (hCallee : operator.isCallee = true)
    (hCalling : calling (evaluateBy (.once e) [] room) operands operator
      (⟨s, .top⟩ : EvalState).enterForm = .ok (f, args) t)
    (hReplaces : Replaces (evaluateWithin room) f args t) :
    (s.runTextBy (evaluateWith (.once e)) text).1 = .error (.eval e) := by
  obtain ⟨u, hRefused⟩ := refused_of_replaces hCallee hCalling hReplaces
  have hNode : evaluateWith (.once e) (.list (operands ++ [operator]) span) ⟨s, .top⟩ =
      .error e u := by
    rw [evaluateWith, hRoom]
    exact hRefused
  rw [runTextBy, hProgram]
  dsimp only
  rw [perform, inOrder, bind_error hNode]
  rfl

/-- A text in which no call is refused replaces no result. -/
theorem runTextBy_once {w : Registry} (h : Registered floats w ⟨s, .top⟩)
    (hText : Allowed floats text)
    (hApart : ∀ e, s.runTextBy (evaluateWith (.apart e .plain)) text = s.runText text)
    (e' : EvalError) : s.runTextBy (evaluateWith (.once e')) text = s.runText text := by
  have hCarefully (e : EvalError) :
      s.runTextBy (evaluateWith (.apart e (.once e'))) text = s.runText text := by
    have hSimulates : (conforming floats .never).Simulates (evaluateWith (.apart e (.once e')))
        (evaluateWith (.apart e .plain)) := by
      rintro n n' hNodes w s s' ⟨rfl, h⟩
      exact conforming.simulates_carefully e e' [] _ n n' hNodes w s' s' ⟨rfl, h⟩
    exact (runTextBy_registered hSimulates h hText).1.trans (hApart e)
  have hEv (e : EvalError) (n : Node) (s : EvalState) :
      evaluateWith (.apart e (.once e')) n s = evaluateWith (.once e') n s ∨
        ∃ t, evaluateWith (.apart e (.once e')) n s = .error e t := evaluateBy_apart_once
  exact runTextBy_of_stopped hEv s text hCarefully

namespace Unhindered

variable {caller : EvalError → Caller}

theorem of_cons (h : s.Unhindered caller (text :: texts)) :
    (∀ e, s.runTextBy (evaluateWith (caller e)) text = s.runText text) ∧
      (s.runText text).2.Unhindered caller texts :=
  runAllBy_of_cons h

theorem cons (hText : ∀ e, s.runTextBy (evaluateWith (caller e)) text = s.runText text)
    (hTexts : (s.runText text).2.Unhindered caller texts) :
    s.Unhindered caller (text :: texts) := by
  intro e
  rw [runAllBy, hText, hTexts e]
  rfl

/-- No call is refused by the texts in between. -/
theorem between {before later : List String} (h : s.Unhindered caller texts)
    (hPrefix : before ++ later <+: texts) : (s.after before).Unhindered caller later := by
  obtain ⟨rest, rfl⟩ := hPrefix
  induction before generalizing s with
  | nil =>
    induction later generalizing s with
    | nil => exact fun _ => rfl
    | cons text later ih =>
      obtain ⟨hText, hTexts⟩ := h.of_cons
      exact .cons hText (ih hTexts)
  | cons text before ih => exact ih h.of_cons.2

/-- If no call would replace a result, they stay. -/
theorem keeps (h : s.Unhindered .once texts) : s.Keeps (s.after texts) := by
  induction texts generalizing s with
  | nil => exact .refl s
  | cons text texts ih =>
    obtain ⟨hText, hTexts⟩ := h.of_cons
    have hFirst := (keeps_moments hText ⟨.divisionByZero, ⟨0, 0⟩⟩ _ (fun _ => False) fun _ => id).1
    rw [moment_never] at hFirst
    exact hFirst.trans (ih hTexts)

/-- Texts in which no call is refused replace no result. -/
theorem once {w : Registry} (h : Registered floats w ⟨s, .top⟩)
    (hTexts : ∀ text ∈ texts, Allowed floats text) (hApart : s.Unhindered (.apart · .plain) texts) :
    s.Unhindered .once texts := by
  induction texts generalizing w s with
  | nil => exact fun _ => rfl
  | cons text texts ih =>
    obtain ⟨hText, hTexts⟩ := List.forall_mem_cons.1 hTexts
    obtain ⟨hFirst, hRest⟩ := hApart.of_cons
    obtain ⟨-, w', hNext⟩ := runText_registered conforming.quiet_never h hText
    exact .cons (runTextBy_once h hText hFirst) (ih hNext hTexts hRest)

end Unhindered

/-- **Results stay** in a session in which no call has the key of a call in progress and other
arguments: no call replaces a result, and what is remembered stays from the start of each text to every
moment in the course of it, from there to every later moment, and to the end of every later text. -/
theorem results_stay (options : Options) (texts : List String)
    (hApart : (new options).Unhindered (.apart · .plain) texts) :
    (new options).Unhindered .once texts ∧
      ∀ before text later, before ++ text :: later <+: texts →
        let s := (new options).after before
        ∀ e stop, s.Keeps (s.moment stop e text) ∧
          (∀ stop', (∀ t, stop' t → stop t) → (s.moment stop e text).Keeps (s.moment stop' e text)) ∧
          (s.moment stop e text).Keeps ((new options).after (before ++ text :: later)) := by
  have hTexts : ∀ text ∈ texts, Allowed True text := fun _ _ program _ =>
    Node.LikeAll.refl trivial (fun _ => rfl) program
  have hOnce := Unhindered.once (registered_new options) hTexts hApart
  refine ⟨hOnce, fun before text later hPrefix => ?_⟩
  intro s e stop
  obtain ⟨hText, hLater⟩ := (hOnce.between hPrefix).of_cons
  have hEnds := (keeps_moments hText e stop (fun _ => False) fun _ hNever => hNever.elim).2
  rw [moment_never] at hEnds
  refine ⟨(keeps_moments hText e stop stop fun _ => id).1,
    fun stop' hStop => (keeps_moments hText e stop stop' hStop).2, ?_⟩
  rw [after, List.foldl_append]
  exact hEnds.trans hLater.keeps

/-- **Without floats no call has the key of a call in progress and other arguments.** -/
theorem apart_without_floats (options : Options) (texts : List String)
    (hFloats : ∀ text ∈ texts, ∀ program, Program.ofString text = .ok program →
      Node.anyUsesFloats program = false) :
    (new options).Unhindered (.apart · .plain) texts := by
  have hTexts : ∀ text ∈ texts, Allowed False text := fun text hText program hProgram =>
    Node.likeAll_of_usesFloats (fun _ => rfl) program (hFloats text hText program hProgram)
  have hRegistered : Registered False .empty ⟨new options, .top⟩ := registered_new options
  generalize new options = s at hRegistered ⊢
  generalize Registry.empty = w at hRegistered
  induction texts generalizing w s with
  | nil => exact fun _ => rfl
  | cons text texts ih =>
    obtain ⟨hText, hRest⟩ := List.forall_mem_cons.1 hTexts
    have hSimulates (e : EvalError) : (conforming False .never).Simulates
        (evaluateWith (.apart e .plain)) Eval.evaluate := by
      rintro n n' hNodes w s s' ⟨rfl, h⟩
      exact conforming.simulates_apart e (by simp) _ n n' hNodes w s' s' ⟨rfl, h⟩
    have hBoth (e : EvalError) := runTextBy_registered (hSimulates e) hRegistered hText
    obtain ⟨-, w', hNext⟩ := hBoth ⟨.divisionByZero, ⟨0, 0⟩⟩
    exact .cons (fun e => (hBoth e).1) (ih (List.forall_mem_cons.1 hFloats).2 hRest _ _ hNext)

/-- A result that a later call finds: it is there at every moment in the course of that call. -/
theorem results_stay_countdown :
    let definition := "(f ((n) (((n 0 eq?) 0) (else ((n 1 -) f)) cond) lambda) define)"
    let s := (new .standard).after [definition, "(3 f)"]
    (new .standard).Unhindered (.apart · .plain) [definition, "(3 f)", "(4 f)"] ∧
      ∃ v, s.cache.find? ⟨0, [.integer 3]⟩ = some v ∧
        ∀ e stop, (s.moment stop e "(4 f)").cache.find? ⟨0, [.integer 3]⟩ = some v := by
  intro definition s
  have hApart : (new .standard).Unhindered (.apart · .plain) [definition, "(3 f)", "(4 f)"] :=
    apart_without_floats _ _ (noFloats_of_all (by decide +kernel))
  have hFound : (s.cache.find? ⟨0, [.integer 3]⟩).isSome := by decide +kernel
  obtain ⟨v, hFound⟩ := Option.isSome_iff_exists.1 hFound
  refine ⟨hApart, v, hFound, fun e stop => ?_⟩
  have hStays := (results_stay .standard _ hApart).2 [definition, "(3 f)"] "(4 f)" []
    (List.prefix_refl _) e stop
  exact hStays.1.entries _ _ hFound

/-- A call whose body calls the function again, with a float in the place of an integer: the keys are
the same, and the inner call ends first.  Its result is remembered when the body of the outer call has
ended, and replaced then. -/
theorem result_replaced :
    let definition :=
      "(f ((x) ((((x 1 +) x eq?) 0) (else (((x 1.0 *) f) 1 +)) cond) lambda) define)"
    let call := "(9007199254740992 f)"
    let s := (new .standard).after [definition]
    let entered (f : Closure Value) : Session :=
      { s with depth := s.depth + 1 }.entered f true
    let key : CallKey := ⟨0, [.integer 9007199254740992]⟩
    ¬ (new .standard).Unhindered .once [definition, call] ∧
    ∃ f v v', s.function? "f" = some f ∧ s.cache.find? key = none ∧
      ((entered f).perform (f.frame [.integer 9007199254740992])
        (inOrder (evaluateWithin 999) .void f.body)).2.session.cache.find? key = some v ∧
      (s.runText call).2.cache.find? key = some v' ∧ v ≠ v' := by
  intro definition call s entered key
  have hRuns : (s.function? "f").any (fun f =>
      let ended := (entered f).perform (f.frame [.integer 9007199254740992])
        (inOrder (evaluateWithin 999) .void f.body)
      f.params.length = 1 && s.keyOf f [.integer 9007199254740992] = some key && s.room = 1000 &&
      (s.cache.find? key).isNone && ended.1.toOption.isSome &&
      (ended.2.session.cache.find? key).bind ArgKey.ofValue? = some (.integer 0) &&
      ((s.runText call).2.cache.find? key).bind ArgKey.ofValue? = some (.integer 1) &&
      (s.runText call).1.toOption.isSome) = true := by decide +kernel
  obtain ⟨f, hFunction, hRuns⟩ := (Option.any_eq_true _ _).1 hRuns
  simp only [Bool.and_eq_true, decide_eq_true_eq] at hRuns
  obtain ⟨⟨⟨⟨⟨⟨⟨hParams, hKey⟩, hRoom⟩, hMissing⟩, hEnds⟩, hInner⟩, hOuter⟩, hCall⟩ := hRuns
  obtain ⟨v, hInside, hZero⟩ := Option.bind_eq_some_iff.1 hInner
  obtain ⟨v', hAfter, hOne⟩ := Option.bind_eq_some_iff.1 hOuter
  have hNone := Option.isNone_iff_eq_none.1 hMissing
  refine ⟨fun hOnce => ?_, f, v, v', hFunction, hNone, hInside, hAfter, ?_⟩
  · -- in the session the call gives a value, but a call that replaces a result would be refused
    have hProgram : Program.ofString "(9007199254740992 f)" =
        .ok [.list ([.atom (.int 9007199254740992) ⟨1, 17⟩] ++ [.atom (.symbol "f") ⟨18, 19⟩])
          ⟨0, 20⟩] := by rfl
    let made : EvalState := (⟨s, .top⟩ : EvalState).enterForm
    have hReplaces : Replaces (evaluateWithin 999) f [.integer 9007199254740992] made := by
      cases hRun : inOrder (evaluateWithin 999) .void f.body
          ⟨entered f, f.frame [.integer 9007199254740992]⟩ with
      | error e t =>
        rw [perform, hRun] at hEnds
        cases hEnds
      | ok x t =>
        rw [perform, hRun] at hInside
        exact ⟨hParams.symm, key, x, t, hKey, hNone, hRun, Option.isSome_of_eq_some hInside⟩
    let e : EvalError := ⟨.divisionByZero, ⟨0, 0⟩⟩
    have hLookup : EvalM.lookup "f" made = .ok (some (.function f)) made := by
      rw [lookup_apply]
      exact congrArg (EStateM.Result.ok · made) (find?_of_function? hFunction)
    have hCalling : calling (evaluateBy (.once e) [] 999) [.atom (.int 9007199254740992) ⟨1, 17⟩]
        (.atom (.symbol "f") ⟨18, 19⟩) made = .ok (f, [.integer 9007199254740992]) made :=
      bind_ok hLookup
    have hRefused := runTextBy_refused hProgram hRoom rfl hCalling hReplaces
    have hSame : s.runTextBy (evaluateWith (.once e)) call = s.runText call :=
      hOnce.of_cons.2.of_cons.1 e
    rw [← hSame, hRefused] at hCall
    cases hCall
  · rintro rfl
    cases hZero.symm.trans hOne

end Session

end PostLisp

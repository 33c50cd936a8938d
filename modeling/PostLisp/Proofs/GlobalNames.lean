import PostLisp.Proofs.Confinement
import PostLisp.Proofs.Printing
import PostLisp.Proofs.Registered

/-!
# The names that a session binds

What a node may define stands in it as a symbol.  So running a text binds no global name but those
that were bound before and the symbols of the text (`Session.mem_names_run`), and a session that has
run nothing but texts binds only names that a text can spell as a symbol
(`Session.namesReadable_after_new`), as the reserved words are.
-/

namespace PostLisp

namespace Bindings

/-- The names are those that have a value. -/
theorem mem_names_iff {α : Type} {b : Bindings α} {name : String} :
    name ∈ b.names ↔ b.find? name ≠ none := by
  obtain ⟨entries⟩ := b
  rw [names, find?]
  induction entries with
  | nil => exact iff_of_false nofun fun h => h rfl
  | cons entry rest ih =>
    obtain ⟨other, value⟩ := entry
    rw [List.map_cons, List.mem_cons, ih, findIn?]
    by_cases hName : other = name
    · simp [hName]
    · simp [hName, Ne.symm hName]

end Bindings

namespace Atom

open Lexeme

theorem eq_ofList_of_symbol {cs : List Char} {name : String} (h : ofWord cs = .symbol name) :
    name = String.ofList cs := by
  rw [ofWord] at h
  split at h
  · cases h
  · split at h
    · cases h
    · exact (symbol.inj h).symm

/-- What is read as a symbol at all is read as the symbol of this name. -/
theorem symbol?_ofString_ne_none_iff {s : String} :
    (ofString s).symbol? ≠ none ↔ ofString s = .symbol s := by
  constructor
  · intro hSome
    cases hAtom : ofString s with
    | int n => exact absurd (by rw [hAtom]; rfl) hSome
    | float x => exact absurd (by rw [hAtom]; rfl) hSome
    | symbol name => rw [eq_ofList_of_symbol hAtom, String.ofList_toList]
  · intro hAtom
    rw [hAtom]
    exact Option.some_ne_none s

/-- A symbol can be read when its name is a word that is no number. -/
theorem readable_symbol_iff {name : String} :
    (symbol name).Readable ↔ IsWord name.toList ∧ ofString name = .symbol name := by
  constructor
  · rintro ⟨cs, hWord, hAtom⟩
    obtain rfl := eq_ofList_of_symbol hAtom.symm
    rw [ofString, String.toList_ofList]
    exact ⟨hWord, hAtom.symm⟩
  · rintro ⟨hWord, hAtom⟩
    exact ⟨name.toList, hWord, hAtom.symm⟩

end Atom

/-- **The reserved words can be read as symbols.** -/
theorem readable_of_mem_reservedWords {name : String} (h : name ∈ reservedWords) :
    (Atom.symbol name).Readable := by
  have hWords : ∀ word ∈ reservedWords, Lexeme.IsWord word.toList ∧
      Number.readInt64? word.toList = none ∧ Number.readFloat? word.toList = none := by
    decide +kernel
  obtain ⟨hWord, hInt, hFloat⟩ := hWords name h
  refine Atom.readable_symbol_iff.2 ⟨hWord, ?_⟩
  rw [Atom.ofString, Atom.ofWord, hInt, hFloat, String.ofList_toList]

namespace Node

theorem mem_atomsAll {ns : List Node} {a : Atom} : a ∈ atomsAll ns ↔ ∃ n ∈ ns, a ∈ n.atoms := by
  induction ns with
  | nil => simp [atomsAll]
  | cons n ns ih => simp [atomsAll, ih]

/-- **What a node may define stands in it as a symbol.** -/
theorem MayDefine.mem_atoms {clauses : Prop} {n : Node} {name : String}
    (h : n.MayDefine clauses name) : .symbol name ∈ n.atoms := by
  induction h with
  | @target first rest span name hFirst hDefine =>
    cases first with
    | list items s => cases hFirst
    | atom a s =>
      cases a with
      | int n => cases hFirst
      | float x => cases hFirst
      | symbol other =>
        cases hFirst
        exact List.mem_cons_self
  | item hItem hLambda h ih => exact mem_atomsAll.2 ⟨_, hItem, ih⟩
  | clause hClauses hCond hClause hPart h ih =>
    exact mem_atomsAll.2 ⟨_, hClause, mem_atomsAll.2 ⟨_, hPart, ih⟩⟩

end Node

namespace Session

open EvalM

/-- **Running a program binds no other names** than were bound before and stand in it. -/
theorem mem_names_run {s : Session} {program : List Node} {name : String}
    (h : name ∈ (s.run program).2.globals.names) :
    name ∈ s.globals.names ∨ .symbol name ∈ Node.atomsAll program := by
  have hMoves : Moves (Innermost fun x => .symbol x ∈ Node.atomsAll program)
      (Eval.inOrder Eval.evaluate .void program) := by
    refine Eval.moves_inOrder (fun n hn t => ?_) .void
    refine (Eval.evaluateWithin_innermost t.session.room n t).mono fun x hx => ?_
    exact Node.mem_atomsAll.2 ⟨n, hn, (Node.mayDefine_of_mem_defined n hx).mem_atoms⟩
  have hInnermost := hMoves ⟨s, .top⟩
  have hFrame := hInnermost.frame_of_top rfl
  rw [Innermost, hFrame] at hInnermost
  refine or_iff_not_imp_right.2 fun hOther => ?_
  rw [Bindings.mem_names_iff] at h ⊢
  rw [← hInnermost name hOther, ← session_perform]
  exact h

/-- Every global name can be read as a symbol. -/
def NamesReadable (s : Session) : Prop := ∀ name ∈ s.globals.names, (Atom.symbol name).Readable

theorem NamesReadable.runText {s : Session} (h : s.NamesReadable) (text : String) :
    (s.runText text).2.NamesReadable := by
  rw [Session.runText]
  split
  · exact h
  · rename_i program hProgram
    intro name hName
    rcases mem_names_run hName with hBound | hAtom
    · exact h name hBound
    · exact Program.readable_ofString hProgram hAtom

theorem NamesReadable.after {s : Session} (h : s.NamesReadable) (texts : List String) :
    (s.after texts).NamesReadable := by
  induction texts generalizing s with
  | nil => exact h
  | cons text texts ih => exact ih (h.runText text)

/-- **A session binds only names that can be read as symbols**, whatever texts it has run. -/
theorem namesReadable_after_new (options : Options) (texts : List String) :
    ((new options).after texts).NamesReadable :=
  NamesReadable.after (fun _ hName => by cases hName) texts

end Session

end PostLisp

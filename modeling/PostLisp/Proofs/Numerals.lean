import PostLisp.Syntax.Atom

/-!
# How written numbers are read

An integer is read back from its digits.  A float is written with digits and a few other
characters, at least one of which no integer is written with, so what a float writes is never read
as an integer.
-/

namespace PostLisp.Number

/-! ### Digits -/

theorem toList_toString (n : Nat) : (toString n).toList = Nat.toDigits 10 n := by
  rw [Nat.toString_eq_repr, Nat.repr_eq_ofList_toDigits, String.toList_ofList]

theorem isDigit_of_mem_toString {n : Nat} {c : Char} (h : c ∈ (toString n).toList) :
    c.isDigit = true := by
  rw [toList_toString] at h
  exact Nat.isDigit_of_mem_toDigits (by decide) (by decide) h

theorem natural?_of_isDigit {ds : List Char} (hDigits : ∀ c ∈ ds, c.isDigit = true)
    (hSome : ds ≠ []) : natural? ds = some (ofDigits ds) := by
  rw [natural?, List.all_eq_true.2 hDigits, List.isEmpty_eq_false_iff.2 hSome]
  rfl

theorem toString_ne_nil (n : Nat) : (toString n).toList ≠ [] := by
  rw [toList_toString]
  exact Nat.toDigits_ne_nil

theorem ofDigits_toString (n : Nat) : ofDigits (toString n).toList = n := by
  rw [toList_toString]
  exact Nat.ofDigitChars_toDigits (by decide) (by decide)

theorem natural?_toString (n : Nat) : natural? (toString n).toList = some n := by
  rw [natural?_of_isDigit (fun _ => isDigit_of_mem_toString) (toString_ne_nil n), ofDigits_toString]

/-- A sign is no digit. -/
theorem splitSign_of_isDigit {cs : List Char} (h : ∀ c ∈ cs.head?, c.isDigit = true) :
    splitSign cs = (false, cs) := by
  rw [splitSign.eq_def]
  split
  · exact absurd (h '-' rfl) (by decide)
  · exact absurd (h '+' rfl) (by decide)
  · rfl

theorem toList_negSucc (n : Nat) :
    (toString (Int.negSucc n)).toList = '-' :: (toString (n + 1)).toList := by
  show ("-" ++ (n + 1).repr).toList = _
  rw [String.toList_append]
  rfl

theorem splitSign_toString (n : Int) :
    splitSign (toString n).toList = (decide (n < 0), (toString n.natAbs).toList) := by
  cases n with
  | ofNat m =>
    exact splitSign_of_isDigit fun _ hc => isDigit_of_mem_toString (List.mem_of_mem_head? hc)
  | negSucc m =>
    rw [toList_negSucc, decide_eq_true (Int.negSucc_lt_zero m)]
    rfl

/-- An integer is its size with its sign. -/
theorem signed_natAbs (n : Int) :
    (if decide (n < 0) = true then -(n.natAbs : Int) else n.natAbs) = n := by
  by_cases hNegative : n < 0
  · rw [decide_eq_true hNegative, if_pos rfl]
    omega
  · rw [decide_eq_false hNegative, if_neg Bool.false_ne_true]
    omega

theorem readInt64?_toString (n : Int) : readInt64? (toString n).toList = int64? n := by
  rw [readInt64?, splitSign_toString]
  dsimp only
  rw [natural?_toString]
  exact congrArg int64? (signed_natAbs n)

/-- **An integer is read back from what it writes.** -/
theorem readInt64?_renderInt64 (n : Int64) : readInt64? (renderInt64 n).toList = some n :=
  (readInt64?_toString n.toInt).trans (int64?_toInt n)

/-- A character that is neither a digit nor a sign keeps a word from being an integer. -/
theorem readInt64?_eq_none {cs : List Char} {c : Char} (hChar : c ∈ cs) (hDigit : c.isDigit = false)
    (hMinus : c ≠ '-') (hPlus : c ≠ '+') : readInt64? cs = none := by
  have hRest : c ∈ (splitSign cs).2 := by
    rw [splitSign.eq_def]
    split
    · exact List.mem_of_ne_of_mem hMinus hChar
    · exact List.mem_of_ne_of_mem hPlus hChar
    · exact hChar
  have hNot : (splitSign cs).2.all Char.isDigit = false := by
    rw [List.all_eq_false]
    exact ⟨c, hRest, by rw [hDigit]; exact Bool.false_ne_true⟩
  have hNone : natural? (splitSign cs).2 = none := by
    rw [natural?, hNot]
    exact if_pos (by simp)
  rw [readInt64?]
  dsimp only
  rw [hNone]
  rfl

/-! ### Floats -/

/-- What a float is written with beside digits. -/
def floatMarks : List Char := ['-', '.', 'e', 'i', 'n', 'f', 'N', 'a']

/-- What a float is written with and an integer is not: one of these is in every float. -/
def tellingMarks : List Char := ['.', 'e', 'n', 'N']

/-- The text is written with what floats are written with. -/
def FloatChars (s : String) : Prop := ∀ c ∈ s.toList, c.isDigit = true ∨ c ∈ floatMarks

/-- The text has a character that no integer is written with. -/
def Telling (s : String) : Prop := ∃ c ∈ s.toList, c ∈ tellingMarks

instance (s : String) : Decidable (FloatChars s) := List.decidableBAll _ s.toList

instance (s : String) : Decidable (Telling s) := List.decidableBEx _ s.toList

section

variable {s t : String}

theorem FloatChars.append (hLeft : FloatChars s) (hRight : FloatChars t) : FloatChars (s ++ t) := by
  intro c hc
  rw [String.toList_append, List.mem_append] at hc
  exact hc.elim (hLeft c) (hRight c)

theorem floatChars_ofList {cs : List Char} (h : ∀ c ∈ cs, c.isDigit = true) :
    FloatChars (String.ofList cs) := by
  intro c hc
  rw [String.toList_ofList] at hc
  exact Or.inl (h c hc)

theorem floatChars_zeros (n : Nat) : FloatChars (zeros n) :=
  floatChars_ofList fun c hc => by rw [List.eq_of_mem_replicate hc]; rfl

theorem floatChars_toString (n : Int) : FloatChars (toString n) := by
  cases n with
  | ofNat m => exact fun c hc => Or.inl (isDigit_of_mem_toString hc)
  | negSucc m =>
    have hMinus : FloatChars "-" := by decide
    exact hMinus.append fun c hc => Or.inl (isDigit_of_mem_toString hc)

theorem Telling.append_left (h : Telling s) (t : String) : Telling (s ++ t) := by
  obtain ⟨c, hc, hMark⟩ := h
  exact ⟨c, by rw [String.toList_append]; exact List.mem_append_left _ hc, hMark⟩

theorem Telling.append_right (h : Telling t) (s : String) : Telling (s ++ t) := by
  obtain ⟨c, hc, hMark⟩ := h
  exact ⟨c, by rw [String.toList_append]; exact List.mem_append_right _ hc, hMark⟩

theorem Telling.readInt64?_eq_none (h : Telling s) : readInt64? s.toList = none := by
  obtain ⟨c, hc, hMark⟩ := h
  have hNone : ∀ c ∈ tellingMarks, c.isDigit = false ∧ c ≠ '-' ∧ c ≠ '+' := by
    simp only [tellingMarks, List.forall_mem_cons, List.not_mem_nil, false_implies, implies_true]
    decide
  obtain ⟨hDigit, hMinus, hPlus⟩ := hNone c hMark
  exact Number.readInt64?_eq_none hc hDigit hMinus hPlus

end

namespace Layout

variable {ds : List Char} (point : Int)

theorem positional_written (hDigits : ∀ c ∈ ds, c.isDigit = true) :
    FloatChars (standard.positional ds point) ∧ Telling (standard.positional ds point) := by
  have hPoint : FloatChars "." ∧ Telling "." := by decide
  have hZero : FloatChars "0." ∧ Telling "0." := by decide
  have hEnding : FloatChars standard.wholeEnding ∧ Telling standard.wholeEnding := by decide
  rw [positional]
  split
  · have hFirst := hZero.1.append (floatChars_zeros (-point).toNat)
    exact ⟨hFirst.append (floatChars_ofList hDigits), (hZero.2.append_left _).append_left _⟩
  · dsimp only
    split
    · have hLeft : FloatChars (String.ofList (ds.take point.toNat)) :=
        floatChars_ofList fun c hc => hDigits c (List.mem_of_mem_take hc)
      have hRight : FloatChars (String.ofList (ds.drop point.toNat)) :=
        floatChars_ofList fun c hc => hDigits c (List.mem_of_mem_drop hc)
      exact ⟨(hLeft.append hPoint.1).append hRight, (hPoint.2.append_right _).append_left _⟩
    · have hWhole := (floatChars_ofList hDigits).append (floatChars_zeros (point.toNat - ds.length))
      exact ⟨hWhole.append hEnding.1, hEnding.2.append_right _⟩

theorem scientific_written (hDigits : ∀ c ∈ ds, c.isDigit = true) :
    FloatChars (standard.scientific ds point) ∧ Telling (standard.scientific ds point) := by
  have hPoint : FloatChars "." := by decide
  have hMark : FloatChars standard.exponentMark ∧ Telling standard.exponentMark := by decide
  have hFirst : FloatChars (String.ofList (ds.take 1)) :=
    floatChars_ofList fun c hc => hDigits c (List.mem_of_mem_take hc)
  have hRest : FloatChars (String.ofList (ds.drop 1)) :=
    floatChars_ofList fun c hc => hDigits c (List.mem_of_mem_drop hc)
  have hPlaces : FloatChars (if (ds.drop 1).isEmpty then "" else "." ++ String.ofList (ds.drop 1)) := by
    split
    · decide
    · exact hPoint.append hRest
  rw [scientific]
  refine ⟨?_, (hMark.2.append_right _).append_left _⟩
  exact ((hFirst.append hPlaces).append hMark.1).append (floatChars_toString _)

theorem decimal_written (d : Decimal) :
    FloatChars (standard.decimal d) ∧ Telling (standard.decimal d) := by
  have hDigits : ∀ c ∈ (toString d.digits).toList, c.isDigit = true := fun _ => isDigit_of_mem_toString
  rw [decimal]
  split
  · decide
  · dsimp only
    split
    · exact positional_written _ hDigits
    · exact scientific_written _ hDigits

theorem magnitude_written (m : Magnitude) :
    FloatChars (standard.magnitude m) ∧ Telling (standard.magnitude m) := by
  cases m with
  | finite m q => exact decimal_written _
  | infinite => decide
  | nan => decide

end Layout

/-- What a float writes is written with digits and `floatMarks`, and not with digits and signs
alone. -/
theorem renderFloat_written (x : Float) :
    FloatChars (renderFloat x) ∧ Telling (renderFloat x) := by
  have hSign : FloatChars (if Binary64.isNegative x then "-" else "") := by split <;> decide
  have hMagnitude := Layout.magnitude_written (Binary64.magnitude x)
  rw [renderFloat, Layout.float]
  split
  · decide
  · exact ⟨hSign.append hMagnitude.1, hMagnitude.2.append_right _⟩

/-- **What a float writes is no integer.** -/
theorem readInt64?_renderFloat (x : Float) : readInt64? (renderFloat x).toList = none :=
  (renderFloat_written x).2.readInt64?_eq_none

theorem magnitude_notANumber : Binary64.magnitude notANumber = .nan := by decide +kernel

/-- What is not a number writes a word that is read as no number. -/
theorem readFloat?_renderFloat_nan {x : Float} (hNan : Binary64.magnitude x = .nan) :
    readFloat? (renderFloat x).toList = some notANumber := by
  have hText : renderFloat x = "NaN" := by
    rw [renderFloat, Layout.float, hNan]
    rfl
  rw [hText]
  rfl

end PostLisp.Number

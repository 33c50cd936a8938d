import PostLisp.Call.Key
import PostLisp.Operation.Arith
import PostLisp.Proofs.FloatRounding

/-!
# Floats with one key

Two floats have the same key when they are made of the same parts, or are both zero.  Equality of
floats is just this, no number apart, and arithmetic does not tell such floats apart.  A float has
the key of an integer when it denotes it, and arithmetic is exact where it can be.
-/

namespace PostLisp

open Float.Model (UnpackedFloat)
open Float.Model.UnpackedFloat
open Float.Model.Format (binary64)
open Number Number.Binary64

namespace ArgKey

variable {x y x' y' : Float}

theorem wordOfFloat?_eq_some {n : Int64} : wordOfFloat? x = some n ↔ Denotes (parts x) n.toInt := by
  rw [wordOfFloat?, integer?_eq]
  constructor
  · intro h
    obtain ⟨k, hWhole, hWord⟩ := Option.bind_eq_some_iff.1 h
    rw [toInt_of_int64? hWord]
    exact whole?_eq_some.1 hWhole
  · intro h
    rw [whole?_eq_some.2 h]
    exact int64?_toInt n

theorem ofFloat?_notANumber (h : parts x = .notANumber) : ofFloat? x = none := by
  rw [ofFloat?, magnitude_eq, h]
  rfl

theorem ofFloat?_number (h : parts x ≠ .notANumber) :
    ofFloat? x = some ((wordOfFloat? x).elim (.float x.toBits) .integer) := by
  rw [ofFloat?, magnitude_eq]
  cases hParts : parts x with
  | notANumber => exact absurd hParts h
  | _ =>
    simp only [magnitudeOf]
    cases wordOfFloat? x <;> rfl

theorem ofFloat?_eq_none : ofFloat? x = none ↔ parts x = .notANumber := by
  refine ⟨fun h => ?_, ofFloat?_notANumber⟩
  by_contra hNumber
  rw [ofFloat?_number hNumber] at h
  cases h

/-- The floats with the key of an integer are those that denote it. -/
theorem ofFloat?_eq_integer {n : Int64} :
    ofFloat? x = some (.integer n) ↔ Denotes (parts x) n.toInt := by
  rw [← wordOfFloat?_eq_some]
  by_cases hNumber : parts x = .notANumber
  · rw [ofFloat?_notANumber hNumber, wordOfFloat?_eq_some, hNumber]
    exact iff_of_false nofun id
  · rw [ofFloat?_number hNumber]
    cases wordOfFloat? x with
    | none => exact iff_of_false nofun nofun
    | some m => simp

/-- **The floats with one key** are one float, or zeros. -/
theorem ofFloat?_eq_iff : ofFloat? x = ofFloat? y ↔ Alike (parts x) (parts y) := by
  constructor
  · intro h
    by_cases hNumber : parts x = .notANumber
    · rw [ofFloat?_notANumber hNumber] at h
      rw [hNumber, ofFloat?_eq_none.1 h.symm]
      exact .refl _
    · have hNumber' : parts y ≠ .notANumber := fun hy =>
        hNumber (ofFloat?_eq_none.1 (h.trans (ofFloat?_notANumber hy)))
      rw [ofFloat?_number hNumber, ofFloat?_number hNumber'] at h
      cases hx : wordOfFloat? x with
      | none =>
        cases hy : wordOfFloat? y with
        | none =>
          rw [hx, hy] at h
          have hBits : x.toBits = y.toBits := by simpa using h
          rw [eq_of_toBitVec (congrArg UInt64.toBitVec hBits)]
          exact .refl _
        | some m => simp [hx, hy] at h
      | some n =>
        cases hy : wordOfFloat? y with
        | none => simp [hx, hy] at h
        | some m =>
          obtain rfl : n = m := by simpa [hx, hy] using h
          exact alike_of_denotes (canonical_parts x) (canonical_parts y)
            (wordOfFloat?_eq_some.1 hx) (wordOfFloat?_eq_some.1 hy)
  · intro h
    generalize hx : parts x = p at h
    generalize hy : parts y = q at h
    cases h with
    | refl => rw [parts_injective (hx.trans hy.symm)]
    | zero s s' =>
      have hZero : ∀ {z : Float} {s : Sign}, parts z = .zero s →
          ofFloat? z = some (.integer 0) := by
        intro z s hz
        rw [ofFloat?_eq_integer, hz]
        exact Int.cast_zero
      rw [hZero hx, hZero hy]

/-- The float nearest to an integer denotes it, if some float does. -/
theorem ofFloat?_ofInt64 {n : Int64} (h : ofFloat? x = some (.integer n)) :
    ofFloat? (Number.ofInt64 n) = some (.integer n) := by
  rw [← h, eq_comm, ofFloat?_eq_iff]
  exact alike_ofInt (ofFloat?_eq_integer.1 h)

theorem eq_of_ofFloat? {k : ArgKey} (h : ofFloat? x = some k) :
    (∃ n, k = .integer n) ∨ ∃ bits, k = .float bits := by
  by_cases hNumber : parts x = .notANumber
  · cases (ofFloat?_notANumber hNumber).symm.trans h
  · obtain rfl := Option.some.inj ((ofFloat?_number hNumber).symm.trans h)
    cases wordOfFloat? x with
    | none => exact Or.inr ⟨_, rfl⟩
    | some n => exact Or.inl ⟨n, rfl⟩

/-! ### Equality of floats -/

theorem compare_finite {s t : Sign} {m n : Nat} {e f : Int} {hm : 0 < m} {hn : 0 < n} :
    UnpackedFloat.compare (.finite s m e hm) (.finite t n f hn) = some .eq ↔
      s = t ∧ m = n ∧ e = f := by
  cases s <;> cases t <;>
    simp [UnpackedFloat.compare, Ordering.then_eq_eq, Ordering.swap_eq_eq, and_comm]

theorem beq_parts {p q : UnpackedFloat} : p.beq q = true ↔ Alike p q ∧ p ≠ .notANumber := by
  rw [UnpackedFloat.beq, beq_iff_eq]
  constructor
  · intro h
    have hNumber : p ≠ .notANumber := by
      rintro rfl
      cases h
    cases p with
    | notANumber => cases h
    | infinity s =>
      cases q with
      | infinity t => cases s <;> cases t <;> first | exact ⟨.refl _, hNumber⟩ | cases h
      | _ => cases s <;> cases h
    | zero s =>
      cases q with
      | zero t => exact ⟨.zero s t, hNumber⟩
      | notANumber => cases h
      | infinity t | finite t => cases t <;> cases h
    | finite s m e hm =>
      cases q with
      | finite t n f hn =>
        obtain ⟨rfl, rfl, rfl⟩ := compare_finite.1 h
        exact ⟨.refl _, hNumber⟩
      | infinity t => cases s <;> cases t <;> cases h
      | _ => cases s <;> cases h
  · rintro ⟨h, hNumber⟩
    cases h with
    | zero s s' => rfl
    | refl =>
      cases p with
      | infinity s => cases s <;> rfl
      | notANumber => exact absurd rfl hNumber
      | zero s => rfl
      | finite s m e hm => exact compare_finite.2 ⟨rfl, rfl, rfl⟩

/-- **Floats are equal when they have one key.** -/
theorem beq_iff : (x == y) = true ↔ ∃ k, ofFloat? x = some k ∧ ofFloat? y = some k := by
  have hBeq : (x == y) = (parts x).beq (parts y) := rfl
  rw [hBeq, beq_parts, ← ofFloat?_eq_iff]
  constructor
  · rintro ⟨hKeys, hNumber⟩
    exact ⟨_, ofFloat?_number hNumber, hKeys ▸ ofFloat?_number hNumber⟩
  · rintro ⟨k, hx, hy⟩
    exact ⟨hx.trans hy.symm, fun h => by rw [ofFloat?_notANumber h] at hx; cases hx⟩

end ArgKey

/-! ### Arithmetic -/

namespace Number.Binary64

variable {p p' q q' : UnpackedFloat}

theorem parts_zero : parts 0 = .zero .positive := parts_ofParts (.zero .positive)

/-- Addition does not tell zeros apart, and no more do the others, unless they divide by one. -/
theorem add_congr (hp : Alike p p') (hq : Alike q q') :
    Alike (add binary64 p q) (add binary64 p' q') := by
  have hZeros : ∀ s t s' t', Alike (add binary64 (.zero s) (.zero t))
      (add binary64 (.zero s') (.zero t')) := by
    intro s t s' t'
    obtain ⟨z, hFirst⟩ := add_zero_zero s t
    obtain ⟨z', hSecond⟩ := add_zero_zero s' t'
    rw [hFirst, hSecond]
    exact .zero z z'
  cases hp with
  | refl =>
    cases hq with
    | refl => exact .refl _
    | zero t t' =>
      cases p with
      | zero s => exact hZeros s t s t'
      | _ => exact .refl _
  | zero s s' =>
    cases hq with
    | zero t t' => exact hZeros s t s' t'
    | refl =>
      cases q with
      | zero t => exact hZeros s t s' t
      | _ => exact .refl _

theorem sub_congr (hp : Alike p p') (hq : Alike q q') :
    Alike (sub binary64 p q) (sub binary64 p' q') := by
  rw [sub_eq_add, sub_eq_add]
  exact add_congr hp (neg_congr hq)

theorem mul_congr (hp : Alike p p') (hq : Alike q q') :
    Alike (mul binary64 p q) (mul binary64 p' q') := by
  cases hp with
  | refl =>
    cases hq with
    | refl => exact .refl _
    | zero t t' => cases p <;> first | exact .refl _ | exact .zero _ _
  | zero s s' =>
    cases hq with
    | zero t t' => exact .zero _ _
    | refl => cases q <;> first | exact .refl _ | exact .zero _ _

theorem div_congr (hp : Alike p p') (hq : Alike q q') (hNonzero : ∀ s, q ≠ .zero s) :
    Alike (div binary64 p q) (div binary64 p' q') := by
  cases hq with
  | zero t t' => exact absurd rfl (hNonzero t)
  | refl =>
    cases hp with
    | refl => exact .refl _
    | zero s s' =>
      cases q with
      | zero t => exact absurd rfl (hNonzero t)
      | notANumber => exact .refl _
      | _ => exact .zero _ _

end Number.Binary64

namespace Arith

open ArgKey

variable {x y x' y' : Float} {op : ArithOp}

/-- Floats with one key give results with one key. -/
theorem floats_congr (hx : ofFloat? x = ofFloat? x') (hy : ofFloat? y = ofFloat? y') :
    (∃ f, floats op x y = .error f ∧ floats op x' y' = .error f) ∨
      ∃ z z', floats op x y = .ok (.float z) ∧ floats op x' y' = .ok (.float z') ∧
        ofFloat? z = ofFloat? z' := by
  have hLeft := ofFloat?_eq_iff.1 hx
  have hRight := ofFloat?_eq_iff.1 hy
  cases op with
  | add =>
    exact Or.inr ⟨_, _, rfl, rfl, ofFloat?_eq_iff.2 (parts_ofParts_alike (add_congr hLeft hRight))⟩
  | subtract =>
    exact Or.inr ⟨_, _, rfl, rfl, ofFloat?_eq_iff.2 (parts_ofParts_alike (sub_congr hLeft hRight))⟩
  | multiply =>
    exact Or.inr ⟨_, _, rfl, rfl, ofFloat?_eq_iff.2 (parts_ofParts_alike (mul_congr hLeft hRight))⟩
  | divide =>
    have hZero : (y == 0) = (y' == 0) := by rw [Bool.eq_iff_iff, beq_iff, beq_iff, hy]
    rw [floats, floats, ← hZero]
    split
    · exact Or.inl ⟨_, rfl, rfl⟩
    · rename_i hNonzero
      refine Or.inr ⟨_, _, rfl, rfl,
        ofFloat?_eq_iff.2 (parts_ofParts_alike (div_congr hLeft hRight ?_))⟩
      intro s (hParts : parts y = .zero s)
      refine hNonzero (beq_iff.2 ⟨.integer 0, ?_, ?_⟩)
      · rw [ofFloat?_eq_integer, hParts]
        exact Int.cast_zero
      · rw [ofFloat?_eq_integer, parts_zero]
        exact Int.cast_zero

/-- Floats that denote integers give a float that denotes the exact result, if there is one. -/
theorem floats_exact {a b c : Int64} {z : Float} (hx : ofFloat? x = some (.integer a))
    (hy : ofFloat? y = some (.integer b)) (hz : ofFloat? z = some (.integer c))
    (hResult : exactResult? op a.toInt b.toInt = some c.toInt) :
    ∃ w, floats op x y = .ok (.float w) ∧ ofFloat? w = some (.integer c) := by
  rw [ofFloat?_eq_integer] at hx hy
  have hc := ofFloat?_eq_integer.1 hz
  have hParts : ∀ {r : UnpackedFloat}, Alike (parts z) r →
      ofFloat? (ofParts r) = some (.integer c) := by
    intro r h
    have hPacked := parts_ofParts_alike h
    rw [ofParts_parts, ← ofFloat?_eq_iff, hz] at hPacked
    exact hPacked.symm
  cases op with
  | divide => cases hResult
  | add =>
    refine ⟨_, rfl, hParts (add_alike (canonical_parts x) (canonical_parts y) (canonical_parts z)
      hx hy ?_)⟩
    rwa [← Int.cast_add, Option.some.inj hResult]
  | subtract =>
    refine ⟨_, rfl, hParts (sub_alike (canonical_parts x) (canonical_parts y) (canonical_parts z)
      hx hy ?_)⟩
    rwa [← Int.cast_sub, Option.some.inj hResult]
  | multiply =>
    refine ⟨_, rfl, hParts (mul_alike (canonical_parts x) (canonical_parts y) (canonical_parts z)
      hx hy ?_)⟩
    rwa [← Int.cast_mul, Option.some.inj hResult]

end Arith

/-- Whether a float denotes the integer. -/
def Number.isExact (n : Int64) : Bool := ArgKey.ofFloat? (Number.ofInt64 n) = some (.integer n)

theorem Number.isExact_of_key {x : Float} {n : Int64} (h : ArgKey.ofFloat? x = some (.integer n)) :
    Number.isExact n = true := decide_eq_true (ArgKey.ofFloat?_ofInt64 h)

end PostLisp

import Mathlib.Algebra.Field.Rat
import Mathlib.Data.List.Induction
import Mathlib.Data.List.TakeWhile
import Mathlib.Tactic.NormNum
import Mathlib.Tactic.Ring
import PostLisp.Proofs.Numerals

/-!
# How floats are laid out

A decimal is written with the point in front of its digits, among them or behind them, or with one
digit before the point and an exponent.  Whichever form is chosen, the text is read as a decimal of
the same amount (`Layout.numeral_decimal`): the layout loses no digit and moves no point.  So a finite
float is read back as the float nearest to its shortest decimal (`readFloat?_renderFloat`).
-/

namespace PostLisp.Number

/-! ### Digits -/

theorem ofDigits_append (ds es : List Char) :
    ofDigits (ds ++ es) = ofDigits ds * 10 ^ es.length + ofDigits es := by
  induction es using List.reverseRecOn with
  | nil => simp [ofDigits]
  | append_singleton es c ih =>
    rw [← List.append_assoc, ofDigits_concat, ofDigits_concat, ih, List.length_append,
      List.length_singleton, Nat.pow_succ]
    ring

theorem ofDigits_zeros (n : Nat) : ofDigits (List.replicate n '0') = 0 := by
  induction n with
  | zero => rfl
  | succ n ih => exact ih

namespace Decimal

/-- The number that a decimal denotes. -/
def amount (d : Decimal) : ℚ := d.digits * 10 ^ d.exponent

/-- Zeros in front of the digits do not count, and zeros behind them move the point. -/
theorem amount_padded (i j : Nat) (ds : List Char) (point : Int) :
    amount ⟨ofDigits (List.replicate i '0' ++ ds ++ List.replicate j '0'), point - j⟩ =
      amount ⟨ofDigits ds, point⟩ := by
  have hBase : (10 : ℚ) ≠ 0 := by norm_num
  have hMoved : (10 : ℚ) ^ (point - j) = 10 ^ point / 10 ^ j := by
    rw [zpow_sub₀ hBase, zpow_natCast]
  have hDigits : ofDigits (List.replicate i '0' ++ ds ++ List.replicate j '0') =
      ofDigits ds * 10 ^ j := by
    rw [ofDigits_append, ofDigits_append, ofDigits_zeros, ofDigits_zeros, List.length_replicate,
      Nat.zero_mul, Nat.zero_add, Nat.add_zero]
  rw [amount, amount, hDigits, hMoved]
  push_cast
  rw [mul_assoc, mul_div_cancel₀ _ (pow_ne_zero j hBase)]

/-! ### Reading -/

theorem mantissa?_whole {ds : List Char} (hDigits : ∀ c ∈ ds, c.isDigit = true) (hSome : ds ≠ []) :
    mantissa? ds = some ⟨ofDigits ds, 0⟩ := by
  have hTake : ds.takeWhile Char.isDigit = ds := List.takeWhile_eq_self_iff.2 hDigits
  have hDrop : ds.dropWhile Char.isDigit = [] := List.dropWhile_eq_nil_iff.2 hDigits
  rw [mantissa?, hTake, hDrop, natural?_of_isDigit hDigits hSome]
  rfl

theorem mantissa?_point {whole places : List Char} (hWhole : ∀ c ∈ whole, c.isDigit = true)
    (hPlaces : ∀ c ∈ places, c.isDigit = true) (hSome : whole ≠ []) :
    mantissa? (whole ++ '.' :: places) = some ⟨ofDigits (whole ++ places), -places.length⟩ := by
  have hTake : (whole ++ '.' :: places).takeWhile Char.isDigit = whole := by
    rw [List.takeWhile_append_of_pos hWhole, List.takeWhile_cons_of_neg (by decide), List.append_nil]
  have hDrop : (whole ++ '.' :: places).dropWhile Char.isDigit = '.' :: places := by
    rw [List.dropWhile_append_of_pos hWhole, List.dropWhile_cons_of_neg (by decide)]
  have hAll : ∀ c ∈ whole ++ places, c.isDigit = true := fun c hc =>
    (List.mem_append.1 hc).elim (hWhole c) (hPlaces c)
  rw [mantissa?, hTake, hDrop]
  refine (if_pos (List.all_eq_true.2 hPlaces)).trans ?_
  rw [natural?_of_isDigit hAll (List.append_ne_nil_of_left_ne_nil hSome places)]
  rfl

theorem exponent?_toString (n : Int) : exponent? (toString n).toList = some n := by
  rw [exponent?, splitSign_toString]
  dsimp only
  rw [natural?_toString]
  exact congrArg some (signed_natAbs n)

section

variable {cs : List Char}

/-- Neither a digit nor the point is an exponent mark. -/
theorem not_isExponentMark (hPlain : ∀ c ∈ cs, c.isDigit = true ∨ c = '.') :
    ∀ c ∈ cs, (!isExponentMark c) = true := by
  intro c hc
  rw [Bool.not_eq_true', isExponentMark, Bool.or_eq_false_iff, beq_eq_false_iff_ne,
    beq_eq_false_iff_ne]
  have hPlain := hPlain c hc
  constructor <;> rintro rfl <;> revert hPlain <;> decide

theorem read?_plain (hPlain : ∀ c ∈ cs, c.isDigit = true ∨ c = '.') : read? cs = mantissa? cs := by
  have hNone := not_isExponentMark hPlain
  rw [read?, List.takeWhile_eq_self_iff.2 hNone, List.dropWhile_eq_nil_iff.2 hNone]
  cases mantissa? cs <;> rfl

theorem read?_marked (hPlain : ∀ c ∈ cs, c.isDigit = true ∨ c = '.') {d : Decimal}
    (hMantissa : mantissa? cs = some d) (n : Int) :
    read? (cs ++ 'e' :: (toString n).toList) = some ⟨d.digits, d.exponent + n⟩ := by
  have hNone := not_isExponentMark hPlain
  have hTake : (cs ++ 'e' :: (toString n).toList).takeWhile (!isExponentMark ·) = cs := by
    rw [List.takeWhile_append_of_pos hNone, List.takeWhile_cons_of_neg (by decide), List.append_nil]
  have hDrop : (cs ++ 'e' :: (toString n).toList).dropWhile (!isExponentMark ·) =
      'e' :: (toString n).toList := by
    rw [List.dropWhile_append_of_pos hNone, List.dropWhile_cons_of_neg (by decide)]
  rw [read?, hTake, hDrop, hMantissa]
  show (exponent? (toString n).toList).map _ = _
  rw [exponent?_toString]
  rfl

end

/-- The text starts with a digit, and is read as a decimal of the amount. -/
structure Numeral (cs : List Char) (a : ℚ) : Prop where
  head : ∀ c ∈ cs.head?, c.isDigit = true
  read : ∃ d, read? cs = some d ∧ d.amount = a

section

variable {whole places ds : List Char}

theorem isDigit_of_head (hDigits : ∀ c ∈ whole, c.isDigit = true) (hSome : whole ≠ [])
    (cs : List Char) : ∀ c ∈ (whole ++ cs).head?, c.isDigit = true := by
  obtain ⟨first, rest, rfl⟩ := List.exists_cons_of_ne_nil hSome
  rintro _ ⟨⟩
  exact hDigits first List.mem_cons_self

theorem plain_point (hWhole : ∀ c ∈ whole, c.isDigit = true)
    (hPlaces : ∀ c ∈ places, c.isDigit = true) :
    ∀ c ∈ whole ++ '.' :: places, c.isDigit = true ∨ c = '.' := by
  intro c hc
  rcases List.mem_append.1 hc with hc | hc
  · exact Or.inl (hWhole c hc)
  · exact (List.mem_cons.1 hc).symm.imp (hPlaces c) id

/-- Digits that are padded with zeros, and a point among them. -/
theorem numeral_padded {i j : Nat}
    (hAll : whole ++ places = List.replicate i '0' ++ ds ++ List.replicate j '0')
    (hDigits : ∀ c ∈ ds, c.isDigit = true) (hSome : whole ≠ []) {point : Int}
    (hPoint : -(places.length : Int) = point - j) :
    Numeral (whole ++ '.' :: places) (amount ⟨ofDigits ds, point⟩) := by
  have hBoth : ∀ c ∈ whole ++ places, c.isDigit = true := by
    rw [hAll]
    simp only [List.mem_append, List.mem_replicate]
    rintro c ((⟨-, rfl⟩ | hc) | ⟨-, rfl⟩)
    · rfl
    · exact hDigits c hc
    · rfl
  obtain ⟨hWhole, hPlaces⟩ := List.forall_mem_append.1 hBoth
  have hRead := (read?_plain (plain_point hWhole hPlaces)).trans
    (mantissa?_point hWhole hPlaces hSome)
  refine ⟨isDigit_of_head hWhole hSome _, _, hRead, ?_⟩
  rw [hAll, hPoint]
  exact amount_padded i j ds point

end

end Decimal

/-! ### The layout -/

namespace Layout

open Decimal

variable {ds : List Char} (point : Int)

theorem numeral_positional (hDigits : ∀ c ∈ ds, c.isDigit = true) (hSome : ds ≠ []) :
    Numeral (standard.positional ds point).toList (amount ⟨ofDigits ds, point - ds.length⟩) := by
  have hLength := List.length_pos_iff.2 hSome
  rw [positional]
  split
  · -- the point is in front of the digits, behind a zero of its own
    have hText : ("0." ++ zeros (-point).toNat ++ String.ofList ds).toList =
        ['0'] ++ '.' :: (List.replicate (-point).toNat '0' ++ ds) := by
      simp [zeros]
    rw [hText]
    refine numeral_padded (i := (-point).toNat + 1) (j := 0) (by simp [List.replicate_succ]) hDigits
      (List.cons_ne_nil _ _) ?_
    rw [List.length_append, List.length_replicate]
    omega
  · dsimp only
    split
    · -- among the digits
      have hText : (String.ofList (ds.take point.toNat) ++ "." ++
          String.ofList (ds.drop point.toNat)).toList =
          ds.take point.toNat ++ '.' :: ds.drop point.toNat := by
        simp
      rw [hText]
      refine numeral_padded (i := 0) (j := 0) (by simp) hDigits ?_ ?_
      · rw [← List.length_pos_iff, List.length_take]
        omega
      · rw [List.length_drop]
        omega
    · -- behind them, with a zero of its own again
      have hText : (String.ofList ds ++ zeros (point.toNat - ds.length) ++
          standard.wholeEnding).toList =
          (ds ++ List.replicate (point.toNat - ds.length) '0') ++ '.' :: ['0'] := by
        simp [zeros, standard]
      rw [hText]
      refine numeral_padded (i := 0) (j := point.toNat - ds.length + 1) ?_ hDigits
        (List.append_ne_nil_of_left_ne_nil hSome _) ?_
      · rw [List.replicate_succ', ← List.append_assoc]
        rfl
      · rw [List.length_singleton]
        omega

theorem numeral_scientific (hDigits : ∀ c ∈ ds, c.isDigit = true) (hSome : ds ≠ []) :
    Numeral (standard.scientific ds point).toList (amount ⟨ofDigits ds, point - ds.length⟩) := by
  obtain ⟨first, places, rfl⟩ := List.exists_cons_of_ne_nil hSome
  obtain ⟨hFirst, hPlaces⟩ := List.forall_mem_cons.1 hDigits
  have hWhole : ∀ c ∈ [first], c.isDigit = true := List.forall_mem_singleton.2 hFirst
  have hOne : [first] ≠ [] := List.cons_ne_nil _ _
  cases places with
  | nil =>
    have hText : (standard.scientific [first] point).toList =
        [first] ++ 'e' :: (toString (point - 1)).toList := by
      simp [scientific, standard]
    have hRead := read?_marked (fun c hc => Or.inl (hWhole c hc)) (mantissa?_whole hWhole hOne)
      (point - 1)
    rw [Int.zero_add] at hRead
    rw [hText]
    exact ⟨isDigit_of_head hWhole hOne _, _, hRead, rfl⟩
  | cons place places =>
    have hText : (standard.scientific (first :: place :: places) point).toList =
        ([first] ++ '.' :: place :: places) ++ 'e' :: (toString (point - 1)).toList := by
      simp [scientific, standard]
    have hRead := read?_marked (plain_point hWhole hPlaces) (mantissa?_point hWhole hPlaces hOne)
      (point - 1)
    have hPoint : -((place :: places).length : Int) + (point - 1) =
        point - (first :: place :: places).length := by
      have hLength : (first :: place :: places).length = (place :: places).length + 1 := rfl
      omega
    rw [hPoint] at hRead
    rw [hText]
    refine ⟨?_, _, hRead, rfl⟩
    rw [List.append_assoc]
    exact isDigit_of_head hWhole hOne _

/-- **The layout loses nothing**: what it writes is read as a decimal of the same amount. -/
theorem numeral_decimal (d : Decimal) : Numeral (standard.decimal d).toList d.amount := by
  have hDigits : ∀ c ∈ (toString d.digits).toList, c.isDigit = true :=
    fun _ => isDigit_of_mem_toString
  have hSome := toString_ne_nil d.digits
  let point := d.exponent + (toString d.digits).toList.length
  have hAmount : amount ⟨ofDigits (toString d.digits).toList,
      point - (toString d.digits).toList.length⟩ = d.amount := by
    rw [ofDigits_toString, Int.add_sub_cancel]
  rw [decimal]
  split
  · rename_i hZero
    have hText : ("0" ++ standard.wholeEnding).toList = ['0'] ++ '.' :: ['0'] := rfl
    have hWord : ∀ c ∈ ['0'], c.isDigit = true := List.forall_mem_singleton.2 rfl
    rw [hText]
    refine ⟨isDigit_of_head hWord (List.cons_ne_nil _ _) _, ⟨0, -1⟩, rfl, ?_⟩
    rw [amount, amount, hZero, Nat.cast_zero, zero_mul, zero_mul]
  · rw [← hAmount]
    dsimp only
    split
    · exact numeral_positional point hDigits hSome
    · exact numeral_scientific point hDigits hSome

end Layout

theorem toLower_of_isDigit {c : Char} (h : c.isDigit = true) : c.toLower = c := by
  obtain ⟨-, hLast⟩ : 48 ≤ c.toNat ∧ c.toNat ≤ 57 := Char.isDigit_iff_toNat.1 h
  refine dif_neg ?_
  rintro ⟨hUpper, -⟩
  have hUpper : 65 ≤ c.toNat := UInt32.le_iff_toNat_le.1 hUpper
  omega

/-- A text that starts with a digit is no word for a float. -/
theorem magnitudeOf?_of_isDigit {cs : List Char} (h : ∀ c ∈ cs.head?, c.isDigit = true) :
    magnitudeOf? cs = (Decimal.read? cs).map Decimal.toFloat := by
  have hName {first : Char} {word : List Char} (hWord : first.isDigit = false) :
      cs.map Char.toLower ≠ first :: word := by
    intro hSame
    obtain ⟨c, ds, rfl, hFirst, -⟩ := List.map_eq_cons_iff.1 hSame
    rw [toLower_of_isDigit (h c rfl)] at hFirst
    rw [← hFirst, h c rfl] at hWord
    cases hWord
  have hInf : cs.map Char.toLower ≠ "inf".toList := hName (show 'i'.isDigit = false from rfl)
  have hInfinity : cs.map Char.toLower ≠ "infinity".toList :=
    hName (show 'i'.isDigit = false from rfl)
  have hNan : cs.map Char.toLower ≠ "nan".toList := hName (show 'n'.isDigit = false from rfl)
  rw [magnitudeOf?, if_neg (not_or.2 ⟨hInf, hInfinity⟩), if_neg hNan]

/-- **What a finite float writes is read as its shortest decimal**: as the float nearest to a decimal
of the same amount, with the sign of the float. -/
theorem readFloat?_renderFloat {x : Float} {m : Nat} {q : Int}
    (hFinite : Binary64.magnitude x = .finite m q) :
    ∃ d : Decimal, d.amount = (if m = 0 then ⟨0, 0⟩ else shortest m q : Decimal).amount ∧
      readFloat? (renderFloat x).toList =
        some (if Binary64.isNegative x then -d.toFloat else d.toFloat) := by
  let written : Decimal := if m = 0 then ⟨0, 0⟩ else shortest m q
  obtain ⟨hHead, d, hRead, hAmount⟩ := Layout.numeral_decimal written
  refine ⟨d, hAmount, ?_⟩
  have hText : (renderFloat x).toList =
      (if Binary64.isNegative x then ['-'] else []) ++ (Layout.standard.decimal written).toList := by
    rw [renderFloat, Layout.float, hFinite]
    dsimp only
    rw [String.toList_append, Layout.magnitude]
    split <;> rfl
  have hSign : splitSign (renderFloat x).toList =
      (Binary64.isNegative x, (Layout.standard.decimal written).toList) := by
    rw [hText]
    cases Binary64.isNegative x with
    | true => rfl
    | false => exact splitSign_of_isDigit hHead
  rw [readFloat?, hSign]
  dsimp only
  rw [magnitudeOf?_of_isDigit hHead, hRead]
  rfl

example : renderFloat (0.1 + 0.2) = "0.30000000000000004" := by decide +kernel

example : renderFloat 1e16 = "1e16" := by decide +kernel

end PostLisp.Number

import PostLisp.Proofs.FloatParts

/-!
# Rounding what needs no rounding

Arithmetic on floats computes the exact result and rounds it.  If some float denotes the exact
result, rounding gives the parts of this float, a zero perhaps with the other sign.
-/

namespace PostLisp.Number.Binary64

open Float.Model (UnpackedFloat Format totalExponent)
open Float.Model.UnpackedFloat
open Float.Model.Format (binary64)

/-- The parts denote the number `a`. -/
def Denotes : UnpackedFloat → ℚ → Prop
  | .zero _, a => a = 0
  | .finite s m e _, a => a = s.apply m * 2 ^ e
  | _, _ => False

/-- The same parts, or two zeros. -/
inductive Alike : UnpackedFloat → UnpackedFloat → Prop
  | refl (p : UnpackedFloat) : Alike p p
  | zero (s s' : Sign) : Alike (.zero s) (.zero s')

theorem two_zpow_add (a b : ℤ) : (2 : ℚ) ^ (a + b) = 2 ^ a * 2 ^ b := zpow_add₀ two_ne_zero a b

/-! ### Shifting -/

theorem repeat_shiftRightOne (m k : Nat) :
    k.repeat ExtendedMantissa.shiftRightOne ⟨m * 2 ^ k, false, false⟩ = ⟨m, false, false⟩ := by
  induction k generalizing m with
  | zero => simp [Nat.repeat]
  | succ k ih =>
    have hTwice : m * 2 ^ (k + 1) = 2 * m * 2 ^ k := by rw [pow_succ]; ring
    rw [Nat.repeat, hTwice, ih]
    simp [ExtendedMantissa.shiftRightOne]

theorem log2_mul_two_pow {m : Nat} (hPos : 0 < m) (k : Nat) : (m * 2 ^ k).log2 = m.log2 + k := by
  induction k with
  | zero => simp
  | succ k ih =>
    have hTwice : m * 2 ^ (k + 1) = 2 * (m * 2 ^ k) := by rw [pow_succ]; ring
    rw [hTwice, Nat.log2_two_mul (Nat.mul_pos hPos (Nat.two_pow_pos k)).ne', ih]
    rfl

theorem totalExponent_mul_two_pow {m : Nat} (hPos : 0 < m) (k : Nat) (e : Int) :
    totalExponent (m * 2 ^ k) e = totalExponent m (e + k) := by
  rw [totalExponent, totalExponent, log2_mul_two_pow hPos]
  omega

/-- The parts of a float have the exponent that their number asks for. -/
theorem targetExponent_eq {s : Sign} {m : Nat} {e : Int} {hPos : 0 < m}
    (h : Canonical (.finite s m e hPos)) : binary64.targetExponent (totalExponent m e) = e := by
  have hBits : (binary64.mantissaBits : Int) = 53 := rfl
  have hFirst : binary64.minExponent = -1074 := rfl
  have hLeast := leastExponent_eq
  rw [Format.targetExponent, totalExponent, hBits, hFirst]
  cases h with
  | subnormal _ _ hLess =>
    have hLog : m.log2 < 52 := (Nat.log2_lt hPos.ne').2 hLess
    omega
  | normal _ _ hFull hLess hLeast hGreatest =>
    have hLog := (Nat.log2_eq_iff hPos.ne').2 ⟨hFull, hLess⟩
    omega

theorem shiftToTargetExponent_eq {s : Sign} {m : Nat} {e : Int} {hPos : 0 < m}
    (h : Canonical (.finite s m e hPos)) (k : Nat) :
    shiftToTargetExponent binary64 (m * 2 ^ k) (e - k) .exact = (⟨m, false, false⟩, e) := by
  have hAmount : (e - (e - k)).toNat = k := by omega
  have hShift : ExtendedMantissa.ofMantissaAndAccuracy (m * 2 ^ k) .exact >>> k =
      ⟨m, false, false⟩ := repeat_shiftRightOne m k
  rw [shiftToTargetExponent, totalExponent_mul_two_pow hPos, sub_add_cancel, targetExponent_eq h,
    shiftToExponent, hAmount]
  simp only [hShift, sub_add_cancel]

theorem roundWithAccuracy_eq {s : Sign} {m : Nat} {e : Int} {hPos : 0 < m}
    (h : Canonical (.finite s m e hPos)) (k : Nat) :
    roundWithAccuracy binary64 s (m * 2 ^ k) (e - k) .exact = .finite s m e hPos := by
  have hFirst := shiftToTargetExponent_eq h k
  have hSecond : shiftToTargetExponent binary64 m e .exact = (⟨m, false, false⟩, e) := by
    simpa using shiftToTargetExponent_eq h 0
  have hRounded : (ExtendedMantissa.mk m false false).roundedMantissa = m := rfl
  simp only [roundWithAccuracy, hFirst, hRounded, hSecond]
  exact dif_neg (Nat.ne_of_gt hPos)

theorem eq_mul_two_pow {k m j : Nat} {l : Int} (h : (k : ℚ) * 2 ^ l = m * 2 ^ (l + j)) :
    k = m * 2 ^ j := by
  have hUnit : (2 : ℚ) ^ l ≠ 0 := zpow_ne_zero _ two_ne_zero
  rw [two_zpow_add, zpow_natCast] at h
  have hCast : (k : ℚ) = m * 2 ^ j := by
    refine mul_right_cancel₀ hUnit ?_
    rw [h]
    ring
  exact_mod_cast hCast

/-- A number that parts of a float denote is rounded to them. -/
theorem round_eq {s : Sign} {m : Nat} {e : Int} {hPos : 0 < m} (h : Canonical (.finite s m e hPos))
    {k : Nat} {l : Int} (hValue : (k : ℚ) * 2 ^ l = m * 2 ^ e) :
    UnpackedFloat.round binary64 s k l = .finite s m e hPos := by
  have hTarget := targetExponent_eq h
  -- below `e` the places that are dropped are zeros, above it zeros are appended first
  rcases le_total l e with hBelow | hAbove
  · obtain ⟨j, rfl⟩ := Int.le.dest hBelow
    obtain rfl := eq_mul_two_pow hValue
    have hRound := roundWithAccuracy_eq h j
    have hAmount : (l - (l + j)).toNat = 0 := by omega
    rw [add_sub_cancel_right] at hRound
    simpa only [UnpackedFloat.round, totalExponent_mul_two_pow hPos, hTarget, decreaseExponent,
      hAmount, Nat.shiftLeft_zero, Nat.cast_zero, sub_zero] using hRound
  · obtain ⟨j, rfl⟩ := Int.le.dest hAbove
    obtain rfl := eq_mul_two_pow hValue.symm
    have hRound := roundWithAccuracy_eq h 0
    have hAmount : (e + j - e).toNat = j := by omega
    rw [totalExponent_mul_two_pow (Nat.pos_of_mul_pos_right hPos)] at hTarget
    simpa only [UnpackedFloat.round, hTarget, decreaseExponent, hAmount, Nat.shiftLeft_eq,
      add_sub_cancel_right, pow_zero, mul_one, Nat.cast_zero, sub_zero] using hRound

/-! ### The number that parts denote -/

theorem scaled_pos {m : Nat} (hm : 0 < m) (e : Int) : (0 : ℚ) < m * 2 ^ e :=
  mul_pos (Nat.cast_pos.2 hm) (zpow_pos two_pos e)

theorem apply_mul_inj {s t : Sign} {k m : Nat} {l e : Int} (hk : 0 < k) (hm : 0 < m)
    (h : ((s.apply k : ℤ) : ℚ) * 2 ^ l = (t.apply m : ℤ) * 2 ^ e) :
    s = t ∧ (k : ℚ) * 2 ^ l = m * 2 ^ e := by
  have hLeft := scaled_pos hk l
  have hRight := scaled_pos hm e
  cases s <;> cases t <;> simp only [Sign.apply, Int.cast_neg, Int.cast_natCast, neg_mul] at h
  · exact ⟨rfl, neg_inj.1 h⟩
  · linarith
  · linarith
  · exact ⟨rfl, h⟩

theorem denotes_ne_zero {s : Sign} {m : Nat} {e : Int} {hPos : 0 < m} {a : ℚ}
    (h : Denotes (.finite s m e hPos) a) : a ≠ 0 := by
  have hMagnitude := scaled_pos hPos e
  obtain rfl := h
  cases s <;> simp only [Sign.apply, Int.cast_neg, Int.cast_natCast, neg_mul]
  · exact neg_ne_zero.2 hMagnitude.ne'
  · exact hMagnitude.ne'

/-- Parts of floats that denote one number are alike. -/
theorem alike_of_denotes {p q : UnpackedFloat} (hp : Canonical p) (hq : Canonical q) {a : ℚ}
    (ha : Denotes p a) (hb : Denotes q a) : Alike p q := by
  cases p with
  | infinity s => exact ha.elim
  | notANumber => exact ha.elim
  | zero s =>
    cases q with
    | zero t => exact .zero s t
    | finite t k l hk => exact absurd ha (denotes_ne_zero hb)
    | _ => exact hb.elim
  | finite s m e hPos =>
    cases q with
    | zero t => exact absurd hb (denotes_ne_zero ha)
    | finite t k l hk =>
      obtain ⟨rfl, hValue⟩ := apply_mul_inj hPos hk (Eq.trans (Eq.symm ha) hb)
      rw [← round_eq hp rfl, round_eq hq hValue]
      exact .refl _
    | _ => exact hb.elim

theorem exists_apply {m : Int} (h : m ≠ 0) : ∃ (s : Sign) (k : Nat), 0 < k ∧ m = s.apply k := by
  rcases lt_or_gt_of_ne h with hNegative | hPositive
  · exact ⟨.negative, m.natAbs, by omega, by simp only [Sign.apply]; omega⟩
  · exact ⟨.positive, m.natAbs, by omega, by simp only [Sign.apply]; omega⟩

theorem normalize_apply {spec : Format} (s z : Sign) {k : Nat} (hk : 0 < k) (l : Int) :
    UnpackedFloat.normalize spec (s.apply k) l z = UnpackedFloat.round spec s k l := by
  cases s with
  | positive =>
    have hSign : compare (Sign.positive.apply k) 0 = .gt :=
      Int.compare_eq_gt.2 (by simpa [Sign.apply])
    rw [UnpackedFloat.normalize, hSign]
    rfl
  | negative =>
    have hSign : compare (Sign.negative.apply k) 0 = .lt :=
      Int.compare_eq_lt.2 (by simpa [Sign.apply])
    rw [UnpackedFloat.normalize, hSign]
    simp [Sign.apply]

/-- A number that some float denotes is normalized to its parts. -/
theorem normalize_alike {p : UnpackedFloat} (h : Canonical p) {m l : Int}
    (hValue : Denotes p (m * 2 ^ l)) (z : Sign) :
    Alike p (UnpackedFloat.normalize binary64 m l z) := by
  have hUnit : (2 : ℚ) ^ l ≠ 0 := zpow_ne_zero _ two_ne_zero
  cases p with
  | zero s =>
    have hZero : (m : ℚ) * 2 ^ l = 0 := hValue
    obtain rfl : m = 0 := by simpa [hUnit] using hZero
    exact .zero s z
  | finite s n e hPos =>
    obtain ⟨t, k, hk, rfl⟩ : ∃ (t : Sign) (k : Nat), 0 < k ∧ m = t.apply k := by
      refine exists_apply ?_
      rintro rfl
      exact denotes_ne_zero hValue (by simp)
    obtain ⟨rfl, hMagnitude⟩ := apply_mul_inj hk hPos hValue
    rw [normalize_apply _ _ hk, round_eq h hMagnitude]
    exact .refl _
  | _ => exact hValue.elim

theorem apply_cast (s : Sign) (m : Nat) : ((s.apply m : ℤ) : ℚ) = (s.apply 1 : ℤ) * m := by
  cases s <;> simp [Sign.apply]

theorem natural?_eq_some {m n : Nat} {e : Int} : natural? m e = some n ↔ (m : ℚ) * 2 ^ e = n := by
  rw [natural?]
  split
  · obtain ⟨k, rfl⟩ := Int.eq_ofNat_of_zero_le ‹0 ≤ e›
    rw [Option.some_inj, Int.toNat_natCast, zpow_natCast]
    show m * 2 ^ k = n ↔ _
    exact_mod_cast Iff.rfl
  · obtain ⟨k, hk⟩ := Int.eq_ofNat_of_zero_le (show 0 ≤ -e by omega)
    obtain rfl : e = -k := by omega
    have hUnit : (2 : ℚ) ^ k ≠ 0 := pow_ne_zero _ two_ne_zero
    have hScaled : (m : ℚ) * 2 ^ (-(k : ℤ)) = n ↔ m = n * 2 ^ k := by
      rw [zpow_neg, zpow_natCast, ← div_eq_mul_inv, div_eq_iff hUnit]
      exact_mod_cast Iff.rfl
    rw [hScaled, neg_neg, Int.toNat_natCast]
    show (if m % 2 ^ k = 0 then some (m / 2 ^ k) else none) = some n ↔ _
    split
    · rename_i hMod
      have hDivides := Nat.dvd_of_mod_eq_zero hMod
      rw [Option.some_inj, Nat.div_eq_iff_eq_mul_left (Nat.two_pow_pos k) hDivides]
    · rename_i hMod
      refine iff_of_false (fun h => by cases h) fun h => hMod ?_
      rw [h, Nat.mul_mod_left]

theorem whole?_eq_some {p : UnpackedFloat} {n : Int} : whole? p = some n ↔ Denotes p n := by
  cases p with
  | zero s =>
    rw [whole?, Option.some_inj]
    show (0 : ℤ) = n ↔ (n : ℚ) = 0
    rw [Int.cast_eq_zero]
    exact eq_comm
  | finite s m e hPos =>
    rw [whole?, Option.map_eq_some_iff]
    constructor
    · rintro ⟨k, hk, rfl⟩
      show ((s.apply k : ℤ) : ℚ) = (s.apply m : ℤ) * 2 ^ e
      rw [apply_cast, apply_cast s m, mul_assoc, natural?_eq_some.1 hk]
    · intro h
      obtain ⟨t, k, hk, rfl⟩ : ∃ (t : Sign) (k : Nat), 0 < k ∧ n = t.apply k :=
        exists_apply fun hZero => denotes_ne_zero h (by rw [hZero, Int.cast_zero])
      have hValue : ((t.apply k : ℤ) : ℚ) * 2 ^ (0 : ℤ) = (s.apply m : ℤ) * 2 ^ e := by
        rw [zpow_zero, mul_one]
        exact h
      obtain ⟨rfl, hMagnitude⟩ := apply_mul_inj hk hPos hValue
      rw [zpow_zero, mul_one] at hMagnitude
      exact ⟨k, natural?_eq_some.2 hMagnitude.symm, rfl⟩
  | _ => exact iff_of_false (fun h => by cases h) id

/-! ### Arithmetic -/

theorem ofInt_alike {p : UnpackedFloat} (h : Canonical p) {n : Int} (hValue : Denotes p n) :
    Alike p (UnpackedFloat.ofInt binary64 n) :=
  normalize_alike h (by simpa using hValue) _

variable {p q r : UnpackedFloat} {a b : ℚ}

theorem decreaseExponent_eq (m : Nat) {e l : Int} (h : l ≤ e) :
    ∃ k : Nat, decreaseExponent m e l = (k, l) ∧ (k : ℚ) * 2 ^ l = m * 2 ^ e := by
  obtain ⟨j, rfl⟩ := Int.le.dest h
  refine ⟨m * 2 ^ j, ?_, ?_⟩
  · have hAmount : (l + j - l).toNat = j := by omega
    rw [decreaseExponent, hAmount, Nat.shiftLeft_eq]
    simp
  · rw [two_zpow_add, zpow_natCast]
    push_cast
    ring

theorem add_zero_zero (s t : Sign) : ∃ z, add binary64 (.zero s) (.zero t) = .zero z := by
  rw [add]
  split <;> exact ⟨_, rfl⟩

theorem add_alike (hp : Canonical p) (hq : Canonical q) (hr : Canonical r) (ha : Denotes p a)
    (hb : Denotes q b) (hSum : Denotes r (a + b)) : Alike r (add binary64 p q) := by
  cases p with
  | zero s =>
    obtain rfl : a = 0 := ha
    rw [zero_add] at hSum
    cases q with
    | zero t =>
      obtain rfl : b = 0 := hb
      obtain ⟨z, hZero⟩ := add_zero_zero s t
      rw [hZero]
      exact alike_of_denotes hr (.zero z) hSum rfl
    | finite t k l hk => exact alike_of_denotes hr hq hSum hb
    | _ => exact hb.elim
  | finite s m e hm =>
    cases q with
    | zero t =>
      obtain rfl : b = 0 := hb
      rw [add_zero] at hSum
      exact alike_of_denotes hr hp hSum ha
    | finite t n f hn =>
      obtain ⟨k, hFirst, hLeft⟩ := decreaseExponent_eq m (min_le_left e f)
      obtain ⟨l, hSecond, hRight⟩ := decreaseExponent_eq n (min_le_right e f)
      simp only [add, hFirst, hSecond]
      refine normalize_alike hr ?_ _
      have hEqual : a + b = ((s.apply k + t.apply l : ℤ) : ℚ) * 2 ^ min e f := by
        rw [Int.cast_add, add_mul, apply_cast, apply_cast t, mul_assoc, mul_assoc, hLeft, hRight,
          show a = _ from ha, show b = _ from hb, apply_cast s m, apply_cast t n, mul_assoc,
          mul_assoc]
      rwa [← hEqual]
    | _ => exact hb.elim
  | _ => exact ha.elim

theorem neg_neg_sign (s : Sign) : - -s = s := by cases s <;> rfl

theorem apply_neg (s : Sign) (n : Int) : (-s).apply n = -s.apply n := by
  cases s
  · exact (neg_neg n).symm
  · rfl

theorem canonical_neg (h : Canonical p) : Canonical (neg p) := by
  cases h with
  | infinity s => exact .infinity _
  | notANumber => exact .notANumber
  | zero s => exact .zero _
  | subnormal s hPos hLess => exact .subnormal _ hPos hLess
  | normal s hPos hFull hLess hLeast hGreatest => exact .normal _ hPos hFull hLess hLeast hGreatest

theorem denotes_neg (h : Denotes p a) : Denotes (neg p) (-a) := by
  cases p with
  | zero s =>
    obtain rfl : a = 0 := h
    exact neg_zero
  | finite s m e hPos =>
    obtain rfl : a = _ := h
    show -((s.apply m : ℤ) * (2 : ℚ) ^ e) = ((-s).apply m : ℤ) * 2 ^ e
    rw [apply_neg, Int.cast_neg, neg_mul]
  | _ => exact h.elim

theorem neg_neg_parts (p : UnpackedFloat) : neg (neg p) = p := by
  cases p <;> simp [neg, neg_neg_sign]

theorem neg_congr (h : Alike p q) : Alike (neg p) (neg q) := by
  cases h with
  | refl => exact .refl _
  | zero s s' => exact .zero _ _

theorem sub_eq_add (p q : UnpackedFloat) : sub binary64 p q = add binary64 p (neg q) := by
  cases p <;> cases q <;> simp only [sub, add, neg, apply_neg, ← Int.sub_eq_add_neg]

theorem sub_alike (hp : Canonical p) (hq : Canonical q) (hr : Canonical r) (ha : Denotes p a)
    (hb : Denotes q b) (hDifference : Denotes r (a - b)) : Alike r (sub binary64 p q) := by
  rw [sub_eq_add]
  exact add_alike hp (canonical_neg hq) hr ha (denotes_neg hb) (by rwa [← sub_eq_add_neg])

theorem bounds_of_canonical {s : Sign} {m : Nat} {e : Int} {hPos : 0 < m}
    (h : Canonical (.finite s m e hPos)) :
    m < 2 * hiddenBit ∧ leastExponent ≤ e ∧ (hiddenBit ≤ m ∨ e = leastExponent) := by
  cases h with
  | subnormal _ _ hLess => exact ⟨by omega, le_refl _, Or.inr rfl⟩
  | normal _ _ hFull hLess hLeast _ => exact ⟨hLess, hLeast, Or.inl hFull⟩

/-- A product has at least as many places as its factors, so its exponent only grows. -/
theorem exponent_le_of_mul {s t u : Sign} {m n k : Nat} {e f g : Int} {hm : 0 < m} {hn : 0 < n}
    {hk : 0 < k} (hp : Canonical (.finite s m e hm)) (hq : Canonical (.finite t n f hn))
    (hr : Canonical (.finite u k g hk)) (h : ((m * n : Nat) : ℚ) * 2 ^ (e + f) = k * 2 ^ g) :
    e + f ≤ g := by
  obtain ⟨-, -, hFirst⟩ := bounds_of_canonical hp
  obtain ⟨-, -, hSecond⟩ := bounds_of_canonical hq
  obtain ⟨hLess, hLeast, -⟩ := bounds_of_canonical hr
  by_contra hAbove
  obtain ⟨j, hExponent⟩ := Int.le.dest (Int.le_of_lt (not_le.1 hAbove))
  have hk' : k = m * n * 2 ^ j := eq_mul_two_pow (by rw [hExponent, h])
  have hTwo : 2 ≤ 2 ^ j := Nat.le_self_pow (by omega) 2
  have hProduct : hiddenBit ≤ m * n := by
    rcases hFirst with hFull | rfl
    · exact le_trans hFull (Nat.le_mul_of_pos_right m hn)
    · rcases hSecond with hFull | rfl
      · exact le_trans hFull (Nat.le_mul_of_pos_left n hm)
      · rw [leastExponent_eq] at *
        omega
  have hGreat : hiddenBit * 2 ≤ m * n * 2 ^ j := Nat.mul_le_mul hProduct hTwo
  omega

theorem apply_mul (s t : Sign) (m n : Nat) :
    (s * t).apply (m * n : Nat) = s.apply m * t.apply n := by
  cases s <;> cases t
  · exact (Int.natCast_mul m n).trans (neg_mul_neg _ _).symm
  · exact (congrArg Neg.neg (Int.natCast_mul m n)).trans (neg_mul _ _).symm
  · exact (congrArg Neg.neg (Int.natCast_mul m n)).trans (mul_neg _ _).symm
  · exact Int.natCast_mul m n

theorem mul_alike (hp : Canonical p) (hq : Canonical q) (hr : Canonical r) (ha : Denotes p a)
    (hb : Denotes q b) (hProduct : Denotes r (a * b)) : Alike r (mul binary64 p q) := by
  cases p with
  | zero s =>
    obtain rfl : a = 0 := ha
    rw [zero_mul] at hProduct
    cases q with
    | zero t => exact alike_of_denotes hr (.zero (s * t)) hProduct rfl
    | finite t n f hn => exact alike_of_denotes hr (.zero (s * t)) hProduct rfl
    | _ => exact hb.elim
  | finite s m e hm =>
    cases q with
    | zero t =>
      obtain rfl : b = 0 := hb
      rw [mul_zero] at hProduct
      exact alike_of_denotes hr (.zero (s * t)) hProduct rfl
    | finite t n f hn =>
      have hEqual : a * b = (((s * t).apply (m * n : Nat) : ℤ) : ℚ) * 2 ^ (e + f) := by
        rw [show a = _ from ha, show b = _ from hb, apply_mul, two_zpow_add]
        push_cast
        ring
      cases r with
      | zero u => exact absurd hProduct (mul_ne_zero (denotes_ne_zero ha) (denotes_ne_zero hb))
      | finite u k g hk =>
        obtain ⟨rfl, hMagnitude⟩ :=
          apply_mul_inj (Nat.mul_pos hm hn) hk (hEqual.symm.trans hProduct)
        obtain ⟨j, hExponent⟩ := Int.le.dest (exponent_le_of_mul hp hq hr hMagnitude)
        obtain rfl : g = e + f + j := hExponent.symm
        have hRound := roundWithAccuracy_eq hr j
        rw [add_sub_cancel_right, ← eq_mul_two_pow hMagnitude] at hRound
        rw [mul, hRound]
        exact .refl _
      | _ => exact hProduct.elim
    | _ => exact hb.elim
  | _ => exact ha.elim

/-! ### Integers as floats -/

theorem parts_ofParts_alike (h : Alike p q) : Alike (parts (ofParts p)) (parts (ofParts q)) := by
  cases h with
  | refl => exact .refl _
  | zero s s' =>
    rw [parts_ofParts (.zero s), parts_ofParts (.zero s')]
    exact .zero s s'

theorem alike_ofParts {x : Float} (h : Alike (parts x) p) :
    Alike (parts x) (parts (ofParts p)) := by
  have hPacked := parts_ofParts_alike h
  rwa [ofParts_parts] at hPacked

theorem denotes_of_alike (h : Alike p q) (ha : Denotes p a) : Denotes q a := by
  cases h with
  | refl => exact ha
  | zero s s' => exact ha

theorem denotes_one : Denotes (parts (Float.ofBits 0x3FF0000000000000)) 1 := by
  have hParts : parts (Float.ofBits 0x3FF0000000000000) =
      .finite .positive (2 ^ 52) (-52) (by decide) := rfl
  rw [hParts]
  show (1 : ℚ) = ((2 ^ 52 : ℕ) : ℤ) * 2 ^ (-52 : ℤ)
  norm_num

theorem ofNat_small {n : Nat} (h : n < 2 ^ 53) : Float.ofNat n =
    ofParts (mul binary64 (parts (ofParts (UnpackedFloat.ofInt binary64 n)))
      (parts (Float.ofBits 0x3FF0000000000000))) := by
  have hWord : n.toUInt64.toFloat = ofParts (UnpackedFloat.ofInt binary64 n) := by
    have hSame : n.toUInt64.toNat = n := by
      rw [Nat.toUInt64_eq, UInt64.toNat_ofNat', Nat.mod_eq_of_lt (by omega)]
    show ofParts (UnpackedFloat.ofInt binary64 n.toUInt64.toNat) = _
    rw [hSame]
  show Float.ofScientific n false 0 = _
  rw [Float.ofScientific, dif_pos ⟨h, by decide⟩, ← hWord]
  rfl

theorem ofNat_large {n : Nat} (h : 2 ^ 53 ≤ n) : Float.ofNat n =
    ofParts (roundWithAccuracy binary64 .positive (n * 2 ^ 53) (-53) .exact) := by
  have hSafe : ¬(0 : Int) < -(2 ^ 11 + (n.log2 : Int)) := by omega
  have hScaled : n <<< binary64.mantissaBits * 10 ^ (0 : Int).toNat = n * 2 ^ 53 := by
    rw [Nat.shiftLeft_eq]
    exact Nat.mul_one _
  show Float.ofScientific n false 0 = _
  rw [Float.ofScientific, dif_neg (fun hSmall => by omega)]
  show ofParts (UnpackedFloat.ofScientific binary64 n 0) = _
  rw [UnpackedFloat.ofScientific, dif_neg (by omega), if_neg (by decide), if_neg hSafe,
    if_pos (le_refl _), mul, hScaled]
  rfl

/-- With more than 53 places before the point, a float has none after it. -/
theorem exponent_nonneg {s : Sign} {m n : Nat} {e : Int} {hm : 0 < m}
    (h : Canonical (.finite s m e hm)) (hLarge : 2 ^ 53 ≤ n) (hValue : (n : ℚ) = m * 2 ^ e) :
    0 ≤ e := by
  obtain ⟨hLess, -, -⟩ := bounds_of_canonical h
  by_contra hNegative
  obtain ⟨j, hj⟩ := Int.le.dest (Int.le_of_lt (not_le.1 hNegative))
  have hm' : m = n * 2 ^ j := eq_mul_two_pow (by rw [hj, zpow_zero, mul_one, hValue])
  have hMore := Nat.le_mul_of_pos_right n (Nat.two_pow_pos j)
  rw [hiddenBit_eq] at hLess
  omega

theorem round_large {n : Nat} (hLarge : 2 ^ 53 ≤ n) (h : Canonical p) (hValue : Denotes p n) :
    Alike p (roundWithAccuracy binary64 .positive (n * 2 ^ 53) (-53) .exact) := by
  cases p with
  | zero s =>
    have hZero : (n : ℚ) = 0 := hValue
    rw [Nat.cast_eq_zero] at hZero
    omega
  | finite s m e hm =>
    have hUnit : ((Sign.positive.apply n : ℤ) : ℚ) * 2 ^ (0 : ℤ) = (s.apply m : ℤ) * 2 ^ e := by
      rw [zpow_zero, mul_one]
      exact hValue
    obtain ⟨rfl, hMagnitude⟩ := apply_mul_inj (by omega) hm hUnit
    rw [zpow_zero, mul_one] at hMagnitude
    obtain ⟨j, rfl⟩ := Int.eq_ofNat_of_zero_le (exponent_nonneg h hLarge hMagnitude)
    obtain rfl : n = m * 2 ^ j := by
      rw [zpow_natCast] at hMagnitude
      exact_mod_cast hMagnitude
    have hRound := roundWithAccuracy_eq h (j + 53)
    have hPlace : (j : Int) - (j + 53 : Nat) = -53 := by omega
    rw [hPlace, pow_add, ← mul_assoc] at hRound
    rw [hRound]
    exact .refl _
  | _ => exact hValue.elim

/-- A natural number becomes the float that denotes it, if there is one. -/
theorem alike_ofNat {x : Float} {n : Nat} (h : Denotes (parts x) n) :
    Alike (parts x) (parts (Float.ofNat n)) := by
  have hx := canonical_parts x
  by_cases hSmall : n < 2 ^ 53
  · have hWord := alike_ofParts (ofInt_alike (n := n) hx (by exact_mod_cast h))
    rw [ofNat_small hSmall]
    refine alike_ofParts (mul_alike (canonical_parts _) (canonical_parts _) hx
      (denotes_of_alike hWord h) denotes_one ?_)
    rwa [mul_one]
  · rw [ofNat_large (not_lt.1 hSmall)]
    exact alike_ofParts (round_large (not_lt.1 hSmall) hx h)

/-- An integer becomes the float that denotes it, if there is one. -/
theorem alike_ofInt {x : Float} {n : Int} (h : Denotes (parts x) n) :
    Alike (parts x) (parts (Float.ofInt n)) := by
  cases n with
  | ofNat n => exact alike_ofNat h
  | negSucc n =>
    have hNegated : parts (ofParts (neg (parts x))) = neg (parts x) :=
      parts_ofParts (canonical_neg (canonical_parts x))
    have hPositive : Denotes (parts (ofParts (neg (parts x)))) (n + 1 : Nat) := by
      rw [hNegated, ← neg_neg ((n + 1 : Nat) : ℚ)]
      refine denotes_neg ?_
      rwa [Int.cast_negSucc] at h
    have hAlike := neg_congr (alike_ofNat hPositive)
    rw [hNegated, neg_neg_parts] at hAlike
    exact alike_ofParts hAlike

end PostLisp.Number.Binary64

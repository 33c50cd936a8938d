import Mathlib
import PostLisp.Number.Binary64

/-!
# What a float is made of

A float is infinite, no number, a zero with a sign, or `± m · 2 ^ e`.  This form is unique: `m` has
53 binary places, unless `e` is the least exponent.  The form is read off the bits, and packed into
bits again it gives the same float.
-/

namespace PostLisp.Number.Binary64

open Float.Model UnpackedFloat
open Float.Model.Format (binary64)

theorem hiddenBit_eq : hiddenBit = 2 ^ 52 := rfl

theorem leastExponent_eq : leastExponent = -1074 := rfl

/-- The exponent of the last place of the greatest floats. -/
def greatestExponent : Int := 971

theorem greatestExponent_eq : greatestExponent = 971 := rfl

/-- The parts of some float. -/
inductive Canonical : UnpackedFloat → Prop
  | infinity (s : Sign) : Canonical (.infinity s)
  | notANumber : Canonical .notANumber
  | zero (s : Sign) : Canonical (.zero s)
  | subnormal (s : Sign) {m : Nat} (hPos : 0 < m) (hLess : m < hiddenBit) :
      Canonical (.finite s m leastExponent hPos)
  | normal (s : Sign) {m : Nat} {e : Int} (hPos : 0 < m) (hFull : hiddenBit ≤ m)
      (hLess : m < 2 * hiddenBit) (hLeast : leastExponent ≤ e) (hGreatest : e ≤ greatestExponent) :
      Canonical (.finite s m e hPos)

def parts (x : Float) : UnpackedFloat := x.toModel.unpack

def sign (x : Float) : Sign := if isNegative x then .negative else .positive

/-! ### Bits -/

theorem toNat_packComponents (s : Sign) (e : BitVec 11) (m : BitVec 52) :
    (packComponents binary64 s e m).toNat =
      s.toBitVec.toNat * 2 ^ 63 + e.toNat * 2 ^ 52 + m.toNat := by
  unfold packComponents
  rw [BitVec.toNat_append, BitVec.toNat_append, ← Nat.shiftLeft_add_eq_or_of_lt m.isLt,
    ← Nat.shiftLeft_add_eq_or_of_lt e.isLt, Nat.shiftLeft_eq, Nat.shiftLeft_eq]
  omega

theorem toNat_exponent (b : BitVec 64) :
    (@unpackExponent binary64 b).toNat = b.toNat / 2 ^ 52 % 2048 := by
  simp [unpackExponent, Nat.shiftRight_eq_div_pow]

theorem toNat_mantissa (b : BitVec 64) :
    (@unpackMantissa binary64 b).toNat = b.toNat % 2 ^ 52 := by
  simp [unpackMantissa]

theorem toNat_sign (b : BitVec 64) :
    (@unpackSign binary64 b).toNat = b.toNat / 2 ^ 63 := by
  have hLess := b.isLt
  simp [unpackSign, Nat.shiftRight_eq_div_pow]
  omega

theorem toNat_append_mantissa (m : BitVec 52) : (1#1 ++ m).toNat = hiddenBit + m.toNat := by
  rw [BitVec.toNat_append, ← Nat.shiftLeft_add_eq_or_of_lt m.isLt, Nat.shiftLeft_eq]
  rfl

theorem unpackExponent_biased (x : Float) :
    (@unpackExponent binary64 x.toModel.toBits.toBitVec).toNat = biased x := by
  rw [toNat_exponent]
  rfl

theorem unpackMantissa_fraction (x : Float) :
    (@unpackMantissa binary64 x.toModel.toBits.toBitVec).toNat = fraction x := by
  rw [toNat_mantissa]
  rfl

theorem ofBitVec_unpackSign (x : Float) :
    Sign.ofBitVec (@unpackSign binary64 x.toModel.toBits.toBitVec) = sign x := by
  have hBit := toNat_sign x.toModel.toBits.toBitVec
  have hLess := x.toModel.toBits.toBitVec.isLt
  have hSign : isNegative x = decide (int64Bound ≤ x.toModel.toBits.toBitVec.toNat) := rfl
  have hZero : @unpackSign binary64 x.toModel.toBits.toBitVec = 0#1 ↔
      isNegative x = false := by
    rw [← BitVec.toNat_inj, hBit, hSign, decide_eq_false_iff_not, int64Bound, BitVec.toNat_zero]
    omega
  rw [Sign.ofBitVec, sign]
  cases hNegative : isNegative x with
  | true => exact if_neg (by rw [hZero, hNegative]; exact Bool.noConfusion)
  | false => exact if_pos (hZero.2 hNegative)

/-- The parts by the three fields of the bits. -/
inductive Form (x : Float) : UnpackedFloat → Prop
  | infinity (hBiased : biased x = 2047) (hFraction : fraction x = 0) : Form x (.infinity (sign x))
  | notANumber (hBiased : biased x = 2047) (hFraction : fraction x ≠ 0) : Form x .notANumber
  | zero (hBiased : biased x = 0) (hFraction : fraction x = 0) : Form x (.zero (sign x))
  | subnormal (hBiased : biased x = 0) (hPos : 0 < fraction x) :
      Form x (.finite (sign x) (fraction x) leastExponent hPos)
  | normal (hBiased : biased x ≠ 0) (hFinite : biased x ≠ 2047)
      (hPos : 0 < hiddenBit + fraction x) :
      Form x (.finite (sign x) (hiddenBit + fraction x) (leastExponent + biased x - 1) hPos)

theorem form_parts (x : Float) : Form x (parts x) := by
  have hExponent := unpackExponent_biased x
  have hFraction := unpackMantissa_fraction x
  have hOnes : @unpackExponent binary64 x.toModel.toBits.toBitVec = -1#11 ↔
      biased x = 2047 := by rw [← BitVec.toNat_inj, hExponent]; rfl
  have hNone : @unpackExponent binary64 x.toModel.toBits.toBitVec = 0#11 ↔
      biased x = 0 := by rw [← BitVec.toNat_inj, hExponent]; rfl
  have hZero : @unpackMantissa binary64 x.toModel.toBits.toBitVec = 0#52 ↔
      fraction x = 0 := by rw [← BitVec.toNat_inj, hFraction]; rfl
  have hPlace : (biased x : Int) - (binary64.exponentBias + (52 : Nat)) =
      leastExponent + biased x - 1 := by
    have hBias : binary64.exponentBias = 1023 := rfl
    rw [hBias, leastExponent]
    omega
  simp only [parts, Float.Model.unpack, UnpackedFloat.unpack, hOnes, hNone, hZero,
    ofBitVec_unpackSign, hExponent, toNat_append_mantissa, hFraction, hPlace]
  by_cases hInfinite : biased x = 2047
  · rw [if_pos hInfinite]
    by_cases hPlain : fraction x = 0
    · rw [if_pos hPlain]
      exact .infinity hInfinite hPlain
    · rw [if_neg hPlain]
      exact .notANumber hInfinite hPlain
  · rw [if_neg hInfinite]
    by_cases hSmall : biased x = 0
    · rw [if_pos hSmall]
      by_cases hPlain : fraction x = 0
      · rw [dif_pos hPlain]
        exact .zero hSmall hPlain
      · rw [dif_neg hPlain]
        simp only [hSmall]
        exact .subnormal hSmall _
    · rw [if_neg hSmall]
      exact .normal hSmall hInfinite _

theorem Form.unique {x : Float} {p q : UnpackedFloat} (h : Form x p) (h' : Form x q) : p = q := by
  cases h <;> cases h' <;> first | rfl | omega

/-! ### Packing -/

/-- The float with given parts. -/
def ofParts (p : UnpackedFloat) : Float := .ofModel (Float.Model.pack p)

theorem biased_lt (x : Float) : biased x < 2048 := Nat.mod_lt _ (by decide)

theorem fraction_lt (x : Float) : fraction x < hiddenBit := Nat.mod_lt _ (by decide)

theorem toBitVec_ofBitVec : ∀ b : BitVec 1, (Sign.ofBitVec b).toBitVec = b := by decide

theorem ofBitVec_toBitVec (s : Sign) : Sign.ofBitVec s.toBitVec = s := by cases s <;> rfl

/-- The three fields make up the bits. -/
theorem toNat_toBits (x : Float) : x.toModel.toBits.toBitVec.toNat =
    (sign x).toBitVec.toNat * 2 ^ 63 + biased x * 2 ^ 52 + fraction x := by
  have hLess := x.toModel.toBits.toBitVec.isLt
  rw [← ofBitVec_unpackSign, toBitVec_ofBitVec, toNat_sign, ← unpackExponent_biased,
    toNat_exponent, ← unpackMantissa_fraction, toNat_mantissa]
  omega

theorem eq_of_toBitVec {x y : Float} (h : x.toModel.toBits.toBitVec = y.toModel.toBits.toBitVec) :
    x = y := by
  rw [UInt64.toBitVec_inj] at h
  cases x with
  | ofModel x =>
    cases y with
    | ofModel y =>
      cases x
      cases y
      cases h
      rfl

theorem eq_of_fields {x y : Float} (hSign : sign x = sign y) (hBiased : biased x = biased y)
    (hFraction : fraction x = fraction y) : x = y := by
  refine eq_of_toBitVec ?_
  rw [← BitVec.toNat_inj, toNat_toBits, toNat_toBits, hSign, hBiased, hFraction]

theorem unpackSign_packComponents (s : Sign) (e : BitVec 11) (m : BitVec 52) :
    unpackSign (packComponents binary64 s e m) = s.toBitVec := by
  rw [← BitVec.toNat_inj, toNat_sign, toNat_packComponents]
  have hLess := s.toBitVec.isLt
  have hExponent := e.isLt
  have hMantissa := m.isLt
  omega

theorem fields_ofParts {p : UnpackedFloat} {s : Sign} {e : BitVec 11} {m : BitVec 52}
    (h : UnpackedFloat.pack binary64 p = packComponents binary64 s e m) :
    sign (ofParts p) = s ∧ biased (ofParts p) = e.toNat ∧ fraction (ofParts p) = m.toNat := by
  have hBits : (ofParts p).toModel.toBits.toBitVec = packComponents binary64 s e m := h
  refine ⟨?_, ?_, ?_⟩
  · rw [← ofBitVec_unpackSign, hBits, unpackSign_packComponents, ofBitVec_toBitVec]
  · rw [← unpackExponent_biased, hBits, unpackExponent_packComponents]
  · rw [← unpackMantissa_fraction, hBits, unpackMantissa_packComponents]

theorem toNat_ofNat_mantissa {m : Nat} (hLess : m < hiddenBit) : (BitVec.ofNat 52 m).toNat = m :=
  Nat.mod_eq_of_lt hLess

theorem fields_subnormal (s : Sign) {m : Nat} (hPos : 0 < m) (hLess : m < hiddenBit) :
    sign (ofParts (.finite s m leastExponent hPos)) = s ∧
      biased (ofParts (.finite s m leastExponent hPos)) = 0 ∧
      fraction (ofParts (.finite s m leastExponent hPos)) = m := by
  have hPlaces : m.log2 + 1 ≠ binary64.mantissaBits := by
    have hLog := (Nat.log2_lt (Nat.ne_of_gt hPos)).2 hLess
    have hBits : binary64.mantissaBits = 53 := rfl
    omega
  have hPack : UnpackedFloat.pack binary64 (.finite s m leastExponent hPos) =
      packComponents binary64 s 0#11 (.ofNat 52 m) := by
    rw [UnpackedFloat.pack]
    dsimp only
    rw [if_neg (by decide), if_neg hPlaces]
  have hFields := fields_ofParts hPack
  rwa [toNat_ofNat_mantissa hLess] at hFields

theorem fields_normal (s : Sign) {m : Nat} {e : Int} (hPos : 0 < m) (hFull : hiddenBit ≤ m)
    (hLess : m < 2 * hiddenBit) (hLeast : leastExponent ≤ e) (hGreatest : e ≤ greatestExponent) :
    sign (ofParts (.finite s m e hPos)) = s ∧
      (biased (ofParts (.finite s m e hPos)) : Int) = e - leastExponent + 1 ∧
      hiddenBit + fraction (ofParts (.finite s m e hPos)) = m := by
  have hHidden := hiddenBit_eq
  have hFirst := leastExponent_eq
  have hLast := greatestExponent_eq
  have hBias : binary64.exponentBias = 1023 := rfl
  have hPlaces : m.log2 + 1 = binary64.mantissaBits := by
    rw [(Nat.log2_eq_iff (Nat.ne_of_gt hPos)).2 ⟨hFull, hLess⟩]
    rfl
  have hFits : ¬2 ^ 11 ≤ (e + binary64.exponentBias + (52 : Nat)).toNat + 1 := by omega
  have hPack : UnpackedFloat.pack binary64 (.finite s m e hPos) =
      packComponents binary64 s (.ofNat 11 (e + binary64.exponentBias + (52 : Nat)).toNat)
        (.ofNat 52 m) := by
    rw [UnpackedFloat.pack]
    dsimp only
    rw [if_neg hFits, if_pos hPlaces]
  obtain ⟨hSign, hBiased, hFraction⟩ := fields_ofParts hPack
  rw [BitVec.toNat_ofNat] at hBiased hFraction
  refine ⟨hSign, ?_, ?_⟩
  · rw [hBiased]
    omega
  · rw [hFraction]
    omega

theorem parts_ofParts {p : UnpackedFloat} (h : Canonical p) : parts (ofParts p) = p := by
  refine (form_parts (ofParts p)).unique ?_
  cases h with
  | infinity s =>
    obtain ⟨hSign, hBiased, hFraction⟩ := fields_ofParts (p := .infinity s) rfl
    have hForm := Form.infinity hBiased hFraction
    rwa [hSign] at hForm
  | notANumber =>
    obtain ⟨-, hBiased, hFraction⟩ := fields_ofParts (p := .notANumber) rfl
    exact .notANumber hBiased (by rw [hFraction]; decide)
  | zero s =>
    obtain ⟨hSign, hBiased, hFraction⟩ := fields_ofParts (p := .zero s) rfl
    have hForm := Form.zero hBiased hFraction
    rwa [hSign] at hForm
  | subnormal s hPos hLess =>
    obtain ⟨hSign, hBiased, hFraction⟩ := fields_subnormal s hPos hLess
    have hForm := Form.subnormal hBiased (by rwa [hFraction])
    simpa only [hSign, hFraction] using hForm
  | @normal s m e hPos hFull hLess hLeast hGreatest =>
    obtain ⟨hSign, hBiased, hFraction⟩ := fields_normal s hPos hFull hLess hLeast hGreatest
    have hLast := greatestExponent_eq
    have hFirst := leastExponent_eq
    have hExponent : leastExponent + (e - leastExponent + 1) - 1 = e := by omega
    have hForm := Form.normal (x := ofParts (.finite s m e hPos)) (by omega) (by omega)
      (by rwa [hFraction])
    simpa only [hSign, hBiased, hFraction, hExponent] using hForm

theorem canonical_parts (x : Float) : Canonical (parts x) := by
  have hFraction := fraction_lt x
  have hBiased := biased_lt x
  have hLast := greatestExponent_eq
  have hFirst := leastExponent_eq
  have hForm := form_parts x
  generalize parts x = p at hForm
  cases hForm with
  | infinity => exact .infinity _
  | notANumber => exact .notANumber
  | zero => exact .zero _
  | subnormal hSmall hPos => exact .subnormal _ hPos hFraction
  | normal hSmall hFinite hPos => exact .normal _ hPos (by omega) (by omega) (by omega) (by omega)

/-- A float is known by its parts: there is one float only that is no number. -/
theorem ofParts_parts (x : Float) : ofParts (parts x) = x := by
  have hLess := fraction_lt x
  have hForm := form_parts x
  generalize parts x = p at hForm
  cases hForm with
  | infinity hInfinite hPlain =>
    obtain ⟨hSign, hBiased, hFraction⟩ := fields_ofParts (p := .infinity (sign x)) rfl
    exact eq_of_fields hSign (hBiased.trans hInfinite.symm) (hFraction.trans hPlain.symm)
  | notANumber hInfinite hPlain =>
    have hOnes : @unpackExponent binary64 x.toModel.toBits.toBitVec = -1#11 := by
      rw [← BitVec.toNat_inj, unpackExponent_biased, hInfinite]
      rfl
    have hSome : @unpackMantissa binary64 x.toModel.toBits.toBitVec ≠ 0#52 := by
      rwa [Ne, ← BitVec.toNat_inj, unpackMantissa_fraction]
    exact eq_of_toBitVec (x.toModel.valid.eq_packedNaN hOnes hSome).symm
  | zero hSmall hPlain =>
    obtain ⟨hSign, hBiased, hFraction⟩ := fields_ofParts (p := .zero (sign x)) rfl
    exact eq_of_fields hSign (hBiased.trans hSmall.symm) (hFraction.trans hPlain.symm)
  | subnormal hSmall hPos =>
    obtain ⟨hSign, hBiased, hFraction⟩ := fields_subnormal (sign x) hPos hLess
    exact eq_of_fields hSign (hBiased.trans hSmall.symm) hFraction
  | normal hSmall hFinite hPos =>
    have hRange := biased_lt x
    have hLast := greatestExponent_eq
    have hFirst := leastExponent_eq
    obtain ⟨hSign, hBiased, hFraction⟩ := fields_normal (sign x) hPos (by omega) (by omega)
      (e := leastExponent + biased x - 1) (by omega) (by omega)
    exact eq_of_fields hSign (by omega) (by omega)

theorem parts_injective {x y : Float} (h : parts x = parts y) : x = y := by
  rw [← ofParts_parts x, h, ofParts_parts]

/-! ### Magnitudes -/

def magnitudeOf : UnpackedFloat → Magnitude
  | .infinity _ => .infinite
  | .notANumber => .nan
  | .zero _ => .finite 0 leastExponent
  | .finite _ m e _ => .finite m e

theorem magnitude_eq (x : Float) : magnitude x = magnitudeOf (parts x) := by
  have hForm := form_parts x
  generalize parts x = p at hForm
  cases hForm with
  | infinity hBiased hFraction => rw [magnitude, hBiased, hFraction]; rfl
  | notANumber hBiased hFraction =>
    rw [magnitude, hBiased]
    exact if_neg hFraction
  | zero hBiased hFraction => rw [magnitude, hBiased, hFraction]; rfl
  | subnormal hBiased hPos => rw [magnitude, hBiased]; rfl
  | normal hBiased hFinite hPos =>
    rw [magnitude]
    split
    · exact absurd ‹_› hBiased
    · exact absurd ‹_› hFinite
    · rfl

/-- The integer that the parts denote, if they denote one. -/
def whole? : UnpackedFloat → Option Int
  | .zero _ => some 0
  | .finite s m e _ => (natural? m e).map fun (n : Nat) => s.apply n
  | _ => none

theorem natural?_zero (q : Int) : natural? 0 q = some 0 := by
  rw [natural?]
  split
  · rw [Nat.zero_mul]
  · simp

theorem integer?_eq (x : Float) : integer? x = whole? (parts x) := by
  rw [integer?, magnitude_eq]
  have hSign : (fun n : Int => if isNegative x then -n else n) = (sign x).apply := by
    rw [sign]
    cases isNegative x <;> rfl
  rw [hSign]
  have hForm := form_parts x
  generalize parts x = p at hForm
  cases hForm with
  | zero hBiased hFraction =>
    simp only [magnitudeOf, natural?_zero]
    cases sign x <;> rfl
  | subnormal hBiased hPos =>
    simp only [magnitudeOf, whole?]
    cases natural? (fraction x) leastExponent <;> rfl
  | normal hBiased hFinite hPos =>
    simp only [magnitudeOf, whole?]
    cases natural? (hiddenBit + fraction x) (leastExponent + biased x - 1) <;> rfl
  | _ => rfl

end PostLisp.Number.Binary64

import PostLisp.Proofs.NumberKeys

/-!
# Keys and exact values

A float denotes exactly one number, or an infinity: what its bits say.  Two values have one key just
when they hold the same data, numbers at the same places denoting the same
(`ArgKey.ofValue?_identifies`).

Comparison is not that exact.  Where an integer meets a float it compares the float nearest to the
integer, so it may take different numbers for one (`Value.same_not_transitive`).  Values that are
equal have one key as long as integers meet only integers, or are among those that floats denote
(`Value.same_iff_key`).
-/

namespace PostLisp

open Float.Model (UnpackedFloat)
open Float.Model.UnpackedFloat
open Number Number.Binary64

namespace Number

/-- An exact number, or one of the two infinities. -/
inductive Amount where
  | finite (a : ℚ)
  | infinite (negative : Bool)

namespace Binary64

/-- What the bits of a float denote, if they denote anything. -/
def amount? (x : Float) : Option Amount :=
  match magnitude x with
  | .finite m q => some (.finite (if isNegative x then -(m * 2 ^ q) else m * 2 ^ q))
  | .infinite => some (.infinite (isNegative x))
  | .nan => none

/-- What the parts of a float denote. -/
def amountOf : UnpackedFloat → Option Amount
  | .infinity s => some (.infinite (s == .negative))
  | .notANumber => none
  | .zero _ => some (.finite 0)
  | .finite s m e _ => some (.finite (s.apply m * 2 ^ e))

variable {x y : Float} {p q : UnpackedFloat}

theorem apply_sign (x : Float) (m : Nat) (e : Int) :
    (((sign x).apply m : ℤ) : ℚ) * 2 ^ e =
      if isNegative x then -((m : ℚ) * 2 ^ e) else (m : ℚ) * 2 ^ e := by
  rw [sign]
  cases isNegative x <;> simp [Sign.apply]

theorem amount?_eq (x : Float) : amount? x = amountOf (parts x) := by
  have hForm := form_parts x
  rw [amount?, magnitude_eq]
  generalize parts x = p at hForm
  cases hForm with
  | infinity hBiased hFraction =>
    rw [sign]
    cases isNegative x <;> rfl
  | notANumber hBiased hFraction => rfl
  | zero hBiased hFraction => simp [magnitudeOf, amountOf]
  | subnormal hBiased hPos => simp only [magnitudeOf, amountOf, apply_sign]
  | normal hBiased hFinite hPos => simp only [magnitudeOf, amountOf, apply_sign]

theorem amountOf_eq_finite {a : ℚ} : amountOf p = some (.finite a) ↔ Denotes p a := by
  cases p with
  | zero s =>
    rw [amountOf, Option.some_inj, Amount.finite.injEq]
    exact eq_comm
  | finite s m e hPos =>
    rw [amountOf, Option.some_inj, Amount.finite.injEq]
    exact eq_comm
  | infinity s => exact iff_of_false (fun h => by cases h) id
  | notANumber => exact iff_of_false (fun h => by cases h) id

/-- Parts of floats that denote the same are alike. -/
theorem alike_of_amountOf (hp : Canonical p) (hq : Canonical q)
    (h : amountOf p = amountOf q) : Alike p q := by
  cases hAmount : amountOf p with
  | none =>
    cases p <;> cases hAmount
    cases q <;> cases h
    exact .refl _
  | some amount =>
    cases amount with
    | finite a =>
      exact alike_of_denotes hp hq (amountOf_eq_finite.1 hAmount)
        (amountOf_eq_finite.1 (h.symm.trans hAmount))
    | infinite negative =>
      cases p with
      | infinity s =>
        cases q with
        | infinity t =>
          have hSign : (s == .negative) = (t == .negative) := by simpa [amountOf] using h
          cases s <;> cases t <;> first | exact .refl _ | cases hSign
        | notANumber | zero t | finite t n f hn => cases h
      | notANumber | zero s | finite s m e hm => cases hAmount

/-- **Floats have one key just when they denote the same.** -/
theorem amount?_eq_iff : amount? x = amount? y ↔ ArgKey.ofFloat? x = ArgKey.ofFloat? y := by
  rw [amount?_eq, amount?_eq, ArgKey.ofFloat?_eq_iff]
  constructor
  · exact alike_of_amountOf (canonical_parts x) (canonical_parts y)
  · intro h
    generalize parts x = p at h ⊢
    generalize parts y = q at h ⊢
    cases h with
    | refl => rfl
    | zero s s' => rfl

end Binary64

end Number

namespace Value

open ArgKey

variable {v w : Value} {k l : ArgKey}

/-- What a numeric value denotes exactly. -/
def amount? : Value → Option Amount
  | .integer n => some (.finite n.toInt)
  | .float x => Binary64.amount? x
  | _ => none

/-- The values denote the same number, or the same infinity. -/
def SameAmount (v w : Value) : Prop := ∃ a, v.amount? = some a ∧ w.amount? = some a

/-- The values have the same shape and the same data, but for numbers; these denote the same. -/
abbrev DenoteSame : Value → Value → Prop := Near SameAmount (fun _ _ => False) fun _ _ _ => False

theorem number?_of_amount? {a : Amount} (h : v.amount? = some a) : v.number?.isSome := by
  cases v <;> first | rfl | cases h

theorem amount?_integer_eq {n : Int64} {x : Float} :
    (Value.float x).amount? = some (.finite n.toInt) ↔ ofFloat? x = some (.integer n) := by
  rw [ofFloat?_eq_integer, ← amountOf_eq_finite, ← amount?_eq]
  rfl

/-- Numbers have one key just when they denote the same. -/
theorem key_eq_iff_amount? (hv : v.number?.isSome) (hw : w.number?.isSome) :
    ofValue? v = ofValue? w ↔ v.amount? = w.amount? := by
  rcases eq_of_number? hv with ⟨n, rfl⟩ | ⟨x, rfl⟩ <;>
    rcases eq_of_number? hw with ⟨m, rfl⟩ | ⟨y, rfl⟩
  · simp [ofValue?, amount?, Int64.toInt_inj]
  · exact eq_comm.trans (amount?_integer_eq.symm.trans eq_comm)
  · exact amount?_integer_eq.symm
  · exact amount?_eq_iff.symm

/-- A number has a key just when it denotes something. -/
theorem key_eq_none_iff_amount? (hv : v.number?.isSome) :
    ofValue? v = none ↔ v.amount? = none := by
  rcases eq_of_number? hv with ⟨n, rfl⟩ | ⟨x, rfl⟩
  · exact iff_of_false nofun nofun
  · show ofFloat? x = none ↔ Binary64.amount? x = none
    rw [ofFloat?_eq_none, amount?_eq]
    cases parts x <;> simp [amountOf]

theorem OneKey.sameAmount (h : OneKey v w) (hKey : ofValue? v = some k) : SameAmount v w := by
  have hAmounts := (key_eq_iff_amount? h.left h.right).1 h.key
  cases hAmount : v.amount? with
  | none =>
    rw [(key_eq_none_iff_amount? h.left).2 hAmount] at hKey
    cases hKey
  | some a => exact ⟨a, hAmount, hAmounts.symm.trans hAmount⟩

theorem isNaN_of_ofFloat? {x : Float} (h : ofFloat? x = some k) : x.isNaN = false := by
  have hModel : x.isNaN = (parts x).isNaN := rfl
  rw [hModel]
  cases hParts : parts x with
  | notANumber => cases (ofFloat?_notANumber hParts).symm.trans h
  | _ => rfl

theorem SameAmount.oneKey (h : SameAmount v w) : OneKey v w := by
  obtain ⟨a, hv, hw⟩ := h
  have hNumber := number?_of_amount? hv
  have hNumber' := number?_of_amount? hw
  exact ⟨hNumber, hNumber', (key_eq_iff_amount? hNumber hNumber').2 (hv.trans hw.symm)⟩

mutual

/-- What has a key holds no NaN. -/
theorem HasKey.holdsNaN_eq : ∀ {v : Value} {k : ArgKey}, HasKey v k → v.holdsNaN = false
  | v, _, .whole hNumber h => by
    rcases eq_of_number? hNumber with ⟨n, rfl⟩ | ⟨x, rfl⟩
    · rfl
    · exact isNaN_of_ofFloat? h
  | _, _, .float h => isNaN_of_ofFloat? h
  | _, _, .list items => HasKeys.holdsNaN_eq items
  | _, _, .pair head tail => by
    rw [holdsNaN, HasKey.holdsNaN_eq head, HasKey.holdsNaN_eq tail]
    rfl
  | _, _, .boolean _ | _, _, .symbol _ | _, _, .void => rfl

theorem HasKeys.holdsNaN_eq : ∀ {vs : List Value} {ks : List ArgKey}, HasKeys vs ks →
    anyHoldsNaN vs = false
  | _, _, .nil => rfl
  | _, _, .cons head tail => by
    rw [anyHoldsNaN, HasKey.holdsNaN_eq head, HasKeys.holdsNaN_eq tail]
    rfl

end

end Value

namespace ArgKey

open Value

variable {v w : Value} {k l : ArgKey}

/-- What holds a function or a NaN has no key, and nothing else. -/
theorem ofValue?_eq_none : ofValue? v = none ↔ v.holdsFunction = true ∨ v.holdsNaN = true := by
  cases hKey : ofValue? v with
  | some k =>
    have hFunction := holdsFunction_of_key hKey
    have hNaN := (hasKey hKey).holdsNaN_eq
    simp [hFunction, hNaN]
  | none =>
    refine iff_of_true rfl ?_
    by_contra hNeither
    rw [not_or, Bool.not_eq_true, Bool.not_eq_true] at hNeither
    obtain ⟨k, hSome⟩ := exists_key v hNeither.1 hNeither.2
    cases hKey.symm.trans hSome

/-- **Keys identify values exactly.**  A value has no key just when it holds a function or a NaN;
two values with keys have the same one just when they hold the same data in the same places, where
numbers are the same if they denote the same number or the same infinity. -/
theorem ofValue?_identifies (v w : Value) :
    (ofValue? v = none ↔ v.holdsFunction = true ∨ v.holdsNaN = true) ∧
    ∀ k l, ofValue? v = some k → ofValue? w = some l → (k = l ↔ v.DenoteSame w) := by
  refine ⟨ofValue?_eq_none, fun k l hv hw => ⟨?_, fun hSame => ?_⟩⟩
  · rintro rfl
    exact (hasKey hv).near_of OneKey.sameAmount (hasKey hw)
  · have hKeys := hSame.key_eq fun v w h => h.oneKey.key
    exact Option.some.inj (hv.symm.trans (hKeys.trans hw))

/-- The edges of integers, a negative zero and an infinity inside lists and pairs; one more than the
greatest integer is another number. -/
theorem ofValue?_identifies_edges :
    let nested (least zero infinite : Value) : Value := .list [least, .pair zero (.list [infinite])]
    let infinity : Value := .float (Float.ofBits 0x7FF0000000000000)
    (nested (.integer (-9223372036854775808)) (.integer 0) infinity).DenoteSame
      (nested (.float (-9223372036854775808)) (.float (-0.0)) infinity) ∧
    ¬ Value.DenoteSame (.integer 9223372036854775807) (.float 9223372036854775808) := by
  intro nested infinity
  have hKeys : ofValue? (nested (.integer (-9223372036854775808)) (.integer 0) infinity) =
      ofValue? (nested (.float (-9223372036854775808)) (.float (-0.0)) infinity) ∧
      (ofValue? (nested (.integer (-9223372036854775808)) (.integer 0) infinity)).isSome ∧
      (ofValue? (.float 9223372036854775808)).isSome ∧
      ofValue? (.integer 9223372036854775807) ≠ ofValue? (.float 9223372036854775808) := by
    decide +kernel
  obtain ⟨hSame, hNested, hFloat, hOther⟩ := hKeys
  obtain ⟨k, hk⟩ := Option.isSome_iff_exists.1 hNested
  obtain ⟨l, hl⟩ := Option.isSome_iff_exists.1 hFloat
  refine ⟨((ofValue?_identifies _ _).2 k k hk (hSame ▸ hk)).1 rfl, fun hEqual => hOther ?_⟩
  rw [hl, ← ((ofValue?_identifies _ _).2 _ l rfl hl).2 hEqual]
  rfl

end ArgKey

/-! ### Comparison -/

namespace Value

open ArgKey

variable {v w : Value}

mutual

/-- Wherever an integer in one value meets a float in the other, some float denotes the integer. -/
def meetsExactly : Value → Value → Bool
  | .integer n, .float _ => Number.isExact n
  | .float _, .integer n => Number.isExact n
  | .list vs, .list ws => meetExactly vs ws
  | .pair v v', .pair w w' => v.meetsExactly w && v'.meetsExactly w'
  | _, _ => true

def meetExactly : List Value → List Value → Bool
  | v :: vs, w :: ws => v.meetsExactly w && meetExactly vs ws
  | _, _ => true

end

/-- The integers that meet floats exactly are those that floats denote. -/
theorem isExact_iff (n : Int64) :
    Number.isExact n = true ↔ ∃ x, Binary64.amount? x = some (.finite n.toInt) := by
  constructor
  · exact fun h => ⟨_, amount?_integer_eq.2 (of_decide_eq_true h)⟩
  · rintro ⟨x, hx⟩
    exact Number.isExact_of_key (amount?_integer_eq.1 hx)

theorem float_beq_comm (x y : Float) : (x == y) = (y == x) := by
  rw [Bool.eq_iff_iff, beq_iff, beq_iff]
  simp only [and_comm]

mutual

theorem same_comm : ∀ v w : Value, v.same w = w.same v
  | .integer n, w => by
    cases w with
    | integer m => exact BEq.comm
    | float y => exact float_beq_comm _ _
    | _ => rfl
  | .float x, w => by
    cases w with
    | integer m => exact float_beq_comm _ _
    | float y => exact float_beq_comm _ _
    | _ => rfl
  | .boolean b, w => by
    cases w with
    | boolean c => exact BEq.comm
    | _ => rfl
  | .symbol name, w => by
    cases w with
    | symbol other => exact BEq.comm
    | _ => rfl
  | .list vs, w => by
    cases w with
    | list ws => exact sameAll_comm vs ws
    | _ => rfl
  | .pair v v', w => by
    cases w with
    | pair w w' => rw [same, same, same_comm v w, same_comm v' w']
    | _ => rfl
  | .function f, w => by
    cases w with
    | function g => exact BEq.comm
    | _ => rfl
  | .void, w => by cases w <;> rfl

theorem sameAll_comm : ∀ vs ws : List Value, sameAll vs ws = sameAll ws vs
  | [], ws => by cases ws <;> rfl
  | v :: vs, ws => by
    cases ws with
    | nil => rfl
    | cons w ws => rw [sameAll, sameAll, same_comm v w, sameAll_comm vs ws]

end

/-- Numbers that are equal, and meet exactly, have one key. -/
theorem key_eq_of_same_number (hNumber : v.number?.isSome) (hSame : v.same w = true)
    (hExact : v.meetsExactly w = true) : ofValue? v = ofValue? w := by
  have hNumber' : w.number?.isSome := by
    by_contra hNone
    have hOther := (same_of_number? hNumber (Option.not_isSome_iff_eq_none.1 hNone)).1
    rw [hOther] at hSame
    cases hSame
  have hKey : v.isExact = true → w.isExact = true → ofValue? v = ofValue? w := fun hv hw =>
    let ⟨_, hk, hk'⟩ := (same_iff_of_isExact hNumber hNumber' hv hw).1 hSame
    hk.trans hk'.symm
  rcases eq_of_number? hNumber with ⟨n, rfl⟩ | ⟨x, rfl⟩ <;>
    rcases eq_of_number? hNumber' with ⟨m, rfl⟩ | ⟨y, rfl⟩
  · rw [show n = m from beq_iff_eq.1 hSame]
  · exact hKey hExact rfl
  · exact hKey rfl hExact
  · exact hKey rfl rfl

mutual

/-- **Values that are equal, and meet exactly, have one key**, or both have none. -/
theorem key_eq_of_same : ∀ {v w : Value}, v.same w = true → v.meetsExactly w = true →
    ofValue? v = ofValue? w
  | .integer n, _, hSame, hExact => key_eq_of_same_number rfl hSame hExact
  | .float x, _, hSame, hExact => key_eq_of_same_number rfl hSame hExact
  | .boolean b, w, hSame, _ => by
    cases w with
    | boolean c => rw [show b = c from beq_iff_eq.1 hSame]
    | _ => cases hSame
  | .symbol name, w, hSame, _ => by
    cases w with
    | symbol other => rw [show name = other from beq_iff_eq.1 hSame]
    | _ => cases hSame
  | .list vs, w, hSame, hExact => by
    cases w with
    | list ws => rw [ofValue?, ofValue?, keys_eq_of_sameAll hSame hExact]
    | _ => cases hSame
  | .pair v v', w, hSame, hExact => by
    cases w with
    | pair w w' =>
      rw [same, Bool.and_eq_true] at hSame
      rw [meetsExactly, Bool.and_eq_true] at hExact
      rw [ofValue?, ofValue?, key_eq_of_same hSame.1 hExact.1, key_eq_of_same hSame.2 hExact.2]
    | _ => cases hSame
  | .function f, w, hSame, _ => by
    cases w with
    | function g => rfl
    | _ => cases hSame
  | .void, w, hSame, _ => by
    cases w with
    | void => rfl
    | _ => cases hSame

theorem keys_eq_of_sameAll : ∀ {vs ws : List Value}, sameAll vs ws = true →
    meetExactly vs ws = true → ofValues? vs = ofValues? ws
  | [], ws, hSame, _ => by
    cases ws with
    | nil => rfl
    | cons w ws => cases hSame
  | v :: vs, ws, hSame, hExact => by
    cases ws with
    | nil => cases hSame
    | cons w ws =>
      rw [sameAll, Bool.and_eq_true] at hSame
      rw [meetExactly, Bool.and_eq_true] at hExact
      rw [ofValues?, ofValues?, key_eq_of_same hSame.1 hExact.1,
        keys_eq_of_sameAll hSame.2 hExact.2]

end

mutual

/-- Values with one key meet exactly. -/
theorem HasKey.meetsExactly_eq : ∀ {v w : Value} {k : ArgKey}, HasKey v k → HasKey w k →
    v.meetsExactly w = true
  | v, w, _, .whole hNumber h, .whole hNumber' h' => by
    rcases eq_of_number? hNumber with ⟨n, rfl⟩ | ⟨x, rfl⟩ <;>
      rcases eq_of_number? hNumber' with ⟨m, rfl⟩ | ⟨y, rfl⟩
    · rfl
    · exact Number.isExact_of_key (h'.trans h.symm)
    · exact Number.isExact_of_key (h.trans h'.symm)
    · rfl
  | _, _, _, .float _, .float _ => rfl
  | _, _, _, .boolean _, .boolean _ => rfl
  | _, _, _, .symbol _, .symbol _ => rfl
  | _, _, _, .list items, .list items' => HasKeys.meetExactly_eq items items'
  | _, _, _, .pair head tail, .pair head' tail' => by
    rw [meetsExactly, head.meetsExactly_eq head', tail.meetsExactly_eq tail']
    rfl
  | _, _, _, .void, .void => rfl

theorem HasKeys.meetExactly_eq : ∀ {vs ws : List Value} {ks : List ArgKey}, HasKeys vs ks →
    HasKeys ws ks → meetExactly vs ws = true
  | _, _, _, .nil, .nil => rfl
  | _, _, _, .cons head tail, .cons head' tail' => by
    rw [meetExactly, head.meetsExactly_eq head', tail.meetExactly_eq tail']
    rfl

end

/-- **Equal values and values with one key** are the same, among values with keys, where integers
meet floats exactly.  There equality is an equivalence relation; everywhere it is reflexive and
symmetric. -/
theorem same_iff_key {v w : Value} (hv : (ofValue? v).isSome) (hw : (ofValue? w).isSome) :
    (ofValue? v = ofValue? w ↔ v.same w = true ∧ v.meetsExactly w = true) ∧
    v.same v = true ∧ v.same w = w.same v ∧
    ∀ u, (ofValue? u).isSome → u.same v = true → u.meetsExactly v = true → v.same w = true →
      v.meetsExactly w = true → u.same w = true := by
  obtain ⟨k, hk⟩ := Option.isSome_iff_exists.1 hv
  obtain ⟨l, hl⟩ := Option.isSome_iff_exists.1 hw
  refine ⟨⟨fun hKeys => ?_, fun h => key_eq_of_same h.1 h.2⟩, (hasKey hk).same (hasKey hk),
    same_comm v w, fun u _ hSame hExact hSame' hExact' => ?_⟩
  · have hOther : HasKey w k := hasKey (hKeys.symm.trans hk)
    exact ⟨(hasKey hk).same hOther, (hasKey hk).meetsExactly_eq hOther⟩
  · have hFirst := (key_eq_of_same hSame hExact).trans hk
    have hLast := (key_eq_of_same hSame' hExact').symm.trans hk
    exact (hasKey hFirst).same (hasKey hLast)

/-- An integer and a float inside lists, equal and with one key. -/
theorem same_iff_key_nested :
    let v : Value := .list [.integer 9007199254740992, .symbol "a"]
    let w : Value := .list [.float 9007199254740992, .symbol "a"]
    (ofValue? v).isSome ∧ (ofValue? w).isSome ∧ ofValue? v = ofValue? w ∧ v.same w = true := by
  intro v w
  have hKeys : (ofValue? v).isSome ∧ (ofValue? w).isSome ∧ ofValue? v = ofValue? w := by
    decide +kernel
  obtain ⟨hv, hw, hSame⟩ := hKeys
  exact ⟨hv, hw, hSame, ((same_iff_key hv hw).1.1 hSame).1⟩

/-- The successor of `2 ^ 53` is equal to the float `2 ^ 53`, and this float to the integer, but the
two integers are not equal; and the keys are those of the numbers. -/
theorem same_not_transitive :
    let successor : Value := .integer 9007199254740993
    let float : Value := .float 9007199254740992
    let power : Value := .integer 9007199254740992
    (ofValue? successor).isSome ∧ (ofValue? float).isSome ∧ (ofValue? power).isSome ∧
    successor.same float = true ∧ ofValue? successor ≠ ofValue? float ∧
    float.same power = true ∧ successor.same power = false := by
  decide +kernel

end Value

end PostLisp

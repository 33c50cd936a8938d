import PostLisp.Proofs.FloatKeys
import PostLisp.Proofs.Nearness

/-!
# Values with one key

Values with one key are equal, and differ in nothing but which of two equal numbers they hold.  What
arithmetic and comparison make of numbers with one key are numbers with one key again, as long as
integers are among those that floats denote, results included.
-/

namespace PostLisp

open Number

namespace Value

open ArgKey

variable {v w v' w' : Value}

/-- The values are numbers with one key, or both without. -/
structure OneKey (v w : Value) : Prop where
  left : v.number?.isSome
  right : w.number?.isSome
  key : ofValue? v = ofValue? w

theorem numeric_oneKey : Numeric OneKey where
  left h := h.left
  right h := h.right
  refl h := ⟨h, h, rfl⟩

/-- The floats that stand for numbers with one key have one key. -/
theorem OneKey.floats (h : OneKey v w) {x y : Float} (hx : v.number? = some x)
    (hy : w.number? = some y) : ofFloat? x = ofFloat? y := by
  have hKey := h.key
  rcases eq_of_number? h.left with ⟨n, rfl⟩ | ⟨x', rfl⟩ <;>
    rcases eq_of_number? h.right with ⟨m, rfl⟩ | ⟨y', rfl⟩ <;> cases hx <;> cases hy
  · obtain rfl : n = m := by simpa [ofValue?] using hKey
    rfl
  · rw [ofFloat?_ofInt64 hKey.symm]
    exact hKey
  · rw [ofFloat?_ofInt64 hKey]
    exact hKey
  · exact hKey

end Value

namespace Arith

open ArgKey

variable {op : ArithOp} {v w v' w' : Value}

/-- Whether combining two values is exact: if both are whole numbers, then floats denote both of
them, and their result, which is an integer of 64 bits.  A quotient is a float in any case. -/
def isExactStep (op : ArithOp) (v w : Value) : Bool :=
  match ofValue? v, ofValue? w with
  | some (.integer a), some (.integer b) =>
    match exactResult? op a.toInt b.toInt with
    | some n => Number.isExact a && Number.isExact b && (int64? n).any Number.isExact
    | none => true
  | _, _ => true

theorem combine_floats {x y : Float} (hv : v.number? = some x) (hw : w.number? = some y)
    (hNone : ∀ a b, ofValue? v = some (.integer a) → ofValue? w = some (.integer b) →
      exactResult? op a.toInt b.toInt = none) : combine op v w = floats op x y := by
  rcases Value.eq_of_number? (Option.isSome_of_eq_some hv) with ⟨a, rfl⟩ | ⟨x', rfl⟩ <;>
    rcases Value.eq_of_number? (Option.isSome_of_eq_some hw) with ⟨b, rfl⟩ | ⟨y', rfl⟩ <;>
      cases hv <;> cases hw
  · rw [combine, integers, hNone a b rfl rfl]
  · rfl
  · rfl
  · rfl

/-- Whole numbers give a number with the key of the exact result. -/
theorem combine_whole {a b c : Int64} (hv : v.number?.isSome) (hw : w.number?.isSome)
    (ha : ofValue? v = some (.integer a)) (hb : ofValue? w = some (.integer b))
    (hResult : exactResult? op a.toInt b.toInt = some c.toInt) (hExact : Number.isExact a = true)
    (hExact' : Number.isExact b = true) (hExactResult : Number.isExact c = true) :
    ∃ u, combine op v w = .ok u ∧ u.number?.isSome ∧ ofValue? u = some (.integer c) := by
  have ha' := of_decide_eq_true hExact
  have hb' := of_decide_eq_true hExact'
  have hc := of_decide_eq_true hExactResult
  have hFloats : ∀ {x y : Float}, ofFloat? x = some (.integer a) → ofFloat? y = some (.integer b) →
      ∃ u, floats op x y = .ok u ∧ u.number?.isSome ∧ ofValue? u = some (.integer c) := by
    intro x y hx hy
    obtain ⟨z, hz, hKey⟩ := floats_exact hx hy hc hResult
    exact ⟨_, hz, rfl, hKey⟩
  rcases Value.eq_of_number? hv with ⟨n, rfl⟩ | ⟨x, rfl⟩ <;>
    rcases Value.eq_of_number? hw with ⟨m, rfl⟩ | ⟨y, rfl⟩
  · cases ha
    cases hb
    refine ⟨.integer c, ?_, rfl, rfl⟩
    rw [combine, integers, hResult]
    simp only [int64?_toInt]
  · cases ha
    exact hFloats ha' hb
  · cases hb
    exact hFloats ha hb'
  · exact hFloats ha hb

/-- Combining numbers exactly does not tell numbers with one key apart. -/
theorem combine_oneKey (hExact : isExactStep op v w = true) (h : Value.OneKey v v')
    (h' : Value.OneKey w w') {u : Value} (hResult : combine op v w = .ok u) :
    ∃ u', combine op v' w' = .ok u' ∧ Value.OneKey u u' := by
  -- integers and floats meet in the exact result of two whole numbers; all else is left to floats
  by_cases hWhole : ∃ a b n, ofValue? v = some (.integer a) ∧ ofValue? w = some (.integer b) ∧
      exactResult? op a.toInt b.toInt = some n
  · obtain ⟨a, b, n, ha, hb, hn⟩ := hWhole
    rw [isExactStep, ha, hb] at hExact
    simp only [hn, Bool.and_eq_true] at hExact
    obtain ⟨⟨hLeft, hRight⟩, hBoth⟩ := hExact
    obtain ⟨c, hc, hExactResult⟩ := (Option.any_eq_true _ _).1 hBoth
    rw [← toInt_of_int64? hc] at hn
    obtain ⟨u₁, hFirst, hNumber, hKey⟩ :=
      combine_whole h.left h'.left ha hb hn hLeft hRight hExactResult
    obtain ⟨u₂, hSecond, hNumber', hKey'⟩ :=
      combine_whole h.right h'.right (h.key ▸ ha) (h'.key ▸ hb) hn hLeft hRight hExactResult
    obtain rfl := Except.ok.inj (hFirst.symm.trans hResult)
    exact ⟨u₂, hSecond, hNumber, hNumber', hKey.trans hKey'.symm⟩
  · have hNone : ∀ a b, ofValue? v = some (.integer a) → ofValue? w = some (.integer b) →
        exactResult? op a.toInt b.toInt = none := fun a b ha hb =>
      Option.eq_none_iff_forall_ne_some.2 fun n hn => hWhole ⟨a, b, n, ha, hb, hn⟩
    obtain ⟨x, hx⟩ := Option.isSome_iff_exists.1 h.left
    obtain ⟨y, hy⟩ := Option.isSome_iff_exists.1 h'.left
    obtain ⟨x', hx'⟩ := Option.isSome_iff_exists.1 h.right
    obtain ⟨y', hy'⟩ := Option.isSome_iff_exists.1 h'.right
    rw [combine_floats hx hy hNone] at hResult
    rw [combine_floats hx' hy' (by rwa [← h.key, ← h'.key])]
    rcases @floats_congr _ _ _ _ op (h.floats hx hx') (h'.floats hy hy') with
      ⟨f, hFails, -⟩ | ⟨z, z', hz, hz', hKey⟩
    · cases hFails.symm.trans hResult
    · cases hz.symm.trans hResult
      exact ⟨_, hz', rfl, rfl, hKey⟩

end Arith

namespace Value

open ArgKey

variable {v w v' w' : Value}

mutual

/-- Whether floats denote all integers in a value. -/
def isExact : Value → Bool
  | .integer n => Number.isExact n
  | .list items => areExact items
  | .pair head tail => head.isExact && tail.isExact
  | .float _ | .boolean _ | .symbol _ | .function _ | .void => true

def areExact : List Value → Bool
  | [] => true
  | v :: vs => v.isExact && areExact vs

end

/-- Numbers with one key are both exact, or neither is. -/
theorem OneKey.isExact (h : OneKey v w) (hExact : v.isExact = true) : w.isExact = true := by
  have hKey := h.key
  rcases eq_of_number? h.right with ⟨n, rfl⟩ | ⟨y, rfl⟩
  · rcases eq_of_number? h.left with ⟨m, rfl⟩ | ⟨x, rfl⟩
    · obtain rfl : m = n := by simpa [ofValue?] using hKey
      exact hExact
    · exact Number.isExact_of_key hKey
  · rfl

/-- The float that stands for an exact number has its key. -/
theorem key_of_isExact {x : Float} (hx : v.number? = some x) (hExact : v.isExact = true) :
    ofFloat? x = ofValue? v := by
  cases v with
  | integer n =>
    cases hx
    exact of_decide_eq_true hExact
  | float y =>
    cases hx
    rfl
  | _ => cases hx

/-- Exact numbers are equal when they have one key. -/
theorem same_iff_of_isExact (hv : v.number?.isSome) (hw : w.number?.isSome)
    (hExact : v.isExact = true) (hExact' : w.isExact = true) :
    v.same w = true ↔ ∃ k, ofValue? v = some k ∧ ofValue? w = some k := by
  obtain ⟨x, hx⟩ := Option.isSome_iff_exists.1 hv
  obtain ⟨y, hy⟩ := Option.isSome_iff_exists.1 hw
  have hFloats : (x == y) = true ↔ ∃ k, ofValue? v = some k ∧ ofValue? w = some k := by
    rw [beq_iff, key_of_isExact hx hExact, key_of_isExact hy hExact']
  rcases eq_of_number? hv with ⟨n, rfl⟩ | ⟨x', rfl⟩ <;>
    rcases eq_of_number? hw with ⟨m, rfl⟩ | ⟨y', rfl⟩ <;> cases hx <;> cases hy
  · refine ⟨fun h => ?_, ?_⟩
    · obtain rfl : n = m := beq_iff_eq.1 h
      exact ⟨_, rfl, rfl⟩
    · rintro ⟨k, hn, hm⟩
      cases hn
      cases hm
      exact beq_self_eq_true n
  · exact hFloats
  · exact hFloats
  · exact hFloats

/-- Comparison does not tell exact numbers with one key apart. -/
theorem same_oneKey (h : OneKey v v') (h' : OneKey w w') (hExact : v.isExact = true)
    (hExact' : w.isExact = true) : v.same w = v'.same w' := by
  rw [Bool.eq_iff_iff, same_iff_of_isExact h.left h'.left hExact hExact',
    same_iff_of_isExact h.right h'.right (h.isExact hExact) (h'.isExact hExact'), h.key, h'.key]

theorem same_of_key (hv : v.number?.isSome) (hw : w.number?.isSome) {k : ArgKey}
    (h : ofValue? v = some k) (h' : ofValue? w = some k) : v.same w = true := by
  have hKey := h.trans h'.symm
  have hSame := fun hExact hExact' => (same_iff_of_isExact hv hw hExact hExact').2 ⟨k, h, h'⟩
  rcases eq_of_number? hv with ⟨n, rfl⟩ | ⟨x, rfl⟩ <;>
    rcases eq_of_number? hw with ⟨m, rfl⟩ | ⟨y, rfl⟩
  · obtain rfl : n = m := by simpa [ofValue?] using hKey
    exact beq_self_eq_true n
  · exact hSame (Number.isExact_of_key hKey.symm) rfl
  · exact hSame rfl (Number.isExact_of_key hKey)
  · exact hSame rfl rfl

/-! ### Values -/

mutual

/-- What a value with a given key is. -/
inductive HasKey : Value → ArgKey → Prop
  | whole {v : Value} {n : Int64} (hNumber : v.number?.isSome)
      (h : ofValue? v = some (.integer n)) : HasKey v (.integer n)
  | float {x : Float} {bits : UInt64} (h : ofFloat? x = some (.float bits)) :
      HasKey (.float x) (.float bits)
  | boolean (b : Bool) : HasKey (.boolean b) (.boolean b)
  | symbol (name : String) : HasKey (.symbol name) (.symbol name)
  | list {vs : List Value} {ks : List ArgKey} (items : HasKeys vs ks) : HasKey (.list vs) (.list ks)
  | pair {v w : Value} {k l : ArgKey} (head : HasKey v k) (tail : HasKey w l) :
      HasKey (.pair v w) (.pair k l)
  | void : HasKey .void .void

inductive HasKeys : List Value → List ArgKey → Prop
  | nil : HasKeys [] []
  | cons {v : Value} {k : ArgKey} {vs : List Value} {ks : List ArgKey} (head : HasKey v k)
      (tail : HasKeys vs ks) : HasKeys (v :: vs) (k :: ks)

end

mutual

theorem hasKey : ∀ {v : Value} {k : ArgKey}, ofValue? v = some k → HasKey v k
  | .integer n, k, h => by
    cases h
    exact .whole rfl rfl
  | .float x, k, h => by
    obtain ⟨n, rfl⟩ | ⟨bits, rfl⟩ := eq_of_ofFloat? h
    · exact .whole rfl h
    · exact .float h
  | .boolean b, k, h => by
    cases h
    exact .boolean b
  | .symbol name, k, h => by
    cases h
    exact .symbol name
  | .list vs, k, h => by
    rw [ofValue?] at h
    obtain ⟨ks, hKeys, rfl⟩ := Option.map_eq_some_iff.1 h
    exact .list (hasKeys hKeys)
  | .pair v w, k, h => by
    rw [ofValue?] at h
    split at h
    · rename_i hHead hTail
      cases h
      exact .pair (hasKey hHead) (hasKey hTail)
    · cases h
  | .function f, k, h => by cases h
  | .void, k, h => by
    cases h
    exact .void

theorem hasKeys : ∀ {vs : List Value} {ks : List ArgKey}, ofValues? vs = some ks → HasKeys vs ks
  | [], ks, h => by
    cases h
    exact .nil
  | v :: vs, ks, h => by
    rw [ofValues?] at h
    split at h
    · rename_i hHead hTail
      cases h
      exact .cons (hasKey hHead) (hasKeys hTail)
    · cases h

end

mutual

/-- **Values with one key are equal.** -/
theorem HasKey.same : ∀ {v w : Value} {k : ArgKey}, HasKey v k → HasKey w k → v.same w = true
  | _, _, _, .whole hNumber h, .whole hNumber' h' => same_of_key hNumber hNumber' h h'
  | _, _, _, .float h, .float h' => same_of_key rfl rfl h h'
  | _, _, _, .boolean b, .boolean _ => beq_self_eq_true b
  | _, _, _, .symbol name, .symbol _ => beq_self_eq_true name
  | _, _, _, .list items, .list items' => HasKeys.same items items'
  | _, _, _, .pair head tail, .pair head' tail' =>
    Bool.and_eq_true_iff.2 ⟨head.same head', tail.same tail'⟩
  | _, _, _, .void, .void => rfl

theorem HasKeys.same : ∀ {vs ws : List Value} {ks : List ArgKey}, HasKeys vs ks → HasKeys ws ks →
    sameAll vs ws = true
  | _, _, _, .nil, .nil => rfl
  | _, _, _, .cons head tail, .cons head' tail' =>
    Bool.and_eq_true_iff.2 ⟨head.same head', tail.same tail'⟩

end

section

variable {functions : Closure Value → Closure Value → Prop}
  {exempt : String → Option Value → Option Value → Prop}

mutual

/-- Values with one key differ in nothing but their numbers, and a relation between numbers with one
key holds of these. -/
theorem HasKey.near_of {numbers : Value → Value → Prop}
    (hNumbers : ∀ {v w k}, OneKey v w → ofValue? v = some k → numbers v w) :
    ∀ {v w : Value} {k : ArgKey}, HasKey v k → HasKey w k → Near numbers functions exempt v w
  | _, _, _, .whole hNumber h, .whole hNumber' h' =>
    .number (hNumbers ⟨hNumber, hNumber', h.trans h'.symm⟩ h)
  | _, _, _, .float h, .float h' => .number (hNumbers ⟨rfl, rfl, h.trans h'.symm⟩ h)
  | _, _, _, .boolean b, .boolean _ => .boolean b
  | _, _, _, .symbol name, .symbol _ => .symbol name
  | _, _, _, .list items, .list items' => .list (HasKeys.near_of hNumbers items items')
  | _, _, _, .pair head tail, .pair head' tail' =>
    .pair (HasKey.near_of hNumbers head head') (HasKey.near_of hNumbers tail tail')
  | _, _, _, .void, .void => .void

theorem HasKeys.near_of {numbers : Value → Value → Prop}
    (hNumbers : ∀ {v w k}, OneKey v w → ofValue? v = some k → numbers v w) :
    ∀ {vs ws : List Value} {ks : List ArgKey}, HasKeys vs ks → HasKeys ws ks →
      NearAll numbers functions exempt vs ws
  | _, _, _, .nil, .nil => .nil
  | _, _, _, .cons head tail, .cons head' tail' =>
    .cons (HasKey.near_of hNumbers head head') (HasKeys.near_of hNumbers tail tail')

end

theorem HasKeys.near {vs ws : List Value} {ks : List ArgKey} (h : HasKeys vs ks)
    (h' : HasKeys ws ks) : NearAll OneKey functions exempt vs ws :=
  h.near_of (fun hKeys _ => hKeys) h'

mutual

/-- The numbers in an exact value are exact; what functions capture does not count. -/
theorem Near.exact : ∀ {v w : Value}, Near OneKey functions exempt v w → v.isExact = true →
    Near (fun v w => OneKey v w ∧ v.isExact = true) functions (fun _ _ _ => True) v w
  | _, _, .number h, hExact => .number ⟨h, hExact⟩
  | _, _, .boolean b, _ => .boolean b
  | _, _, .symbol name, _ => .symbol name
  | _, _, .list items, hExact => .list (items.exact hExact)
  | _, _, .pair head tail, hExact => by
    rw [isExact, Bool.and_eq_true] at hExact
    exact .pair (head.exact hExact.1) (tail.exact hExact.2)
  | _, _, .function hFunctions _, _ => .function hFunctions fun _ h => absurd trivial h
  | _, _, .void, _ => .void

theorem NearAll.exact : ∀ {vs ws : List Value}, NearAll OneKey functions exempt vs ws →
    areExact vs = true →
      NearAll (fun v w => OneKey v w ∧ v.isExact = true) functions (fun _ _ _ => True) vs ws
  | _, _, .nil, _ => .nil
  | _, _, .cons head tail, hExact => by
    rw [areExact, Bool.and_eq_true] at hExact
    exact .cons (head.exact hExact.1) (tail.exact hExact.2)

end

/-- Comparison does not tell exact values apart that differ in nothing but their numbers. -/
theorem Near.same_eq_of_isExact
    (hIds : ∀ f g f' g', functions f g → functions f' g' → (f.id = f'.id ↔ g.id = g'.id))
    (h : Near OneKey functions exempt v w) (h' : Near OneKey functions exempt v' w')
    (hExact : v.isExact = true) (hExact' : v'.isExact = true) : v.same v' = w.same w' :=
  (h.exact hExact).same_eq ⟨fun h => h.1.left, fun h => h.1.right⟩
    (fun _ _ _ _ hBoth hBoth' => same_oneKey hBoth.1 hBoth'.1 hBoth.2 hBoth'.2) hIds
    (h'.exact hExact')

end

mutual

/-- Whether a value is no number where a number should be, or holds such a float. -/
def holdsNaN : Value → Bool
  | .float x => x.isNaN
  | .list items => anyHoldsNaN items
  | .pair head tail => head.holdsNaN || tail.holdsNaN
  | .integer _ | .boolean _ | .symbol _ | .function _ | .void => false

def anyHoldsNaN : List Value → Bool
  | [] => false
  | v :: vs => v.holdsNaN || anyHoldsNaN vs

end

mutual

/-- What holds no function and no NaN has a key. -/
theorem exists_key : ∀ v : Value, v.holdsFunction = false → v.holdsNaN = false →
    ∃ k, ofValue? v = some k
  | .integer n, _, _ => ⟨_, rfl⟩
  | .float x, _, hNaN => by
    refine ⟨_, ofFloat?_number fun hParts => ?_⟩
    have hModel : (Number.Binary64.parts x).isNaN = false := hNaN
    rw [hParts] at hModel
    cases hModel
  | .boolean b, _, _ => ⟨_, rfl⟩
  | .symbol name, _, _ => ⟨_, rfl⟩
  | .list items, hFunction, hNaN => by
    obtain ⟨ks, hKeys⟩ := exists_keys items hFunction hNaN
    exact ⟨.list ks, by rw [ofValue?, hKeys]; rfl⟩
  | .pair head tail, hFunction, hNaN => by
    rw [holdsFunction, Bool.or_eq_false_iff] at hFunction
    rw [holdsNaN, Bool.or_eq_false_iff] at hNaN
    obtain ⟨k, hHead⟩ := exists_key head hFunction.1 hNaN.1
    obtain ⟨l, hTail⟩ := exists_key tail hFunction.2 hNaN.2
    exact ⟨.pair k l, by rw [ofValue?, hHead, hTail]⟩
  | .function f, hFunction, _ => by cases hFunction
  | .void, _, _ => ⟨_, rfl⟩

theorem exists_keys : ∀ vs : List Value, anyHoldsFunction vs = false → anyHoldsNaN vs = false →
    ∃ ks, ofValues? vs = some ks
  | [], _, _ => ⟨_, rfl⟩
  | v :: vs, hFunction, hNaN => by
    rw [anyHoldsFunction, Bool.or_eq_false_iff] at hFunction
    rw [anyHoldsNaN, Bool.or_eq_false_iff] at hNaN
    obtain ⟨k, hHead⟩ := exists_key v hFunction.1 hNaN.1
    obtain ⟨ks, hTail⟩ := exists_keys vs hFunction.2 hNaN.2
    exact ⟨k :: ks, by rw [ofValues?, hHead, hTail]⟩

end

end Value

end PostLisp

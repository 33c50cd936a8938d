import PostLisp.Proofs.Comparison

/-!
# Values that are near

Two values are near when they have the same shape, their numbers and their functions stand in given
relations, and what the functions capture is near in turn, name by name.  Names may be exempt from
this, which leaves it open whether a function has captured a binding or finds it elsewhere.  What
evaluation does with values alone keeps them near; arithmetic and comparison depend on the relation
between numbers and are left to the comparisons that use this one.
-/

namespace PostLisp

section

variable (numbers : Value → Value → Prop) (functions : Closure Value → Closure Value → Prop)
  (exempt : String → Option Value → Option Value → Prop)

mutual

/-- The values have the same shape, and the relations hold between what is in them. -/
inductive Value.Near : Value → Value → Prop
  | number {v w : Value} (h : numbers v w) : Value.Near v w
  | boolean (b : Bool) : Value.Near (.boolean b) (.boolean b)
  | symbol (name : String) : Value.Near (.symbol name) (.symbol name)
  | list {vs ws : List Value} (items : Value.NearAll vs ws) : Value.Near (.list vs) (.list ws)
  | pair {v v' w w' : Value} (head : Value.Near v w) (tail : Value.Near v' w') :
      Value.Near (.pair v v') (.pair w w')
  | function {f g : Closure Value} (hFunctions : functions f g)
      (captured : ∀ name, ¬exempt name (f.captured.find? name) (g.captured.find? name) →
        Value.NearOption (f.captured.find? name) (g.captured.find? name)) :
      Value.Near (.function f) (.function g)
  | void : Value.Near .void .void

inductive Value.NearAll : List Value → List Value → Prop
  | nil : Value.NearAll [] []
  | cons {v w : Value} {vs ws : List Value} (head : Value.Near v w) (tail : Value.NearAll vs ws) :
      Value.NearAll (v :: vs) (w :: ws)

/-- Either both are missing, or both are there and near. -/
inductive Value.NearOption : Option Value → Option Value → Prop
  | none : Value.NearOption none none
  | some {v w : Value} (h : Value.Near v w) : Value.NearOption (some v) (some w)

end

/-- The bindings give near values to the same names. -/
def Bindings.Near (b c : Bindings Value) : Prop :=
  ∀ name, Value.NearOption numbers functions exempt (b.find? name) (c.find? name)

/-- The bindings give near values to the same names, but for those that are exempt. -/
def Bindings.NearBut (b c : Bindings Value) : Prop :=
  ∀ name, ¬exempt name (b.find? name) (c.find? name) →
    Value.NearOption numbers functions exempt (b.find? name) (c.find? name)

/-- The frames have the same tiers, with near bindings. -/
def Frame.Near : Frame → Frame → Prop
  | .top, .top => True
  | .call locals captured, .call locals' captured' =>
    locals.Near numbers functions exempt locals' ∧ captured.NearBut numbers functions exempt captured'
  | _, _ => False

end

/-- What the relation relates are numbers. -/
structure Value.BetweenNumbers (numbers : Value → Value → Prop) : Prop where
  left : ∀ {v w}, numbers v w → v.number?.isSome
  right : ∀ {v w}, numbers v w → w.number?.isSome

/-- What a relation between numbers relates are numbers, and every number is related to itself. -/
structure Value.Numeric (numbers : Value → Value → Prop) : Prop
    extends Value.BetweenNumbers numbers where
  refl : ∀ {v : Value}, v.number?.isSome → numbers v v

variable {numbers numbers' : Value → Value → Prop}
  {functions functions' : Closure Value → Closure Value → Prop}
  {exempt exempt' : String → Option Value → Option Value → Prop}

namespace Value

variable {v w v' w' : Value} {vs ws : List Value}

mutual

theorem Near.imp (hNumbers : ∀ v w, numbers v w → numbers' v w)
    (hFunctions : ∀ f g, functions f g → functions' f g)
    (hExempt : ∀ name r r', exempt name r r' → exempt' name r r') :
    ∀ {v w : Value}, Near numbers functions exempt v w → Near numbers' functions' exempt' v w
  | _, _, .number h => .number (hNumbers _ _ h)
  | _, _, .boolean b => .boolean b
  | _, _, .symbol name => .symbol name
  | _, _, .list items => .list (NearAll.imp hNumbers hFunctions hExempt items)
  | _, _, .pair head tail =>
    .pair (Near.imp hNumbers hFunctions hExempt head) (Near.imp hNumbers hFunctions hExempt tail)
  | _, _, .function h captured => .function (hFunctions _ _ h) fun name hName =>
    NearOption.imp hNumbers hFunctions hExempt (captured name (mt (hExempt _ _ _) hName))
  | _, _, .void => .void

theorem NearAll.imp (hNumbers : ∀ v w, numbers v w → numbers' v w)
    (hFunctions : ∀ f g, functions f g → functions' f g)
    (hExempt : ∀ name r r', exempt name r r' → exempt' name r r') :
    ∀ {vs ws : List Value}, NearAll numbers functions exempt vs ws →
      NearAll numbers' functions' exempt' vs ws
  | _, _, .nil => .nil
  | _, _, .cons head tail =>
    .cons (Near.imp hNumbers hFunctions hExempt head) (NearAll.imp hNumbers hFunctions hExempt tail)

theorem NearOption.imp (hNumbers : ∀ v w, numbers v w → numbers' v w)
    (hFunctions : ∀ f g, functions f g → functions' f g)
    (hExempt : ∀ name r r', exempt name r r' → exempt' name r r') :
    ∀ {r r' : Option Value}, NearOption numbers functions exempt r r' →
      NearOption numbers' functions' exempt' r r'
  | _, _, .none => .none
  | _, _, .some h => .some (Near.imp hNumbers hFunctions hExempt h)

end

mutual

/-- Alike values are near. -/
theorem Like.near {floats : Prop} (hNumbers : Numeric numbers)
    (hFunctions : ∀ f g, functions f g → functions' f g) :
    ∀ {v w : Value}, Like floats functions v w → Near numbers functions' exempt v w
  | _, _, .integer _ => .number (hNumbers.refl rfl)
  | _, _, .float _ _ => .number (hNumbers.refl rfl)
  | _, _, .boolean b => .boolean b
  | _, _, .symbol name => .symbol name
  | _, _, .list items => .list (LikeAll.near hNumbers hFunctions items)
  | _, _, .pair head tail =>
    .pair (Like.near hNumbers hFunctions head) (Like.near hNumbers hFunctions tail)
  | _, _, .function h captured => .function (hFunctions _ _ h) fun name _ =>
    LikeEntries.near hNumbers hFunctions captured name
  | _, _, .void => .void

theorem LikeAll.near {floats : Prop} (hNumbers : Numeric numbers)
    (hFunctions : ∀ f g, functions f g → functions' f g) :
    ∀ {vs ws : List Value}, LikeAll floats functions vs ws →
      NearAll numbers functions' exempt vs ws
  | _, _, .nil => .nil
  | _, _, .cons head tail =>
    .cons (Like.near hNumbers hFunctions head) (LikeAll.near hNumbers hFunctions tail)

theorem LikeEntries.near {floats : Prop} (hNumbers : Numeric numbers)
    (hFunctions : ∀ f g, functions f g → functions' f g) :
    ∀ {es fs : List (String × Value)}, LikeEntries floats functions es fs → ∀ name,
      NearOption numbers functions' exempt (Bindings.findIn? name es) (Bindings.findIn? name fs)
  | _, _, .nil, _ => .none
  | _, _, .cons head tail, name => by
    rw [Bindings.findIn?, Bindings.findIn?]
    split
    · exact .some (Like.near hNumbers hFunctions head)
    · exact LikeEntries.near hNumbers hFunctions tail name

end

theorem NearAll.forall₂ : ∀ {vs ws : List Value}, NearAll numbers functions exempt vs ws →
    List.Forall₂ (Near numbers functions exempt) vs ws
  | _, _, .nil => .nil
  | _, _, .cons head tail => .cons head tail.forall₂

theorem NearAll.of_forall₂ (h : List.Forall₂ (Near numbers functions exempt) vs ws) :
    NearAll numbers functions exempt vs ws := by
  induction h with
  | nil => exact .nil
  | cons head _ ih => exact .cons head ih

theorem NearAll.append : ∀ {vs ws vs' ws' : List Value}, NearAll numbers functions exempt vs ws →
    NearAll numbers functions exempt vs' ws' →
      NearAll numbers functions exempt (vs ++ vs') (ws ++ ws')
  | _, _, _, _, .nil, h => h
  | _, _, _, _, .cons head tail, h => .cons head (tail.append h)

/-! ### What evaluation does with values -/

mutual

/-- Nodes with the same atoms are near as data. -/
theorem Near.ofNode {floats : Prop} {spans : Span → Span → Prop} (hNumbers : Numeric numbers) :
    ∀ {n m : Node}, Node.Like floats spans n m →
      Near numbers functions exempt (ofNode n) (ofNode m)
  | .atom (.int _) _, _, .atom _ _ => .number (hNumbers.refl rfl)
  | .atom (.float _) _, _, .atom _ _ => .number (hNumbers.refl rfl)
  | .atom (.symbol name) _, _, .atom _ _ => .symbol name
  | _, _, .list _ hItems _ => .list (NearAll.ofNodes hNumbers hItems)

theorem NearAll.ofNodes {floats : Prop} {spans : Span → Span → Prop} (hNumbers : Numeric numbers) :
    ∀ {ns ms : List Node}, Node.LikeAll floats spans ns ms →
      NearAll numbers functions exempt (ofNodes ns) (ofNodes ms)
  | _, _, .nil => .nil
  | _, _, .cons head tail => .cons (Near.ofNode hNumbers head) (NearAll.ofNodes hNumbers tail)

end

/-- Near values are both numbers, or of one kind. -/
theorem Near.kind_eq (hKinds : ∀ v w, numbers v w → v.kind = w.kind)
    (h : Near numbers functions exempt v w) : v.kind = w.kind := by
  cases h with
  | number h => exact hKinds _ _ h
  | _ => rfl

theorem eq_of_number? (h : v.number?.isSome) : (∃ n, v = .integer n) ∨ ∃ x, v = .float x := by
  cases v with
  | integer n => exact Or.inl ⟨n, rfl⟩
  | float x => exact Or.inr ⟨x, rfl⟩
  | _ => cases h

theorem Near.callee (hNumbers : Numeric numbers) (h : Near numbers functions exempt v w) :
    (∃ f g, v = .function f ∧ w = .function g) ∨ v.function? = none ∧ w.function? = none := by
  cases h with
  | number h =>
    refine Or.inr ⟨?_, ?_⟩
    · rcases eq_of_number? (hNumbers.left h) with ⟨n, rfl⟩ | ⟨x, rfl⟩ <;> rfl
    · rcases eq_of_number? (hNumbers.right h) with ⟨n, rfl⟩ | ⟨x, rfl⟩ <;> rfl
  | function _ _ => exact Or.inl ⟨_, _, rfl, rfl⟩
  | _ => exact Or.inr ⟨rfl, rfl⟩

theorem Near.function_inv (hNumbers : Numeric numbers) {f g : Closure Value}
    (h : Near numbers functions exempt (.function f) (.function g)) :
    functions f g ∧ f.captured.NearBut numbers functions exempt g.captured := by
  cases h with
  | number h => cases hNumbers.left h
  | function hFunctions hCaptured => exact ⟨hFunctions, hCaptured⟩

theorem Near.isAtom_eq (hNumbers : Numeric numbers) (h : Near numbers functions exempt v w) :
    v.isAtom = w.isAtom := by
  cases h with
  | number h =>
    rcases eq_of_number? (hNumbers.left h) with ⟨n, rfl⟩ | ⟨x, rfl⟩ <;>
      rcases eq_of_number? (hNumbers.right h) with ⟨m, rfl⟩ | ⟨y, rfl⟩ <;> rfl
  | _ => rfl

theorem Near.same_boolean (hNumbers : Numeric numbers) (h : Near numbers functions exempt v w)
    (b : Bool) : v.same (.boolean b) = w.same (.boolean b) := by
  cases h with
  | number h =>
    rcases eq_of_number? (hNumbers.left h) with ⟨n, rfl⟩ | ⟨x, rfl⟩ <;>
      rcases eq_of_number? (hNumbers.right h) with ⟨m, rfl⟩ | ⟨y, rfl⟩ <;> rfl
  | _ => rfl

theorem Near.number? (h : Near numbers functions exempt v w) :
    numbers v w ∨ v.number? = none ∧ w.number? = none ∧ v.kind = w.kind := by
  cases h with
  | number h => exact Or.inl h
  | _ => exact Or.inr ⟨rfl, rfl, rfl⟩

/-- A number is never the same as another value. -/
theorem same_of_number? (h : v.number?.isSome) (hNone : w.number? = none) :
    v.same w = false ∧ w.same v = false := by
  rcases eq_of_number? h with ⟨n, rfl⟩ | ⟨x, rfl⟩ <;> cases w <;>
    first | exact ⟨rfl, rfl⟩ | cases hNone

theorem same_number_eq (hNumbers : BetweenNumbers numbers) (h : numbers v' w') (hNone : v.number? = none)
    (hNone' : w.number? = none) : v.same v' = w.same w' := by
  rw [(same_of_number? (hNumbers.left h) hNone).2, (same_of_number? (hNumbers.right h) hNone').2]

mutual

/-- Comparison does not tell near values apart, if it does not tell their numbers and functions
apart. -/
theorem Near.same_eq (hNumbers : BetweenNumbers numbers)
    (hSame : ∀ v w v' w', numbers v w → numbers v' w' → v.same v' = w.same w')
    (hIds : ∀ f g f' g', functions f g → functions f' g' → (f.id = f'.id ↔ g.id = g'.id)) :
    ∀ {v w v' w' : Value}, Near numbers functions exempt v w →
      Near numbers functions exempt v' w' → v.same v' = w.same w'
  | _, _, _, _, .number h, h' => by
    rcases h'.number? with h' | ⟨hNone, hNone', -⟩
    · exact hSame _ _ _ _ h h'
    · rw [(same_of_number? (hNumbers.left h) hNone).1, (same_of_number? (hNumbers.right h) hNone').1]
  | _, _, _, _, .list items, h' => by
    cases h' with
    | number h' => exact same_number_eq hNumbers h' rfl rfl
    | list items' => exact NearAll.same_eq hNumbers hSame hIds items items'
    | _ => rfl
  | _, _, _, _, .pair head tail, h' => by
    cases h' with
    | number h' => exact same_number_eq hNumbers h' rfl rfl
    | pair head' tail' =>
      rw [same, same, Near.same_eq hNumbers hSame hIds head head',
        Near.same_eq hNumbers hSame hIds tail tail']
    | _ => rfl
  | _, _, _, _, .function hFunctions _, h' => by
    cases h' with
    | number h' => exact same_number_eq hNumbers h' rfl rfl
    | function hFunctions' _ =>
      rw [same, same, Bool.eq_iff_iff, beq_iff_eq, beq_iff_eq]
      exact hIds _ _ _ _ hFunctions hFunctions'
    | _ => rfl
  | _, _, _, _, .boolean _, h' | _, _, _, _, .symbol _, h' | _, _, _, _, .void, h' => by
    cases h' with
    | number h' => exact same_number_eq hNumbers h' rfl rfl
    | _ => rfl

theorem NearAll.same_eq (hNumbers : BetweenNumbers numbers)
    (hSame : ∀ v w v' w', numbers v w → numbers v' w' → v.same v' = w.same w')
    (hIds : ∀ f g f' g', functions f g → functions f' g' → (f.id = f'.id ↔ g.id = g'.id)) :
    ∀ {vs ws vs' ws' : List Value}, NearAll numbers functions exempt vs ws →
      NearAll numbers functions exempt vs' ws' → sameAll vs vs' = sameAll ws ws'
  | _, _, _, _, .nil, h => by cases h <;> rfl
  | _, _, _, _, .cons head tail, h => by
    cases h with
    | nil => rfl
    | cons head' tail' =>
      rw [sameAll, sameAll, Near.same_eq hNumbers hSame hIds head head',
        NearAll.same_eq hNumbers hSame hIds tail tail']

end

mutual

/-- Near values have the same key, if their numbers have. -/
theorem Near.key_eq (hKeys : ∀ v w, numbers v w → ArgKey.ofValue? v = ArgKey.ofValue? w) :
    ∀ {v w : Value}, Near numbers functions exempt v w → ArgKey.ofValue? v = ArgKey.ofValue? w
  | _, _, .number h => hKeys _ _ h
  | _, _, .list items => by rw [ArgKey.ofValue?, ArgKey.ofValue?, NearAll.keys_eq hKeys items]
  | _, _, .pair head tail => by
    rw [ArgKey.ofValue?, ArgKey.ofValue?, Near.key_eq hKeys head, Near.key_eq hKeys tail]
  | _, _, .boolean _ | _, _, .symbol _ | _, _, .function _ _ | _, _, .void => rfl

theorem NearAll.keys_eq (hKeys : ∀ v w, numbers v w → ArgKey.ofValue? v = ArgKey.ofValue? w) :
    ∀ {vs ws : List Value}, NearAll numbers functions exempt vs ws →
      ArgKey.ofValues? vs = ArgKey.ofValues? ws
  | _, _, .nil => rfl
  | _, _, .cons head tail => by
    rw [ArgKey.ofValues?, ArgKey.ofValues?, Near.key_eq hKeys head, NearAll.keys_eq hKeys tail]

end

theorem Near.cons (hNumbers : Numeric numbers) (head : Near numbers functions exempt v w)
    (tail : Near numbers functions exempt v' w') :
    Near numbers functions exempt (cons v v') (cons w w') := by
  cases tail with
  | number h =>
    rcases eq_of_number? (hNumbers.left h) with ⟨n, rfl⟩ | ⟨x, rfl⟩ <;>
      rcases eq_of_number? (hNumbers.right h) with ⟨m, rfl⟩ | ⟨y, rfl⟩ <;>
        exact .pair head (.number h)
  | list items => exact .list (.cons head items)
  | boolean b => exact .pair head (.boolean b)
  | symbol name => exact .pair head (.symbol name)
  | pair h h' => exact .pair head (.pair h h')
  | function h captured => exact .pair head (.function h captured)
  | void => exact .pair head .void

end Value

namespace Arith

open Value (eq_of_number?)

variable {op : ArithOp} {v w : Value}

/-- A number beside something else is an error about the latter. -/
theorem combine_of_number? (h : v.number?.isSome) (hNone : w.number? = none) :
    combine op v w = .error (.mismatch (.arith op) w.kind) ∧
      combine op w v = .error (.mismatch (.arith op) w.kind) := by
  rcases eq_of_number? h with ⟨n, rfl⟩ | ⟨x, rfl⟩ <;> cases w <;>
    first | exact ⟨rfl, rfl⟩ | cases hNone

theorem number?_of_floats {x y : Float} {u : Value} (h : floats op x y = .ok u) :
    u.number?.isSome := by
  cases op with
  | divide =>
    rw [floats] at h
    split at h <;> cases h
    rfl
  | _ =>
    cases h
    rfl

theorem number?_of_integers {a b : Int64} {u : Value} (h : integers op a b = .ok u) :
    u.number?.isSome := by
  rw [integers] at h
  split at h
  · exact number?_of_floats h
  · split at h <;> cases h
    rfl

/-- Numbers are combined to a number. -/
theorem number?_of_combine (h : v.number?.isSome) (h' : w.number?.isSome) {u : Value}
    (hResult : combine op v w = .ok u) : u.number?.isSome := by
  rcases eq_of_number? h with ⟨a, rfl⟩ | ⟨x, rfl⟩ <;>
    rcases eq_of_number? h' with ⟨b, rfl⟩ | ⟨y, rfl⟩
  · exact number?_of_integers hResult
  · exact number?_of_floats hResult
  · exact number?_of_floats hResult
  · exact number?_of_floats hResult

end Arith

namespace Comparison

variable {W : Type} {C : Comparison W} {v w : Value}

/-- Where the kinds of numbers may differ, errors about them are pardoned. -/
def KindsKept (C : Comparison W) (numbers : Value → Value → Prop) : Prop :=
  ∀ v w, numbers v w → v.kind = w.kind ∨ ∀ e, C.pardoned e

theorem results_mismatch (hKinds : C.KindsKept numbers) (h : numbers v w) (operation : Operation) :
    C.Results (Value.Near numbers functions exempt) (.error (.mismatch operation v.kind))
      (.error (.mismatch operation w.kind)) := by
  rcases hKinds v w h with hKind | hPardoned
  · rw [hKind]
    exact .error _
  · exact .pardoned fun _ => hPardoned _

theorem results_car (hNumbers : Value.Numeric numbers) (hKinds : C.KindsKept numbers)
    (h : Value.Near numbers functions exempt v w) :
    C.Results (Value.Near numbers functions exempt) v.car w.car := by
  cases h with
  | number h =>
    have hBoth : C.Results (Value.Near numbers functions exempt)
        (.error (.mismatch .car v.kind)) (.error (.mismatch .car w.kind)) :=
      results_mismatch hKinds h .car
    rcases Value.eq_of_number? (hNumbers.left h) with ⟨n, rfl⟩ | ⟨x, rfl⟩ <;>
      rcases Value.eq_of_number? (hNumbers.right h) with ⟨m, rfl⟩ | ⟨y, rfl⟩ <;> exact hBoth
  | list items =>
    cases items with
    | nil => exact .error _
    | cons head tail => exact .ok head
  | pair head tail => exact .ok head
  | _ => exact .error _

theorem results_cdr (hNumbers : Value.Numeric numbers) (hKinds : C.KindsKept numbers)
    (h : Value.Near numbers functions exempt v w) :
    C.Results (Value.Near numbers functions exempt) v.cdr w.cdr := by
  cases h with
  | number h =>
    have hBoth : C.Results (Value.Near numbers functions exempt)
        (.error (.mismatch .cdr v.kind)) (.error (.mismatch .cdr w.kind)) :=
      results_mismatch hKinds h .cdr
    rcases Value.eq_of_number? (hNumbers.left h) with ⟨n, rfl⟩ | ⟨x, rfl⟩ <;>
      rcases Value.eq_of_number? (hNumbers.right h) with ⟨m, rfl⟩ | ⟨y, rfl⟩ <;> exact hBoth
  | list items =>
    cases items with
    | nil => exact .ok (.list .nil)
    | cons head tail => exact .ok (.list tail)
  | pair head tail => exact .ok tail
  | _ => exact .error _

/-- Combining near values ends alike, if it does so where they are numbers. -/
theorem results_combine {op : ArithOp} (hNumbers : Value.BetweenNumbers numbers)
    {v w v' w' : Value} (hCombine : numbers v w → numbers v' w' →
      C.Results (Value.Near numbers functions exempt) (Arith.combine op v v') (Arith.combine op w w'))
    (h : Value.Near numbers functions exempt v w) (h' : Value.Near numbers functions exempt v' w') :
    C.Results (Value.Near numbers functions exempt) (Arith.combine op v v')
      (Arith.combine op w w') := by
  cases h with
  | number h =>
    rcases h'.number? with h' | ⟨hNone, hNone', hKind⟩
    · exact hCombine h h'
    · rw [(Arith.combine_of_number? (hNumbers.left h) hNone).1,
        (Arith.combine_of_number? (hNumbers.right h) hNone').1, hKind]
      exact .error _
  | list items =>
    cases h' with
    | number h' =>
      rw [(Arith.combine_of_number? (hNumbers.left h') rfl).2,
        (Arith.combine_of_number? (hNumbers.right h') rfl).2]
      exact .error _
    | list items' =>
      rw [Arith.combine, Arith.combine]
      split
      · exact .ok (.list (items.append items'))
      · exact .error _
    | _ => exact .error _
  | _ => exact .error _

/-- Combining all operands ends alike, if the steps do that `Fine` lets happen. -/
theorem results_fold {op : ArithOp} (Fine : Value → List Value → Prop)
    (hStep : ∀ {v v' w w' vs}, Fine v (v' :: vs) → Value.Near numbers functions exempt v w →
      Value.Near numbers functions exempt v' w' → C.Results (Value.Near numbers functions exempt)
        (Arith.combine op v v') (Arith.combine op w w'))
    (hNext : ∀ {v v' u vs}, Fine v (v' :: vs) → Arith.combine op v v' = .ok u → Fine u vs)
    {vs ws : List Value} (hFine : ∀ {v rest}, vs = v :: rest → Fine v rest)
    (h : List.Forall₂ (Value.Near numbers functions exempt) vs ws) :
    C.Results (Value.Near numbers functions exempt) (Arith.fold op vs) (Arith.fold op ws) := by
  cases h with
  | nil => exact .error _
  | @cons v w vs ws head tail =>
    replace hFine := hFine rfl
    show C.Results _ (vs.foldlM (Arith.combine op) v) (ws.foldlM (Arith.combine op) w)
    induction vs generalizing v w ws with
    | nil =>
      cases tail
      exact .ok head
    | cons u vs ih =>
      cases tail with
      | @cons _ u' _ ws next tail =>
        have hResults := hStep hFine head next
        rw [List.foldlM_cons, List.foldlM_cons]
        generalize hFirst : Arith.combine op v u = r at hResults
        generalize Arith.combine op w u' = r' at hResults
        cases hResults with
        | ok hValue => exact ih hValue tail (hNext hFine hFirst)
        | error f => exact .error f
        | pardoned h => exact .pardoned h

end Comparison

/-! ### Bindings and frames -/

namespace Bindings

variable {b c : Bindings Value}

theorem near_empty : (empty : Bindings Value).Near numbers functions exempt empty :=
  fun _ => .none

theorem Near.but (h : b.Near numbers functions exempt c) : b.NearBut numbers functions exempt c :=
  fun name _ => h name

theorem Near.insert (h : b.Near numbers functions exempt c) (name : String) {v w : Value}
    (hValue : Value.Near numbers functions exempt v w) :
    (b.insert name v).Near numbers functions exempt (c.insert name w) := by
  intro other
  rw [find?_insert, find?_insert]
  split
  · exact .some hValue
  · exact h other

theorem Near.insertAll (names : List String) {vs ws : List Value}
    (hValues : List.Forall₂ (Value.Near numbers functions exempt) vs ws)
    (h : b.Near numbers functions exempt c) :
    (b.insertAll (names.zip vs)).Near numbers functions exempt (c.insertAll (names.zip ws)) := by
  induction names generalizing vs ws b c with
  | nil => exact h
  | cons name names ih =>
    cases hValues with
    | nil => exact h
    | cons head tail => exact ih tail (h.insert name head)

end Bindings

namespace Frame

variable {fr fr' : Frame} {globals globals' : Bindings Value}

theorem near_option_or {r r' o o' : Option Value} (h : Value.NearOption numbers functions exempt r r')
    (h' : Value.NearOption numbers functions exempt o o') :
    Value.NearOption numbers functions exempt (r <|> o) (r' <|> o') := by
  cases h with
  | none => exact h'
  | some h => exact .some h

theorem Near.tiers (h : fr.Near numbers functions exempt fr') :
    Tiers (Bindings.Near numbers functions exempt) (Bindings.NearBut numbers functions exempt)
      fr fr' := by
  cases fr <;> cases fr' <;> first | exact .top | exact .call h.1 h.2 | exact h.elim

/-- Lookups find near values, if a name that is exempt gets one with the help of the globals. -/
theorem Near.lookup (h : fr.Near numbers functions exempt fr')
    (hGlobals : globals.Near numbers functions exempt globals')
    (hExempt : ∀ name r r', exempt name r r' → Value.NearOption numbers functions exempt
      (r <|> globals.find? name) (r' <|> globals'.find? name)) (name : String) :
    Value.NearOption numbers functions exempt (fr.lookup globals name) (fr'.lookup globals' name) := by
  cases h.tiers with
  | top => exact hGlobals name
  | @call locals locals' captured captured' hLocals hCaptured =>
    refine near_option_or (hLocals name) ?_
    by_cases hName : exempt name (captured.find? name) (captured'.find? name)
    · exact hExempt name _ _ hName
    · exact near_option_or (hCaptured name hName) (hGlobals name)

theorem Near.innermost (h : fr.Near numbers functions exempt fr')
    (hGlobals : globals.Near numbers functions exempt globals') :
    (fr.innermost globals).Near numbers functions exempt (fr'.innermost globals') := by
  cases fr <;> cases fr' <;> first | exact hGlobals | exact h.1 | exact h.elim

/-- Near functions run in near frames. -/
theorem near_closure {f g : Closure Value} {args args' : List Value} (hParams : f.params = g.params)
    (hCaptured : f.captured.NearBut numbers functions exempt g.captured)
    (hArgs : List.Forall₂ (Value.Near numbers functions exempt) args args') :
    (f.frame args).Near numbers functions exempt (g.frame args') := by
  rw [Closure.frame, Closure.frame, hParams]
  exact ⟨Bindings.near_empty.insertAll g.params hArgs, hCaptured⟩

end Frame

end PostLisp

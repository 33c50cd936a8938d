import PostLisp.Call.Frame
import PostLisp.Operation.Arith
import PostLisp.Operation.Sequence
import PostLisp.Proofs.Effect

/-!
# Likeness of nodes and values

Two runs are compared by what their nodes and values have in common.  Nodes are alike when they
have the same shape and the same atoms, and their spans stand in a given relation; values are alike
when they have the same shape and the same data, and their functions stand in a given relation,
captured values included.  Both leave it open whether floats and divisions, which make floats, may
occur.  Everything that evaluation does with values alone gives alike results on alike values.
-/

namespace PostLisp

/-! ### Nodes -/

section

variable (floats : Prop) (spans : Span → Span → Prop)

mutual

/-- The nodes have the same shape and the same atoms, and `spans` relates their spans.  Floats and
lists that end in the division sign occur only if `floats` holds. -/
inductive Node.Like : Node → Node → Prop
  | atom {a : Atom} {s s' : Span} (hFloat : ∀ x, a = .float x → floats) (hSpan : spans s s') :
      Node.Like (.atom a s) (.atom a s')
  | list {ns ms : List Node} {s s' : Span}
      (hDivide : Node.EndsWith ns ArithOp.divide.symbol → floats) (hItems : Node.LikeAll ns ms)
      (hSpan : spans s s') : Node.Like (.list ns s) (.list ms s')

inductive Node.LikeAll : List Node → List Node → Prop
  | nil : Node.LikeAll [] []
  | cons {n m : Node} {ns ms : List Node} (head : Node.Like n m) (tail : Node.LikeAll ns ms) :
      Node.LikeAll (n :: ns) (m :: ms)

end

end

namespace Node

variable {floats : Prop} {spans : Span → Span → Prop} {n m : Node} {ns ms : List Node}

theorem Like.span (h : Like floats spans n m) : spans n.span m.span := by
  cases h with
  | atom _ hSpan => exact hSpan
  | list _ _ hSpan => exact hSpan

theorem Like.symbol?_eq (h : Like floats spans n m) : n.symbol? = m.symbol? := by
  cases h <;> rfl

/-- Alike nodes are both lists of alike nodes, or both atoms. -/
theorem Like.list? (h : Like floats spans n m) :
    n.list? = none ∧ m.list? = none ∨
      ∃ ns ms, n.list? = some ns ∧ m.list? = some ms ∧ LikeAll floats spans ns ms := by
  cases h with
  | atom _ _ => exact Or.inl ⟨rfl, rfl⟩
  | list _ hItems _ => exact Or.inr ⟨_, _, rfl, rfl, hItems⟩

mutual

theorem Like.render_eq : ∀ {n m : Node}, Like floats spans n m → n.render = m.render
  | _, _, .atom _ _ => rfl
  | _, _, .list _ hItems _ => by rw [render, render, LikeAll.renderAll_eq hItems]

theorem LikeAll.renderAll_eq : ∀ {ns ms : List Node}, LikeAll floats spans ns ms →
    renderAll ns = renderAll ms
  | _, _, .nil => rfl
  | _, _, .cons head tail => by
    rw [renderAll, renderAll, Like.render_eq head, LikeAll.renderAll_eq tail]

end

theorem LikeAll.length_eq : ∀ {ns ms : List Node}, LikeAll floats spans ns ms →
    ns.length = ms.length
  | _, _, .nil => rfl
  | _, _, .cons _ tail => congrArg (· + 1) tail.length_eq

theorem LikeAll.concat : ∀ {ns ms : List Node}, LikeAll floats spans ns ms →
    Like floats spans n m → LikeAll floats spans (ns ++ [n]) (ms ++ [m])
  | _, _, .nil, h => .cons h .nil
  | _, _, .cons head tail, h => .cons head (tail.concat h)

/-- Lists of alike nodes have alike last nodes. -/
theorem LikeAll.concat_inv (h : LikeAll floats spans (ns ++ [n]) ms) :
    ∃ ms' m, ms = ms' ++ [m] ∧ LikeAll floats spans ns ms' ∧ Like floats spans n m := by
  induction ns generalizing ms with
  | nil =>
    cases h with
    | cons head tail =>
      cases tail
      exact ⟨[], _, rfl, .nil, head⟩
  | cons k ns ih =>
    cases h with
    | cons head tail =>
      obtain ⟨ms', m, rfl, hInit, hLast⟩ := ih tail
      exact ⟨_ :: ms', m, rfl, .cons head hInit, hLast⟩

theorem LikeAll.reverse (h : LikeAll floats spans ns ms) :
    LikeAll floats spans ns.reverse ms.reverse := by
  induction ns generalizing ms with
  | nil =>
    cases h
    exact .nil
  | cons n ns ih =>
    cases h with
    | cons head tail =>
      rw [List.reverse_cons, List.reverse_cons]
      exact (ih tail).concat head

mutual

theorem Like.mono {spans' : Span → Span → Prop} (h : ∀ s s', spans s s' → spans' s s') :
    ∀ {n m : Node}, Like floats spans n m → Like floats spans' n m
  | _, _, .atom hFloat hSpan => .atom hFloat (h _ _ hSpan)
  | _, _, .list hDivide hItems hSpan => .list hDivide (LikeAll.mono h hItems) (h _ _ hSpan)

theorem LikeAll.mono {spans' : Span → Span → Prop} (h : ∀ s s', spans s s' → spans' s s') :
    ∀ {ns ms : List Node}, LikeAll floats spans ns ms → LikeAll floats spans' ns ms
  | _, _, .nil => .nil
  | _, _, .cons head tail => .cons (Like.mono h head) (LikeAll.mono h tail)

end

mutual

/-- Nodes that are alike down to their spans are the same. -/
theorem Like.eq : ∀ {n m : Node}, Like floats Eq n m → n = m
  | _, _, .atom _ rfl => rfl
  | _, _, .list _ hItems rfl => congrArg (Node.list · _) hItems.eq

theorem LikeAll.eq : ∀ {ns ms : List Node}, LikeAll floats Eq ns ms → ns = ms
  | _, _, .nil => rfl
  | _, _, .cons head tail => by rw [head.eq, tail.eq]

end

mutual

/-- Where floats may occur, every node is like itself. -/
theorem Like.refl (hFloats : floats) (hSpans : ∀ s, spans s s) :
    (n : Node) → Like floats spans n n
  | .atom _ s => .atom (fun _ _ => hFloats) (hSpans s)
  | .list items s => .list (fun _ => hFloats) (LikeAll.refl hFloats hSpans items) (hSpans s)

theorem LikeAll.refl (hFloats : floats) (hSpans : ∀ s, spans s s) :
    (ns : List Node) → LikeAll floats spans ns ns
  | [] => .nil
  | n :: ns => .cons (Like.refl hFloats hSpans n) (LikeAll.refl hFloats hSpans ns)

end

end Node

namespace Node

mutual

/-- Whether a float or a division sign at the end of a list occurs. -/
def usesFloats : Node → Bool
  | .atom (.float _) _ => true
  | .atom _ _ => false
  | .list items _ => decide (EndsWith items ArithOp.divide.symbol) || anyUsesFloats items

def anyUsesFloats : List Node → Bool
  | [] => false
  | n :: ns => n.usesFloats || anyUsesFloats ns

end

mutual

/-- Where no float occurs, a node is like itself without any. -/
theorem like_of_usesFloats {spans : Span → Span → Prop} (hSpans : ∀ s, spans s s) :
    (n : Node) → n.usesFloats = false → Like False spans n n
  | .atom (.int _) s, _ => .atom (fun _ hx => by cases hx) (hSpans s)
  | .atom (.symbol _) s, _ => .atom (fun _ hx => by cases hx) (hSpans s)
  | .list items s, h => by
    rw [usesFloats, Bool.or_eq_false_iff, decide_eq_false_iff_not] at h
    exact .list h.1 (likeAll_of_usesFloats hSpans items h.2) (hSpans s)

theorem likeAll_of_usesFloats {spans : Span → Span → Prop} (hSpans : ∀ s, spans s s) :
    (ns : List Node) → anyUsesFloats ns = false → LikeAll False spans ns ns
  | [], _ => .nil
  | n :: ns, h => by
    rw [anyUsesFloats, Bool.or_eq_false_iff] at h
    exact .cons (like_of_usesFloats hSpans n h.1) (likeAll_of_usesFloats hSpans ns h.2)

end

end Node

/-! ### Values -/

mutual

/-- The value that has a key. -/
def ArgKey.toValue : ArgKey → Value
  | .integer n => .integer n
  | .float bits => .float (Float.ofBits bits)
  | .boolean b => .boolean b
  | .symbol name => .symbol name
  | .list items => .list (ArgKey.toValues items)
  | .pair head tail => .pair head.toValue tail.toValue
  | .void => .void

def ArgKey.toValues : List ArgKey → List Value
  | [] => []
  | k :: ks => k.toValue :: ArgKey.toValues ks

end

section

variable (floats : Prop) (functions : Closure Value → Closure Value → Prop)

mutual

/-- The values have the same shape and the same data; `functions` relates the functions in them,
and the values that these capture are alike in turn. -/
inductive Value.Like : Value → Value → Prop
  | integer (n : Int64) : Value.Like (.integer n) (.integer n)
  | float (hFloats : floats) (x : Float) : Value.Like (.float x) (.float x)
  | boolean (b : Bool) : Value.Like (.boolean b) (.boolean b)
  | symbol (name : String) : Value.Like (.symbol name) (.symbol name)
  | list {vs ws : List Value} (items : Value.LikeAll vs ws) : Value.Like (.list vs) (.list ws)
  | pair {v v' w w' : Value} (head : Value.Like v w) (tail : Value.Like v' w') :
      Value.Like (.pair v v') (.pair w w')
  | function {f g : Closure Value} (hFunctions : functions f g)
      (captured : Value.LikeEntries f.captured.entries g.captured.entries) :
      Value.Like (.function f) (.function g)
  | void : Value.Like .void .void

inductive Value.LikeAll : List Value → List Value → Prop
  | nil : Value.LikeAll [] []
  | cons {v w : Value} {vs ws : List Value} (head : Value.Like v w) (tail : Value.LikeAll vs ws) :
      Value.LikeAll (v :: vs) (w :: ws)

inductive Value.LikeEntries : List (String × Value) → List (String × Value) → Prop
  | nil : Value.LikeEntries [] []
  | cons {name : String} {v w : Value} {es fs : List (String × Value)} (head : Value.Like v w)
      (tail : Value.LikeEntries es fs) : Value.LikeEntries ((name, v) :: es) ((name, w) :: fs)

end

/-- The bindings give the same names to alike values. -/
def Bindings.Like (b c : Bindings Value) : Prop :=
  Value.LikeEntries floats functions b.entries c.entries

/-- Both frames are those of the top level, or both are frames of calls, with related bindings. -/
inductive Frame.Tiers (innermost captured : Bindings Value → Bindings Value → Prop) :
    Frame → Frame → Prop
  | top : Tiers innermost captured .top .top
  | call {b b' c c' : Bindings Value} (hLocals : innermost b b') (hCaptured : captured c c') :
      Tiers innermost captured (.call b c) (.call b' c')

/-- The frames have the same tiers, with alike bindings. -/
def Frame.Like : Frame → Frame → Prop
  | .top, .top => True
  | .call locals captured, .call locals' captured' =>
    locals.Like floats functions locals' ∧ captured.Like floats functions captured'
  | _, _ => False

end

namespace Value

variable {floats : Prop} {functions functions' functions'' : Closure Value → Closure Value → Prop}
  {v w : Value} {vs ws : List Value}

mutual

theorem Like.imp {floats' : Prop} (hFloats : floats → floats')
    (h : ∀ f g, functions f g → functions' f g) :
    ∀ {v w : Value}, Like floats functions v w → Like floats' functions' v w
  | _, _, .integer n => .integer n
  | _, _, .float hFloat x => .float (hFloats hFloat) x
  | _, _, .boolean b => .boolean b
  | _, _, .symbol name => .symbol name
  | _, _, .list items => .list (LikeAll.imp hFloats h items)
  | _, _, .pair head tail => .pair (Like.imp hFloats h head) (Like.imp hFloats h tail)
  | _, _, .function hFunctions captured =>
    .function (h _ _ hFunctions) (LikeEntries.imp hFloats h captured)
  | _, _, .void => .void

theorem LikeAll.imp {floats' : Prop} (hFloats : floats → floats')
    (h : ∀ f g, functions f g → functions' f g) :
    ∀ {vs ws : List Value}, LikeAll floats functions vs ws → LikeAll floats' functions' vs ws
  | _, _, .nil => .nil
  | _, _, .cons head tail => .cons (Like.imp hFloats h head) (LikeAll.imp hFloats h tail)

theorem LikeEntries.imp {floats' : Prop} (hFloats : floats → floats')
    (h : ∀ f g, functions f g → functions' f g) :
    ∀ {es fs : List (String × Value)}, LikeEntries floats functions es fs →
      LikeEntries floats' functions' es fs
  | _, _, .nil => .nil
  | _, _, .cons head tail => .cons (Like.imp hFloats h head) (LikeEntries.imp hFloats h tail)

end

theorem Like.mono (h : ∀ f g, functions f g → functions' f g) (hLike : Like floats functions v w) :
    Like floats functions' v w :=
  hLike.imp id h

theorem LikeAll.mono (h : ∀ f g, functions f g → functions' f g)
    (hLike : LikeAll floats functions vs ws) : LikeAll floats functions' vs ws :=
  hLike.imp id h

theorem LikeEntries.mono {es fs : List (String × Value)}
    (h : ∀ f g, functions f g → functions' f g) (hLike : LikeEntries floats functions es fs) :
    LikeEntries floats functions' es fs :=
  hLike.imp id h

mutual

/-- What is said of functions may rest on the values that they capture. -/
theorem Like.imp_captured (h : ∀ f g, functions f g →
    LikeEntries floats functions f.captured.entries g.captured.entries → functions' f g) :
    ∀ {v w : Value}, Like floats functions v w → Like floats functions' v w
  | _, _, .integer n => .integer n
  | _, _, .float hFloat x => .float hFloat x
  | _, _, .boolean b => .boolean b
  | _, _, .symbol name => .symbol name
  | _, _, .list items => .list (LikeAll.imp_captured h items)
  | _, _, .pair head tail => .pair (Like.imp_captured h head) (Like.imp_captured h tail)
  | _, _, .function hFunctions captured =>
    .function (h _ _ hFunctions captured) (LikeEntries.imp_captured h captured)
  | _, _, .void => .void

theorem LikeAll.imp_captured (h : ∀ f g, functions f g →
    LikeEntries floats functions f.captured.entries g.captured.entries → functions' f g) :
    ∀ {vs ws : List Value}, LikeAll floats functions vs ws → LikeAll floats functions' vs ws
  | _, _, .nil => .nil
  | _, _, .cons head tail => .cons (Like.imp_captured h head) (LikeAll.imp_captured h tail)

theorem LikeEntries.imp_captured (h : ∀ f g, functions f g →
    LikeEntries floats functions f.captured.entries g.captured.entries → functions' f g) :
    ∀ {es fs : List (String × Value)}, LikeEntries floats functions es fs →
      LikeEntries floats functions' es fs
  | _, _, .nil => .nil
  | _, _, .cons head tail => .cons (Like.imp_captured h head) (LikeEntries.imp_captured h tail)

end

mutual

/-- Where floats may occur, every value is like itself. -/
theorem Like.refl (hFloats : floats) (hFunctions : ∀ f, functions f f) :
    (v : Value) → Like floats functions v v
  | .integer n => .integer n
  | .float x => .float hFloats x
  | .boolean b => .boolean b
  | .symbol name => .symbol name
  | .list items => .list (LikeAll.refl hFloats hFunctions items)
  | .pair head tail =>
    .pair (Like.refl hFloats hFunctions head) (Like.refl hFloats hFunctions tail)
  | .function ⟨_, _, _, ⟨entries⟩⟩ =>
    .function (hFunctions _) (LikeEntries.refl hFloats hFunctions entries)
  | .void => .void

theorem LikeAll.refl (hFloats : floats) (hFunctions : ∀ f, functions f f) :
    (vs : List Value) → LikeAll floats functions vs vs
  | [] => .nil
  | v :: vs => .cons (Like.refl hFloats hFunctions v) (LikeAll.refl hFloats hFunctions vs)

theorem LikeEntries.refl (hFloats : floats) (hFunctions : ∀ f, functions f f) :
    (es : List (String × Value)) → LikeEntries floats functions es es
  | [] => .nil
  | (_, v) :: es =>
    .cons (Like.refl hFloats hFunctions v) (LikeEntries.refl hFloats hFunctions es)

end

mutual

theorem Like.symm (h : ∀ f g, functions f g → functions' g f) :
    ∀ {v w : Value}, Like floats functions v w → Like floats functions' w v
  | _, _, .integer n => .integer n
  | _, _, .float hFloats x => .float hFloats x
  | _, _, .boolean b => .boolean b
  | _, _, .symbol name => .symbol name
  | _, _, .list items => .list (LikeAll.symm h items)
  | _, _, .pair head tail => .pair (Like.symm h head) (Like.symm h tail)
  | _, _, .function hFunctions captured =>
    .function (h _ _ hFunctions) (LikeEntries.symm h captured)
  | _, _, .void => .void

theorem LikeAll.symm (h : ∀ f g, functions f g → functions' g f) :
    ∀ {vs ws : List Value}, LikeAll floats functions vs ws → LikeAll floats functions' ws vs
  | _, _, .nil => .nil
  | _, _, .cons head tail => .cons (Like.symm h head) (LikeAll.symm h tail)

theorem LikeEntries.symm (h : ∀ f g, functions f g → functions' g f) :
    ∀ {es fs : List (String × Value)}, LikeEntries floats functions es fs →
      LikeEntries floats functions' fs es
  | _, _, .nil => .nil
  | _, _, .cons head tail => .cons (Like.symm h head) (LikeEntries.symm h tail)

end

mutual

theorem Like.trans (h : ∀ f g k, functions f g → functions' g k → functions'' f k) :
    ∀ {u v w : Value}, Like floats functions u v → Like floats functions' v w →
      Like floats functions'' u w
  | _, _, _, .integer n, .integer _ => .integer n
  | _, _, _, .float hFloats x, .float _ _ => .float hFloats x
  | _, _, _, .boolean b, .boolean _ => .boolean b
  | _, _, _, .symbol name, .symbol _ => .symbol name
  | _, _, _, .list items, .list items' => .list (LikeAll.trans h items items')
  | _, _, _, .pair head tail, .pair head' tail' =>
    .pair (Like.trans h head head') (Like.trans h tail tail')
  | _, _, _, .function hFunctions captured, .function hFunctions' captured' =>
    .function (h _ _ _ hFunctions hFunctions') (LikeEntries.trans h captured captured')
  | _, _, _, .void, .void => .void

theorem LikeAll.trans (h : ∀ f g k, functions f g → functions' g k → functions'' f k) :
    ∀ {us vs ws : List Value}, LikeAll floats functions us vs → LikeAll floats functions' vs ws →
      LikeAll floats functions'' us ws
  | _, _, _, .nil, .nil => .nil
  | _, _, _, .cons head tail, .cons head' tail' =>
    .cons (Like.trans h head head') (LikeAll.trans h tail tail')

theorem LikeEntries.trans (h : ∀ f g k, functions f g → functions' g k → functions'' f k) :
    ∀ {es fs gs : List (String × Value)}, LikeEntries floats functions es fs →
      LikeEntries floats functions' fs gs → LikeEntries floats functions'' es gs
  | _, _, _, .nil, .nil => .nil
  | _, _, _, .cons head tail, .cons head' tail' =>
    .cons (Like.trans h head head') (LikeEntries.trans h tail tail')

end

mutual

/-- What is said of functions on the right-hand side alone. -/
theorem Like.right (h : ∀ f g, functions f g → functions' g g) :
    ∀ {v w : Value}, Like floats functions v w → Like floats functions' w w
  | _, _, .integer n => .integer n
  | _, _, .float hFloats x => .float hFloats x
  | _, _, .boolean b => .boolean b
  | _, _, .symbol name => .symbol name
  | _, _, .list items => .list (LikeAll.right h items)
  | _, _, .pair head tail => .pair (Like.right h head) (Like.right h tail)
  | _, _, .function hFunctions captured =>
    .function (h _ _ hFunctions) (LikeEntries.right h captured)
  | _, _, .void => .void

theorem LikeAll.right (h : ∀ f g, functions f g → functions' g g) :
    ∀ {vs ws : List Value}, LikeAll floats functions vs ws → LikeAll floats functions' ws ws
  | _, _, .nil => .nil
  | _, _, .cons head tail => .cons (Like.right h head) (LikeAll.right h tail)

theorem LikeEntries.right (h : ∀ f g, functions f g → functions' g g) :
    ∀ {es fs : List (String × Value)}, LikeEntries floats functions es fs →
      LikeEntries floats functions' fs fs
  | _, _, .nil => .nil
  | _, _, .cons head tail => .cons (Like.right h head) (LikeEntries.right h tail)

end

mutual

/-- Values that are alike down to their functions are the same. -/
theorem Like.eq : ∀ {v w : Value}, Like floats Eq v w → v = w
  | _, _, .integer _ => rfl
  | _, _, .float _ _ => rfl
  | _, _, .boolean _ => rfl
  | _, _, .symbol _ => rfl
  | _, _, .list items => congrArg Value.list items.eq
  | _, _, .pair head tail => by rw [head.eq, tail.eq]
  | _, _, .function rfl _ => rfl
  | _, _, .void => rfl

theorem LikeAll.eq : ∀ {vs ws : List Value}, LikeAll floats Eq vs ws → vs = ws
  | _, _, .nil => rfl
  | _, _, .cons head tail => by rw [head.eq, tail.eq]

end

theorem Like.kind_eq (h : Like floats functions v w) : v.kind = w.kind := by
  cases h <;> rfl

theorem Like.number?_eq (h : Like floats functions v w) : v.number? = w.number? := by
  cases h <;> rfl

theorem Like.isAtom_eq (h : Like floats functions v w) : v.isAtom = w.isAtom := by
  cases h <;> rfl

theorem LikeAll.length_eq : ∀ {vs ws : List Value}, LikeAll floats functions vs ws →
    vs.length = ws.length
  | _, _, .nil => rfl
  | _, _, .cons _ tail => congrArg (· + 1) tail.length_eq

theorem LikeAll.append : ∀ {vs ws vs' ws' : List Value}, LikeAll floats functions vs ws →
    LikeAll floats functions vs' ws' → LikeAll floats functions (vs ++ vs') (ws ++ ws')
  | _, _, _, _, .nil, h => h
  | _, _, _, _, .cons head tail, h => .cons head (tail.append h)

mutual

/-- Comparison does not tell alike values apart, if identity does not tell their functions apart. -/
theorem Like.same_eq (hIds : ∀ f g f' g', functions f g → functions f' g' →
    (f.id = f'.id ↔ g.id = g'.id)) : ∀ {v w v' w' : Value}, Like floats functions v w →
      Like floats functions v' w' → v.same v' = w.same w'
  | _, _, _, _, .list items, h => by
    cases h with
    | list items' => exact LikeAll.same_eq hIds items items'
    | _ => rfl
  | _, _, _, _, .pair head tail, h => by
    cases h with
    | pair head' tail' => rw [same, same, Like.same_eq hIds head head', Like.same_eq hIds tail tail']
    | _ => rfl
  | _, _, _, _, .function hFunctions _, h => by
    cases h with
    | function hFunctions' _ =>
      have hSame := hIds _ _ _ _ hFunctions hFunctions'
      rw [same, same, Bool.eq_iff_iff, beq_iff_eq, beq_iff_eq]
      exact hSame
    | _ => rfl
  | _, _, _, _, .integer _, h | _, _, _, _, .float _ _, h | _, _, _, _, .boolean _, h
  | _, _, _, _, .symbol _, h | _, _, _, _, .void, h => by
    cases h <;> rfl

theorem LikeAll.same_eq (hIds : ∀ f g f' g', functions f g → functions f' g' →
    (f.id = f'.id ↔ g.id = g'.id)) : ∀ {vs ws vs' ws' : List Value},
      LikeAll floats functions vs ws → LikeAll floats functions vs' ws' →
        sameAll vs vs' = sameAll ws ws'
  | _, _, _, _, .nil, h => by cases h <;> rfl
  | _, _, _, _, .cons head tail, h => by
    cases h with
    | nil => rfl
    | cons head' tail' =>
      rw [sameAll, sameAll, Like.same_eq hIds head head', LikeAll.same_eq hIds tail tail']

end

theorem Like.same_boolean (h : Like floats functions v w) (b : Bool) :
    v.same (.boolean b) = w.same (.boolean b) := by
  cases h <;> rfl

mutual

/-- Alike values have the same key. -/
theorem Like.key_eq : ∀ {v w : Value}, Like floats functions v w →
    ArgKey.ofValue? v = ArgKey.ofValue? w
  | _, _, .list items => by rw [ArgKey.ofValue?, ArgKey.ofValue?, LikeAll.keys_eq items]
  | _, _, .pair head tail => by
    rw [ArgKey.ofValue?, ArgKey.ofValue?, Like.key_eq head, Like.key_eq tail]
  | _, _, .integer _ | _, _, .float _ _ | _, _, .boolean _ | _, _, .symbol _
  | _, _, .function _ _ | _, _, .void => rfl

theorem LikeAll.keys_eq : ∀ {vs ws : List Value}, LikeAll floats functions vs ws →
    ArgKey.ofValues? vs = ArgKey.ofValues? ws
  | _, _, .nil => rfl
  | _, _, .cons head tail => by
    rw [ArgKey.ofValues?, ArgKey.ofValues?, Like.key_eq head, LikeAll.keys_eq tail]

end

mutual

/-- Without floats, a value that has a key is what the key says, and holds no function. -/
theorem Like.of_key : ∀ {v w : Value} {key : ArgKey}, Like False functions v w →
    ArgKey.ofValue? v = some key → Like False functions' v key.toValue
  | _, _, _, .integer n, hKey => by
    cases hKey
    exact .integer n
  | _, _, _, .boolean b, hKey => by
    cases hKey
    exact .boolean b
  | _, _, _, .symbol name, hKey => by
    cases hKey
    exact .symbol name
  | _, _, _, .list items, hKey => by
    rw [ArgKey.ofValue?] at hKey
    obtain ⟨keys, hKeys, rfl⟩ := Option.map_eq_some_iff.1 hKey
    exact .list (LikeAll.of_keys items hKeys)
  | _, _, _, .pair head tail, hKey => by
    rw [ArgKey.ofValue?] at hKey
    split at hKey
    · rename_i hHead hTail
      cases hKey
      exact .pair (Like.of_key head hHead) (Like.of_key tail hTail)
    · cases hKey
  | _, _, _, .void, hKey => by
    cases hKey
    exact .void
  | _, _, _, .function _ _, hKey => by cases hKey

theorem LikeAll.of_keys : ∀ {vs ws : List Value} {keys : List ArgKey},
    LikeAll False functions vs ws → ArgKey.ofValues? vs = some keys →
      LikeAll False functions' vs (ArgKey.toValues keys)
  | _, _, _, .nil, hKeys => by
    cases hKeys
    exact .nil
  | _, _, _, .cons head tail, hKeys => by
    rw [ArgKey.ofValues?] at hKeys
    split at hKeys
    · rename_i hHead hTail
      cases hKeys
      exact .cons (Like.of_key head hHead) (LikeAll.of_keys tail hTail)
    · cases hKeys

end

/-- Without floats, lists of values with the same keys are alike, however their functions are
compared. -/
theorem LikeAll.of_keys_eq {vs vs' ws ws' : List Value} {keys : List ArgKey}
    (h : LikeAll False functions vs vs') (h' : LikeAll False functions' ws ws')
    (hLeft : ArgKey.ofValues? vs = some keys) (hRight : ArgKey.ofValues? ws = some keys) :
    LikeAll False functions'' vs ws := by
  have hData : LikeAll False (fun _ _ => False) vs (ArgKey.toValues keys) := h.of_keys hLeft
  have hData' : LikeAll False (fun _ _ => False) ws (ArgKey.toValues keys) := h'.of_keys hRight
  have hSymm : LikeAll False (fun _ _ => False) (ArgKey.toValues keys) ws :=
    LikeAll.symm (fun _ _ hf => hf.elim) hData'
  exact LikeAll.trans (fun _ _ _ hf _ => hf.elim) hData hSymm

mutual

/-- Whether a value is a function or holds one. -/
def holdsFunction : Value → Bool
  | .function _ => true
  | .list items => anyHoldsFunction items
  | .pair head tail => head.holdsFunction || tail.holdsFunction
  | .integer _ | .float _ | .boolean _ | .symbol _ | .void => false

def anyHoldsFunction : List Value → Bool
  | [] => false
  | v :: vs => v.holdsFunction || anyHoldsFunction vs

end

mutual

/-- A value that has a key holds no function. -/
theorem holdsFunction_of_key : ∀ {v : Value} {key : ArgKey}, ArgKey.ofValue? v = some key →
    v.holdsFunction = false
  | .integer _, _, _ | .float _, _, _ | .boolean _, _, _ | .symbol _, _, _ | .void, _, _ => rfl
  | .list items, _, hKey => by
    rw [ArgKey.ofValue?] at hKey
    obtain ⟨keys, hKeys, -⟩ := Option.map_eq_some_iff.1 hKey
    exact anyHoldsFunction_of_keys hKeys
  | .pair head tail, _, hKey => by
    rw [ArgKey.ofValue?] at hKey
    split at hKey
    · rename_i hHead hTail
      rw [holdsFunction, holdsFunction_of_key hHead, holdsFunction_of_key hTail]
      rfl
    · cases hKey
  | .function _, _, hKey => by cases hKey

theorem anyHoldsFunction_of_keys : ∀ {vs : List Value} {keys : List ArgKey},
    ArgKey.ofValues? vs = some keys → anyHoldsFunction vs = false
  | [], _, _ => rfl
  | v :: vs, _, hKeys => by
    rw [ArgKey.ofValues?] at hKeys
    split at hKeys
    · rename_i hHead hTail
      rw [anyHoldsFunction, holdsFunction_of_key hHead, anyHoldsFunction_of_keys hTail]
      rfl
    · cases hKeys

end

mutual

/-- Where there is no function, likeness does not depend on how functions are compared. -/
theorem Like.of_no_function : ∀ {v w : Value}, Like floats functions v w →
    v.holdsFunction = false → Like floats functions' v w
  | _, _, .integer n, _ => .integer n
  | _, _, .float hFloats x, _ => .float hFloats x
  | _, _, .boolean b, _ => .boolean b
  | _, _, .symbol name, _ => .symbol name
  | _, _, .list items, hNone => .list (LikeAll.of_no_function items hNone)
  | _, _, .pair head tail, hNone => by
    rw [holdsFunction, Bool.or_eq_false_iff] at hNone
    exact .pair (Like.of_no_function head hNone.1) (Like.of_no_function tail hNone.2)
  | _, _, .function _ _, hNone => by cases hNone
  | _, _, .void, _ => .void

theorem LikeAll.of_no_function : ∀ {vs ws : List Value}, LikeAll floats functions vs ws →
    anyHoldsFunction vs = false → LikeAll floats functions' vs ws
  | _, _, .nil, _ => .nil
  | _, _, .cons head tail, hNone => by
    rw [anyHoldsFunction, Bool.or_eq_false_iff] at hNone
    exact .cons (Like.of_no_function head hNone.1) (LikeAll.of_no_function tail hNone.2)

end

/-- Comparison does not tell alike values apart, if no function takes part. -/
theorem Like.same_eq_of_no_function {v' w' : Value} (h : Like floats functions v w)
    (h' : Like floats functions v' w') (hNone : v.holdsFunction = false)
    (hNone' : v'.holdsFunction = false) : v.same v' = w.same w' := by
  have hData : Like floats (fun _ _ => False) v w := h.of_no_function hNone
  have hData' : Like floats (fun _ _ => False) v' w' := h'.of_no_function hNone'
  exact hData.same_eq (fun _ _ _ _ hf => hf.elim) hData'

end Value

/-! ### Operations -/

/-- Both results are the same fault, or alike values. -/
inductive Value.LikeResult (floats : Prop) (functions : Closure Value → Closure Value → Prop) :
    Except Fault Value → Except Fault Value → Prop
  | ok {v w : Value} (h : Value.Like floats functions v w) :
      Value.LikeResult floats functions (.ok v) (.ok w)
  | error (f : Fault) : Value.LikeResult floats functions (.error f) (.error f)

namespace Value

variable {floats : Prop} {functions : Closure Value → Closure Value → Prop} {v w v' w' : Value}

theorem Like.cons (head : Like floats functions v w) (tail : Like floats functions v' w') :
    Like floats functions (cons v v') (cons w w') := by
  cases tail with
  | list items => exact .list (.cons head items)
  | _ => exact .pair head (by constructor <;> assumption)

theorem Like.car (h : Like floats functions v w) : LikeResult floats functions v.car w.car := by
  cases h with
  | list items =>
    cases items with
    | nil => exact .error _
    | cons head tail => exact .ok head
  | pair head tail => exact .ok head
  | _ => exact .error _

theorem Like.cdr (h : Like floats functions v w) : LikeResult floats functions v.cdr w.cdr := by
  cases h with
  | list items =>
    cases items with
    | nil => exact .ok (.list .nil)
    | cons head tail => exact .ok (.list tail)
  | pair head tail => exact .ok tail
  | _ => exact .error _

mutual

/-- Alike nodes are alike as data. -/
theorem Like.ofNode {spans : Span → Span → Prop} : ∀ {n m : Node}, Node.Like floats spans n m →
    Like floats functions (ofNode n) (ofNode m)
  | .atom (.int k) _, _, .atom _ _ => .integer k
  | .atom (.float x) _, _, .atom hFloat _ => .float (hFloat x rfl) x
  | .atom (.symbol name) _, _, .atom _ _ => .symbol name
  | _, _, .list _ hItems _ => .list (LikeAll.ofNodes hItems)

theorem LikeAll.ofNodes {spans : Span → Span → Prop} : ∀ {ns ms : List Node},
    Node.LikeAll floats spans ns ms → LikeAll floats functions (ofNodes ns) (ofNodes ms)
  | _, _, .nil => .nil
  | _, _, .cons head tail => .cons (Like.ofNode head) (LikeAll.ofNodes tail)

end

/-- Results of operations on floats are alike as soon as floats may occur. -/
theorem likeResult_floats (hFloats : floats) (op : ArithOp) (x y : Float) :
    LikeResult floats functions (Arith.floats op x y) (Arith.floats op x y) := by
  cases op with
  | divide =>
    rw [Arith.floats]
    split
    · exact .error _
    · exact .ok (.float hFloats _)
  | _ => exact .ok (.float hFloats _)

theorem likeResult_integers {op : ArithOp} (hDivide : op = .divide → floats) (a b : Int64) :
    LikeResult floats functions (Arith.integers op a b) (Arith.integers op a b) := by
  cases op with
  | divide => exact likeResult_floats (hDivide rfl) .divide _ _
  | add | subtract | multiply =>
    rw [Arith.integers, Arith.exactResult?]
    dsimp only
    split
    · exact .ok (.integer _)
    · exact .error _

/-- Outside integers and lists two numbers are combined as floats, and one of them is a float. -/
theorem Like.mixed (op : ArithOp) (h : Like floats functions v w) (h' : Like floats functions v' w')
    (hFloats : v.number?.isSome → v'.number?.isSome → floats) :
    LikeResult floats functions (Arith.mixed op v v') (Arith.mixed op w w') := by
  rw [Arith.mixed, Arith.mixed, ← h.number?_eq, ← h'.number?_eq, ← h.kind_eq, ← h'.kind_eq]
  cases hLeft : v.number? with
  | none => exact .error _
  | some x =>
    cases hRight : v'.number? with
    | none => exact .error _
    | some y =>
      rw [hLeft, hRight] at hFloats
      exact likeResult_floats (hFloats rfl rfl) op x y

theorem Like.combine {op : ArithOp} (hDivide : op = .divide → floats)
    (h : Like floats functions v w) (h' : Like floats functions v' w') :
    LikeResult floats functions (Arith.combine op v v') (Arith.combine op w w') := by
  cases h with
  | integer a =>
    cases h' with
    | integer b => exact likeResult_integers hDivide a b
    | float hFloats y => exact likeResult_floats hFloats op _ y
    | _ => exact .error _
  | float hFloats x => exact Like.mixed op (.float hFloats x) h' fun _ _ => hFloats
  | list items =>
    cases h' with
    | list items' =>
      rw [Arith.combine, Arith.combine]
      split
      · exact .ok (.list (items.append items'))
      · exact .error _
    | _ => exact .error _
  | _ => exact .error _

/-- **Arithmetic on alike values gives alike results.** -/
theorem LikeAll.fold {op : ArithOp} (hDivide : op = .divide → floats) {vs ws : List Value}
    (h : LikeAll floats functions vs ws) :
    LikeResult floats functions (Arith.fold op vs) (Arith.fold op ws) := by
  cases h with
  | nil => exact .error _
  | @cons v w vs ws head tail =>
    show LikeResult _ _ (vs.foldlM (Arith.combine op) v) (ws.foldlM (Arith.combine op) w)
    induction vs generalizing v w ws with
    | nil =>
      cases tail
      exact .ok head
    | cons u vs ih =>
      cases tail with
      | @cons _ u' _ ws next tail =>
        have hStep := head.combine hDivide next
        rw [List.foldlM_cons, List.foldlM_cons]
        generalize Arith.combine op v u = r at hStep
        generalize Arith.combine op w u' = r' at hStep
        cases hStep with
        | ok hValue => exact ih hValue tail
        | error f => exact .error f

end Value

/-! ### Bindings and frames -/

/-- Either both are missing, or both are there and alike. -/
inductive Value.LikeOption (floats : Prop) (functions : Closure Value → Closure Value → Prop) :
    Option Value → Option Value → Prop
  | none : Value.LikeOption floats functions none none
  | some {v w : Value} (h : Value.Like floats functions v w) :
      Value.LikeOption floats functions (some v) (some w)

theorem Value.LikeOption.isSome_eq {floats : Prop} {functions : Closure Value → Closure Value → Prop}
    {r r' : Option Value} (h : Value.LikeOption floats functions r r') : r.isSome = r'.isSome := by
  cases h <;> rfl

theorem Value.LikeOption.mono {floats : Prop} {functions functions' : Closure Value → Closure Value → Prop}
    (h : ∀ f g, functions f g → functions' f g) {r r' : Option Value}
    (hLike : Value.LikeOption floats functions r r') : Value.LikeOption floats functions' r r' := by
  cases hLike with
  | none => exact .none
  | some hValue => exact .some (hValue.mono h)

namespace Bindings

variable {floats : Prop} {functions : Closure Value → Closure Value → Prop} {b c : Bindings Value}

theorem Like.mono {functions' : Closure Value → Closure Value → Prop}
    (h : ∀ f g, functions f g → functions' f g) (hLike : b.Like floats functions c) :
    b.Like floats functions' c :=
  Value.LikeEntries.mono h hLike

theorem like_empty : (empty : Bindings Value).Like floats functions empty := Value.LikeEntries.nil

theorem Like.find? (h : b.Like floats functions c) (name : String) :
    Value.LikeOption floats functions (b.find? name) (c.find? name) := by
  obtain ⟨es⟩ := b
  obtain ⟨fs⟩ := c
  change Value.LikeEntries floats functions es fs at h
  show Value.LikeOption _ _ (findIn? name es) (findIn? name fs)
  induction es generalizing fs with
  | nil =>
    cases h
    exact .none
  | cons e es ih =>
    cases h with
    | cons head tail =>
      rw [findIn?, findIn?]
      split
      · exact .some head
      · exact ih _ tail

theorem Like.insert (h : b.Like floats functions c) (name : String) {v w : Value}
    (hValue : Value.Like floats functions v w) :
    (b.insert name v).Like floats functions (c.insert name w) := by
  obtain ⟨es⟩ := b
  obtain ⟨fs⟩ := c
  change Value.LikeEntries floats functions es fs at h
  show Value.LikeEntries _ _ (insertEntry name v es) (insertEntry name w fs)
  induction es generalizing fs with
  | nil =>
    cases h
    exact .cons hValue .nil
  | cons e es ih =>
    cases h with
    | cons head tail =>
      rw [insertEntry, insertEntry]
      split
      · exact .cons hValue tail
      · split
        · exact .cons hValue (.cons head tail)
        · exact .cons head (ih _ tail)

theorem Like.insertAll (names : List String) {vs ws : List Value}
    (hValues : Value.LikeAll floats functions vs ws) (h : b.Like floats functions c) :
    (b.insertAll (names.zip vs)).Like floats functions (c.insertAll (names.zip ws)) := by
  induction names generalizing vs ws b c with
  | nil => exact h
  | cons name names ih =>
    cases hValues with
    | nil => exact h
    | cons head tail => exact ih tail (h.insert name head)

end Bindings

namespace Frame

variable {floats : Prop} {functions : Closure Value → Closure Value → Prop} {fr fr' : Frame}
  {globals globals' : Bindings Value}

theorem Like.mono {functions' : Closure Value → Closure Value → Prop}
    (h : ∀ f g, functions f g → functions' f g) (hLike : fr.Like floats functions fr') :
    fr.Like floats functions' fr' := by
  cases fr <;> cases fr' <;> try exact hLike
  exact ⟨hLike.1.mono h, hLike.2.mono h⟩

theorem Like.tiers (h : fr.Like floats functions fr') :
    Tiers (Bindings.Like floats functions) (Bindings.Like floats functions) fr fr' := by
  cases fr <;> cases fr' <;> first | exact .top | exact .call h.1 h.2 | exact h.elim

/-- What is found in alike frames is alike, and what is not found in them is looked up among the
globals. -/
theorem Like.lookup_by {P : Option Value → Option Value → Prop} {name : String}
    (h : fr.Like floats functions fr') (hFound : ∀ v v', Value.Like floats functions v v' →
      P (some v) (some v'))
    (hGlobals : fr.lookup .empty name = none → P (globals.find? name) (globals'.find? name)) :
    P (fr.lookup globals name) (fr'.lookup globals' name) := by
  cases h.tiers with
  | top => exact hGlobals rfl
  | @call locals locals' captured captured' hLocals hCaptured =>
    change (locals.find? name <|> captured.find? name <|> (none : Option Value)) = none → _
      at hGlobals
    show P (locals.find? name <|> captured.find? name <|> globals.find? name)
      (locals'.find? name <|> captured'.find? name <|> globals'.find? name)
    have hLocal := hLocals.find? name
    generalize locals.find? name = r at hLocal hGlobals ⊢
    generalize locals'.find? name = r' at hLocal ⊢
    cases hLocal with
    | some hValue => exact hFound _ _ hValue
    | none =>
      have hFarther := hCaptured.find? name
      generalize captured.find? name = r at hFarther hGlobals ⊢
      generalize captured'.find? name = r' at hFarther ⊢
      cases hFarther with
      | some hValue => exact hFound _ _ hValue
      | none => exact hGlobals rfl

theorem Like.lookup (h : fr.Like floats functions fr')
    (hGlobals : globals.Like floats functions globals') (name : String) :
    Value.LikeOption floats functions (fr.lookup globals name) (fr'.lookup globals' name) :=
  h.lookup_by (fun _ _ => .some) fun _ => hGlobals.find? name

theorem Like.innermost (h : fr.Like floats functions fr')
    (hGlobals : globals.Like floats functions globals') :
    (fr.innermost globals).Like floats functions (fr'.innermost globals') := by
  cases fr <;> cases fr' <;> first | exact hGlobals | exact h.1 | exact h.elim

/-- Alike functions run in alike frames. -/
theorem like_closure {f g : Closure Value} {args args' : List Value} (hParams : f.params = g.params)
    (hCaptured : f.captured.Like floats functions g.captured)
    (hArgs : Value.LikeAll floats functions args args') :
    (f.frame args).Like floats functions (g.frame args') := by
  rw [Closure.frame, Closure.frame, hParams]
  exact ⟨Bindings.like_empty.insertAll g.params hArgs, hCaptured⟩

end Frame

end PostLisp

import PostLisp.Value

/-!
# Keys of calls

A call may be remembered by the identity of its function and the keys of its arguments. A key is
the image of a value in a type with decidable equality. A float that denotes an integer of 64 bits
has the key of that integer, so that equal numbers share a key; any other float is known by its
bits. Functions have no key, nor has what is not a number, nor any value that holds one of these.
-/

namespace PostLisp

inductive ArgKey where
  | integer (n : Int64)
  | float (bits : UInt64)
  | boolean (b : Bool)
  | symbol (name : String)
  | list (items : List ArgKey)
  | pair (head tail : ArgKey)
  | void

namespace ArgKey

mutual

def decEq : (k l : ArgKey) → Decidable (k = l)
  | .integer a, .integer b => decidable_of_iff (a = b) (by simp)
  | .float a, .float b => decidable_of_iff (a = b) (by simp)
  | .boolean a, .boolean b => decidable_of_iff (a = b) (by simp)
  | .symbol a, .symbol b => decidable_of_iff (a = b) (by simp)
  | .list ks, .list ls =>
    have := decEqAll ks ls
    decidable_of_iff (ks = ls) (by simp)
  | .pair k l, .pair k' l' =>
    have := decEq k k'
    have := decEq l l'
    decidable_of_iff (k = k' ∧ l = l') (by simp)
  | .void, .void => isTrue rfl
  | .integer _, .float _ | .integer _, .boolean _ | .integer _, .symbol _ | .integer _, .list _
  | .integer _, .pair _ _ | .integer _, .void | .float _, .integer _ | .float _, .boolean _
  | .float _, .symbol _ | .float _, .list _ | .float _, .pair _ _ | .float _, .void
  | .boolean _, .integer _ | .boolean _, .float _ | .boolean _, .symbol _ | .boolean _, .list _
  | .boolean _, .pair _ _ | .boolean _, .void | .symbol _, .integer _ | .symbol _, .float _
  | .symbol _, .boolean _ | .symbol _, .list _ | .symbol _, .pair _ _ | .symbol _, .void
  | .list _, .integer _ | .list _, .float _ | .list _, .boolean _ | .list _, .symbol _
  | .list _, .pair _ _ | .list _, .void | .pair _ _, .integer _ | .pair _ _, .float _
  | .pair _ _, .boolean _ | .pair _ _, .symbol _ | .pair _ _, .list _ | .pair _ _, .void
  | .void, .integer _ | .void, .float _ | .void, .boolean _ | .void, .symbol _ | .void, .list _
  | .void, .pair _ _ => isFalse nofun

def decEqAll : (ks ls : List ArgKey) → Decidable (ks = ls)
  | [], [] => isTrue rfl
  | k :: ks, l :: ls =>
    have := decEq k l
    have := decEqAll ks ls
    decidable_of_iff (k = l ∧ ks = ls) (by simp)
  | [], _ :: _ => isFalse nofun
  | _ :: _, [] => isFalse nofun

end

instance : DecidableEq ArgKey := decEq

/-- Adds a number to a digest. -/
def mix (digest n : Nat) : Nat := (digest * 31 + n) % 1048573

mutual

/-- A number that tells most keys apart. -/
def digest : ArgKey → Nat
  | .integer n => n.toUInt64.toNat
  | .float bits => bits.toNat
  | .boolean b => b.toNat
  | .symbol name => name.toList.foldl (fun d c => mix d c.toNat) 1
  | .list items => digestAll 2 items
  | .pair head tail => mix (mix 3 head.digest) tail.digest
  | .void => 4

def digestAll (start : Nat) : List ArgKey → Nat
  | [] => start
  | k :: ks => digestAll (mix start k.digest) ks

end

/-- The integer of 64 bits that a float denotes, if it denotes one. -/
def wordOfFloat? (x : Float) : Option Int64 := (Number.Binary64.integer? x).bind Number.int64?

def ofFloat? (x : Float) : Option ArgKey :=
  match Number.Binary64.magnitude x with
  | .nan => none
  | _ =>
    match wordOfFloat? x with
    | some n => some (.integer n)
    | none => some (.float x.toBits)

mutual

def ofValue? : Value → Option ArgKey
  | .integer n => some (.integer n)
  | .float x => ofFloat? x
  | .boolean b => some (.boolean b)
  | .symbol name => some (.symbol name)
  | .list items => (ofValues? items).map .list
  | .pair head tail =>
    match ofValue? head, ofValue? tail with
    | some k, some l => some (.pair k l)
    | _, _ => none
  | .function _ => none
  | .void => some .void

/-- The keys of all values, if each has one. -/
def ofValues? : List Value → Option (List ArgKey)
  | [] => some []
  | v :: vs =>
    match ofValue? v, ofValues? vs with
    | some k, some ks => some (k :: ks)
    | _, _ => none

end

end ArgKey

structure CallKey where
  function : Nat
  args : List ArgKey
  deriving DecidableEq

namespace CallKey

def of? (function : Nat) (args : List Value) : Option CallKey :=
  (ArgKey.ofValues? args).map (⟨function, ·⟩)

def digest (key : CallKey) : Nat := ArgKey.digestAll key.function key.args

end CallKey

end PostLisp

/-!
# Digest trees

A digest tree keeps values by keys and finds them by a digest of the key, which is a natural
number. The last binary digits of the digest lead through the tree to the entries whose digests
end in the same way; among these the key itself decides. The digest is a matter of speed only: as
long as equal keys have equal digests, what is found does not depend on it.
-/

namespace PostLisp

/-- A tree that looks at the last `levels` digits of a digest. -/
inductive DigestTree (κ α : Type) : Nat → Type where
  | entries (es : List (κ × α)) : DigestTree κ α 0
  | bare {levels : Nat} : DigestTree κ α (levels + 1)
  | fork {levels : Nat} (even odd : DigestTree κ α levels) : DigestTree κ α (levels + 1)

namespace DigestTree

variable {κ α : Type}

def empty : (levels : Nat) → DigestTree κ α levels
  | 0 => .entries []
  | _ + 1 => .bare

def size : {levels : Nat} → DigestTree κ α levels → Nat
  | _, .entries es => es.length
  | _, .bare => 0
  | _, .fork even odd => even.size + odd.size

@[simp] theorem size_empty (levels : Nat) : (empty levels : DigestTree κ α levels).size = 0 := by
  cases levels <;> rfl

variable [DecidableEq κ]

def findIn? (key : κ) : List (κ × α) → Option α
  | [] => none
  | (other, value) :: rest => if other = key then some value else findIn? key rest

/-- Puts a value in the place of the one with the same key, or at the end. -/
def insertEntry (key : κ) (value : α) : List (κ × α) → List (κ × α)
  | [] => [(key, value)]
  | (other, old) :: rest =>
    if other = key then (key, value) :: rest else (other, old) :: insertEntry key value rest

def find? (key : κ) : {levels : Nat} → DigestTree κ α levels → (digest : Nat) → Option α
  | _, .entries es, _ => findIn? key es
  | _, .bare, _ => none
  | _, .fork even odd, digest =>
    if digest % 2 = 0 then even.find? key (digest / 2) else odd.find? key (digest / 2)

def insert (key : κ) (value : α) :
    {levels : Nat} → DigestTree κ α levels → (digest : Nat) → DigestTree κ α levels
  | 0, .entries es, _ => .entries (insertEntry key value es)
  | levels + 1, .bare, digest =>
    let leaf := (empty levels).insert key value (digest / 2)
    if digest % 2 = 0 then .fork leaf (empty levels) else .fork (empty levels) leaf
  | _ + 1, .fork even odd, digest =>
    if digest % 2 = 0 then .fork (even.insert key value (digest / 2)) odd
    else .fork even (odd.insert key value (digest / 2))

theorem findIn?_insertEntry (key other : κ) (value : α) (es : List (κ × α)) :
    findIn? other (insertEntry key value es) =
      if key = other then some value else findIn? other es := by
  induction es with
  | nil => simp [insertEntry, findIn?]
  | cons entry rest ih =>
    obtain ⟨used, old⟩ := entry
    by_cases hUsed : used = key
    · subst hUsed
      by_cases hOther : used = other <;> simp [insertEntry, findIn?, hOther]
    · by_cases hOther : used = other
      · subst hOther
        simp [insertEntry, findIn?, hUsed, Ne.symm hUsed]
      · simp [insertEntry, findIn?, hUsed, hOther, ih]

theorem length_insertEntry (key : κ) (value : α) (es : List (κ × α)) :
    (insertEntry key value es).length =
      if (findIn? key es).isSome then es.length else es.length + 1 := by
  induction es with
  | nil => simp [insertEntry, findIn?]
  | cons entry rest ih =>
    obtain ⟨used, old⟩ := entry
    by_cases hUsed : used = key
    · simp [insertEntry, findIn?, hUsed]
    · simp only [insertEntry, findIn?, hUsed, if_false, List.length_cons, ih]
      split <;> rfl

@[simp] theorem find?_empty (key : κ) (levels digest : Nat) :
    (empty levels : DigestTree κ α levels).find? key digest = none := by
  cases levels <;> rfl

theorem find?_insert {levels : Nat} (t : DigestTree κ α levels) {key other : κ} (value : α)
    {digest digest' : Nat} (hDigest : key = other → digest = digest') :
    (t.insert key value digest).find? other digest' =
      if key = other then some value else t.find? other digest' := by
  induction levels generalizing digest digest' with
  | zero =>
    cases t with
    | entries es => exact findIn?_insertEntry key other value es
  | succ levels ih =>
    have hHalf : key = other → digest / 2 = digest' / 2 := fun h => by rw [hDigest h]
    by_cases hSame : key = other
    · subst hSame
      have hEq := hDigest rfl
      subst hEq
      cases t with
      | bare =>
        by_cases hEven : digest % 2 = 0 <;> simp [insert, find?, hEven, ih _ hHalf]
      | fork even odd =>
        by_cases hEven : digest % 2 = 0 <;> simp [insert, find?, hEven, ih _ hHalf]
    · have hOther : key = other → digest / 2 = digest' / 2 := fun h => absurd h hSame
      cases t with
      | bare =>
        by_cases hEven : digest % 2 = 0 <;> by_cases hEven' : digest' % 2 = 0 <;>
          simp [insert, find?, hEven, hEven', ih _ hOther, hSame]
      | fork even odd =>
        by_cases hEven : digest % 2 = 0 <;> by_cases hEven' : digest' % 2 = 0 <;>
          simp [insert, find?, hEven, hEven', ih _ hOther, hSame]

theorem size_insert {levels : Nat} (t : DigestTree κ α levels) (key : κ) (value : α)
    (digest : Nat) :
    (t.insert key value digest).size =
      if (t.find? key digest).isSome then t.size else t.size + 1 := by
  induction levels generalizing digest with
  | zero =>
    cases t with
    | entries es => exact length_insertEntry key value es
  | succ levels ih =>
    cases t with
    | bare => by_cases hEven : digest % 2 = 0 <;> simp [insert, find?, size, hEven, ih]
    | fork even odd =>
      by_cases hEven : digest % 2 = 0 <;> simp only [insert, find?, size, hEven, if_true, if_false,
        ih] <;> split <;> omega

end DigestTree

end PostLisp

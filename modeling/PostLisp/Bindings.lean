/-!
# Bindings

Bindings give values to names, one value to a name. They are kept in the order of the names, so
that equal bindings are equal entry by entry, whatever the order in which they were made.
-/

namespace PostLisp

structure Bindings (α : Type) where
  entries : List (String × α)

namespace Bindings

variable {α : Type}

def empty : Bindings α := ⟨[]⟩

instance : Inhabited (Bindings α) := ⟨empty⟩

def findIn? (name : String) : List (String × α) → Option α
  | [] => none
  | (other, value) :: rest => if other = name then some value else findIn? name rest

def insertEntry (name : String) (value : α) : List (String × α) → List (String × α)
  | [] => [(name, value)]
  | (other, old) :: rest =>
    if other = name then (name, value) :: rest
    else if name < other then (name, value) :: (other, old) :: rest
    else (other, old) :: insertEntry name value rest

/-- The value of a name. -/
def find? (b : Bindings α) (name : String) : Option α := findIn? name b.entries

/-- Binds a name, in place of what it was bound to. -/
def insert (b : Bindings α) (name : String) (value : α) : Bindings α :=
  ⟨insertEntry name value b.entries⟩

/-- Binds names one after the other; of a name that comes twice the last value stays. -/
def insertAll (b : Bindings α) (entries : List (String × α)) : Bindings α :=
  entries.foldl (fun b entry => b.insert entry.1 entry.2) b

def names (b : Bindings α) : List String := b.entries.map (·.1)

def size (b : Bindings α) : Nat := b.entries.length

def isEmpty (b : Bindings α) : Bool := b.entries.isEmpty

@[simp] theorem find?_empty (name : String) : (empty : Bindings α).find? name = none := rfl

theorem findIn?_insertEntry (name other : String) (value : α) (entries : List (String × α)) :
    findIn? other (insertEntry name value entries) =
      if name = other then some value else findIn? other entries := by
  induction entries with
  | nil => simp [insertEntry, findIn?]
  | cons entry rest ih =>
    obtain ⟨key, old⟩ := entry
    by_cases hKey : key = name
    · subst hKey
      by_cases hOther : key = other <;> simp [insertEntry, findIn?, hOther]
    · by_cases hLess : name < key
      · simp [insertEntry, hKey, hLess, findIn?]
      · by_cases hOther : key = other
        · subst hOther
          simp [insertEntry, hKey, hLess, findIn?, Ne.symm hKey]
        · simp [insertEntry, hKey, hLess, findIn?, hOther, ih]

theorem find?_insert (b : Bindings α) (name other : String) (value : α) :
    (b.insert name value).find? other = if name = other then some value else b.find? other :=
  findIn?_insertEntry name other value b.entries

/-- The same names with values that `same` takes for equal. -/
def sameEntries (same : α → α → Bool) : List (String × α) → List (String × α) → Bool
  | [], [] => true
  | (name, value) :: rest, (name', value') :: rest' =>
    name == name' && same value value' && sameEntries same rest rest'
  | _, _ => false

instance [BEq α] : BEq (Bindings α) := ⟨fun a b => sameEntries BEq.beq a.entries b.entries⟩

end Bindings

end PostLisp

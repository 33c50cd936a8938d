import PostLisp.Call.DigestTree
import PostLisp.Call.Key

/-!
# The cache of calls

The results of finished calls by their keys, one result to a key. Nothing is ever dropped; a
result stored under a key that is in use takes the place of the older one.
-/

namespace PostLisp

structure Cache where
  results : DigestTree CallKey Value 12

namespace Cache

def empty : Cache := ⟨.empty 12⟩

instance : Inhabited Cache := ⟨empty⟩

def find? (c : Cache) (key : CallKey) : Option Value := c.results.find? key key.digest

def insert (c : Cache) (key : CallKey) (value : Value) : Cache :=
  ⟨c.results.insert key value key.digest⟩

def size (c : Cache) : Nat := c.results.size

def isEmpty (c : Cache) : Bool := c.size == 0

@[simp] theorem find?_empty (key : CallKey) : empty.find? key = none :=
  DigestTree.find?_empty key 12 key.digest

@[simp] theorem size_empty : empty.size = 0 := DigestTree.size_empty 12

theorem find?_insert (c : Cache) (key other : CallKey) (value : Value) :
    (c.insert key value).find? other = if key = other then some value else c.find? other :=
  c.results.find?_insert value fun hSame => congrArg CallKey.digest hSame

theorem size_insert (c : Cache) (key : CallKey) (value : Value) :
    (c.insert key value).size = if (c.find? key).isSome then c.size else c.size + 1 :=
  c.results.size_insert key value key.digest

end Cache

end PostLisp

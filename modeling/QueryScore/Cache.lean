/-
# QueryScore.Cache -- the most recently used results

A cache keeps the values that were computed for the keys used last, at most as many as its
capacity; a capacity of zero keeps nothing. A key that is looked up becomes the most recent
one, and storing a value beyond the capacity drops the least recent one. Looking up and storing
are two steps, because the computation between them may take long.
-/

namespace QueryScore

/-- Values by key, the most recently used first. -/
structure Cache (κ β : Type) where
  /-- The number of values kept. -/
  capacity : Nat
  /-- The keys with their values, the most recently used first. -/
  entries : List (κ × β)
  deriving DecidableEq, Repr

namespace Cache

variable {κ β : Type} [BEq κ]

/-- An empty cache. -/
def ofCapacity (capacity : Nat) : Cache κ β := ⟨capacity, []⟩

/-- The entries of other keys. -/
def others (cache : Cache κ β) (key : κ) : List (κ × β) :=
  cache.entries.filter fun entry => !(entry.1 == key)

/-- The value of a key, and the cache in which that key is the most recent one. -/
def lookup (cache : Cache κ β) (key : κ) : Option β × Cache κ β :=
  match cache.entries.lookup key with
  | some value => (some value, { cache with entries := (key, value) :: cache.others key })
  | none => (none, cache)

/-- The cache with a value for a key, which becomes the most recent one. -/
def store (cache : Cache κ β) (key : κ) (value : β) : Cache κ β :=
  { cache with entries := ((key, value) :: cache.others key).take cache.capacity }

/-- What came of asking for the value of a key. -/
structure Fetched (κ β : Type) where
  /-- The value. -/
  value : β
  /-- It was computed, for it was not kept. -/
  computed : Bool
  /-- The cache afterwards. -/
  cache : Cache κ β

/-- The value of a key, computed and stored if it is not kept. -/
def fetch (cache : Cache κ β) (key : κ) (compute : Unit → β) : Fetched κ β :=
  match cache.lookup key with
  | (some value, next) => ⟨value, false, next⟩
  | (none, next) =>
    let value := compute ()
    ⟨value, true, next.store key value⟩

/-- The number of values kept. -/
def size (cache : Cache κ β) : Nat := cache.entries.length

/-- Nothing is kept. -/
def isEmpty (cache : Cache κ β) : Bool := cache.entries.isEmpty

end Cache

end QueryScore

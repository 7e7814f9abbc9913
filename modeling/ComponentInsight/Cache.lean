import ComponentInsight.Fingerprint
import ComponentInsight.Number.Binary64
import ComponentInsight.Table

/-!
# Caches

A bounded cache keyed by fingerprints that forgets the entry not used for the longest time. A
lookup that finds its key and a store both count as use. Lookups are counted as hits and misses.

A refresh takes the cached value if that is still current and computes a new one otherwise. The
computation may itself use the cache, so a refresh comes in two halves: `probe` before the
computation and `settle` after it.
-/

namespace ComponentInsight

/-- A cache of values. -/
structure Cache (α : Type) where
  /-- Entries from the one used last to the one not used for the longest time. -/
  entries : Table Fingerprint α
  capacity : Nat
  hits : Nat
  misses : Nat
  deriving Repr

/-- Counters and sizes of a cache. -/
structure CacheStats where
  hits : Nat
  misses : Nat
  size : Nat
  capacity : Nat
  deriving DecidableEq, Repr

/-- The fraction of lookups that were hits. -/
def CacheStats.hitRate (s : CacheStats) : Magnitude :=
  if s.hits + s.misses = 0 then Magnitude.zero else Magnitude.ofRatio s.hits (s.hits + s.misses)

namespace Cache

variable {α : Type}

/-- An empty cache; it can always hold one entry. -/
def empty (capacity : Nat) : Cache α := ⟨[], max capacity 1, 0, 0⟩

def size (c : Cache α) : Nat := c.entries.length

def contains (c : Cache α) (key : Fingerprint) : Bool := (c.entries.find? key).isSome

def stats (c : Cache α) : CacheStats := ⟨c.hits, c.misses, c.size, c.capacity⟩

/-- Forget all entries; the counters stay. -/
def clear (c : Cache α) : Cache α := { c with entries := [] }

/-- The other entries of a table. -/
def without (entries : Table Fingerprint α) (key : Fingerprint) : Table Fingerprint α :=
  entries.filter fun e => e.1 != key

/-- The value at a key, which is thereby used. -/
def touch (c : Cache α) (key : Fingerprint) : Option α × Cache α :=
  match c.entries.find? key with
  | some v => (some v, { c with entries := (key, v) :: without c.entries key })
  | none => (none, c)

/-- Store a value; the key forgotten to make room for it, if any. -/
def insert (c : Cache α) (key : Fingerprint) (v : α) : Option Fingerprint × Cache α :=
  let others := without c.entries key
  let evicted := if c.capacity ≤ others.length then others.getLast?.map Prod.fst else none
  (evicted, { c with entries := (key, v) :: others.take (c.capacity - 1) })

def hit (c : Cache α) : Cache α := { c with hits := c.hits + 1 }

def miss (c : Cache α) : Cache α := { c with misses := c.misses + 1 }

/-- Look a key up. -/
def get (c : Cache α) (key : Fingerprint) : Option α × Cache α :=
  match c.touch key with
  | (some v, c) => (some v, c.hit)
  | (none, c) => (none, c.miss)

/-- Look for a current value. One that is not current is a miss, though it is used. -/
def probe (c : Cache α) (key : Fingerprint) (current : α → Bool) : Option α × Cache α :=
  match c.touch key with
  | (some v, c) => if current v then (some v, c.hit) else (none, c.miss)
  | (none, c) => (none, c.miss)

/-- Store a computed value unless a current one has appeared meanwhile; the value that counts. -/
def settle (c : Cache α) (key : Fingerprint) (current : α → Bool) (v : α) : α × Cache α :=
  match c.touch key with
  | (some existing, c) =>
    if current existing then (existing, c) else (v, (c.insert key v).2)
  | (none, c) => (v, (c.insert key v).2)

end Cache

end ComponentInsight

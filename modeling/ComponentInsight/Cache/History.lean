import ComponentInsight.Cache

/-!
# Histories of a cache

Operations on a cache as data, and what a run of them answers. The computation of a refresh may hold
operations of its own; they are run, and reported, before the refresh ends, and not at all when the
cached value is taken.
-/

namespace ComponentInsight

/-- One operation on a cache. A computation may run operations of its own before it returns its
value. -/
inductive CacheAction (α : Type) where
  | get (key : Fingerprint)
  | insert (key : Fingerprint) (value : α)
  /-- Take the value at a key, or compute and store it. -/
  | getOrInsert (key : Fingerprint) (value : α) (inside : List (CacheAction α))
  /-- Take the value at a key if it is current, or compute it, and store it if so told. -/
  | refresh (key : Fingerprint) (value : α) (current : α → Bool) (store : Bool)
    (inside : List (CacheAction α))
  | contains (key : Fingerprint)
  | isEmpty
  | clear
  | hitRate

/-- What an operation answers. -/
inductive CacheAnswer (α : Type) where
  | nothing
  | value (a : α)
  | key (f : Fingerprint)
  | flag (b : Bool)
  | rate (m : Magnitude)
  deriving DecidableEq, Repr

/-- An answered operation with the state of the cache behind it. -/
structure CacheReport (α : Type) where
  answer : CacheAnswer α
  stats : CacheStats
  deriving DecidableEq, Repr

namespace Cache

variable {α : Type}

/-- The end of an operation. -/
def report (answer : CacheAnswer α) (c : Cache α) : List (CacheReport α) × Cache α :=
  ([⟨answer, c.stats⟩], c)

/-- A refresh with the operations its computation runs, if it is needed. -/
def refreshWith (c : Cache α) (key : Fingerprint) (current : α → Bool)
    (compute : Cache α → List (CacheReport α) × Cache α) (store : Bool) (value : α) :
    List (CacheReport α) × Cache α :=
  match c.probe key current with
  | (some v, c) => report (.value v) c
  | (none, c) =>
    let (inner, c) := compute c
    let (v, c) := if store then c.settle key current value else (value, c)
    let (last, c) := report (.value v) c
    (inner ++ last, c)

mutual

/-- Run an operation; those of a computation are reported before the one they belong to. -/
def run (c : Cache α) : CacheAction α → List (CacheReport α) × Cache α
  | .get key =>
    let (v, c) := c.get key
    report (v.elim .nothing .value) c
  | .insert key value =>
    let (evicted, c) := c.insert key value
    report (evicted.elim .nothing .key) c
  | .getOrInsert key value inside =>
    c.refreshWith key (fun _ => true) (fun c => runAll c inside) true value
  | .refresh key value current store inside =>
    c.refreshWith key current (fun c => runAll c inside) store value
  | .contains key => report (.flag (c.contains key)) c
  | .isEmpty => report (.flag (c.size == 0)) c
  | .clear => report .nothing c.clear
  | .hitRate => report (.rate c.stats.hitRate) c

/-- Run operations one after another. -/
def runAll (c : Cache α) : List (CacheAction α) → List (CacheReport α) × Cache α
  | [] => ([], c)
  | a :: rest =>
    let (reports, c) := run c a
    let (more, c) := runAll c rest
    (reports ++ more, c)

end

end Cache

end ComponentInsight

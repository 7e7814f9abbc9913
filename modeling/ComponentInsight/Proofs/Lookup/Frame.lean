import ComponentInsight.Proofs.Lookup.Visits

/-!
# What lookups leave alone

Two frame properties of lookups, for any cache:

* **Counters** (`Workspace.lookup_recount`): what was counted before plays no part in a lookup. It
  is found again in the counters afterwards, and nothing else differs.
* **Keys** (`Workspace.contains_read_eq_false`): a document that is read stores nothing under a key
  that none of the mixins it reaches has.

Both are carried by the recursion of the lookup: the first as an equation, the second as an
invariant of the cache.
-/

namespace ComponentInsight

/-! ### Counters -/

namespace Cache

variable {α : Type} (c : Cache α) (hits misses : Nat)

/-- The cache with more lookups counted. -/
def recount : Cache α := { c with hits := c.hits + hits, misses := c.misses + misses }

/-- Moving an entry to the front does not look at the counters. -/
private theorem touch_recount (key : Fingerprint) :
    (c.recount hits misses).touch key =
      (c.touch key).map id fun c => c.recount hits misses := by
  unfold touch
  have hentries : (c.recount hits misses).entries = c.entries := rfl
  rw [hentries]
  cases c.entries.find? key <;> rfl

private theorem hit_recount : (c.recount hits misses).hit = c.hit.recount hits misses := by
  simp [hit, recount, Nat.add_right_comm]

private theorem miss_recount : (c.recount hits misses).miss = c.miss.recount hits misses := by
  simp [miss, recount, Nat.add_right_comm]

/-- A probe does not look at the counters. -/
private theorem probe_recount (key : Fingerprint) (current : α → Bool) :
    (c.recount hits misses).probe key current =
      (c.probe key current).map id fun c => c.recount hits misses := by
  unfold probe
  rw [touch_recount]
  rcases c.touch key with ⟨_ | v, c'⟩
  · simp [miss_recount]
  · cases hv : current v <;> simp [hv, hit_recount, miss_recount]

private theorem settle_recount (key : Fingerprint) (current : α → Bool) (v : α) :
    (c.recount hits misses).settle key current v =
      (c.settle key current v).map id fun c => c.recount hits misses := by
  have hinsert : ∀ c' : Cache α,
      ((c'.recount hits misses).insert key v).2 = (c'.insert key v).2.recount hits misses :=
    fun _ => rfl
  unfold settle
  rw [touch_recount]
  rcases c.touch key with ⟨_ | existing, c'⟩
  · simp [hinsert]
  · cases hcurrent : current existing <;> simp [hcurrent, hinsert]

end Cache

private theorem Reading.keep_recount (t : FileTree) (key : Fingerprint) (position : Nat)
    (r : Reading) (cache : Cache Record) (hits misses : Nat) :
    r.keep t key position (cache.recount hits misses) =
      (r.keep t key position cache).map id fun c => c.recount hits misses := by
  unfold keep
  split
  · rfl
  · rw [Cache.settle_recount]
    rfl

/-- What has been gathered, with more lookups counted. -/
def Gathered.recount (g : Gathered) (hits misses : Nat) : Gathered :=
  { g with cache := g.cache.recount hits misses }

private theorem Gathered.add_recount (g : Gathered) (path : Path)
    (result : Option Found × Cache Record) (hits misses : Nat) :
    (g.recount hits misses).add path (result.map id fun c => c.recount hits misses) =
      (g.add path result).recount hits misses := by
  rcases result with ⟨_ | found, cache⟩ <;> rfl

namespace Workspace

/-- What is gathered by lookups that leave counters alone leaves them alone too. -/
private theorem gather_recount {w : Workspace}
    {find : Path → Cache Record → Option Found × Cache Record} {stack : List Path} {path : Path}
    {d : Declarations} {hits misses : Nat}
    (hfind : ∀ p ∈ w.freshMixins stack path d, ∀ cache : Cache Record,
      find p (cache.recount hits misses) =
        (find p cache).map id fun c => c.recount hits misses) (cache : Cache Record) :
    w.gather find stack path d (cache.recount hits misses) =
      (w.gather find stack path d cache).recount hits misses := by
  have hfold : ∀ (paths : List Path), paths ⊆ w.freshMixins stack path d → ∀ g : Gathered,
      paths.foldl (fun g p => g.add p (find p g.cache)) (g.recount hits misses) =
        (paths.foldl (fun g p => g.add p (find p g.cache)) g).recount hits misses := by
    intro paths
    induction paths with
    | nil => exact fun _ _ => rfl
    | cons p rest ih =>
      intro hsubset g
      obtain ⟨hp, hrest⟩ := List.cons_subset.mp hsubset
      have hstep : (g.recount hits misses).add p (find p (g.recount hits misses).cache) =
          (g.add p (find p g.cache)).recount hits misses :=
        (congrArg ((g.recount hits misses).add p) (hfind p hp g.cache)).trans
          (g.add_recount p (find p g.cache) hits misses)
      rw [List.foldl_cons, List.foldl_cons, hstep]
      exact ih hrest _
  exact hfold _ (List.Subset.refl _) (.start (w.lowestCut stack path d) cache)

/-- If the lookups of its mixins do not look at the counters, a reading does not. -/
private theorem read_recount_of_lookup {w : Workspace} {stack : List Path} {path : Path}
    {d : Option Declarations} {hits misses : Nat}
    (hlookup : ∀ d' ∈ d, ∀ p ∈ w.freshMixins (stack ++ [path]) path d', ∀ cache : Cache Record,
      w.lookup (stack ++ [path]) p .mixin (cache.recount hits misses) =
        (w.lookup (stack ++ [path]) p .mixin cache).map id fun c => c.recount hits misses)
    (kind : DocumentKind) (cache : Cache Record) :
    w.read stack kind path d (cache.recount hits misses) =
      (w.read stack kind path d cache).map id fun c => c.recount hits misses := by
  cases d with
  | none => rfl
  | some d =>
    dsimp only [read]
    rw [gather_recount (hlookup d rfl)]
    rfl

/-- Lookups are the same whatever was counted before. -/
theorem lookup_recount (w : Workspace) (stack : List Path) (path : Path) (kind : DocumentKind)
    (cache : Cache Record) (hits misses : Nat) :
    w.lookup stack path kind (cache.recount hits misses) =
      (w.lookup stack path kind cache).map id fun c => c.recount hits misses := by
  induction stack, path, kind using w.lookup_induction generalizing cache with
  | step stack path kind ih =>
  rw [lookup_eq, lookup_eq]
  cases hf : w.tree.file? path with
  | none => rfl
  | some f =>
  dsimp only
  rw [Cache.probe_recount]
  rcases cache.probe (f.key path kind) (Record.isCurrent w.tree) with ⟨_ | record, cache'⟩
  · have hread : w.read stack kind path (f.declarations? kind path) (cache'.recount hits misses) =
        (w.read stack kind path (f.declarations? kind path) cache').map id
          fun c => c.recount hits misses :=
      read_recount_of_lookup (fun d hd p hp => ih f d p hf hd hp) kind cache'
    dsimp only [Prod.map, id]
    rw [hread]
    dsimp only [Prod.map, id]
    rw [Reading.keep_recount]
    rfl
  · rfl

/-- Documents are read in the same way whatever was counted before. -/
theorem read_recount (w : Workspace) (stack : List Path) (kind : DocumentKind) (path : Path)
    (d : Option Declarations) (cache : Cache Record) (hits misses : Nat) :
    w.read stack kind path d (cache.recount hits misses) =
      (w.read stack kind path d cache).map id fun c => c.recount hits misses :=
  read_recount_of_lookup (fun _ _ _ _ cache => w.lookup_recount _ _ _ cache hits misses) kind cache

/-! ### Keys -/

/-- Lookups of what a document reaches store nothing under keys that none of it has. -/
private theorem lookupInvariant_keys {w : Workspace} {s : Source} {key : Fingerprint}
    (hkey : ∀ q, w.Reaches s q → w.tree.key? q .mixin ≠ some key) :
    w.LookupInvariant (Cache.All fun k _ => k ≠ key)
      (fun _ path kind => kind = .mixin ∧ w.Reaches s path) (fun _ _ _ _ => True) where
  probe _ _ hI := hI.probe
  hit _ _ _ _ := trivial
  silent _ _ _ _ _ := trivial
  inner {stack path kind f d p} hpre hf hd hp := by
    obtain ⟨rfl, hreaches⟩ := hpre
    have hdeclared : (w.source .mixin path).declarations = some d :=
      (declarations_source hf .mixin).trans hd
    exact ⟨rfl, .step hreaches (mem_mixinsOf_of_mem_freshMixins hdeclared hp)⟩
  read _ _ _ _ _ _ _ := trivial
  settle {stack path kind f cache r} hpre hf hI _ _ := by
    have hne : f.key path kind ≠ key := by
      intro heq
      refine hkey path hpre.2 ?_
      rw [FileTree.key?_of_file? hf, ← hpre.1, heq]
    exact ⟨hI.settle hne, trivial⟩

/-- Reading a document stores nothing under a key that none of the mixins it reaches has. -/
theorem contains_read_eq_false {w : Workspace} {s : Source} {key : Fingerprint}
    (hkey : ∀ q, w.Reaches s q → w.tree.key? q .mixin ≠ some key) {cache : Cache Record}
    (hcache : cache.contains key = false) (stack : List Path) :
    (w.read stack s.kind s.path s.declarations cache).2.contains key = false := by
  cases hd : s.declarations with
  | none => exact hcache
  | some d =>
    rw [Cache.contains_eq_false_iff] at hcache ⊢
    exact ((lookupInvariant_keys hkey).read_document
      (fun p hp => ⟨rfl, .direct (mem_mixinsOf_of_mem_freshMixins hd hp)⟩) hcache).1

end Workspace

end ComponentInsight

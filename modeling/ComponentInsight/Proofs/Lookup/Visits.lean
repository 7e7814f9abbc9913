import ComponentInsight.Proofs.Lookup.Induction

/-!
# The files a lookup visits

A lookup of a file looks its mixins up in turn if it has to read the file. `Workspace.visits` lists
all files that are looked up on the way, the first one in front, each with whether a current record
of it was cached; `Workspace.visitsBelow` lists those that reading a document leads to. Paths
without a file are no visits.

`VisitLaw` says what has to be shown of a relation between a cache, visits and the cache afterwards
**for each step**, so that it holds of whole lookups (`VisitLaw.lookup`). It is used here for two
facts that hold of any cache:

* each visit is counted once, as a hit or as a miss (`Workspace.counts_visits`);
* what is visited below a document are files it reaches (`Workspace.reaches_of_mem_visitsBelow`).
-/

namespace ComponentInsight

/-- A file that exists and is looked up. -/
structure Visit where
  path : Path
  kind : DocumentKind
  /-- Whether a current record of it was cached. -/
  cached : Bool
  deriving DecidableEq

namespace Visit

/-- The file and the way it is read, which are what its record depends on. -/
def document (v : Visit) : Path × DocumentKind := (v.path, v.kind)

end Visit

/-- The documents that had to be read, in order. -/
def readings (log : List Visit) : List (Path × DocumentKind) :=
  (log.filter fun v => !v.cached).map Visit.document

@[simp] theorem readings_nil : readings [] = [] := rfl

@[simp] theorem readings_cached (path : Path) (kind : DocumentKind) (log : List Visit) :
    readings (⟨path, kind, true⟩ :: log) = readings log := rfl

@[simp] theorem readings_read (path : Path) (kind : DocumentKind) (log : List Visit) :
    readings (⟨path, kind, false⟩ :: log) = (path, kind) :: readings log := rfl

@[simp] theorem readings_append (a b : List Visit) :
    readings (a ++ b) = readings a ++ readings b := by
  simp [readings]

/-- A visit finds a current record or reads the document. -/
theorem countP_cached_add (log : List Visit) :
    log.countP Visit.cached + (readings log).length = log.length := by
  rw [readings, List.length_map, ← List.countP_eq_length_filter,
    List.length_eq_countP_add_countP Visit.cached]
  simp

namespace Workspace

/-- The visits of looking things up one after another. -/
def visitsAlong {ι : Type} (next : ι → Cache Record → Cache Record)
    (visits : ι → Cache Record → List Visit) : List ι → Cache Record → List Visit
  | [], _ => []
  | p :: rest, cache => visits p cache ++ visitsAlong next visits rest (next p cache)

/-- The visits of looking a file up while the files of the stack are being read. -/
def visits (w : Workspace) (stack : List Path) (path : Path) (kind : DocumentKind)
    (cache : Cache Record) : List Visit :=
  match _hf : w.tree.file? path with
  | none => []
  | some file =>
    match cache.probe (file.key path kind) (Record.isCurrent w.tree) with
    | (some _, _) => [⟨path, kind, true⟩]
    | (none, cache) =>
      ⟨path, kind, false⟩ ::
        match _hd : file.declarations? kind path with
        | none => []
        | some d =>
          let inner := stack ++ [path]
          let mixins := w.freshMixins inner path d
          visitsAlong
            (fun (p : { p // p ∈ mixins }) cache => (w.lookup inner p.1 .mixin cache).2)
            (fun p cache => w.visits inner p.1 .mixin cache) mixins.attach cache
termination_by w.unseen (stack ++ [path])
decreasing_by
  obtain ⟨hp, hnew⟩ := List.mem_filter.1 p.2
  exact unseen_concat_lt (mem_reach _hf _hd hp) (by simpa using hnew)

/-- The visits of reading a document whose declarations are known. -/
def visitsBelow (w : Workspace) (stack : List Path) (path : Path) (d : Option Declarations)
    (cache : Cache Record) : List Visit :=
  match d with
  | none => []
  | some d =>
    let inner := stack ++ [path]
    visitsAlong (fun p cache => (w.lookup inner p .mixin cache).2)
      (fun p cache => w.visits inner p .mixin cache) (w.freshMixins inner path d) cache

/-- Visits along a list of images are those along the list. -/
private theorem visitsAlong_map {ι κ : Type} (f : ι → κ) (next : κ → Cache Record → Cache Record)
    (visits : κ → Cache Record → List Visit) (l : List ι) (cache : Cache Record) :
    visitsAlong next visits (l.map f) cache =
      visitsAlong (fun p => next (f p)) (fun p => visits (f p)) l cache := by
  induction l generalizing cache with
  | nil => rfl
  | cons p rest ih => simp only [List.map_cons, visitsAlong, ih]

/-- Visiting a file is visiting what it leads to, unless a current record is cached. -/
theorem visits_eq (w : Workspace) (stack : List Path) (path : Path) (kind : DocumentKind)
    (cache : Cache Record) :
    w.visits stack path kind cache =
      match w.tree.file? path with
      | none => []
      | some file =>
        match cache.probe (file.key path kind) (Record.isCurrent w.tree) with
        | (some _, _) => [⟨path, kind, true⟩]
        | (none, cache) =>
          ⟨path, kind, false⟩ ::
            w.visitsBelow stack path (file.declarations? kind path) cache := by
  rw [visits]
  cases w.tree.file? path with
  | none => rfl
  | some file =>
    rcases hprobe : cache.probe (file.key path kind) (Record.isCurrent w.tree) with ⟨_ | _, cache⟩
    · simp only [hprobe]
      cases file.declarations? kind path with
      | none => rfl
      | some d =>
        dsimp only [visitsBelow]
        rw [← visitsAlong_map
          (Subtype.val : { p // p ∈ w.freshMixins (stack ++ [path]) path d } → _)
          (fun p cache => (w.lookup (stack ++ [path]) p .mixin cache).2)
          (fun p cache => w.visits (stack ++ [path]) p .mixin cache), List.attach_map_subtype_val]
    · simp [hprobe]

/-! ### From one step to a whole lookup -/

/-- The cache after reading a document is that after looking up its mixins. -/
theorem read_snd (w : Workspace) (stack : List Path) (kind : DocumentKind) (path : Path)
    (d : Declarations) (cache : Cache Record) :
    (w.read stack kind path (some d) cache).2 =
      (w.freshMixins (stack ++ [path]) path d).foldl
        (fun cache p => (w.lookup (stack ++ [path]) p .mixin cache).2) cache := by
  have hcache : ∀ (g : Gathered) (path : Path) (result : Option Found × Cache Record),
      (g.add path result).cache = result.2 := by
    rintro g path ⟨_ | found, cache⟩ <;> rfl
  have hfold : ∀ (paths : List Path) (g : Gathered),
      (paths.foldl (fun g p => g.add p (w.lookup (stack ++ [path]) p .mixin g.cache)) g).cache =
        paths.foldl (fun cache p => (w.lookup (stack ++ [path]) p .mixin cache).2) g.cache := by
    intro paths
    induction paths with
    | nil => exact fun g => rfl
    | cons p rest ih =>
      intro g
      rw [List.foldl_cons, ih, hcache, List.foldl_cons]
  exact hfold _ _

/-- What has to be shown of a relation between a cache, visits and the cache afterwards, under a
condition `Pre` on which files are looked up. -/
structure VisitLaw (w : Workspace) (Pre : List Path → Path → DocumentKind → Prop)
    (T : Cache Record → List Visit → Cache Record → Prop) : Prop where
  nil (cache) : T cache [] cache
  append {c c' c'' a b} (ha : T c a c') (hb : T c' b c'') : T c (a ++ b) c''
  /-- The condition passes on to mixins. -/
  inner {stack path kind f d p} (hpre : Pre stack path kind) (hf : w.tree.file? path = some f)
    (hd : f.declarations? kind path = some d)
    (hp : p ∈ w.freshMixins (stack ++ [path]) path d) : Pre (stack ++ [path]) p .mixin
  /-- A current record is cached. -/
  hit {stack path kind f cache record} (hpre : Pre stack path kind)
    (hf : w.tree.file? path = some f)
    (hhit : (cache.probe (f.key path kind) (Record.isCurrent w.tree)).1 = some record) :
    T cache [⟨path, kind, true⟩] (cache.probe (f.key path kind) (Record.isCurrent w.tree)).2
  /-- The file is read, and the reading is stored unless it is partial. -/
  miss {stack path kind f cache cache' r} (hpre : Pre stack path kind)
    (hf : w.tree.file? path = some f)
    (hprobe : cache.probe (f.key path kind) (Record.isCurrent w.tree) = (none, cache'))
    (hread : w.read stack kind path (f.declarations? kind path) cache' = r)
    (hbelow : T cache' (w.visitsBelow stack path (f.declarations? kind path) cache') r.2) :
    T cache (⟨path, kind, false⟩ :: w.visitsBelow stack path (f.declarations? kind path) cache')
      (r.1.keep w.tree (f.key path kind) stack.length r.2).2

namespace VisitLaw

variable {w : Workspace} {Pre : List Path → Path → DocumentKind → Prop}
  {T : Cache Record → List Visit → Cache Record → Prop}

/-- A law of lookups holds along a list of them. -/
private theorem along (h : w.VisitLaw Pre T) {next : Path → Cache Record → Cache Record}
    {visits : Path → Cache Record → List Visit} {paths : List Path}
    (hnext : ∀ p ∈ paths, ∀ cache, T cache (visits p cache) (next p cache))
    (cache : Cache Record) :
    T cache (visitsAlong next visits paths cache)
      (paths.foldl (fun cache p => next p cache) cache) := by
  induction paths generalizing cache with
  | nil => exact h.nil cache
  | cons p rest ih =>
    exact h.append (hnext p List.mem_cons_self cache)
      (ih (fun q hq => hnext q (List.mem_cons_of_mem _ hq)) (next p cache))

/-- A law of lookups holds of a reading, if it does of the lookups of its mixins. -/
private theorem read_of_lookup (h : w.VisitLaw Pre T) {stack : List Path} {kind : DocumentKind}
    {path : Path} {d : Option Declarations}
    (hlookup : ∀ d' ∈ d, ∀ p ∈ w.freshMixins (stack ++ [path]) path d', ∀ cache,
      T cache (w.visits (stack ++ [path]) p .mixin cache)
        (w.lookup (stack ++ [path]) p .mixin cache).2) (cache : Cache Record) :
    T cache (w.visitsBelow stack path d cache) (w.read stack kind path d cache).2 := by
  cases d with
  | none => exact h.nil cache
  | some d =>
    rw [read_snd]
    exact h.along (hlookup d rfl) cache

/-- What holds of every step holds of a whole lookup. -/
theorem lookup (h : w.VisitLaw Pre T) {stack : List Path} {path : Path} {kind : DocumentKind}
    (hpre : Pre stack path kind) (cache : Cache Record) :
    T cache (w.visits stack path kind cache) (w.lookup stack path kind cache).2 := by
  induction stack, path, kind using w.lookup_induction generalizing cache with
  | step stack path kind ih =>
  rw [lookup_eq, visits_eq]
  cases hf : w.tree.file? path with
  | none => exact h.nil cache
  | some f =>
  dsimp only
  rcases hprobe : cache.probe (f.key path kind) (Record.isCurrent w.tree) with ⟨_ | record, cache'⟩
  · exact h.miss hpre hf hprobe rfl (h.read_of_lookup
      (fun d hd p hp => ih f d p hf hd hp (h.inner hpre hf hd hp)) cache')
  · have hhit := h.hit hpre hf (congrArg Prod.fst hprobe)
    rwa [hprobe] at hhit

/-- What holds of every step holds of reading a document. -/
theorem read (h : w.VisitLaw Pre T) {stack : List Path} (kind : DocumentKind) {path : Path}
    {d : Option Declarations}
    (hpre : ∀ d' ∈ d, ∀ p ∈ w.freshMixins (stack ++ [path]) path d', Pre (stack ++ [path]) p .mixin)
    (cache : Cache Record) :
    T cache (w.visitsBelow stack path d cache) (w.read stack kind path d cache).2 :=
  h.read_of_lookup (fun d' hd p hp => h.lookup (hpre d' hd p hp)) cache

end VisitLaw

/-! ### Counting visits -/

/-- The counters after some visits. -/
structure Counts (c : Cache Record) (log : List Visit) (c' : Cache Record) : Prop where
  hits : c'.hits = c.hits + log.countP Visit.cached
  misses : c'.misses = c.misses + (readings log).length

/-- Each visit is counted once. -/
theorem visitLaw_counts (w : Workspace) : w.VisitLaw (fun _ _ _ => True) Counts where
  nil cache := ⟨rfl, rfl⟩
  append ha hb := by
    constructor
    · rw [hb.hits, ha.hits, List.countP_append, Nat.add_assoc]
    · rw [hb.misses, ha.misses, readings_append, List.length_append, Nat.add_assoc]
  inner _ _ _ _ := trivial
  hit _ _ hhit := by
    rw [Cache.probe_snd_of_some hhit, Cache.touch_snd]
    exact ⟨rfl, rfl⟩
  miss {_ _ _ _ cache cache' r} _ _ hprobe _ hbelow := by
    have hmiss := Cache.probe_snd_of_none (congrArg Prod.fst hprobe)
    rw [hprobe, Cache.touch_snd] at hmiss
    dsimp only at hmiss
    have hkeep : ∀ (key : Fingerprint) (n : Nat),
        (r.1.keep w.tree key n r.2).2.hits = r.2.hits ∧
          (r.1.keep w.tree key n r.2).2.misses = r.2.misses := by
      intro key n
      unfold Reading.keep
      split
      · exact ⟨rfl, rfl⟩
      · dsimp only
        rw [Cache.settle_snd]
        exact ⟨rfl, rfl⟩
    constructor
    · rw [(hkeep _ _).1, hbelow.hits, hmiss]
      rfl
    · rw [(hkeep _ _).2, hbelow.misses, hmiss, readings_read, List.length_cons, Cache.miss]
      dsimp only
      omega

/-- Each visit of a lookup is counted once, as a hit or as a miss. -/
theorem counts_visits (w : Workspace) (stack : List Path) (path : Path) (kind : DocumentKind)
    (cache : Cache Record) :
    Counts cache (w.visits stack path kind cache) (w.lookup stack path kind cache).2 :=
  w.visitLaw_counts.lookup trivial cache

/-! ### Where visits lead -/

/-- Lookups stay within documents that are closed under mixins. -/
theorem visitLaw_mem {w : Workspace} {docs : Set (Path × DocumentKind)}
    (hclosed : ∀ x ∈ docs, ∀ p ∈ w.mixinsOf (w.source x.2 x.1), (p, .mixin) ∈ docs) :
    w.VisitLaw (fun _ path kind => (path, kind) ∈ docs)
      (fun _ log _ => ∀ v ∈ log, v.document ∈ docs) where
  nil _ := by simp
  append ha hb v hv := (List.mem_append.mp hv).elim (ha v) (hb v)
  inner {stack path kind f d p} hpre hf hd hp := by
    have hdeclared : (w.source kind path).declarations = some d :=
      (declarations_source hf kind).trans hd
    exact hclosed _ hpre p (mem_mixinsOf_of_mem_freshMixins hdeclared hp)
  hit hpre _ _ v hv := by
    obtain rfl := List.mem_singleton.mp hv
    exact hpre
  miss hpre _ _ _ hbelow v hv := by
    rcases List.mem_cons.mp hv with rfl | hv
    · exact hpre
    · exact hbelow v hv

/-- What is visited below a document are files it reaches, read as mixins. -/
theorem reaches_of_mem_visitsBelow {w : Workspace} {s : Source} {stack : List Path}
    {cache : Cache Record} {v : Visit}
    (hv : v ∈ w.visitsBelow stack s.path s.declarations cache) :
    v.kind = .mixin ∧ w.Reaches s v.path := by
  have hlaw : w.VisitLaw (fun _ path kind => kind = .mixin ∧ w.Reaches s path)
      (fun _ log _ => ∀ v ∈ log, v.kind = .mixin ∧ w.Reaches s v.path) :=
    visitLaw_mem fun x (hx : x.2 = .mixin ∧ w.Reaches s x.1) p hp =>
      ⟨rfl, .step hx.2 (hx.1 ▸ hp)⟩
  exact hlaw.read s.kind
    (fun d hd p hp => ⟨rfl, .direct (mem_mixinsOf_of_mem_freshMixins hd hp)⟩) cache v hv

end Workspace

end ComponentInsight

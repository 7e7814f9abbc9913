import ComponentInsight.Proofs.Lookup.Versions
import ComponentInsight.Proofs.Lookup.Visits

/-!
# What lookups store

`Workspace.Stores` tells which records a lookup puts into the cache: the one of the file itself, if
that has to be read and the reading is not partial, and those that looking up its mixins puts there.
**Nothing else** gets into the cache (`Workspace.all_lookup`), and a script that is asked for and
not cached is stored, whatever cycles it is in (`Workspace.stores_self`).

As long as the cache holds faithful records, all that is stored is faithful
(`Versions.faithful_of_stores`). The dependencies of a faithful record of a script are **exactly**
the other files that the script reaches, with the keys these have (`Record.Faithful.listsReached`):
a dependency is reached by a chain of mixins, and a chain that comes back to the script can be cut
short there, so that no part of it was left out.
-/

namespace ComponentInsight

/-- A record that is put into the cache of files, under the key of the file it was made for. -/
structure Store where
  path : Path
  kind : DocumentKind
  key : Fingerprint
  record : Record

namespace Workspace

variable {w : Workspace} {stack : List Path} {path : Path} {kind : DocumentKind}
  {cache : Cache Record} {store : Store}

/-! ### Mixins, one after another -/

/-- The cache after looking up some mixins. -/
def lookupAll (w : Workspace) (stack paths : List Path) (cache : Cache Record) : Cache Record :=
  paths.foldl (fun cache p => (w.lookup stack p .mixin cache).2) cache

/-- Looking up one more document comes after all others. -/
private theorem lookupAll_concat (w : Workspace) (stack paths : List Path) (p : Path)
    (cache : Cache Record) :
    w.lookupAll stack (paths ++ [p]) cache =
      (w.lookup stack p .mixin (w.lookupAll stack paths cache)).2 := by
  simp [lookupAll]

/-- What whole lookups keep is kept by several of them. -/
theorem LookupInvariant.lookupAll {I : Cache Record → Prop}
    {Pre : List Path → Path → DocumentKind → Prop}
    {Post : List Path → Path → DocumentKind → Reading → Prop} (h : w.LookupInvariant I Pre Post)
    {paths : List Path} (hpre : ∀ p ∈ paths, Pre stack p .mixin) (hI : I cache) :
    I (w.lookupAll stack paths cache) := by
  induction paths generalizing cache with
  | nil => exact hI
  | cons p rest ih =>
    exact ih (fun q hq => hpre q (List.mem_cons_of_mem _ hq))
      (h.lookup (hpre p List.mem_cons_self) hI).1

/-! ### Records that are stored -/

/-- What looking a file up puts into the cache while the files of the stack are being read. -/
inductive Stores (w : Workspace) :
    List Path → Path → DocumentKind → Cache Record → Store → Prop where
  /-- The file itself, if it is read, not partially, and no current record has appeared
  meanwhile. -/
  | own {stack path kind f cache cache' r files} (hf : w.tree.file? path = some f)
    (hprobe : cache.probe (f.key path kind) (Record.isCurrent w.tree) = (none, cache'))
    (hread : w.read stack kind path (f.declarations? kind path) cache' = (r, files))
    (hwhole : r.isPartial stack.length = false)
    (habsent : (files.probe (f.key path kind) (Record.isCurrent w.tree)).1 = none) :
    Stores w stack path kind cache ⟨path, kind, f.key path kind, r.record⟩
  /-- What looking up one of its mixins stores, after those in front of it. -/
  | mixin {stack path kind f cache cache' d front p back store}
    (hf : w.tree.file? path = some f)
    (hprobe : cache.probe (f.key path kind) (Record.isCurrent w.tree) = (none, cache'))
    (hd : f.declarations? kind path = some d)
    (hmixins : w.freshMixins (stack ++ [path]) path d = front ++ p :: back)
    (h : Stores w (stack ++ [path]) p .mixin (w.lookupAll (stack ++ [path]) front cache') store) :
    Stores w stack path kind cache store

/-- What reading a document puts into the cache by looking up its mixins. -/
def StoresBelow (w : Workspace) (stack : List Path) (path : Path) (d : Option Declarations)
    (cache : Cache Record) (store : Store) : Prop :=
  ∃ d' ∈ d, ∃ front p back, w.freshMixins (stack ++ [path]) path d' = front ++ p :: back ∧
    w.Stores (stack ++ [path]) p .mixin (w.lookupAll (stack ++ [path]) front cache) store

/-- What is stored below a document that is read is stored by its lookup. -/
private theorem StoresBelow.stores {f : File} {cache' : Cache Record}
    (hf : w.tree.file? path = some f)
    (hprobe : cache.probe (f.key path kind) (Record.isCurrent w.tree) = (none, cache'))
    (h : w.StoresBelow stack path (f.declarations? kind path) cache' store) :
    w.Stores stack path kind cache store := by
  obtain ⟨d, hd, front, p, back, hmixins, h⟩ := h
  exact .mixin hf hprobe hd hmixins h

/-- Records are stored under the keys that the files have. -/
theorem Stores.key?_eq (h : w.Stores stack path kind cache store) :
    w.tree.key? store.path store.kind = some store.key := by
  induction h with
  | own hf => exact FileTree.key?_of_file? hf _
  | mixin _ _ _ _ _ ih => exact ih

/-! ### Nothing else is stored -/

section All

variable {P : Fingerprint → Record → Prop}

private theorem all_read_of_lookup {d : Option Declarations}
    (hlookup : ∀ d' ∈ d, ∀ p ∈ w.freshMixins (stack ++ [path]) path d', ∀ cache : Cache Record,
      cache.All P → (∀ store, w.Stores (stack ++ [path]) p .mixin cache store →
        P store.key store.record) → (w.lookup (stack ++ [path]) p .mixin cache).2.All P)
    (hcache : cache.All P)
    (hstores : ∀ store, w.StoresBelow stack path d cache store → P store.key store.record) :
    (w.read stack kind path d cache).2.All P := by
  cases d with
  | none => exact hcache
  | some d =>
    -- from the end of the front, where the last lookup meets the cache that the others leave
    have hfront : ∀ front back, w.freshMixins (stack ++ [path]) path d = front ++ back →
        (w.lookupAll (stack ++ [path]) front cache).All P := by
      intro front
      induction front using List.reverseRecOn with
      | nil => exact fun _ _ => hcache
      | append_singleton front p ih =>
        intro back hmixins
        rw [List.append_assoc, List.singleton_append] at hmixins
        rw [lookupAll_concat]
        exact hlookup d rfl p (by simp [hmixins]) _ (ih _ hmixins) fun store h =>
          hstores store ⟨d, rfl, front, p, back, hmixins, h⟩
    rw [read_snd]
    exact hfront _ [] (List.append_nil _).symm

/-- What holds of the entries of the cache and of all that is stored holds of the entries
afterwards. -/
theorem all_lookup (hcache : cache.All P)
    (hstores : ∀ store, w.Stores stack path kind cache store → P store.key store.record) :
    (w.lookup stack path kind cache).2.All P := by
  induction stack, path, kind using w.lookup_induction generalizing cache with
  | step stack path kind ih =>
  rw [lookup_eq]
  cases hf : w.tree.file? path with
  | none => exact hcache
  | some f =>
  dsimp only
  rcases hprobe : cache.probe (f.key path kind) (Record.isCurrent w.tree) with ⟨_ | record, cache'⟩
  swap
  · exact hcache.of_probe_eq hprobe
  have hread : (w.read stack kind path (f.declarations? kind path) cache').2.All P :=
    all_read_of_lookup (fun d hd p hp cache => ih f d p hf hd hp)
      (hcache.of_probe_eq hprobe) fun store h => hstores store (h.stores hf hprobe)
  dsimp only
  rcases hr : w.read stack kind path (f.declarations? kind path) cache' with ⟨r, files⟩
  rw [hr] at hread
  unfold Reading.keep
  cases hwhole : r.isPartial stack.length with
  | true => exact hread
  | false =>
    cases habsent : (files.probe (f.key path kind) (Record.isCurrent w.tree)).1 with
    | none => exact hread.settle (hstores _ (.own hf hprobe hr hwhole habsent))
    | some existing =>
      -- the current record that has appeared stays
      rw [Cache.probe_fst, Option.filter_eq_some_iff] at habsent
      simp only [Cache.settle_of_current habsent.1 habsent.2]
      exact hread.touch

/-- What holds of the entries of the cache and of all that reading a document stores holds of the
entries afterwards. -/
theorem all_read {d : Option Declarations} (hcache : cache.All P)
    (hstores : ∀ store, w.StoresBelow stack path d cache store → P store.key store.record) :
    (w.read stack kind path d cache).2.All P :=
  all_read_of_lookup (fun _ _ _ _ _ => all_lookup) hcache hstores

end All

/-! ### Scripts that are asked for -/

/-- Reading a script stores nothing under its own key: below it, the script is on the stack. -/
private theorem lookupInvariant_script {p : Path} {f : File} (hf : w.tree.file? p = some f)
    (hinj : Set.InjOn FileKey.fingerprint (w.familyKeys p)) :
    w.LookupInvariant
      (Cache.All fun key record => key = f.key p .mixin → record.isCurrent w.tree = false)
      (fun stack path kind => kind = .mixin ∧ w.Reaches (w.source .mixin p) path ∧ p ∈ stack ∧
        p.same path = false)
      (fun _ _ _ _ => True) where
  probe _ _ hI := hI.probe
  hit _ _ _ _ := trivial
  silent _ _ _ _ _ := trivial
  inner {stack path kind g d q} hpre hg hd hq := by
    obtain ⟨rfl, hreaches, hmem, -⟩ := hpre
    have hdeclared : (w.source .mixin path).declarations = some d :=
      (declarations_source hg .mixin).trans hd
    have hmem' : p ∈ stack ++ [path] := List.mem_append_left _ hmem
    exact ⟨rfl, .step hreaches (mem_mixinsOf_of_mem_freshMixins hdeclared hq), hmem',
      same_eq_false_of_mem_freshMixins hq hmem'⟩
  read _ _ _ _ _ _ _ := trivial
  settle {stack path kind g cache r} hpre hg hI _ _ := by
    obtain ⟨rfl, hreaches, -, hne⟩ := hpre
    -- the key would tell that it is the script itself
    have hkey : g.key path .mixin = f.key p .mixin → r.record.isCurrent w.tree = false := by
      intro hkey
      have hmem : FileKey.mk g.modified path .mixin ∈ w.familyKeys p :=
        ⟨rfl, .inr hreaches, g, hg, rfl⟩
      have hself : FileKey.mk f.modified p .mixin ∈ w.familyKeys p :=
        ⟨rfl, w.self_mem_family p, f, hf, rfl⟩
      obtain ⟨-, rfl, -⟩ := FileKey.mk.inj (hinj hmem hself hkey)
      simp at hne
    exact ⟨hI.settle hkey, trivial⟩

/-- A script that is asked for is stored unless a current record of it is cached. -/
theorem stores_self {p : Path} {f : File} (hf : w.tree.file? p = some f)
    (hinj : Set.InjOn FileKey.fingerprint (w.familyKeys p))
    (hcache : cache.All fun key record => key = f.key p .mixin →
      record.isCurrent w.tree = false) :
    ∃ record, w.Stores [] p .mixin cache ⟨p, .mixin, f.key p .mixin, record⟩ := by
  have habsent : ∀ c : Cache Record, (c.All fun key record => key = f.key p .mixin →
      record.isCurrent w.tree = false) →
        (c.probe (f.key p .mixin) (Record.isCurrent w.tree)).1 = none := by
    intro c hc
    refine Option.eq_none_iff_forall_ne_some.mpr fun record hrecord => ?_
    obtain ⟨hstale, hcurrent⟩ := hc.of_probe hrecord
    simp [hstale rfl] at hcurrent
  -- at the bottom of the stack no reading is partial
  refine ⟨_, .own hf (Prod.ext (habsent cache hcache) rfl) rfl (Reading.isPartial_zero _)
    (habsent _ ?_)⟩
  cases hd : f.declarations? .mixin p with
  | none => exact hcache.probe
  | some d =>
    have hdeclared : (w.source .mixin p).declarations = some d :=
      (declarations_source hf .mixin).trans hd
    have hmem : p ∈ [] ++ [p] := by simp
    exact ((lookupInvariant_script hf hinj).read_document (fun q hq =>
      ⟨rfl, .direct (mem_mixinsOf_of_mem_freshMixins hdeclared hq), hmem,
        same_eq_false_of_mem_freshMixins hq hmem⟩) hcache.probe).1

end Workspace

/-! ### What stored records tell -/

namespace Versions

variable {V : Versions} {w : Workspace} {stack : List Path} {cache : Cache Record} {store : Store}

/-- When a mixin is looked up, those in front of it have kept the invariant. -/
private theorem all_front {s : Source} (hw : V.Admits w s) (hcache : cache.All V.FileEntry)
    {d : Declarations} (hd : s.declarations = some d) {front back : List Path} {p : Path}
    (hmixins : w.freshMixins (stack ++ [s.path]) s.path d = front ++ p :: back) :
    V.AdmitsFile w p .mixin ∧
      (w.lookupAll (stack ++ [s.path]) front cache).All V.FileEntry := by
  have hadmits : ∀ q ∈ front ++ p :: back, V.AdmitsFile w q .mixin := by
    intro q hq
    rw [← hmixins] at hq
    exact hw.mixin (Workspace.mem_mixinsOf_of_mem_freshMixins hd hq)
  exact ⟨hadmits p (by simp), (V.lookupInvariant w).lookupAll
    (fun q hq => hadmits q (List.mem_append_left _ hq)) hcache⟩

/-- All records that a lookup stores are faithful. -/
theorem faithful_of_stores {path : Path} {kind : DocumentKind} (hw : V.AdmitsFile w path kind)
    (hcache : cache.All V.FileEntry) (h : w.Stores stack path kind cache store) :
    store.record.Faithful w (w.source store.kind store.path) := by
  induction h with
  | @own stack path kind f cache cache' r files hf hprobe hread hwhole _ =>
    have hprobed : cache'.All V.FileEntry := hcache.of_probe_eq hprobe
    have hfaithful := (read hw.toAdmits hprobed stack).2
    rw [Workspace.declarations_source hf, Workspace.kind_source, Workspace.path_source,
      hread] at hfaithful
    exact hfaithful.whole hwhole
  | @mixin stack path kind f cache cache' d front p back store hf hprobe hd hmixins _ ih =>
    have hprobed : cache'.All V.FileEntry := hcache.of_probe_eq hprobe
    obtain ⟨hp, hfront⟩ := all_front hw.toAdmits hprobed
      ((Workspace.declarations_source hf kind).trans hd) hmixins
    exact ih hp hfront

/-- All records that reading a document stores are faithful. -/
theorem faithful_of_storesBelow {s : Source} (hw : V.Admits w s) (hcache : cache.All V.FileEntry)
    (h : w.StoresBelow stack s.path s.declarations cache store) :
    store.record.Faithful w (w.source store.kind store.path) := by
  obtain ⟨d, hd, front, p, back, hmixins, h⟩ := h
  obtain ⟨hp, hfront⟩ := all_front hw hcache hd hmixins
  exact faithful_of_stores hp hfront h

end Versions

/-! ### Dependencies -/

/-- The dependencies are the files that a script reaches, other than itself, with their keys. -/
structure Record.ListsReached (w : Workspace) (p : Path) (record : Record) : Prop where
  reaches : ∀ x ∈ record.mixins, w.Reaches (w.source .mixin p) x.path
  key : ∀ x ∈ record.mixins, w.tree.key? x.path .mixin = some x.key
  covers : ∀ q, w.Reaches (w.source .mixin p) q → p.same q = false →
    ∃ x ∈ record.mixins, x.path.same q = true

/-- The dependencies of a faithful record of a script are the other files it reaches. -/
theorem Record.Faithful.listsReached {w : Workspace} {p : Path} {record : Record}
    (h : record.Faithful w (w.source .mixin p)) : record.ListsReached w p where
  reaches x hx := by
    obtain ⟨c, hc, -⟩ := h.reached x hx
    exact hc.reaches
  key x hx := Dependency.isCurrent_iff.mp (h.current x hx)
  covers q hq hne := by
    -- only chains that do not come back to the script are known to be covered
    obtain ⟨c, hc⟩ := hq.exists_chain
    rcases Workspace.exists_chain_avoiding hc with hsame | ⟨b, hb, havoid, -⟩
    · simp [hsame] at hne
    · exact h.exists_dependency hb havoid

end ComponentInsight

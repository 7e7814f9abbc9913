import ComponentInsight.Lookup
import ComponentInsight.Proofs.Cache.Entries
import ComponentInsight.Proofs.Mixins.Chains

/-!
# Induction over lookups

A lookup recurses through the mixins of a file and carries the cache along, so a fact about its
result needs a fact about all records the cache may hold, and the other way round. `LookupInvariant`
lists what has to be shown **once for each step** of the algorithm: a hit, a reading put together
from the readings of the mixins, and storing it. `LookupInvariant.lookup` and
`LookupInvariant.read_document` conclude for whole runs.

The induction follows the mixins that a lookup follows. It ends since each of them is new on the
stack, so that fewer paths are unseen from there (`Workspace.lookup_induction`).

`Workspace.assemble` is the reading of a document as a function of the mixins that were found; the
lemmas behind it say what it passes on: their dependencies, and the lowest cut
(`Reading.CutsAt`).
-/

namespace ComponentInsight

namespace Reading

/-- A mixin at this position of the stack, or at a lower one, was left out. -/
def CutsAt (r : Reading) (position : Nat) : Prop := ∃ c ∈ r.cut, c ≤ position

/-- What is left out by a reading that is not partial stands at its own position or above. -/
theorem le_of_cutsAt {r : Reading} {n position : Nat} (h : r.isPartial n = false)
    (hcut : r.CutsAt position) : n ≤ position := by
  obtain ⟨c, hc, hle⟩ := hcut
  have hn : ¬ c < n := by simpa [isPartial, Option.mem_def.mp hc] using h
  omega

/-- At the bottom of the stack nothing is left out. -/
@[simp]
theorem isPartial_zero (r : Reading) : r.isPartial 0 = false := by
  simp [isPartial]

/-- What was read at the bottom of the stack is stored. -/
theorem keep_zero (t : FileTree) (key : Fingerprint) (r : Reading) (cache : Cache Record) :
    r.keep t key 0 cache =
      (⟨(cache.settle key (Record.isCurrent t) r.record).1, r.cut⟩,
        (cache.settle key (Record.isCurrent t) r.record).2) := by
  rw [keep, isPartial_zero]
  rfl

end Reading

namespace Workspace

/-! ### Putting a reading together -/

/-- The lowest of a cut and the cuts of the mixins that were found. -/
def lowest (cut : Option Nat) (found : List (Path × Found)) : Option Nat :=
  found.foldl (fun cut e => Option.merge min cut e.2.reading.cut) cut

/-- The reading of a document whose mixins were found, in order. -/
def assemble (w : Workspace) (stack : List Path) (kind : DocumentKind) (path : Path)
    (d : Declarations) (found : List (Path × Found)) : Reading :=
  ⟨⟨w.merge kind path d (found.map fun e => e.2.reading.record.metadata),
      found.flatMap fun e => ⟨e.1, e.2.key⟩ :: e.2.reading.record.mixins⟩,
    lowest (w.lowestCut stack path d) found⟩

private theorem merge_min_le {a b : Option Nat} {c : Nat} (h : c ∈ a ∨ c ∈ b) :
    ∃ m ∈ Option.merge min a b, m ≤ c := by
  cases a with
  | none => cases b <;> simp_all [Option.merge]
  | some a =>
    cases b with
    | none => simp_all [Option.merge]
    | some b =>
      refine ⟨min a b, rfl, ?_⟩
      simp only [Option.mem_some_iff] at h
      omega

/-- The lowest cut is no higher than any of those it is taken from. -/
private theorem exists_mem_lowest {cut : Option Nat} {found : List (Path × Found)} {c : Nat}
    (h : c ∈ cut ∨ ∃ e ∈ found, c ∈ e.2.reading.cut) : ∃ m ∈ lowest cut found, m ≤ c := by
  induction found generalizing cut c with
  | nil =>
    rcases h with h | ⟨e, he, -⟩
    · exact ⟨c, h, Nat.le_refl c⟩
    · simp at he
  | cons e rest ih =>
    have hstep : lowest cut (e :: rest) = lowest (Option.merge min cut e.2.reading.cut) rest := rfl
    rw [hstep]
    have hfirst : (c ∈ cut ∨ c ∈ e.2.reading.cut) →
        ∃ m ∈ lowest (Option.merge min cut e.2.reading.cut) rest, m ≤ c := by
      intro h
      obtain ⟨m, hm, hmc⟩ := merge_min_le h
      obtain ⟨m', hm', hle⟩ := ih (.inl hm)
      exact ⟨m', hm', Nat.le_trans hle hmc⟩
    rcases h with h | ⟨e', he', hc⟩
    · exact hfirst (.inl h)
    · rcases List.mem_cons.mp he' with rfl | he'
      · exact hfirst (.inr hc)
      · exact ih (.inr ⟨e', he', hc⟩)

/-- A mixin that is on the stack cuts the reading there. -/
theorem cutsAt_assemble_of_onStack {w : Workspace} {stack : List Path} {kind : DocumentKind}
    {path p y : Path} {d : Declarations} {found : List (Path × Found)} {j : Nat}
    (hp : p ∈ w.mixinPaths path d) (hj : stack[j]? = some y) (hsame : y.same p = true) :
    (w.assemble stack kind path d found).CutsAt j := by
  obtain ⟨hlt, rfl⟩ := List.getElem?_eq_some_iff.mp hj
  obtain ⟨i, hi⟩ : ∃ i, stack.findIdx? (fun q => q.same p) = some i := by
    apply Option.isSome_iff_exists.mp
    rw [List.findIdx?_isSome, List.any_eq_true]
    exact ⟨stack[j], List.getElem_mem hlt, hsame⟩
  -- the cut is at the first position of the path, which may be lower
  have hij : i ≤ j := by
    by_contra hlt'
    obtain ⟨_, _, hfirst⟩ := List.findIdx?_eq_some_iff_getElem.mp hi
    exact absurd hsame (by simpa using hfirst j (by omega))
  have hmem : i ∈ (w.mixinPaths path d).filterMap fun p => stack.findIdx? fun q => q.same p :=
    List.mem_filterMap.mpr ⟨p, hp, hi⟩
  obtain ⟨m, hm⟩ : ∃ m, w.lowestCut stack path d = some m := by
    cases hmin : w.lowestCut stack path d with
    | none => simp [List.min?_eq_none_iff.mp hmin] at hmem
    | some m => exact ⟨m, rfl⟩
  have hmi : m ≤ i := (List.min?_eq_some_iff.mp hm).2 i hmem
  obtain ⟨c, hc, hcm⟩ : ∃ c ∈ lowest (w.lowestCut stack path d) found, c ≤ m :=
    exists_mem_lowest (.inl hm)
  exact ⟨c, hc, by omega⟩

/-- A mixin that was cut cuts the reading at the same place. -/
theorem cutsAt_assemble_of_mem {w : Workspace} {stack : List Path} {kind : DocumentKind}
    {path : Path} {d : Declarations} {found : List (Path × Found)} {e : Path × Found} {j : Nat}
    (he : e ∈ found) (hcut : e.2.reading.CutsAt j) :
    (w.assemble stack kind path d found).CutsAt j := by
  obtain ⟨c, hc, hcj⟩ := hcut
  obtain ⟨m, hm, hmc⟩ : ∃ m ∈ lowest (w.lowestCut stack path d) found, m ≤ c :=
    exists_mem_lowest (.inr ⟨e, he, hc⟩)
  exact ⟨m, hm, Nat.le_trans hmc hcj⟩

/-- What is recorded for a document are the mixins found, and what is recorded for these. -/
theorem mem_mixins_assemble {w : Workspace} {stack : List Path} {kind : DocumentKind} {path : Path}
    {d : Declarations} {found : List (Path × Found)} {x : Dependency} :
    x ∈ (w.assemble stack kind path d found).record.mixins ↔
      ∃ e ∈ found, x = ⟨e.1, e.2.key⟩ ∨ x ∈ e.2.reading.record.mixins := by
  simp [assemble, List.mem_flatMap]

/-! ### The mixins of a document, one after another -/

/-- A fold of lookups that all find something, as a list of what they found. -/
private theorem foldl_add_spec {I : Cache Record → Prop} {Q : Path → Found → Prop}
    {find : Path → Cache Record → Option Found × Cache Record} {paths : List Path}
    (hfind : ∀ p ∈ paths, ∀ cache, I cache →
      I (find p cache).2 ∧ ∃ f, (find p cache).1 = some f ∧ Q p f)
    (g : Gathered) (hg : I g.cache) :
    ∃ found : List (Path × Found), found.map Prod.fst = paths ∧ (∀ e ∈ found, Q e.1 e.2) ∧
      ∃ cache, I cache ∧ paths.foldl (fun g p => g.add p (find p g.cache)) g =
        { metadata := g.metadata ++ found.map fun e => e.2.reading.record.metadata
          mixins := g.mixins ++ found.flatMap fun e => ⟨e.1, e.2.key⟩ :: e.2.reading.record.mixins
          cut := lowest g.cut found
          cache } := by
  induction paths generalizing g with
  | nil => exact ⟨[], rfl, by simp, g.cache, hg, by simp [lowest]⟩
  | cons p rest ih =>
    obtain ⟨hI, f, hf, hQ⟩ := hfind p List.mem_cons_self g.cache hg
    have hadd : g.add p (find p g.cache) =
        { metadata := g.metadata ++ [f.reading.record.metadata]
          mixins := g.mixins ++ ⟨p, f.key⟩ :: f.reading.record.mixins
          cut := Option.merge min g.cut f.reading.cut
          cache := (find p g.cache).2 } := by
      rw [← Prod.eta (find p g.cache), hf]
      rfl
    obtain ⟨found, hpaths, hall, cache, hcache, heq⟩ :=
      ih (fun q hq => hfind q (List.mem_cons_of_mem _ hq)) (g.add p (find p g.cache))
        (by rw [hadd]; exact hI)
    refine ⟨(p, f) :: found, by simp [hpaths], ?_, cache, hcache, ?_⟩
    · intro e he
      rcases List.mem_cons.mp he with rfl | he
      · exact hQ
      · exact hall e he
    · rw [List.foldl_cons, heq, hadd]
      simp [lowest]

/-- Reading a document looks up its mixins, one after another, and puts them together. -/
theorem read_spec {w : Workspace} {I : Cache Record → Prop} {Q : Path → Found → Prop}
    {stack : List Path} {kind : DocumentKind} {path : Path} {d : Declarations}
    (hfind : ∀ p ∈ w.freshMixins (stack ++ [path]) path d, ∀ cache, I cache →
      I (w.lookup (stack ++ [path]) p .mixin cache).2 ∧
        ∃ f, (w.lookup (stack ++ [path]) p .mixin cache).1 = some f ∧ Q p f)
    {cache : Cache Record} (hI : I cache) :
    I (w.read stack kind path (some d) cache).2 ∧
      ∃ found : List (Path × Found),
        found.map Prod.fst = w.freshMixins (stack ++ [path]) path d ∧
          (∀ e ∈ found, Q e.1 e.2) ∧
          (w.read stack kind path (some d) cache).1 =
            w.assemble (stack ++ [path]) kind path d found := by
  obtain ⟨found, hpaths, hall, cache', hcache', heq⟩ :=
    foldl_add_spec hfind (.start (w.lowestCut (stack ++ [path]) path d) cache) hI
  have hread : w.read stack kind path (some d) cache =
      (w.assemble (stack ++ [path]) kind path d found, cache') := by
    simp only [read, gather]
    rw [heq]
    simp [conclude, assemble, Gathered.start]
  rw [hread]
  exact ⟨hcache', found, hpaths, hall, rfl⟩

/-! ### Whole lookups -/

/-- What is followed is a mixin of the document. -/
theorem mem_mixinsOf_of_mem_freshMixins {w : Workspace} {stack : List Path} {s : Source}
    {d : Declarations} {p : Path} (hd : s.declarations = some d)
    (hp : p ∈ w.freshMixins stack s.path d) : p ∈ w.mixinsOf s := by
  rw [mixinsOf, hd]
  exact (List.mem_filter.mp hp).1

/-- What is followed is not on the stack. -/
theorem same_eq_false_of_mem_freshMixins {w : Workspace} {stack : List Path} {path p q : Path}
    {d : Declarations} (hp : p ∈ w.freshMixins stack path d) (hq : q ∈ stack) :
    q.same p = false := by
  have hnew : onStack stack p = false := by simpa using (List.mem_filter.mp hp).2
  simpa using List.any_eq_false.mp hnew q hq

/-- A mixin that is followed is new on the stack, so fewer paths are unseen from there. -/
theorem unseen_lt_of_mem_freshMixins {w : Workspace} {stack : List Path} {path p : Path} {f : File}
    {kind : DocumentKind} {d : Declarations} (hf : w.tree.file? path = some f)
    (hd : f.declarations? kind path = some d) (hp : p ∈ w.freshMixins (stack ++ [path]) path d) :
    w.unseen (stack ++ [path] ++ [p]) < w.unseen (stack ++ [path]) := by
  obtain ⟨hmem, hnew⟩ := List.mem_filter.mp hp
  exact unseen_concat_lt (mem_reach hf hd hmem) (by simpa using hnew)

/-- What holds of a file whenever it holds of the mixins that are followed from there holds of every
file, whatever is on the stack. -/
theorem lookup_induction (w : Workspace) {motive : List Path → Path → DocumentKind → Prop}
    (step : ∀ stack path kind, (∀ f d p, w.tree.file? path = some f →
      f.declarations? kind path = some d → p ∈ w.freshMixins (stack ++ [path]) path d →
        motive (stack ++ [path]) p .mixin) → motive stack path kind)
    (stack : List Path) (path : Path) (kind : DocumentKind) : motive stack path kind := by
  induction hn : w.unseen (stack ++ [path]) using Nat.strongRecOn generalizing stack path kind with
  | _ n ih =>
    refine step stack path kind fun f d p hf hd hp => ih _ ?_ _ _ _ rfl
    rw [← hn]
    exact unseen_lt_of_mem_freshMixins hf hd hp

/-- A lookup finds a file exactly if there is one, and under its key. -/
theorem lookup_fst_map_key (w : Workspace) (stack : List Path) (path : Path) (kind : DocumentKind)
    (cache : Cache Record) :
    (w.lookup stack path kind cache).1.map Found.key = w.tree.key? path kind := by
  rw [lookup_eq, FileTree.key?]
  cases w.tree.file? path with
  | none => rfl
  | some f =>
    dsimp only
    split <;> rfl

/-- What has to hold at every step of a lookup, for an invariant `I` of the cache, a condition `Pre`
under which files are looked up and a property `Post` of the readings. -/
structure LookupInvariant (w : Workspace) (I : Cache Record → Prop)
    (Pre : List Path → Path → DocumentKind → Prop)
    (Post : List Path → Path → DocumentKind → Reading → Prop) : Prop where
  /-- Looking a key up keeps the invariant. -/
  probe {stack path kind f cache} (hpre : Pre stack path kind) (hf : w.tree.file? path = some f)
    (hI : I cache) : I (cache.probe (f.key path kind) (Record.isCurrent w.tree)).2
  /-- A current record has the property. -/
  hit {stack path kind f cache record} (hpre : Pre stack path kind)
    (hf : w.tree.file? path = some f) (hI : I cache)
    (hhit : (cache.probe (f.key path kind) (Record.isCurrent w.tree)).1 = some record) :
    Post stack path kind ⟨record, none⟩
  /-- A file that declares nothing has the property. -/
  silent {stack path kind f cache} (hpre : Pre stack path kind) (hf : w.tree.file? path = some f)
    (hI : I cache)
    (hmiss : (cache.probe (f.key path kind) (Record.isCurrent w.tree)).1 = none)
    (hd : f.declarations? kind path = none) : Post stack path kind .empty
  /-- The condition passes on to mixins. -/
  inner {stack path kind f d p} (hpre : Pre stack path kind) (hf : w.tree.file? path = some f)
    (hd : f.declarations? kind path = some d)
    (hp : p ∈ w.freshMixins (stack ++ [path]) path d) : Pre (stack ++ [path]) p .mixin
  /-- A file has the property if its mixins have. -/
  read {stack path kind f cache d} {found : List (Path × Found)} (hpre : Pre stack path kind)
    (hf : w.tree.file? path = some f) (hI : I cache)
    (hmiss : (cache.probe (f.key path kind) (Record.isCurrent w.tree)).1 = none)
    (hd : f.declarations? kind path = some d)
    (hpaths : found.map Prod.fst = w.freshMixins (stack ++ [path]) path d)
    (hfound : ∀ e ∈ found, w.tree.key? e.1 .mixin = some e.2.key ∧
      Post (stack ++ [path]) e.1 .mixin e.2.reading) :
    Post stack path kind (w.assemble (stack ++ [path]) kind path d found)
  /-- Storing a reading that is not partial keeps the invariant, and what counts from then on has
  the property. -/
  settle {stack path kind f cache r} (hpre : Pre stack path kind)
    (hf : w.tree.file? path = some f) (hI : I cache) (hr : Post stack path kind r)
    (hwhole : r.isPartial stack.length = false) :
    I (cache.settle (f.key path kind) (Record.isCurrent w.tree) r.record).2 ∧
      Post stack path kind
        ⟨(cache.settle (f.key path kind) (Record.isCurrent w.tree) r.record).1, r.cut⟩

/-- A lookup of a file of the tree finds it. -/
theorem exists_lookup_eq_some {w : Workspace} {path : Path} (h : w.tree.isFile path = true)
    (stack : List Path) (kind : DocumentKind) (cache : Cache Record) :
    ∃ found, (w.lookup stack path kind cache).1 = some found ∧
      w.tree.key? path kind = some found.key := by
  have hkey := w.lookup_fst_map_key stack path kind cache
  obtain ⟨f, hf⟩ := Option.isSome_iff_exists.mp h
  rw [FileTree.key?_of_file? hf] at hkey ⊢
  obtain ⟨found, hfound, hkey⟩ := Option.map_eq_some_iff.mp hkey
  exact ⟨found, hfound, congrArg some hkey.symm⟩

namespace LookupInvariant

variable {w : Workspace} {I : Cache Record → Prop} {Pre : List Path → Path → DocumentKind → Prop}
  {Post : List Path → Path → DocumentKind → Reading → Prop}

/-- If lookups of the mixins of a document have the property, the document is put together from
readings that have it. -/
private theorem read_of_lookup {stack : List Path} {kind : DocumentKind} {path : Path}
    {d : Declarations} {cache : Cache Record}
    (hlookup : ∀ p ∈ w.freshMixins (stack ++ [path]) path d, ∀ cache, I cache →
      I (w.lookup (stack ++ [path]) p .mixin cache).2 ∧
        ∀ found, (w.lookup (stack ++ [path]) p .mixin cache).1 = some found →
          Post (stack ++ [path]) p .mixin found.reading)
    (hI : I cache) :
    I (w.read stack kind path (some d) cache).2 ∧
      ∃ found : List (Path × Found),
        found.map Prod.fst = w.freshMixins (stack ++ [path]) path d ∧
          (∀ e ∈ found, w.tree.key? e.1 .mixin = some e.2.key ∧
            Post (stack ++ [path]) e.1 .mixin e.2.reading) ∧
          (w.read stack kind path (some d) cache).1 =
            w.assemble (stack ++ [path]) kind path d found := by
  have hfind : ∀ p ∈ w.freshMixins (stack ++ [path]) path d, ∀ cache, I cache →
      I (w.lookup (stack ++ [path]) p .mixin cache).2 ∧
        ∃ f, (w.lookup (stack ++ [path]) p .mixin cache).1 = some f ∧
          (w.tree.key? p .mixin = some f.key ∧ Post (stack ++ [path]) p .mixin f.reading) := by
    intro p hp cache hI
    obtain ⟨hI', hpost⟩ := hlookup p hp cache hI
    obtain ⟨found, hfound, hkey⟩ :=
      exists_lookup_eq_some (isFile_of_mem_mixinPaths (List.mem_filter.mp hp).1)
        (stack ++ [path]) .mixin cache
    exact ⟨hI', found, hfound, hkey, hpost found hfound⟩
  exact read_spec hfind hI

/-- Whether a reading is stored or not, the invariant is kept and the property holds. -/
private theorem keep (h : w.LookupInvariant I Pre Post) {stack : List Path} {path : Path}
    {kind : DocumentKind} {f : File} {cache : Cache Record} {r : Reading}
    (hpre : Pre stack path kind) (hf : w.tree.file? path = some f) (hI : I cache)
    (hr : Post stack path kind r) :
    I (r.keep w.tree (f.key path kind) stack.length cache).2 ∧
      Post stack path kind (r.keep w.tree (f.key path kind) stack.length cache).1 := by
  unfold Reading.keep
  cases hwhole : r.isPartial stack.length with
  | true => exact ⟨hI, hr⟩
  | false => exact h.settle hpre hf hI hr hwhole

/-- What holds at every step holds of a whole lookup. -/
theorem lookup (h : w.LookupInvariant I Pre Post) {stack : List Path} {path : Path}
    {kind : DocumentKind} {cache : Cache Record} (hpre : Pre stack path kind) (hI : I cache) :
    I (w.lookup stack path kind cache).2 ∧
      ∀ found, (w.lookup stack path kind cache).1 = some found →
        Post stack path kind found.reading := by
  induction stack, path, kind using w.lookup_induction generalizing cache with
  | step stack path kind ih =>
  rw [lookup_eq]
  cases hf : w.tree.file? path with
  | none => exact ⟨hI, by simp⟩
  | some f =>
  have hprobe := h.probe hpre hf hI
  dsimp only
  rcases hprobed : cache.probe (f.key path kind) (Record.isCurrent w.tree) with ⟨_ | record, cache'⟩
  · have hmiss := congrArg Prod.fst hprobed
    rw [hprobed] at hprobe
    obtain ⟨hI', hpost⟩ : I (w.read stack kind path (f.declarations? kind path) cache').2 ∧
        Post stack path kind (w.read stack kind path (f.declarations? kind path) cache').1 := by
      cases hd : f.declarations? kind path with
      | none => exact ⟨hprobe, h.silent hpre hf hI hmiss hd⟩
      | some d =>
        have hlookup : ∀ p ∈ w.freshMixins (stack ++ [path]) path d, ∀ cache, I cache →
            I (w.lookup (stack ++ [path]) p .mixin cache).2 ∧
              ∀ found, (w.lookup (stack ++ [path]) p .mixin cache).1 = some found →
                Post (stack ++ [path]) p .mixin found.reading :=
          fun p hp cache hI => ih f d p hf hd hp (h.inner hpre hf hd hp) hI
        obtain ⟨hI', found, hpaths, hall, hread⟩ := read_of_lookup hlookup hprobe
        exact ⟨hI', hread ▸ h.read hpre hf hI hmiss hd hpaths hall⟩
    obtain ⟨hkept, hpost⟩ := h.keep hpre hf hI' hpost
    refine ⟨hkept, fun found hfound => ?_⟩
    obtain rfl := Option.some.inj hfound
    exact hpost
  · rw [hprobed] at hprobe
    refine ⟨hprobe, fun found hfound => ?_⟩
    obtain rfl := Option.some.inj hfound
    exact h.hit hpre hf hI (congrArg Prod.fst hprobed)

/-- What holds at every step holds of the mixins a document is put together from. -/
theorem read_document (h : w.LookupInvariant I Pre Post) {stack : List Path} {kind : DocumentKind}
    {path : Path} {d : Declarations} {cache : Cache Record}
    (hpre : ∀ p ∈ w.freshMixins (stack ++ [path]) path d, Pre (stack ++ [path]) p .mixin)
    (hI : I cache) :
    I (w.read stack kind path (some d) cache).2 ∧
      ∃ found : List (Path × Found),
        found.map Prod.fst = w.freshMixins (stack ++ [path]) path d ∧
          (∀ e ∈ found, w.tree.key? e.1 .mixin = some e.2.key ∧
            Post (stack ++ [path]) e.1 .mixin e.2.reading) ∧
          (w.read stack kind path (some d) cache).1 =
            w.assemble (stack ++ [path]) kind path d found :=
  read_of_lookup (fun p hp _ hI => h.lookup (hpre p hp) hI) hI

end LookupInvariant

/-- Looking a buffer up takes a current record, or reads the buffer and stores what was read. -/
theorem lookupBuffer_spec {w : Workspace} {I : Cache Record → Prop}
    {P : Fingerprint → Record → Prop} {Q : Record → Prop} {text : String} {path : Path}
    {buffers files : Cache Record}
    (hcurrent : ∀ record, P (bufferKey text path) record → record.isCurrent w.tree = true →
      Q record)
    (hread : ∀ r files', w.read [] .componentsOnly path
      (Declarations.ofDocument .componentsOnly path text).toOption files = (r, files') →
        I files' ∧ P (bufferKey text path) r.record ∧ Q r.record)
    (hbuffers : buffers.All P) (hfiles : I files) :
    (w.lookupBuffer text path buffers files).2.1.All P ∧
      I (w.lookupBuffer text path buffers files).2.2 ∧
      Q (w.lookupBuffer text path buffers files).1 := by
  unfold lookupBuffer
  dsimp only
  rcases hprobed : buffers.probe (bufferKey text path) (Record.isCurrent w.tree)
    with ⟨_ | record, buffers'⟩
  · have hprobe : buffers'.All P := hbuffers.of_probe_eq hprobed
    obtain ⟨hI, hP, hQ⟩ := hread _ _ rfl
    dsimp only
    rw [Reading.keep_zero]
    refine ⟨hprobe.settle hP, hI, ?_⟩
    rcases hprobe.of_settle with heq | ⟨hother, hother'⟩
    · rw [heq]
      exact hQ
    · exact hcurrent _ hother hother'
  · obtain ⟨hP, hrecord⟩ := hbuffers.of_probe (congrArg Prod.fst hprobed)
    exact ⟨hbuffers.of_probe_eq hprobed, hfiles, hcurrent record hP hrecord⟩

end Workspace

end ComponentInsight

import ComponentInsight.Proofs.Lookup.Versions

/-!
# The order of names

Names come out in order of first declaration, those of mixins before those of the document. In a
cycle of mixins this order depends on where the cycle is entered: the file that is looked up first
puts its own names last, and later lookups find it in the cache that way.

`Leads x y l` says that `y` stands in `l` only behind `x`. Let a script `q` reach another one `a`,
and let each of them declare a prop of its own. Then a lookup of `q` in an empty cache stores it
with the prop of `a` leading (`Workspace.leading_lookup`). From then on, as long as nothing is
forgotten, every reading has the prop of `a` leading (`Workspace.Leading.lookup`).
-/

namespace ComponentInsight

/-! ### One name before another -/

/-- Wherever `y` stands in the list, `x` stands before it. -/
def Leads (x y : String) (l : List String) : Prop := ∀ a b, l = a ++ y :: b → x ∈ a

namespace Leads

variable {x y : String} {l m : List String}

private theorem of_notMem (h : y ∉ l) : Leads x y l := by
  rintro a b rfl
  simp at h

/-- Names that are there do not lead one another. -/
theorem notMem (hxy : Leads x y l) (hyx : Leads y x l) : y ∉ l := by
  intro hy
  -- before the first `y` stands an `x`, and before that another `y`
  obtain ⟨a, b, rfl, hfirst⟩ := List.eq_append_cons_of_mem hy
  obtain ⟨c, d, rfl⟩ := List.append_of_mem (hxy a b rfl)
  have hc : y ∈ c := hyx c (d ++ y :: b) (by simp)
  exact hfirst (List.mem_append_left _ hc)

private theorem append_singleton {b : String} (h : Leads x y l) (hb : b = y → x ∈ l) :
    Leads x y (l ++ [b]) := by
  intro a c heq
  rcases List.eq_nil_or_concat c with rfl | ⟨c, z, rfl⟩
  · obtain ⟨rfl, hz⟩ := List.append_inj' heq rfl
    exact hb (by simpa using hz)
  · have hl : l = a ++ y :: c := by
      have heq' : l ++ [b] = (a ++ y :: c) ++ [z] := by simpa using heq
      exact (List.append_inj' heq' rfl).1
    exact h a c hl

/-- Adding `y` leaves `x` in the lead if `x` is there already. -/
private theorem add {b : String} (h : Leads x y l) (hb : b = y → x ∈ l) :
    Leads x y (Distinct.add l b) := by
  unfold Distinct.add
  split
  · exact h
  · exact h.append_singleton hb

/-- Adding names keeps the lead, if `x` is there already or leads among them. -/
theorem addAll (h : Leads x y l) (hm : x ∈ l ∨ Leads x y m) : Leads x y (Distinct.addAll l m) := by
  induction m using List.reverseRecOn with
  | nil => exact h
  | append_singleton m b ih =>
    have hstep : Distinct.addAll l (m ++ [b]) = Distinct.add (Distinct.addAll l m) b := by
      simp [Distinct.addAll]
    rw [hstep]
    refine add (ih ?_) fun hb => Distinct.mem_addAll.mpr ?_
    · refine hm.imp_right fun hm a c heq => hm a (c ++ [b]) ?_
      simp [heq]
    · exact hm.imp_right fun hm => hm m [] (by rw [hb])

end Leads

namespace Workspace

/-- What leads among the names of all mixins leads among those that are taken over. -/
theorem leads_inherited {x y : String} {kind : DocumentKind} {mixins : List Metadata} {f : Facet}
    (h : ∀ m ∈ mixins, Leads x y (m.names f)) : Leads x y ((inherited kind mixins).names f) := by
  suffices hbase : ∀ base : Metadata, Leads x y (base.names f) →
      Leads x y ((mixins.foldl (fun m mixin => m.inherit kind mixin) base).names f) from
    hbase .empty (.of_notMem (by simp))
  induction mixins with
  | nil => exact fun _ hbase => hbase
  | cons m rest ih =>
    intro base hbase
    refine ih (fun m' hm' => h m' (List.mem_cons_of_mem _ hm')) _ ?_
    rw [Metadata.names_inherit]
    split
    · exact hbase.addAll (.inr (h m List.mem_cons_self))
    · exact hbase

/-- A name keeps the lead that it has in all mixins if the document does not declare the other name,
or if it is one of those taken over. -/
theorem leads_assemble {w : Workspace} {x y : String} {stack : List Path} {kind : DocumentKind}
    {path : Path} {d : Declarations} {found : List (Path × Found)} {f : Facet}
    (hfound : ∀ e ∈ found, Leads x y (e.2.reading.record.metadata.names f))
    (hd : y ∉ w.declaredNames path d f ∨ x ∉ w.declaredNames path d f ∧
      x ∈ (w.assemble stack kind path d found).record.metadata.names f) :
    Leads x y ((w.assemble stack kind path d found).record.metadata.names f) := by
  have hinherited : Leads x y
      ((inherited kind (found.map fun e => e.2.reading.record.metadata)).names f) := by
    refine leads_inherited fun m hm => ?_
    obtain ⟨e, he, rfl⟩ := List.mem_map.mp hm
    exact hfound e he
  rw [assemble, names_merge] at hd ⊢
  rcases hd with hy | ⟨hx, hmem⟩
  · exact hinherited.addAll (.inr (.of_notMem hy))
  · exact hinherited.addAll (.inl ((Distinct.mem_addAll.mp hmem).resolve_right hx))

/-- A document that declares something declares the names of its declarations. -/
theorem mem_names_own {w : Workspace} {s : Source} {d : Declarations}
    (hd : s.declarations = some d) {f : Facet} {name : String} :
    name ∈ (w.own s).names f ↔ name ∈ w.declaredNames s.path d f := by
  simp [own, hd, names_merge, mem_names_inherited]

/-! ### Files with names of their own -/

/-- Each file of a family declares a prop that no other one declares. -/
def Marked (w : Workspace) (p : Path) (mark : Path → String) : Prop :=
  ∀ q ∈ w.family p, ∀ q' ∈ w.family p,
    mark q ∈ (w.own (w.source .mixin q')).names .props ↔ q = q'

/-- What a file reaches is within the reach of the workspace. -/
theorem Reaches.mem_reach {w : Workspace} {kind : DocumentKind} {p q : Path}
    (h : w.Reaches (w.source kind p) q) : q ∈ w.reach := by
  have hmixins : ∀ {kind : DocumentKind} {p q : Path}, q ∈ w.mixinsOf (w.source kind p) →
      q ∈ w.reach := by
    intro kind p q hq
    unfold mixinsOf source at hq
    cases hf : w.tree.file? p with
    | none => simp [hf] at hq
    | some f =>
      cases hd : f.declarations? kind p with
      | none => simp [hf, hd] at hq
      | some d => exact Workspace.mem_reach hf hd (by simpa [hf, hd] using hq)
  cases h with
  | direct h => exact hmixins h
  | step _ h => exact hmixins h

/-- A list has the fingerprints that the files of a family are cached under. -/
def CoversFamily (w : Workspace) (p : Path) (keys : List Fingerprint) : Prop :=
  ∀ q ∈ w.family p, ∀ key ∈ w.tree.key? q .mixin, key ∈ keys

/-- A family has finitely many fingerprints. -/
theorem exists_coversFamily (w : Workspace) (p : Path) : ∃ keys, w.CoversFamily p keys := by
  refine ⟨(p :: w.reach).filterMap fun q => w.tree.key? q .mixin, fun q hq key hkey => ?_⟩
  refine List.mem_filterMap.mpr ⟨q, ?_, hkey⟩
  rcases hq with rfl | hq
  · exact List.mem_cons_self
  · exact List.mem_cons_of_mem _ hq.mem_reach

/-! ### Lookups in a cache that forgets nothing -/

/-- The cache has room for some keys and no others, one name leads another one in all its records,
and, if `stored`, it has a current record at a key. -/
structure Leading (w : Workspace) (keys : List Fingerprint) (x y : String) (key : Fingerprint)
    (stored : Prop) (cache : Cache Record) : Prop where
  within : cache.Within keys
  leads : cache.All fun _ record => Leads x y (record.metadata.names .props)
  found (h : stored) : ∃ record, cache.entries.find? key = some record ∧
    record.isCurrent w.tree = true

variable {w : Workspace} {p q : Path} {mark : Path → String} {file : File}
  {keys : List Fingerprint}

theorem Leading.probe {x y : String} {key k : Fingerprint} {stored : Prop} {cache : Cache Record}
    (h : w.Leading keys x y key stored cache) :
    w.Leading keys x y key stored (cache.probe k (Record.isCurrent w.tree)).2 where
  within := h.within.probe
  leads := h.leads.probe
  found hstored := by
    obtain ⟨record, hfind, hcurrent⟩ := h.found hstored
    refine ⟨record, ?_, hcurrent⟩
    rw [Cache.probe_entries, Cache.find?_touch, hfind]

/-- While a marked file is stored or on the stack, lookups keep a name in the lead of its mark: no
file that is read declares the mark. -/
theorem leadingInvariant (hmarked : w.Marked p mark) (hcovers : w.CoversFamily p keys)
    (hq : q ∈ w.family p) (hfile : w.tree.file? q = some file) (x : String) (stored : Prop) :
    w.LookupInvariant (w.Leading keys x (mark q) (file.key q .mixin) stored)
      (fun stack path kind =>
        kind = .mixin ∧ path ∈ w.family p ∧ (¬ stored → q ∈ stack ∧ path ≠ q))
      (fun _ _ _ r => Leads x (mark q) (r.record.metadata.names .props)) where
  probe _ _ hI := hI.probe
  hit _ _ hI hhit := (hI.leads.of_probe hhit).1
  silent _ _ _ _ _ := .of_notMem (by simp [Reading.empty, Record.empty])
  inner {stack path kind f d r} hpre hf hd hr := by
    obtain ⟨rfl, hpath, hstack⟩ := hpre
    have hdeclared : (w.source .mixin path).declarations = some d :=
      (declarations_source hf .mixin).trans hd
    have hreach : w.Reaches (w.source .mixin path) r :=
      .direct (mem_mixinsOf_of_mem_freshMixins hdeclared hr)
    refine ⟨rfl, mem_family_of_reaches hpath hreach, fun hstored => ?_⟩
    have hon : q ∈ stack ++ [path] := List.mem_append_left _ (hstack hstored).1
    refine ⟨hon, ?_⟩
    rintro rfl
    simpa using same_eq_false_of_mem_freshMixins hr hon
  read {stack path kind f cache d found} hpre hf hI hmiss hd _ hfound := by
    obtain ⟨rfl, hpath, hstack⟩ := hpre
    -- a stored file is not read again, and one on the stack is left out
    have hne : path ≠ q := by
      by_cases hstored : stored
      · rintro rfl
        obtain ⟨record, hfind, hcurrent⟩ := hI.found hstored
        obtain rfl : f = file := Option.some.inj (hf.symm.trans hfile)
        rw [Cache.probe_fst, hfind] at hmiss
        simp [Option.filter, hcurrent] at hmiss
      · exact (hstack hstored).2
    have hdeclared : mark q ∉ w.declaredNames path d .props := by
      have hown : (w.source .mixin path).declarations = some d :=
        (declarations_source hf .mixin).trans hd
      rw [← path_source w .mixin path, ← mem_names_own hown, hmarked q hq path hpath]
      exact Ne.symm hne
    exact leads_assemble (fun e he => (hfound e he).2) (.inl hdeclared)
  settle {stack path kind f cache r} hpre hf hI hr _ := by
    obtain ⟨rfl, hpath, -⟩ := hpre
    have hkey : f.key path .mixin ∈ keys := hcovers path hpath _ (FileTree.key?_of_file? hf _)
    refine ⟨⟨hI.within.settle hkey, hI.leads.settle hr,
      fun hstored => hI.within.exists_current_settle hkey (hI.found hstored)⟩, ?_⟩
    rcases hI.leads.of_settle with heq | ⟨hleads, -⟩
    · rw [heq]
      exact hr
    · exact hleads

/-- With a current record of a marked file in the cache, another name leads its mark. -/
theorem Leading.lookup (hmarked : w.Marked p mark) (hcovers : w.CoversFamily p keys)
    (hq : q ∈ w.family p) (hfile : w.tree.file? q = some file) {x : String} {cache : Cache Record}
    (h : w.Leading keys x (mark q) (file.key q .mixin) True cache) {found : Found}
    (hfound : (w.lookup [] p .mixin cache).1 = some found) :
    Leads x (mark q) (found.reading.record.metadata.names .props) :=
  ((leadingInvariant hmarked hcovers hq hfile x True).lookup
    ⟨rfl, w.self_mem_family p, fun h => absurd trivial h⟩ h).2 found hfound

/-- A workspace by itself, with the keys of a family. -/
def familyVersions (w : Workspace) (p : Path)
    (hkeys : Set.InjOn FileKey.fingerprint (w.familyKeys p)) : Versions where
  workspaces := {w}
  fileKeys := w.familyKeys p
  bufferKeys := ∅
  alike := by
    rintro _ rfl _ rfl
    exact ⟨rfl, rfl, fun hf hg _ => Option.some.inj (hf.symm.trans hg)⟩
  fileKeys_injOn := hkeys

private theorem admits_familyVersions (hkeys : Set.InjOn FileKey.fingerprint (w.familyKeys p))
    (hq : q ∈ w.family p) : (w.familyVersions p hkeys).Admits w (w.source .mixin q) where
  workspace := rfl
  mixinKeys _ hk := ⟨hk.1, mem_family_of_reaches hq hk.2.1, hk.2.2⟩

/-- Read below nothing but itself, a file has the mark of a file that it reaches before its own. -/
private theorem leads_read (hmarked : w.Marked p mark) (hcovers : w.CoversFamily p keys)
    (hkeys : Set.InjOn FileKey.fingerprint (w.familyKeys p)) (hq : q ∈ w.family p)
    (hfile : w.tree.file? q = some file) {a : Path} (ha : w.Reaches (w.source .mixin q) a)
    (hne : a ≠ q) {d : Declarations} (hd : file.declarations? .mixin q = some d)
    {cache : Cache Record}
    (hI : w.Leading keys (mark a) (mark q) (file.key q .mixin) False cache)
    (hfiles : cache.All (w.familyVersions p hkeys).FileEntry) :
    w.Leading keys (mark a) (mark q) (file.key q .mixin) False
        (w.read [] .mixin q (some d) cache).2 ∧
      Leads (mark a) (mark q)
        ((w.read [] .mixin q (some d) cache).1.record.metadata.names .props) ∧
      (w.read [] .mixin q (some d) cache).1.record.isCurrent w.tree = true := by
  have hsource : (w.source .mixin q).declarations = some d :=
    (declarations_source hfile .mixin).trans hd
  have ha' : a ∈ w.family p := mem_family_of_reaches hq ha
  obtain ⟨-, hfaithful⟩ := Versions.read (admits_familyVersions hkeys hq) hfiles []
  rw [kind_source, path_source, hsource] at hfaithful
  have hpre : ∀ r ∈ w.freshMixins ([] ++ [q]) q d, DocumentKind.mixin = .mixin ∧
      r ∈ w.family p ∧ (¬ False → q ∈ [] ++ [q] ∧ r ≠ q) := by
    intro r hr
    have hreach : w.Reaches (w.source .mixin q) r :=
      .direct (mem_mixinsOf_of_mem_freshMixins hsource hr)
    have hon : q ∈ [] ++ [q] := by simp
    refine ⟨rfl, mem_family_of_reaches hq hreach, fun _ => ⟨hon, ?_⟩⟩
    rintro rfl
    simpa using same_eq_false_of_mem_freshMixins hr hon
  obtain ⟨hkept, found, -, hfound, hread⟩ :=
    (leadingInvariant hmarked hcovers hq hfile (mark a) False).read_document hpre hI
  refine ⟨hkept, ?_, List.all_eq_true.mpr hfaithful.current⟩
  -- the other mark is there, and not as a declaration of the file itself
  have hmark : mark a ∈ (w.read [] .mixin q (some d) cache).1.record.metadata.names .props := by
    refine Record.Faithful.mem_names_iff (hfaithful.whole ?_) |>.mpr ⟨a, .inr ha, ?_⟩
    · exact Reading.isPartial_zero _
    · exact (hmarked a ha' a ha').mpr rfl
  have hdeclared : mark a ∉ w.declaredNames q d .props := by
    rw [← path_source w .mixin q, ← mem_names_own hsource, hmarked a ha' q hq]
    exact hne
  rw [hread] at hmark ⊢
  exact leads_assemble (fun e he => (hfound e he).2) (.inr ⟨hdeclared, hmark⟩)

/-- A file that is looked up in an empty cache is stored with the mark of a file that it reaches
before its own. -/
theorem leading_lookup (hmarked : w.Marked p mark) (hcovers : w.CoversFamily p keys)
    (hkeys : Set.InjOn FileKey.fingerprint (w.familyKeys p)) (hq : q ∈ w.family p)
    (hfile : w.tree.file? q = some file) {a : Path} (ha : w.Reaches (w.source .mixin q) a)
    (hne : a ≠ q) {capacity : Nat} (hroom : keys.length ≤ capacity) :
    w.Leading keys (mark a) (mark q) (file.key q .mixin) True
      (w.lookup [] q .mixin (.empty capacity)).2 := by
  obtain ⟨d, hd⟩ := ha.exists_declarations
  rw [declarations_source hfile] at hd
  have hempty : w.Leading keys (mark a) (mark q) (file.key q .mixin) False (.empty capacity) :=
    ⟨.empty (Nat.le_trans hroom (Nat.le_max_left _ _)), Cache.all_empty _, False.elim⟩
  have hI := hempty.probe (k := file.key q .mixin)
  have hfiles : ((Cache.empty capacity).probe (file.key q .mixin) (Record.isCurrent w.tree)).2.All
      (w.familyVersions p hkeys).FileEntry := (Cache.all_empty capacity).probe
  have hmiss : ((Cache.empty capacity).probe (file.key q .mixin) (Record.isCurrent w.tree)).1 =
      none := by simp [Cache.probe_fst, Cache.empty, Table.find?]
  rw [lookup_eq, hfile]
  dsimp only
  rcases hprobed : (Cache.empty capacity).probe (file.key q .mixin) (Record.isCurrent w.tree)
    with ⟨_ | record, cache⟩
  swap
  · simp [hprobed] at hmiss
  rw [hprobed] at hI hfiles
  dsimp only at hI hfiles ⊢
  obtain ⟨hkept, hleads, hcurrent⟩ := leads_read hmarked hcovers hkeys hq hfile ha hne hd hI hfiles
  have hkey : file.key q .mixin ∈ keys := hcovers q hq _ (FileTree.key?_of_file? hfile _)
  rw [hd, List.length_nil, Reading.keep_zero]
  exact ⟨hkept.within.settle hkey, hkept.leads.settle hleads,
    fun _ => hkept.within.exists_current_settle_self hkey hcurrent⟩

end Workspace

end ComponentInsight

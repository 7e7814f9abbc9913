import ComponentInsight.Proofs.Lookup.Faithful
import Mathlib.Data.Set.Function

/-!
# Records across versions of a workspace

Files are rewritten between requests, while the cache still holds records of what they said before.
`Workspace.Alike` relates two versions of a workspace: the same files exist, imports are resolved in
the same way, and a file that says something else was modified at another time.

A record that is faithful in one version and current in another is faithful there too
(`Record.Faithful.transfer`). For its dependencies were reached by way of dependencies: from the
document on, each of them still has its key, hence its text, hence the same mixins. This takes that
the **fingerprints** of the keys concerned do not collide; the keys concerned are those of the files
that the document reaches in one of the two versions (`Workspace.mixinKeys`).

`Versions` collects the workspaces and keys of a run. All lookups in one of its workspaces keep the
invariant that every cached record is faithful in some version, and they give faithful readings
(`Versions.lookup`, `Versions.lookupBuffer`).
-/

namespace ComponentInsight

/-! ### Keys -/

/-- What the key of a file is made of. -/
structure FileKey where
  modified : Int
  path : Path
  kind : DocumentKind
  deriving DecidableEq

/-- The key of a file modified at the time. -/
def FileKey.fingerprint (k : FileKey) : Fingerprint := (File.mk none k.modified).key k.path k.kind

theorem File.key_eq_fingerprint (f : File) (path : Path) (kind : DocumentKind) :
    f.key path kind = (FileKey.mk f.modified path kind).fingerprint := rfl

/-- What the key of a buffer is made of. -/
structure BufferKey where
  text : String
  path : Path
  deriving DecidableEq

/-- The key of a buffer with the text. -/
def BufferKey.fingerprint (k : BufferKey) : Fingerprint := bufferKey k.text k.path

/-! ### Versions of one workspace -/

namespace Workspace

/-- The keys of the files that a document reaches. -/
def mixinKeys (w : Workspace) (s : Source) : Set FileKey :=
  { k | k.kind = .mixin ∧ w.Reaches s k.path ∧
    ∃ f, w.tree.file? k.path = some f ∧ f.modified = k.modified }

/-- A reached file contributes its key. -/
theorem mem_mixinKeys {w : Workspace} {s : Source} {p : Path} {f : File} (h : w.Reaches s p)
    (hf : w.tree.file? p = some f) : ⟨f.modified, p, .mixin⟩ ∈ w.mixinKeys s :=
  ⟨rfl, h, f, hf, rfl⟩

/-- The keys of a reached document are among those of the document it is reached from. -/
private theorem mixinKeys_subset {w : Workspace} {s : Source} {p : Path} (h : w.Reaches s p) :
    w.mixinKeys (w.source .mixin p) ⊆ w.mixinKeys s :=
  fun _ hk => ⟨hk.1, h.trans hk.2.1, hk.2.2⟩

/-- The keys of a script and of the files it reaches. -/
def familyKeys (w : Workspace) (p : Path) : Set FileKey :=
  { k | k.kind = .mixin ∧ k.path ∈ w.family p ∧
    ∃ f, w.tree.file? k.path = some f ∧ f.modified = k.modified }

/-- The same files exist, imports are resolved in the same way, and a file that differs was modified
at another time. -/
structure Alike (u w : Workspace) : Prop where
  resolver : u.resolver = w.resolver
  isFile : u.tree.isFile = w.tree.isFile
  file {p f g} (hf : u.tree.file? p = some f) (hg : w.tree.file? p = some g)
    (h : f.modified = g.modified) : f = g

namespace Alike

variable {u w : Workspace}

private theorem locate?_eq (h : u.Alike w) : u.locate? = w.locate? := by
  funext specifier importer kind
  simp only [locate?, Resolver.locate?, h.resolver, h.isFile]

/-- Workspaces that are alike have the same mixins. -/
theorem mixinsOf_eq (h : u.Alike w) : u.mixinsOf = w.mixinsOf := by
  funext s
  simp only [mixinsOf, mixinPaths, h.locate?_eq]

private theorem otherMixins_eq (h : u.Alike w) : u.otherMixins = w.otherMixins := by
  funext s
  simp only [otherMixins, h.mixinsOf_eq]

private theorem merge_eq (h : u.Alike w) : u.merge = w.merge := by
  funext kind importer d mixins
  simp only [merge, componentPaths, h.locate?_eq]

private theorem own_eq (h : u.Alike w) : u.own = w.own := by
  funext s
  simp only [own, h.merge_eq]

end Alike

/-- A document depends on its file only. -/
theorem source_eq_of_file?_eq {u w : Workspace} {p : Path}
    (h : u.tree.file? p = w.tree.file? p) (kind : DocumentKind) :
    u.source kind p = w.source kind p := by
  simp only [source, h]

end Workspace

/-! ### Records that are still current -/

section Transfer

variable {u w : Workspace} {s : Source} {record : Record}

/-- The dependencies of a record that is current are the files they were. -/
private theorem Record.Faithful.file?_eq (h : record.Faithful u s) (halike : u.Alike w)
    (hcurrent : record.isCurrent w.tree = true)
    (hinj : Set.InjOn FileKey.fingerprint (u.mixinKeys s ∪ w.mixinKeys s)) :
    ∀ x ∈ record.mixins, w.Reaches s x.path ∧ u.tree.file? x.path = w.tree.file? x.path := by
  -- a dependency reached in both versions has the same time there
  have hfile : ∀ x ∈ record.mixins, u.Reaches s x.path → w.Reaches s x.path →
      u.tree.file? x.path = w.tree.file? x.path := by
    intro x hx hu hw
    have hcu : u.tree.key? x.path .mixin = some x.key :=
      Dependency.isCurrent_iff.mp (h.current x hx)
    have hcw : w.tree.key? x.path .mixin = some x.key :=
      Dependency.isCurrent_iff.mp (List.all_eq_true.mp hcurrent x hx)
    obtain ⟨f, hf, hfkey⟩ := Option.map_eq_some_iff.mp hcu
    obtain ⟨g, hg, hgkey⟩ := Option.map_eq_some_iff.mp hcw
    have heq : FileKey.mk f.modified x.path .mixin = FileKey.mk g.modified x.path .mixin :=
      hinj (.inl (Workspace.mem_mixinKeys hu hf)) (.inr (Workspace.mem_mixinKeys hw hg))
        (hfkey.trans hgkey.symm)
    rw [hf, hg, halike.file hf hg (congrArg FileKey.modified heq)]
  -- along the way to a dependency, step by step from the document
  have hchain : ∀ (c : List Path) (p : Path), u.IsMixinChain s (c ++ [p]) →
      (∀ y ∈ c ++ [p], ∃ z ∈ record.mixins, z.path = y) →
        w.Reaches s p ∧ u.tree.file? p = w.tree.file? p := by
    intro c
    induction c using List.reverseRecOn with
    | nil =>
      intro p hc hdep
      obtain ⟨z, hz, rfl⟩ := hdep p (by simp)
      have hw : w.Reaches s z.path := .direct (halike.mixinsOf_eq ▸ hc.1)
      exact ⟨hw, hfile z hz hc.reaches hw⟩
    | append_singleton c y ih =>
      intro p hc hdep
      obtain ⟨z, hz, rfl⟩ := hdep p (by simp)
      obtain ⟨hbefore, hp⟩ := Workspace.isChain_append_pair.mp hc
      obtain ⟨hy, hsame⟩ := ih y hbefore fun x hx => hdep x (List.mem_append_left _ hx)
      have hw : w.Reaches s z.path := by
        refine .step hy ?_
        rwa [← Workspace.source_eq_of_file?_eq hsame, ← halike.mixinsOf_eq]
      exact ⟨hw, hfile z hz hc.reaches hw⟩
  intro x hx
  obtain ⟨c, hc, hdep⟩ := h.reached x hx
  refine hchain c x.path hc fun y hy => ?_
  rcases List.mem_append.mp hy with hy | hy
  · exact hdep y hy
  · exact ⟨x, hx, (List.mem_singleton.mp hy).symm⟩

/-- The files on a chain that avoids the document say the same. -/
private theorem Record.Faithful.source_eq (h : record.Faithful u s) (halike : u.Alike w)
    (hdep : ∀ x ∈ record.mixins, u.tree.file? x.path = w.tree.file? x.path)
    {c : List Path} {p : Path}
    (hc : u.IsMixinChain s (c ++ [p])) (havoid : ∀ x ∈ c ++ [p], s.path.same x = false) :
    u.source .mixin p = w.source .mixin p := by
  obtain ⟨x, hx, hsame⟩ := h.exists_dependency hc havoid
  obtain ⟨f, hf⟩ : ∃ f, u.tree.file? x.path = some f := by
    have hcurrent : u.tree.key? x.path .mixin = some x.key :=
      Dependency.isCurrent_iff.mp (h.current x hx)
    exact (Option.map_eq_some_iff.mp hcurrent).imp fun _ hf => hf.1
  have hpu : u.tree.isFile p = true := hc.reaches.isFile
  have hpw : w.tree.isFile p = true := halike.isFile ▸ hpu
  have hxu : u.tree.isFile x.path = true := by simp [FileTree.isFile, hf]
  have hxw : w.tree.isFile x.path = true := halike.isFile ▸ hxu
  refine Workspace.source_eq_of_file?_eq ?_ .mixin
  rw [← FileTree.file?_eq_of_same hsame hxu hpu, hdep x hx, FileTree.file?_eq_of_same hsame hxw hpw]

/-- A document without loops in one version has none in the other, and its tree is the same. -/
private theorem Record.Faithful.exists_tree_transfer (h : record.Faithful u s) (halike : u.Alike w)
    (hdep : ∀ x ∈ record.mixins, u.tree.file? x.path = w.tree.file? x.path)
    (hloop : w.LoopFree s) :
    ∃ t : MixinTree, t.Unfolds w w.otherMixins ∧ t.source = s ∧ t.merged w = record.metadata := by
  have hother : u.otherMixins = w.otherMixins := halike.otherMixins_eq
  -- a proper chain of one version is one of the other, and so avoids the document
  have hproper : ∀ c, u.IsProperChain s c → w.IsProperChain s c := by
    intro c hc
    refine hc.transfer (fun p hp => by rwa [← hother]) fun a p _ hau haw q hq => ?_
    have hsame : u.source .mixin p = w.source .mixin p :=
      h.source_eq halike hdep (hau.mono u.otherMixins_subset) fun x hx =>
        hloop.same_eq_false haw hx
    rwa [← hother, ← hsame]
  have hloopu : u.LoopFree s := fun c hc => hloop c (hproper c hc)
  obtain ⟨t, hunfolds, hroot, hmerged⟩ := h.exists_tree hloopu
  refine ⟨t, ?_, hroot, hunfolds.merged_eq halike.merge_eq ▸ hmerged⟩
  refine hunfolds.transfer
    (fun s' => s' = s ∨ ∃ c p, u.IsProperChain s (c ++ [p]) ∧ s' = u.source .mixin p)
    (.inl hroot) fun s' hs' => ⟨congrFun hother s', fun q hq => ?_⟩
  obtain ⟨c, hc⟩ : ∃ c, u.IsProperChain s (c ++ [q]) := by
    rcases hs' with rfl | ⟨c, p, hc, rfl⟩
    · exact ⟨[], hq, trivial⟩
    · exact ⟨c ++ [p], Workspace.isChain_append_pair.mpr ⟨hc, hq⟩⟩
  refine ⟨?_, .inr ⟨c, q, hc, rfl⟩⟩
  exact h.source_eq halike hdep (hc.mono u.otherMixins_subset) fun x hx =>
    hloopu.same_eq_false hc hx

/-- A record that is faithful in one version and current in another is faithful there too. -/
theorem Record.Faithful.transfer (h : record.Faithful u s) (halike : u.Alike w)
    (hcurrent : record.isCurrent w.tree = true)
    (hinj : Set.InjOn FileKey.fingerprint (u.mixinKeys s ∪ w.mixinKeys s)) :
    record.Faithful w s := by
  have hfile := h.file?_eq halike hcurrent hinj
  have hdep : ∀ x ∈ record.mixins, u.tree.file? x.path = w.tree.file? x.path :=
    fun x hx => (hfile x hx).2
  have hsource : ∀ x ∈ record.mixins, u.source .mixin x.path = w.source .mixin x.path :=
    fun x hx => Workspace.source_eq_of_file?_eq (hdep x hx) .mixin
  have hmixins : u.mixinsOf = w.mixinsOf := halike.mixinsOf_eq
  refine ⟨List.all_eq_true.mp hcurrent, fun x hx => ?_, fun {c p} hc havoid => ?_,
    fun {f name} => ?_, fun hloop => .inl (h.exists_tree_transfer halike hdep hloop)⟩
  · obtain ⟨c, hc, hcdep⟩ := h.reached x hx
    refine ⟨c, hc.transfer (fun p hp => by rwa [← hmixins]) fun a p hfront _ _ q hq => ?_, hcdep⟩
    have hp : ∃ z ∈ record.mixins, z.path = p := by
      rcases List.mem_append.mp (hfront.subset (List.mem_append_right a List.mem_cons_self))
        with hp | hp
      · exact hcdep p hp
      · exact ⟨x, hx, (List.mem_singleton.mp hp).symm⟩
    obtain ⟨z, hz, rfl⟩ := hp
    rwa [← hmixins, ← hsource z hz]
  · -- a chain of today was one then, as long as it keeps to dependencies
    have hcu : u.IsMixinChain s (c ++ [p]) := by
      refine hc.transfer (fun p hp => by rwa [hmixins]) fun a p hfront _ hau q hq => ?_
      have hsame : u.source .mixin p = w.source .mixin p :=
        h.source_eq halike hdep hau fun x hx => havoid x (hfront.subset hx)
      rwa [hmixins, hsame]
    exact .inl (h.exists_dependency hcu havoid)
  · rw [Reading.Faithful.names h, halike.own_eq]
    refine or_congr_right (and_congr_right fun _ => exists_congr fun x =>
      and_congr_right fun hx => ?_)
    rw [hsource x hx]

end Transfer

/-! ### The invariant of the caches -/

/-- The workspaces that requests are made in, one after another, and the keys they ask for. -/
structure Versions where
  workspaces : Set Workspace
  fileKeys : Set FileKey
  bufferKeys : Set BufferKey
  alike : ∀ u ∈ workspaces, ∀ w ∈ workspaces, u.Alike w
  /-- Fingerprints of files do not collide. -/
  fileKeys_injOn : Set.InjOn FileKey.fingerprint fileKeys

namespace Versions

variable {V : Versions} {w : Workspace}

/-- A document is read in one of the workspaces, and the keys of the files it reaches count. -/
structure Admits (V : Versions) (w : Workspace) (s : Source) : Prop where
  workspace : w ∈ V.workspaces
  mixinKeys : w.mixinKeys s ⊆ V.fileKeys

/-- A file is read in one of the workspaces, and its key counts as well. -/
structure AdmitsFile (V : Versions) (w : Workspace) (path : Path) (kind : DocumentKind) : Prop
    extends V.Admits w (w.source kind path) where
  key {f} (hf : w.tree.file? path = some f) : ⟨f.modified, path, kind⟩ ∈ V.fileKeys

/-- A cached record of a file tells what the file said in one of the workspaces. -/
def FileEntry (V : Versions) (key : Fingerprint) (record : Record) : Prop :=
  ∃ u path kind f, V.AdmitsFile u path kind ∧ u.tree.file? path = some f ∧
    key = f.key path kind ∧ record.Faithful u (u.source kind path)

/-- A cached record of a buffer tells what the buffer said in one of the workspaces. -/
def BufferEntry (V : Versions) (key : Fingerprint) (record : Record) : Prop :=
  ∃ u text path, V.Admits u (bufferSource text path) ∧ ⟨text, path⟩ ∈ V.bufferKeys ∧
    key = bufferKey text path ∧ record.Faithful u (bufferSource text path)

/-- A record of a document that is still current tells what the document says now. -/
theorem Admits.transfer {u : Workspace} {s : Source} {record : Record} (hu : V.Admits u s)
    (hw : V.Admits w s) (h : record.Faithful u s) (hcurrent : record.isCurrent w.tree = true) :
    record.Faithful w s :=
  h.transfer (V.alike u hu.workspace w hw.workspace) hcurrent
    (V.fileKeys_injOn.mono (Set.union_subset hu.mixinKeys hw.mixinKeys))

/-- A current record at the key of a file tells what the file says. -/
theorem FileEntry.faithful {path : Path} {kind : DocumentKind} {f : File} {record : Record}
    (h : V.FileEntry (f.key path kind) record) (hw : V.AdmitsFile w path kind)
    (hf : w.tree.file? path = some f) (hcurrent : record.isCurrent w.tree = true) :
    record.Faithful w (w.source kind path) := by
  obtain ⟨u, path', kind', g, hu, hg, hkey, hfaithful⟩ := h
  -- the entry was made for the same file, read in the same way and not modified since
  have heq : FileKey.mk f.modified path kind = FileKey.mk g.modified path' kind' :=
    V.fileKeys_injOn (hw.key hf) (hu.key hg) hkey
  obtain ⟨hmodified, rfl, rfl⟩ := FileKey.mk.inj heq
  have hfile : u.tree.file? path = w.tree.file? path := by
    rw [hf, hg, (V.alike u hu.workspace w hw.workspace).file hg hf hmodified.symm]
  have hsource := Workspace.source_eq_of_file?_eq hfile kind
  have hadmits : V.Admits u (w.source kind path) := hsource ▸ hu.toAdmits
  exact hadmits.transfer hw.toAdmits (hsource ▸ hfaithful) hcurrent

/-- A current record at the key of a buffer tells what the buffer says, if the fingerprints of
buffers do not collide either. -/
theorem BufferEntry.faithful {text : String} {path : Path} {record : Record}
    (h : V.BufferEntry (bufferKey text path) record)
    (hinj : Set.InjOn BufferKey.fingerprint V.bufferKeys) (hw : V.Admits w (bufferSource text path))
    (hbuffer : ⟨text, path⟩ ∈ V.bufferKeys) (hcurrent : record.isCurrent w.tree = true) :
    record.Faithful w (bufferSource text path) := by
  obtain ⟨u, text', path', hu, hmem, hkey, hfaithful⟩ := h
  have heq : BufferKey.mk text path = BufferKey.mk text' path' := hinj hbuffer hmem hkey
  obtain ⟨rfl, rfl⟩ := BufferKey.mk.inj heq
  exact hu.transfer hw hfaithful hcurrent

/-- The mixins of a document are admitted with it. -/
theorem Admits.mixin {s : Source} {p : Path} (h : V.Admits w s) (hp : p ∈ w.mixinsOf s) :
    V.AdmitsFile w p .mixin where
  workspace := h.workspace
  mixinKeys := (Workspace.mixinKeys_subset (.direct hp)).trans h.mixinKeys
  key hf := h.mixinKeys (Workspace.mem_mixinKeys (.direct hp) hf)

/-- Lookups keep the cached records of files meaningful and give faithful readings. -/
theorem lookupInvariant (V : Versions) (w : Workspace) :
    w.LookupInvariant (Cache.All V.FileEntry) (fun _ path kind => V.AdmitsFile w path kind)
      (fun stack path kind r => r.Faithful w stack (w.source kind path)) where
  probe _ _ hI := hI.probe
  hit {stack _ _ _ _ _} hpre hf hI hhit := by
    obtain ⟨hentry, hcurrent⟩ := hI.of_probe hhit
    exact (hentry.faithful hpre hf hcurrent).reading stack none
  silent {_ _ kind _ _} _ hf _ _ hd :=
    Workspace.faithful_empty ((Workspace.declarations_source hf kind).trans hd)
  inner {_ path kind _ d p} hpre hf hd hp := by
    have hdeclared : (w.source kind path).declarations = some d :=
      (Workspace.declarations_source hf kind).trans hd
    exact hpre.toAdmits.mixin (Workspace.mem_mixinsOf_of_mem_freshMixins hdeclared hp)
  read {_ path kind f _ d _} _ hf _ _ hd hpaths hfound :=
    Workspace.faithful_assemble ⟨(Workspace.declarations_source hf kind).trans hd, hpaths,
      fun e he => (hfound e he).1, fun e he => (hfound e he).2⟩
  settle {stack path kind f cache r} hpre hf hI hr hwhole := by
    have hentry : V.FileEntry (f.key path kind) r.record :=
      ⟨w, path, kind, f, hpre, hf, rfl, hr.whole hwhole⟩
    refine ⟨hI.settle hentry, ?_⟩
    rcases hI.of_settle with heq | ⟨hother, hcurrent⟩
    · rw [heq]
      exact hr
    · exact (hother.faithful hpre hf hcurrent).reading stack r.cut

/-- Looking a file up keeps the invariant and gives what the file says. -/
theorem lookup {path : Path} {kind : DocumentKind} {files : Cache Record}
    (hw : V.AdmitsFile w path kind) (hfiles : files.All V.FileEntry) :
    (w.lookup [] path kind files).2.All V.FileEntry ∧
      ∀ found, (w.lookup [] path kind files).1 = some found →
        found.reading.record.Faithful w (w.source kind path) := by
  obtain ⟨hkept, hfound⟩ := (V.lookupInvariant w).lookup hw hfiles
  exact ⟨hkept, fun found h => (hfound found h).whole (Reading.isPartial_zero _)⟩

/-- Reading a document keeps the invariant and gives what the document says. -/
theorem read {s : Source} {files : Cache Record} (hw : V.Admits w s)
    (hfiles : files.All V.FileEntry) (stack : List Path) :
    (w.read stack s.kind s.path s.declarations files).2.All V.FileEntry ∧
      (w.read stack s.kind s.path s.declarations files).1.Faithful w stack s := by
  cases hd : s.declarations with
  | none => exact ⟨hfiles, Workspace.faithful_empty hd⟩
  | some d =>
    have hpre : ∀ p ∈ w.freshMixins (stack ++ [s.path]) s.path d, V.AdmitsFile w p .mixin :=
      fun p hp => hw.mixin (Workspace.mem_mixinsOf_of_mem_freshMixins hd hp)
    obtain ⟨hkept, found, hpaths, hfound, hread⟩ :=
      (V.lookupInvariant w).read_document hpre hfiles
    refine ⟨hkept, ?_⟩
    rw [hread]
    exact Workspace.faithful_assemble
      ⟨hd, hpaths, fun e he => (hfound e he).1, fun e he => (hfound e he).2⟩

/-- Looking a buffer up keeps the invariants and, if the fingerprints of buffers do not collide
either, gives what the buffer says. -/
theorem lookupBuffer {text : String} {path : Path} {buffers files : Cache Record}
    (hw : V.Admits w (bufferSource text path)) (hbuffer : ⟨text, path⟩ ∈ V.bufferKeys)
    (hbuffers : buffers.All V.BufferEntry) (hfiles : files.All V.FileEntry) :
    (w.lookupBuffer text path buffers files).2.1.All V.BufferEntry ∧
      (w.lookupBuffer text path buffers files).2.2.All V.FileEntry ∧
      (Set.InjOn BufferKey.fingerprint V.bufferKeys →
        (w.lookupBuffer text path buffers files).1.Faithful w (bufferSource text path)) := by
  refine Workspace.lookupBuffer_spec (I := Cache.All V.FileEntry)
    (Q := fun record => Set.InjOn BufferKey.fingerprint V.bufferKeys →
      record.Faithful w (bufferSource text path))
    (fun record hentry hcurrent hinj => ?_) (fun r files' heq => ?_) hbuffers hfiles
  · exact hentry.faithful hinj hw hbuffer hcurrent
  · obtain ⟨hkept, hreading⟩ := read hw hfiles []
    replace heq : w.read [] (bufferSource text path).kind (bufferSource text path).path
      (bufferSource text path).declarations files = (r, files') := heq
    rw [heq] at hkept hreading
    have hrecord : r.record.Faithful w (bufferSource text path) :=
      hreading.whole (Reading.isPartial_zero r)
    exact ⟨hkept, ⟨w, text, path, hw, hbuffer, rfl, hrecord⟩, fun _ => hrecord⟩

end Versions

end ComponentInsight

import ComponentInsight.Proofs.Lookup.Frame
import ComponentInsight.Proofs.Lookup.Versions
import ComponentInsight.Proofs.Metadata.Extraction
import ComponentInsight.Proofs.Service.Repetition

/-!
# Buffers that say what their file says

A buffer and a component file are read by different requests, under different keys and in different
caches, and of a buffer only the registered components are read. For a buffer with the text of its
file this makes no difference to the components (`Service.resolveBuffer_eq_resolveFileAs`): names,
files and order agree, whatever mixins are cached, cycles included. Three things are behind this:

* both have the same options object, so they import the same mixins and register the same
  components; what mixins contribute to the components does not depend on how much else is read
  (`Workspace.read_componentsOnly`);
* mixins are looked up with the same stack and in the same cache, except that a lookup of the file
  was counted (`Workspace.read_recount`);
* no mixin is stored under the key of the file in the meantime (`Workspace.contains_read_eq_false`),
  so the record that was read is the one that counts.
-/

namespace ComponentInsight

/-! ### Registered components only -/

namespace Workspace

/-- A document of which only the registered components are read has the components of one that is
read as a whole, and nothing else. -/
theorem merge_componentsOnly (w : Workspace) (importer : Path) (text : String) (o : OptionsObject)
    (mixins : List Metadata) :
    w.merge .componentsOnly importer (.ofOptions .componentsOnly text o) mixins =
      ⟨[], (w.merge .component importer (.ofOptions .component text o) mixins).components, []⟩ := by
  have hprops : (inherited .componentsOnly mixins).props = [] :=
    List.map_eq_nil_iff.mp (names_inherited .componentsOnly mixins .props)
  have hevents : (inherited .componentsOnly mixins).events = [] :=
    names_inherited .componentsOnly mixins .events
  rw [merge, merge, components_inherited, components_inherited, hprops, hevents]
  rfl

/-- A document of which only the registered components are read looks its mixins up as one that is
read as a whole. -/
theorem read_componentsOnly (w : Workspace) (stack : List Path) (path : Path) (text : String)
    (cache : Cache Record) :
    w.read stack .componentsOnly path (Declarations.ofDocument .componentsOnly path text).toOption
        cache =
      let whole := w.read stack .component path
        (Declarations.ofDocument .component path text).toOption cache
      (⟨⟨⟨[], whole.1.record.metadata.components, []⟩, whole.1.record.mixins⟩, whole.1.cut⟩,
        whole.2) := by
  have hsame : OptionsObject.ofDocument? .componentsOnly path text =
      OptionsObject.ofDocument? .component path text := rfl
  rw [Declarations.toOption_ofDocument, Declarations.toOption_ofDocument, hsame]
  cases OptionsObject.ofDocument? .component path text with
  | none => rfl
  | some o =>
    -- the mixins are those of the options object, whatever else is read of it
    have hgather : ∀ (find : Path → Cache Record → Option Found × Cache Record) (inner : List Path),
        w.gather find inner path (.ofOptions .componentsOnly text o) cache =
          w.gather find inner path (.ofOptions .component text o) cache := fun _ _ => rfl
    simp only [Option.map_some, read, conclude, hgather, merge_componentsOnly]

/-! ### Documents that are not cached -/

/-- A file that is not cached is read, unless a mixin on the way has its key. -/
theorem lookup_fst_of_absent {w : Workspace} {path : Path} {kind : DocumentKind} {f : File}
    {cache : Cache Record} (hf : w.tree.file? path = some f)
    (habsent : cache.contains (f.key path kind) = false)
    (hkey : ∀ k ∈ w.mixinKeys (w.source kind path), k.fingerprint ≠ f.key path kind) :
    (w.lookup [] path kind cache).1 =
      some ⟨f.key path kind, (w.read [] kind path (f.declarations? kind path) cache).1⟩ := by
  have hdeclarations : (w.source kind path).declarations = f.declarations? kind path :=
    declarations_source hf kind
  have hmixins : ∀ q, w.Reaches (w.source kind path) q →
      w.tree.key? q .mixin ≠ some (f.key path kind) := by
    intro q hq heq
    obtain ⟨g, hg, hgkey⟩ := Option.map_eq_some_iff.mp heq
    exact hkey _ (mem_mixinKeys hq hg) hgkey
  have hafter : ((w.read [] kind path (f.declarations? kind path) cache).2.recount 0 1).contains
      (f.key path kind) = false :=
    hdeclarations ▸ contains_read_eq_false hmixins habsent []
  have hread := w.read_recount [] kind path (f.declarations? kind path) cache 0 1
  have hmiss : cache.miss = cache.recount 0 1 := rfl
  rw [lookup_eq, hf]
  dsimp only
  rw [Cache.probe_of_absent habsent]
  dsimp only
  rw [hmiss, hread]
  dsimp only [Prod.map, id, List.length_nil]
  rw [Reading.keep_zero, Cache.settle_fst_of_absent hafter]

/-- A buffer that is not cached is read. -/
theorem lookupBuffer_fst_of_absent (w : Workspace) {text : String} {path : Path}
    {buffers : Cache Record} (habsent : buffers.contains (bufferKey text path) = false)
    (files : Cache Record) :
    (w.lookupBuffer text path buffers files).1 = (w.read [] .componentsOnly path
      (Declarations.ofDocument .componentsOnly path text).toOption files).1.record := by
  have hmiss : buffers.miss.contains (bufferKey text path) = false := habsent
  unfold lookupBuffer
  dsimp only
  rw [Cache.probe_of_absent habsent]
  dsimp only
  rw [Reading.keep_zero, Cache.settle_fst_of_absent hmiss]

end Workspace

/-! ### The two requests -/

namespace Service

/-- **A buffer with the text of its file has the components of the file**, in a service in any state
that has neither cached. Assumed is that fingerprints do not collide (`hkey`): the key of a mixin
that the document reaches names another kind than the document's own key, and its fingerprint is
another one. -/
theorem resolveBuffer_eq_resolveFileAs (s : Service) (t : FileTree) (settings : Settings)
    {path : Path} {f : File} {text : String} (hf : t.file? path = some f)
    (htext : f.text = some text) (hbuffer : s.buffers.contains (bufferKey text path) = false)
    (hfile : s.files.contains (f.key path .component) = false)
    (hkey : ∀ k ∈ (s.workspace t settings).1.mixinKeys
      ((s.workspace t settings).1.source .component path), k.fingerprint ≠ f.key path .component) :
    (s.resolveBuffer t settings text path).1 =
      ⟨[], (s.resolveFileAs t settings path .component).1.components, []⟩ := by
  have hdeclarations : f.declarations? .component path =
      (Declarations.ofDocument .component path text).toOption := by
    rw [File.declarations?, htext, Option.bind_some]
  have hlookup := Workspace.lookup_fst_of_absent (w := (s.workspace t settings).1) hf hfile hkey
  rw [resolveBuffer_eq, resolveFileAs_eq]
  dsimp only
  rw [Workspace.lookupBuffer_fst_of_absent _ hbuffer, Workspace.read_componentsOnly, hlookup,
    hdeclarations]
  rfl

end Service

namespace Sample

def draft : Path := ⟨"/draft.vue"⟩

def shared : Path := ⟨"/shared.js"⟩

/-- A component whose mixin takes it for a mixin in turn. -/
def draftText : String := "<script>import s from './shared'\n" ++
  "export default \x7b mixins: [s] \x7d</script>"

/-- The component, its mixin and the component that the mixin registers. -/
def draftTree : FileTree where
  files :=
    [(["draft.vue"], ⟨some draftText, 1⟩),
      (["shared.js"], ⟨some (exporting "import d from './draft.vue'\nimport Row from './Row'\n"
        "mixins: [d], components: \x7b Row \x7d, props: ['row']"), 1⟩),
      (["Row.vue"], ⟨some "", 1⟩)]
  directories := []

private theorem mixinsOf_draft :
    let w := ((Service.start options).workspace draftTree .empty).1
    w.mixinsOf (w.source .component draft) = [shared] ∧
      w.mixinsOf (w.source .mixin shared) = [draft] ∧
      w.mixinsOf (w.source .mixin draft) = [] := by
  decide +kernel

private theorem fingerprint_ne_draft :
    ∀ k ∈ [FileKey.mk 1 shared .mixin, FileKey.mk 1 draft .mixin],
      k.fingerprint ≠ (File.mk (some draftText) 1).key draft .component := by
  decide +kernel

/-- A draft and its mixin, which takes the draft for a mixin in turn. -/
theorem resolveBuffer_eq_resolveFileAs_draft :
    draftTree.file? draft = some ⟨some draftText, 1⟩ ∧
      let service := Service.start options
      (service.resolveBuffer draftTree .empty draftText draft).1 =
        ⟨[], (service.resolveFileAs draftTree .empty draft .component).1.components, []⟩ := by
  have hf : draftTree.file? draft = some ⟨some draftText, 1⟩ := by decide
  refine ⟨hf, Service.resolveBuffer_eq_resolveFileAs (.start options) draftTree .empty hf rfl rfl
    rfl fun k hk => fingerprint_ne_draft k ?_⟩
  obtain ⟨hcomponent, hshared, hdraft⟩ := mixinsOf_draft
  obtain ⟨modified, path, kind⟩ := k
  obtain ⟨rfl, hreaches, f, hfile, rfl⟩ := hk
  have hpath : path ∈ [shared, draft] := by
    refine hreaches.mem_of_closed (by simp [hcomponent]) fun q hq => ?_
    rcases List.mem_pair.mp hq with rfl | rfl
    · simp [hshared]
    · simp [hdraft]
  have hmodified : ∀ q ∈ [shared, draft], ∀ g ∈ draftTree.file? q, g.modified = 1 := by decide
  rw [hmodified path hpath f hfile]
  rcases List.mem_pair.mp hpath with rfl | rfl
  · exact List.mem_cons_self
  · exact List.mem_cons_of_mem _ List.mem_cons_self

end Sample

end ComponentInsight

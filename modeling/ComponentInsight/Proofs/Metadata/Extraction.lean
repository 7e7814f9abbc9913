import ComponentInsight.Lookup
import ComponentInsight.Proofs.Metadata.Merging

/-!
# Extraction with any provider

Extraction asks a **provider** for the metadata of mixin files, one after another. A provider may
remember things between two questions, as the cache of a service does, and need not give one file
the same metadata twice. `Workspace.extractBy` is extraction with such a provider:

* with one that remembers nothing it is `Workspace.extract` (`extract_eq_extractBy`);
* with lookups in a cache as the provider it is how files and buffers are read
  (`extractBy_lookups`).

What a document contributes itself is told by the options object it exports
(`OptionsObject.ofDocument?`), so the laws are stated with that object and the answers of the
provider. `extractBy_merges` is the law for props and events: the names of the answers and then the
document's own, each where it occurs first; a prop is the document's own, or that of the first
answer that has it.
-/

namespace ComponentInsight

/-! ### Documents and options objects -/

/-- The options object a document exports, if it can be read. -/
def OptionsObject.ofDocument? (kind : DocumentKind) (path : Path) (text : String) :
    Option OptionsObject :=
  match Declarations.script kind (.ofFileName (Declarations.scriptFileName path)) text with
  | .ok (source, dialect) => Script.parse source dialect >>= OptionsObject.ofProgram?
  | .error _ => none

/-- A document declares what the options object it exports does. -/
private theorem Declarations.ofDocument_eq_ok_iff {kind : DocumentKind} {path : Path}
    {text : String} {d : Declarations} : Declarations.ofDocument kind path text = .ok d ↔
      ∃ o, OptionsObject.ofDocument? kind path text = some o ∧ d = ofOptions kind text o := by
  unfold ofDocument read OptionsObject.ofDocument?
  cases script kind (.ofFileName (scriptFileName path)) text with
  | error e => simp [bind, Except.bind]
  | ok source =>
    simp only [bind, Except.bind]
    cases Script.parse source.1 source.2 with
    | none => simp
    | some program =>
      simp only [Option.bind_some]
      cases OptionsObject.ofProgram? program with
      | none => simp
      | some o => simp [eq_comm]

/-- The declarations of a document are those of its options. -/
theorem Declarations.toOption_ofDocument (kind : DocumentKind) (path : Path) (text : String) :
    (ofDocument kind path text).toOption =
      (OptionsObject.ofDocument? kind path text).map (ofOptions kind text) := by
  cases hd : ofDocument kind path text with
  | ok d =>
    obtain ⟨o, ho, rfl⟩ := ofDocument_eq_ok_iff.mp hd
    rw [ho]
    rfl
  | error e =>
    cases ho : OptionsObject.ofDocument? kind path text with
    | none => rfl
    | some o =>
      have hok := ofDocument_eq_ok_iff.mpr ⟨o, ho, rfl⟩
      rw [hd] at hok
      cases hok

/-- The files of the mixins an options object names, the base options first. Names that are not
imported and imports that lead to no file are left out. -/
def Workspace.mixinFiles (w : Workspace) (importer : Path) (o : OptionsObject) : List Path :=
  o.mixinNames.filterMap fun name =>
    (o.program.importFor? name).bind fun i => w.locate? i.specifier importer .mixin

private theorem Workspace.mixinPaths_ofOptions (w : Workspace) (importer : Path)
    (kind : DocumentKind) (text : String) (o : OptionsObject) :
    w.mixinPaths importer (.ofOptions kind text o) = w.mixinFiles importer o := by
  simp only [mixinPaths, mixinFiles, Declarations.ofOptions, OptionsObject.mixinSpecifiers,
    List.filterMap_filterMap, Option.bind_map, Function.comp_def]

/-! ### Providers -/

/-- What gives the metadata of mixin files, with what it remembers. -/
abbrev Provider (σ : Type) := Path → σ → Option Metadata × σ

variable {σ : Type}

/-- The metadata a provider gives for files, one after another. -/
def answers (ask : Provider σ) : List Path → σ → List Metadata × σ
  | [], s => ([], s)
  | p :: rest, s =>
    let (first, s) := ask p s
    let (others, s) := answers ask rest s
    (first.toList ++ others, s)

/-- A provider that remembers nothing. -/
def forgetful (mixin? : Path → Option Metadata) : Provider Unit := fun p s => (mixin? p, s)

/-- A provider without a state answers for each path alone. -/
private theorem answers_forgetful (mixin? : Path → Option Metadata) (paths : List Path) :
    answers (forgetful mixin?) paths () = (paths.filterMap mixin?, ()) := by
  induction paths with
  | nil => rfl
  | cons p rest ih =>
    rw [answers]
    dsimp only [forgetful]
    rw [show answers (forgetful mixin?) rest () = (rest.filterMap mixin?, ()) from ih]
    cases h : mixin? p <;> simp [h]

namespace Workspace

variable {w : Workspace} {ask : Provider σ} {kind : DocumentKind} {path : Path} {text : String}
  {s s' : σ} {m : Metadata}

/-- The metadata of a document, with a provider for its mixins. -/
def extractBy (w : Workspace) (ask : Provider σ) (kind : DocumentKind) (path : Path)
    (text : String) (s : σ) : Except DocumentError (Metadata × σ) := do
  let d ← Declarations.ofDocument kind path text
  let (mixins, s) := answers ask (w.mixinPaths path d) s
  return (w.merge kind path d mixins, s)

/-- Extraction from a function on paths is extraction with a provider that remembers nothing. -/
theorem extract_eq_extractBy (mixin? : Path → Option Metadata) :
    w.extract mixin? kind path text =
      (w.extractBy (forgetful mixin?) kind path text ()).map Prod.fst := by
  unfold extract extractBy
  cases Declarations.ofDocument kind path text with
  | error e => rfl
  | ok d =>
    simp only [bind, Except.bind, answers_forgetful]
    rfl

/-- A result of extraction is merged from what the document and the provider have. -/
theorem extractBy_eq_ok_iff :
    w.extractBy ask kind path text s = .ok (m, s') ↔
      ∃ o, OptionsObject.ofDocument? kind path text = some o ∧
        m = w.merge kind path (.ofOptions kind text o) (answers ask (w.mixinFiles path o) s).1 ∧
        s' = (answers ask (w.mixinFiles path o) s).2 := by
  unfold extractBy
  cases hd : Declarations.ofDocument kind path text with
  | error e =>
    have hnone : OptionsObject.ofDocument? kind path text = none := by
      simpa [hd, Except.toOption] using (Declarations.toOption_ofDocument kind path text).symm
    simp [hnone, bind, Except.bind]
  | ok d =>
    obtain ⟨o, ho, rfl⟩ := Declarations.ofDocument_eq_ok_iff.mp hd
    simp [ho, bind, Except.bind, pure, Except.pure, mixinPaths_ofOptions, eq_comm]

/-- A document with options is extracted from the answers for its mixins, in order. -/
theorem extractBy_of_options (w : Workspace) (ask : Provider σ) (s : σ) {o : OptionsObject}
    (ho : OptionsObject.ofDocument? kind path text = some o) :
    w.extractBy ask kind path text s =
      .ok (w.merge kind path (.ofOptions kind text o) (answers ask (w.mixinFiles path o) s).1,
        (answers ask (w.mixinFiles path o) s).2) :=
  extractBy_eq_ok_iff.mpr ⟨o, ho, rfl, rfl⟩

/-! ### Lookups as a provider -/

/-- Mixins by way of a cache, while the files of a stack are being read. -/
def lookups (w : Workspace) (stack : List Path) : Provider (Cache Record) := fun p cache =>
  if onStack stack p then (none, cache)
  else
    let (found, cache) := w.lookup stack p .mixin cache
    (found.map fun f => f.reading.record.metadata, cache)

/-- What is gathered from mixins is what lookups answer for them. -/
private theorem foldl_add_lookups (stack paths : List Path) (g : Gathered) :
    let gathered := (paths.filter fun p => !onStack stack p).foldl
      (fun g p => g.add p (w.lookup stack p .mixin g.cache)) g
    gathered.metadata = g.metadata ++ (answers (w.lookups stack) paths g.cache).1 ∧
      gathered.cache = (answers (w.lookups stack) paths g.cache).2 := by
  induction paths generalizing g with
  | nil => simp [answers]
  | cons p rest ih =>
    cases hp : onStack stack p with
    | true => simpa [answers, lookups, hp] using ih g
    | false =>
      have hfirst : (g.add p (w.lookup stack p .mixin g.cache)).metadata =
            g.metadata ++ (w.lookups stack p g.cache).1.toList ∧
          (g.add p (w.lookup stack p .mixin g.cache)).cache = (w.lookups stack p g.cache).2 := by
        rw [lookups, hp]
        rcases w.lookup stack p .mixin g.cache with ⟨_ | found, cache⟩ <;> simp [Gathered.add]
      have hrest := ih (g.add p (w.lookup stack p .mixin g.cache))
      rw [hfirst.1, hfirst.2] at hrest
      simpa [answers, hp] using hrest

/-- Reading a document by way of a cache is extraction with lookups as the provider. -/
theorem extractBy_lookups {stack : List Path} {d : Declarations}
    (hd : Declarations.ofDocument kind path text = .ok d) (cache : Cache Record) :
    w.extractBy (w.lookups (stack ++ [path])) kind path text cache =
      .ok ((w.read stack kind path (some d) cache).1.record.metadata,
        (w.read stack kind path (some d) cache).2) := by
  obtain ⟨hmetadata, hcache⟩ := foldl_add_lookups (w := w) (stack ++ [path])
    (w.mixinPaths path d)
    (.start (w.lowestCut (stack ++ [path]) path d) cache)
  simp only [extractBy, hd, read, conclude, gather, freshMixins, bind, Except.bind, hmetadata,
    hcache]
  rfl

/-! ### The law of props and events -/

end Workspace

/-- Props are declared under different names. -/
private theorem PropTable.nodup_keys_ofLiteral (v : Literal) :
    (Table.keys (ofLiteral v)).Nodup := by
  unfold ofLiteral
  split
  · exact Table.nodup_keys_ofEntries _
  · exact Table.nodup_keys_ofEntries _
  · exact List.nodup_nil

private theorem OptionsObject.nodup_keys_props (o : OptionsObject) :
    (Table.keys (o.props?.getD [])).Nodup := by
  unfold OptionsObject.props?
  cases o.value? "props" with
  | none => exact List.nodup_nil
  | some e => exact PropTable.nodup_keys_ofLiteral _

/-- Props and events are those of mixins in order and then those of an options object in a document
with the given text, each name where it occurs first. A prop is the one of the options object if
there is one of the name, and otherwise that of the first mixin that has it. -/
structure Metadata.Merges (m : Metadata) (mixins : List Metadata) (o : OptionsObject)
    (text : String) : Prop where
  keys : m.props.keys =
    (mixins.flatMap (fun a => a.props.keys) ++ Table.keys (o.props?.getD [])).eraseDups
  find? (x : String) : m.props.find? x =
    (Table.find? (o.props?.getD []) x).or (mixins.findSome? fun a => a.props.find? x)
  events : m.events =
    (mixins.flatMap Metadata.events ++ (o.events?.getD [] ++ Events.scan text)).eraseDups

namespace Workspace

/-- Merging keeps to the law, whatever the mixins say. -/
private theorem merges_merge (w : Workspace) (hkind : kind ≠ .componentsOnly) (importer : Path)
    (text : String) (o : OptionsObject) (mixins : List Metadata) :
    (w.merge kind importer (.ofOptions kind text o) mixins).Merges mixins o text := by
  have hprops : kind.readsProps = true := by cases kind <;> simp_all [DocumentKind.readsProps]
  have hevents : kind.readsEvents = true := by cases kind <;> simp_all [DocumentKind.readsEvents]
  have hown : (Declarations.ofOptions kind text o).props = o.props?.getD [] := if_pos hprops
  have hemitted : (Declarations.ofOptions kind text o).events =
      o.events?.getD [] ++ Events.scan text := if_pos hevents
  constructor
  · have hkeys := w.names_merge_eq_eraseDups (f := .props) hprops importer (.ofOptions kind text o)
      mixins
    simpa only [Metadata.names, declaredNames, hown] using hkeys
  · intro x
    rw [merge, hown, Table.find?_putAll, find?_props_inherited hprops,
      Table.ofEntries_of_nodup o.nodup_keys_props]
  · have hnames := w.names_merge_eq_eraseDups (f := .events) hevents importer
      (.ofOptions kind text o) mixins
    simpa only [Metadata.names, declaredNames, hemitted] using hnames

/-- **The law of extraction**, for a kind of document of which everything is read: whatever the
provider, the result merges its answers and what the document declares itself. -/
theorem extractBy_merges (w : Workspace) (ask : Provider σ) (hkind : kind ≠ .componentsOnly)
    (h : w.extractBy ask kind path text s = .ok (m, s')) :
    ∃ o, OptionsObject.ofDocument? kind path text = some o ∧
      m.Merges (answers ask (w.mixinFiles path o) s).1 o text := by
  obtain ⟨o, ho, rfl, -⟩ := extractBy_eq_ok_iff.mp h
  exact ⟨o, ho, w.merges_merge hkind path text o _⟩

end Workspace

namespace Sample

/-- A dialog with base options and three mixins, one of which is not imported. -/
def dialog : String :=
  "import base from './base'\nimport panel from './panel'\nexport default \x7b extends: base, " ++
    "mixins: [panel, missing, base], props: ['size', 'label'], emits: ['close'] \x7d"

/-- The project of the dialog. -/
def dialogWorkspace : Workspace where
  tree := ⟨[(["base.js"], ⟨some "", 1⟩), (["panel.js"], ⟨some "", 1⟩)], []⟩
  resolver := ⟨⟨"/"⟩, ⟨[]⟩, "node_modules"⟩

/-- Answers by the number of questions asked before: the second is not answered. -/
def numbered : Provider Nat := fun _ n =>
  match n with
  | 0 => (some ⟨[("label", ⟨true, none, none⟩), ("tall", .unconstrained)], [], ["open"]⟩, 1)
  | 1 => (none, 2)
  | _ => (some ⟨[("tall", ⟨true, none, none⟩), ("page", .unconstrained)], [], ["close"]⟩, n + 1)

/-- The base options are asked for twice and answered differently. Of two props named `tall` the
first counts; `label` is the prop of the dialog, in the place of that of the base options. -/
def dialogMetadata : Metadata where
  props := [("label", .unconstrained), ("tall", .unconstrained), ("page", .unconstrained),
    ("size", .unconstrained)]
  components := []
  events := ["open", "close"]

/-- The dialog under the numbered answers. -/
theorem extractBy_merges_dialog :
    dialogWorkspace.extractBy numbered .mixin ⟨"/dialog.js"⟩ dialog 0 = .ok (dialogMetadata, 3) ∧
      ∃ o, OptionsObject.ofDocument? .mixin ⟨"/dialog.js"⟩ dialog = some o ∧
        dialogMetadata.Merges (answers numbered (dialogWorkspace.mixinFiles ⟨"/dialog.js"⟩ o) 0).1 o
          dialog := by
  have h : dialogWorkspace.extractBy numbered .mixin ⟨"/dialog.js"⟩ dialog 0 =
      .ok (dialogMetadata, 3) := by
    decide +kernel
  exact ⟨h, Workspace.extractBy_merges dialogWorkspace numbered (by decide) h⟩

end Sample

end ComponentInsight

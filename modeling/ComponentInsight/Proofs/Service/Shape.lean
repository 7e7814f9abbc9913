import ComponentInsight.Proofs.FileTree.Growth
import ComponentInsight.Proofs.Metadata.Shape
import ComponentInsight.Proofs.Service.Answers
import ComponentInsight.Proofs.Service.Recall

/-!
# The shape of answers

Metadata that is answered was put together at some time by merges, at this request or at an earlier
one that stored it. So a property of metadata holds of all answers if merges keep it
(`MetadataLaw`) and if it is not lost **from one request to a later one**; nothing has to be known
of cycles, of fingerprints or of what is cached (`MetadataLaw.of_mem_encounters`). Two properties
are of this kind:

* **Well-formedness** (`Metadata.WellFormed`), which has nothing to do with files: it holds of all
  answers of any run.
* **Children are files** (`Metadata.ChildrenIn`): this is not lost as long as trees grow
  (`FileTree.KeptIn`).

`shape_answers` states both. That trees keep their directories is needed, also empty ones: the path
of a child may lead through a directory and out of it again, and records do not notice when it is
removed (`exists_missing_child`).
-/

namespace ComponentInsight

/-! ### Children -/

/-- The components lead to files. -/
def Metadata.ChildrenIn (t : FileTree) (m : Metadata) : Prop :=
  ∀ c ∈ m.components, t.isFile c.2 = true

private theorem Metadata.ChildrenIn.mono {t u : FileTree} {m : Metadata} (h : m.ChildrenIn t)
    (hu : t.KeptIn u) : m.ChildrenIn u :=
  fun c hc => hu.isFile (h c hc)

/-- The components of a document are files if those of its mixins are. -/
theorem Workspace.childrenIn_merge {w : Workspace} {kind : DocumentKind} {path : Path}
    {d : Declarations} {mixins : List Metadata} (h : ∀ m ∈ mixins, m.ChildrenIn w.tree) :
    (w.merge kind path d mixins).ChildrenIn w.tree := by
  have hbase : (inherited kind mixins).ChildrenIn w.tree := by
    refine inherited_induction (fun c hc => by cases hc) (fun m mixin hm hmixin c hc => ?_) h
    exact (Metadata.mem_components_inherit hc).elim (hm c) (hmixin c)
  intro c hc
  rcases Table.mem_of_mem_putAll hc with hc | hc
  · exact hbase c hc
  · obtain ⟨declared, -, hlocate⟩ := List.mem_filterMap.mp hc
    obtain ⟨p, hp, rfl⟩ := Option.map_eq_some_iff.mp hlocate
    exact isFile_of_locate? hp

/-! ### What merges keep -/

/-- A property of metadata, in view of a file tree, that empty metadata has and merges keep. -/
structure MetadataLaw (P : FileTree → Metadata → Prop) : Prop where
  empty (t : FileTree) : P t .empty
  merge {w : Workspace} {kind : DocumentKind} {path : Path} {d : Declarations}
    {mixins : List Metadata} (hd : d.WellFormed) (h : ∀ m ∈ mixins, P w.tree m) :
    P w.tree (w.merge kind path d mixins)

/-- Well-formedness is a law of all metadata. -/
theorem metadataLaw_wellFormed : MetadataLaw fun _ m => m.WellFormed where
  empty _ := Metadata.wellFormed_empty
  merge hd h := Workspace.wellFormed_merge hd h

/-- That components are files is a law of all metadata. -/
private theorem metadataLaw_childrenIn : MetadataLaw fun t m => m.ChildrenIn t where
  empty _ := fun c hc => by cases hc
  merge _ h := Workspace.childrenIn_merge h

/-- The metadata in an answer. -/
def Answer.metadata? : Answer → Option Metadata
  | .metadata m => some m
  | .child m => m
  | .path _ | .done => none

namespace Service

/-- All metadata that a service remembers has a property. -/
structure CachedMetadata (P : Metadata → Prop) (s : Service) : Prop where
  files : s.files.All fun _ record => P record.metadata
  buffers : s.buffers.All fun _ record => P record.metadata

private theorem cachedMetadata_start (P : Metadata → Prop) (options : ServiceOptions) :
    (Service.start options).CachedMetadata P :=
  ⟨Cache.all_empty _, Cache.all_empty _⟩

private theorem CachedMetadata.mono {P Q : Metadata → Prop} {s : Service} (h : s.CachedMetadata P)
    (himp : ∀ m, P m → Q m) : s.CachedMetadata Q :=
  ⟨fun e he => himp _ (h.files e he), fun e he => himp _ (h.buffers e he)⟩

end Service

namespace MetadataLaw

variable {P : FileTree → Metadata → Prop} {w : Workspace} {s : Service}

/-! ### Lookups -/

/-- A document put together from mixins that have the property has it. -/
private theorem assemble (law : MetadataLaw P) {stack : List Path} {kind : DocumentKind}
    {path : Path} {d : Declarations} {found : List (Path × Found)} (hd : d.WellFormed)
    (hfound : ∀ e ∈ found, P w.tree e.2.reading.record.metadata) :
    P w.tree (w.assemble stack kind path d found).record.metadata := by
  refine law.merge hd fun m hm => ?_
  obtain ⟨e, he, rfl⟩ := List.mem_map.mp hm
  exact hfound e he

/-- If what is cached has the property, so has what is looked up. -/
theorem lookupInvariant (law : MetadataLaw P) (w : Workspace) :
    w.LookupInvariant (fun cache => cache.All fun _ record => P w.tree record.metadata)
      (fun _ _ _ => True) (fun _ _ _ r => P w.tree r.record.metadata) where
  probe _ _ hI := hI.probe
  hit _ _ hI hhit := (hI.of_probe hhit).1
  silent _ _ _ _ _ := law.empty w.tree
  inner _ _ _ _ := trivial
  read _ _ _ _ hd _ hfound :=
    law.assemble (File.wellFormed_of_declarations? hd) fun e he => (hfound e he).2
  settle _ _ hI hr _ := by
    refine ⟨hI.settle hr, ?_⟩
    rcases hI.of_settle with heq | ⟨hother, -⟩
    · rw [heq]
      exact hr
    · exact hother

/-- A reading keeps a law of what is cached, and yields metadata with it. -/
private theorem read (law : MetadataLaw P) {files : Cache Record}
    (hfiles : files.All fun _ record => P w.tree record.metadata) (kind : DocumentKind)
    (path : Path) {d : Option Declarations} (hd : ∀ d' ∈ d, d'.WellFormed) :
    ((w.read [] kind path d files).2.All fun _ record => P w.tree record.metadata) ∧
      P w.tree (w.read [] kind path d files).1.record.metadata := by
  cases d with
  | none => exact ⟨hfiles, law.empty w.tree⟩
  | some d =>
    obtain ⟨hfiles', found, -, hfound, hread⟩ :=
      (law.lookupInvariant w).read_document (fun _ _ => trivial) hfiles
    refine ⟨hfiles', ?_⟩
    rw [hread]
    exact law.assemble (hd d rfl) fun e he => (hfound e he).2

/-! ### Requests -/

/-- A request for a file keeps a law of what is cached, and is answered with metadata of it. -/
private theorem file (law : MetadataLaw P) (hs : s.CachedMetadata (P w.tree)) (path : Path)
    (kind : DocumentKind) :
    (s.file w path kind).2.CachedMetadata (P w.tree) ∧
      ∀ m ∈ (s.file w path kind).1, P w.tree m := by
  obtain ⟨hfiles, hfound⟩ := (law.lookupInvariant w).lookup trivial hs.files
  rw [Service.file_eq]
  refine ⟨⟨hfiles, hs.buffers⟩, fun m hm => ?_⟩
  obtain ⟨found, heq, rfl⟩ := Option.map_eq_some_iff.mp hm
  exact hfound found heq

/-- A request for a buffer does so, too. -/
private theorem buffer (law : MetadataLaw P) (hs : s.CachedMetadata (P w.tree)) (text : String)
    (path : Path) :
    (s.buffer w text path).2.CachedMetadata (P w.tree) ∧ P w.tree (s.buffer w text path).1 := by
  have hread : ∀ r files', w.read [] .componentsOnly path
      (Declarations.ofDocument .componentsOnly path text).toOption s.files = (r, files') →
        (files'.All fun _ record => P w.tree record.metadata) ∧
          P w.tree r.record.metadata ∧ P w.tree r.record.metadata := by
    intro r files' heq
    obtain ⟨hfiles, hrecord⟩ := law.read hs.files .componentsOnly path
      fun _ => Declarations.wellFormed_of_ofDocument
    rw [heq] at hfiles hrecord
    exact ⟨hfiles, hrecord, hrecord⟩
  obtain ⟨hbuffers, hfiles, hrecord⟩ :=
    Workspace.lookupBuffer_spec (fun _ h _ => h) hread hs.buffers hs.files
  rw [Service.buffer_eq]
  exact ⟨⟨hfiles, hbuffers⟩, hrecord⟩

private theorem stepInvariant (law : MetadataLaw P) (w : Workspace) :
    Service.StepInvariant w (fun s => s.CachedMetadata (P w.tree)) (fun _ => True) where
  config hs := ⟨hs.files, hs.buffers⟩
  file hs _ := (law.file hs _ _).1
  buffer hs _ := (law.buffer hs _ _).1
  clear _ := ⟨Cache.all_clear _, Cache.all_clear _⟩

/-- A request is answered with metadata that has the property, if what is remembered has it. -/
theorem answer (law : MetadataLaw P) {t : FileTree} (hs : s.CachedMetadata (P t))
    (settings : Settings) (r : Request) : ∀ m ∈ (s.ask t settings r).1.metadata?, P t m := by
  have hs' : (s.workspace t settings).2.CachedMetadata (P (s.workspace t settings).1.tree) :=
    (law.stepInvariant (s.workspace t settings).1).workspace hs t settings
  intro m hm
  cases r with
  | file path kind =>
    rw [Service.ask_file] at hm
    obtain rfl := Option.some.inj hm
    cases hfound : ((s.workspace t settings).2.file (s.workspace t settings).1 path kind).1 with
    | none => exact law.empty t
    | some m => exact (law.file hs' path kind).2 m hfound
  | buffer text path =>
    rw [Service.ask_buffer] at hm
    obtain rfl := Option.some.inj hm
    exact (law.buffer hs' text path).2
  | componentPath text path tag =>
    rw [Service.ask_componentPath] at hm
    cases hm
  | componentMetadata text path tag =>
    rw [Service.ask_componentMetadata] at hm
    dsimp only at hm
    split at hm
    · cases hm
    · next p _ => exact (law.file (law.buffer hs' text path).1 p (.forPath p)).2 m hm
  | clear => cases hm

/-! ### Runs -/

/-- What is remembered at every query of a run has the property, if it is not lost from one query
to a later one. -/
theorem cachedMetadata_of_mem_encounters (law : MetadataLaw P) {queries : List Query}
    (hs : ∀ q ∈ queries, s.CachedMetadata (P q.tree))
    (hlater : queries.Pairwise fun q q' => ∀ m, P q.tree m → P q'.tree m) {e : Encounter}
    (he : e ∈ encounters s queries) : e.service.CachedMetadata (P e.tree) := by
  induction queries generalizing s with
  | nil => cases he
  | cons q rest ih =>
    obtain ⟨hnext, hrest⟩ := List.pairwise_cons.mp hlater
    rcases List.mem_cons.mp he with rfl | he
    · exact hs q List.mem_cons_self
    · -- what was remembered or answered at one tree counts at all later ones
      have hasked : (s.ask q.tree q.settings q.request).2.CachedMetadata (P q.tree) :=
        (law.stepInvariant (s.workspace q.tree q.settings).1).ask (hs q List.mem_cons_self) rfl
          fun _ _ => trivial
      exact ih (fun q' hq' => hasked.mono (hnext q' hq')) hrest he

/-- All answers of a run have the property, if it is not lost from one query to a later one. -/
theorem of_mem_encounters (law : MetadataLaw P) {options : ServiceOptions} {queries : List Query}
    (hlater : queries.Pairwise fun q q' => ∀ m, P q.tree m → P q'.tree m) :
    ∀ e ∈ encounters (.start options) queries, ∀ m ∈ e.answer.metadata?, P e.tree m :=
  fun _ he => law.answer (law.cachedMetadata_of_mem_encounters
    (fun _ _ => Service.cachedMetadata_start _ options) hlater he) _ _

end MetadataLaw

/-- The metadata that the second of two queries is answered with. -/
private theorem exists_answer_second {s : Service} (q q' : Query) {m : Metadata}
    (h : ((s.ask q.tree q.settings q.request).2.ask q'.tree q'.settings q'.request).1 =
      .metadata m) :
    ∃ e ∈ encounters s [q, q'], e.tree = q'.tree ∧ m ∈ e.answer.metadata? := by
  refine ⟨⟨q', (s.ask q.tree q.settings q.request).2⟩, List.mem_cons_of_mem _ List.mem_cons_self,
    rfl, ?_⟩
  rw [Encounter.answer, h]
  rfl

/-! ### Answers -/

namespace Sample

/-- A card below the dependency directory, which also has an empty directory. -/
def cards : FileTree where
  files := [(["node_modules", "ui", "Card.vue"], ⟨some "", 1⟩)]
  directories := [["node_modules"], ["node_modules", "ui"], ["node_modules", "empty"]]

def emptyDirectory : Path := ⟨"/node_modules/empty"⟩

def card : Path := ⟨"/node_modules/empty/../ui/Card.vue"⟩

/-- A wall with a card, while it is edited. The card is imported by way of the empty directory. -/
def wall : Subject :=
  .buffer ("<script>" ++ exporting "import Card from 'empty/../ui/Card.vue'\n"
    "components: \x7b Card \x7d" ++ "</script>") ⟨"/wall.vue"⟩

/-- The record of the wall. -/
def wallRecord : Record := ⟨⟨[], [("Card", card)], []⟩, []⟩

private theorem record?_wall :
    (Service.start options).record? ((Service.start options).workspace cards .empty).1 wall =
      some wallRecord := by
  decide +kernel

/-- The tree after the card was edited and something written to the empty directory. -/
def moreCards : FileTree :=
  ((cards.touch card 2).makeDirectory ⟨"/src"⟩).write (emptyDirectory.join ⟨"more.vue"⟩)
    ⟨some "", 3⟩

private theorem keptIn_moreCards : cards.KeptIn moreCards :=
  ((FileTree.KeptIn.touch cards card 2).trans (.makeDirectory _ _)).trans (.write _ _ _)

end Sample

/-- **The shape of answers.** All metadata that a run answers is well formed, whatever happens to
files. While trees grow, its components are files. -/
theorem shape_answers (options : ServiceOptions) (queries : List Query) :
    (∀ e ∈ encounters (.start options) queries, ∀ m ∈ e.answer.metadata?, m.WellFormed) ∧
      (queries.Pairwise (fun q q' => q.tree.KeptIn q'.tree) →
        ∀ e ∈ encounters (.start options) queries, ∀ m ∈ e.answer.metadata?,
          m.ChildrenIn e.tree) := by
  constructor
  · refine metadataLaw_wellFormed.of_mem_encounters ?_
    exact List.pairwise_of_forall fun _ _ _ h => h
  · intro hkept
    exact metadataLaw_childrenIn.of_mem_encounters (hkept.imp fun hq _ h => h.mono hq)

/-- The wall shows its card, which is a file at first and after some changes. -/
theorem shape_wall :
    Sample.cards.KeptIn Sample.moreCards ∧
      (∀ e ∈ encounters (.start Sample.options) [⟨Sample.cards, .empty, Sample.wall.request⟩,
          ⟨Sample.moreCards, .empty, Sample.wall.request⟩],
        ∀ m ∈ e.answer.metadata?, m.ChildrenIn e.tree) ∧
      Sample.options.answer ⟨Sample.cards, .empty, Sample.wall.request⟩ =
        .metadata Sample.wallRecord.metadata := by
  refine ⟨Sample.keptIn_moreCards, ?_, ?_⟩
  · exact (shape_answers Sample.options _).2 (List.pairwise_pair.mpr Sample.keptIn_moreCards)
  · rw [ServiceOptions.answer, Service.ask_request_fst, Sample.record?_wall]
    rfl

/-- A child that is told after a directory was removed, but no file, need not be a file. -/
theorem exists_missing_child :
    (Sample.cards.remove Sample.emptyDirectory).files = Sample.cards.files ∧
      ∃ e ∈ encounters (.start Sample.options) [⟨Sample.cards, .empty, Sample.wall.request⟩,
          ⟨Sample.cards.remove Sample.emptyDirectory, .empty, Sample.wall.request⟩],
        ∃ m ∈ e.answer.metadata?, ¬ m.ChildrenIn e.tree := by
  obtain ⟨-, hremembered⟩ := Service.remembered?_ask Sample.record?_wall
  -- the key of a buffer tells nothing of the tree
  have hkey : Sample.wall.key? (Sample.cards.remove Sample.emptyDirectory) =
    Sample.wall.key? Sample.cards := rfl
  rw [← Service.remembered?_congr hkey] at hremembered
  have hlater : (((Service.start Sample.options).ask Sample.cards .empty Sample.wall.request).2.ask
      (Sample.cards.remove Sample.emptyDirectory) .empty Sample.wall.request).1 =
        .metadata Sample.wallRecord.metadata :=
    Service.ask_fst_of_remembered? hremembered rfl .empty
  obtain ⟨e, he, htree, hanswer⟩ := exists_answer_second ⟨_, _, _⟩ ⟨_, _, _⟩ hlater
  refine ⟨by decide, e, he, Sample.wallRecord.metadata, hanswer, fun h => ?_⟩
  rw [htree] at h
  exact absurd (h ("Card", Sample.card) (by decide)) (by decide)

end ComponentInsight

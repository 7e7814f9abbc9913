import ComponentInsight.Proofs.Lookup.Induction
import ComponentInsight.Proofs.Mixins.Tree

/-!
# Records without caches

The record of a document whose mixins form no cycle is made from the records of its mixins, and of
nothing else: no cache, no stack and no cut. `Workspace.Records` says so as a relation, one rule for
a document that declares nothing and one for all others. A document has at most one record
(`Records.unique`).

A record remains one in another workspace, with other files or another way to resolve imports, if
the imports of all documents it was made from lead to the same files (`Records.transfer`). That is
asked only of documents whose mixins, at any depth, have the keys they had; a record with another
mixin is not current and is never used again.

`RecordLaw E` is what any account `E` of records has to satisfy in order to be kept by reading, be
it that a record is the one of the document or only that its metadata is.
-/

namespace ComponentInsight

namespace Workspace

/-- The files of the components that a document registers, by name. -/
def componentsOf (w : Workspace) (s : Source) : List (String × Path) :=
  match s.declarations with
  | none => []
  | some d => w.componentPaths s.path d

/-- The record of a document, made from the records of its mixins. -/
inductive Records (w : Workspace) : Source → Record → Prop where
  | silent {s : Source} (hd : s.declarations = none) : w.Records s .empty
  | document {s : Source} {d : Declarations} {found : List (Dependency × Record)}
    (hd : s.declarations = some d) (paths : (found.map fun e => e.1.path) = w.mixinsOf s)
    (current : ∀ e ∈ found, e.1.isCurrent w.tree = true)
    (below : ∀ e ∈ found, w.Records (w.source .mixin e.1.path) e.2) :
    w.Records s ⟨w.merge s.kind s.path d (found.map fun e => e.2.metadata),
      found.flatMap fun e => e.1 :: e.2.mixins⟩

variable {u w : Workspace} {s : Source} {record record' : Record}

/-- Current dependencies on one file are the same. -/
theorem eq_of_isCurrent {t : FileTree} {a b : Dependency} (ha : a.isCurrent t = true)
    (hb : b.isCurrent t = true) (h : a.path = b.path) : a = b := by
  obtain ⟨p, key⟩ := a
  obtain ⟨q, key'⟩ := b
  obtain rfl : p = q := h
  have hkeys : some key = some key' :=
    (Dependency.isCurrent_iff.mp ha).symm.trans (Dependency.isCurrent_iff.mp hb)
  rw [Option.some.inj hkeys]

/-- A document has at most one record. -/
theorem Records.unique (h : w.Records s record) (h' : w.Records s record') : record = record' := by
  induction h generalizing record' with
  | silent hd =>
    cases h' with
    | silent => rfl
    | document hd' => cases hd.symm.trans hd'
  | @document s d found hd paths current below ih =>
    cases h' with
    | silent hd' => cases hd.symm.trans hd'
    | @document _ d' found' hd' paths' current' below' =>
      obtain rfl : d = d' := Option.some.inj (hd.symm.trans hd')
      obtain rfl : found = found' := by
        refine eq_of_map_eq (paths.trans paths'.symm) fun e he e' he' heq => ?_
        refine Prod.ext (eq_of_isCurrent (current e he) (current' e' he') heq) ?_
        exact ih e he (heq ▸ below' e' he')
      rfl

/-- The record of a document names files that the document reaches, with the keys they have. -/
theorem Records.reaches (h : w.Records s record) {x : Dependency} (hx : x ∈ record.mixins) :
    w.Reaches s x.path ∧ x.isCurrent w.tree = true := by
  induction h with
  | silent => simp [Record.empty] at hx
  | @document s d found hd paths current below ih =>
    obtain ⟨e, he, hx⟩ := List.mem_flatMap.mp hx
    have hp : e.1.path ∈ w.mixinsOf s := paths ▸ List.mem_map_of_mem he
    rcases List.mem_cons.mp hx with rfl | hx
    · exact ⟨.direct hp, current _ he⟩
    · obtain ⟨hreaches, hcurrent⟩ := ih e he hx
      exact ⟨Reaches.trans (.direct hp) hreaches, hcurrent⟩

/-- The record of a document names all files that the document reaches. -/
theorem Records.exists_mixin (h : w.Records s record) {p : Path} (hp : w.Reaches s p) :
    ∃ x ∈ record.mixins, x.path = p := by
  induction h generalizing p with
  | silent hd =>
    obtain ⟨d, hd'⟩ := hp.exists_declarations
    cases hd.symm.trans hd'
  | @document s d found hd paths current below ih =>
    have hfound : ∀ q ∈ w.mixinsOf s, ∃ e ∈ found, e.1.path = q :=
      fun q hq => List.mem_map.mp (paths ▸ hq)
    rcases hp.cases_head with hp | ⟨q, hq, hreaches⟩
    · obtain ⟨e, he, rfl⟩ := hfound p hp
      exact ⟨e.1, List.mem_flatMap.mpr ⟨e, he, List.mem_cons_self⟩, rfl⟩
    · obtain ⟨e, he, rfl⟩ := hfound q hq
      obtain ⟨x, hx, rfl⟩ := ih e he hreaches
      exact ⟨x, List.mem_flatMap.mpr ⟨e, he, List.mem_cons_of_mem _ hx⟩, rfl⟩

/-- If a record is current in another tree, all files that the document reaches have the keys they
had. -/
theorem Records.key?_eq (h : w.Records s record) {t : FileTree}
    (hcurrent : record.isCurrent t = true) {p : Path} (hp : w.Reaches s p) :
    t.key? p .mixin = w.tree.key? p .mixin := by
  obtain ⟨x, hx, rfl⟩ := h.exists_mixin hp
  have hthere : x.isCurrent t = true := List.all_eq_true.mp hcurrent x hx
  have hhere : x.isCurrent w.tree = true := (h.reaches hx).2
  rw [Dependency.isCurrent_iff] at hthere hhere
  exact hthere.trans hhere.symm

/-- Merging looks at the workspace only for the components of the document. -/
theorem merge_eq_of_componentsOf_eq {d : Declarations} (hd : s.declarations = some d)
    (h : u.componentsOf s = w.componentsOf s) (mixins : List Metadata) :
    u.merge s.kind s.path d mixins = w.merge s.kind s.path d mixins := by
  simp only [componentsOf, hd] at h
  simp only [merge, h]

/-- A record that is current remains the record of its document, if the imports of the documents it
was made from lead to the same files. -/
theorem Records.transfer (h : u.Records s record) (docs : Set Source)
    (himports : ∀ s ∈ docs,
      (∀ p, u.Reaches s p → w.tree.key? p .mixin = u.tree.key? p .mixin) →
      u.mixinsOf s = w.mixinsOf s ∧ u.componentsOf s = w.componentsOf s)
    (hmixin : ∀ s ∈ docs, ∀ p ∈ u.mixinsOf s, p ∈ w.mixinsOf s → ∀ key,
      u.tree.key? p .mixin = some key → w.tree.key? p .mixin = some key →
        u.source .mixin p = w.source .mixin p ∧ u.source .mixin p ∈ docs)
    (hs : s ∈ docs) (hcurrent : record.isCurrent w.tree = true) :
    w.Records s record := by
  induction h with
  | silent hd => exact .silent hd
  | @document s d found hd paths current below ih =>
    have hdep : ∀ e ∈ found, e.1.isCurrent w.tree = true ∧ e.2.isCurrent w.tree = true := by
      intro e he
      simp only [Record.isCurrent, List.all_flatMap, List.all_cons, List.all_eq_true,
        Bool.and_eq_true] at hcurrent
      exact ⟨(hcurrent e he).1, List.all_eq_true.mpr (hcurrent e he).2⟩
    obtain ⟨hmixins, hcomponents⟩ := himports s hs fun p hp =>
      (Records.document hd paths current below).key?_eq hcurrent hp
    have hbelow : ∀ e ∈ found, w.Records (w.source .mixin e.1.path) e.2 := by
      intro e he
      have hp : e.1.path ∈ u.mixinsOf s := paths ▸ List.mem_map_of_mem he
      obtain ⟨hsource, hmem⟩ := hmixin s hs _ hp (hmixins ▸ hp) _
        (Dependency.isCurrent_iff.mp (current e he)) (Dependency.isCurrent_iff.mp (hdep e he).1)
      exact hsource ▸ ih e he hmem (hdep e he).2
    rw [merge_eq_of_componentsOf_eq hd hcomponents]
    exact .document hd (paths.trans hmixins) (fun e he => (hdep e he).1) hbelow

end Workspace

/-! ### Accounts of records -/

/-- What an account of records has to satisfy in order to be kept by reading. -/
structure RecordLaw (E : Workspace → Source → Record → Prop) : Prop where
  /-- The record of a document that declares nothing is empty. -/
  silent {w s} (hd : s.declarations = none) : E w s .empty
  /-- The record of a document is put together from those of its mixins. -/
  assemble {w stack s d} {found : List (Path × Found)} (hd : s.declarations = some d)
    (hpaths : found.map Prod.fst = w.mixinsOf s)
    (hfound : ∀ e ∈ found, w.tree.key? e.1 .mixin = some e.2.key ∧
      E w (w.source .mixin e.1) e.2.reading.record) :
    E w s (w.assemble stack s.kind s.path d found).record
  metadata_eq {w s record record'} (h : E w s record) (h' : E w s record') :
    record.metadata = record'.metadata

namespace Workspace

/-- A document put together from records of its mixins. -/
private theorem Records.of_mixins {w : Workspace} {s : Source} {d : Declarations}
    {found : List (Path × Found)} {made : Path × Found → Record} (hd : s.declarations = some d)
    (hpaths : found.map Prod.fst = w.mixinsOf s)
    (hfound : ∀ e ∈ found, w.tree.key? e.1 .mixin = some e.2.key ∧
      w.Records (w.source .mixin e.1) (made e)) :
    w.Records s ⟨w.merge s.kind s.path d (found.map fun e => (made e).metadata),
      found.flatMap fun e => ⟨e.1, e.2.key⟩ :: (made e).mixins⟩ := by
  have h := @Records.document w s d (found.map fun e => (⟨e.1, e.2.key⟩, made e)) hd
    (by simpa [Function.comp_def] using hpaths)
    (List.forall_mem_map.mpr fun e he => by simp [Dependency.isCurrent_iff, (hfound e he).1])
    (List.forall_mem_map.mpr fun e he => (hfound e he).2)
  simpa [Function.comp_def, List.flatMap_map] using h

/-- That a record is the one of its document is kept by reading. -/
theorem recordLaw_records : RecordLaw Records where
  silent := .silent
  assemble hd hpaths hfound := Records.of_mixins hd hpaths hfound
  metadata_eq h h' := by rw [h.unique h']

/-- The metadata is that of the record of the document, whatever dependencies are recorded. -/
def RecordsMetadata (w : Workspace) (s : Source) (record : Record) : Prop :=
  ∃ made, w.Records s made ∧ made.metadata = record.metadata

/-- That the metadata of a record is that of its document is kept by reading. -/
theorem recordLaw_recordsMetadata : RecordLaw RecordsMetadata where
  silent hd := ⟨.empty, .silent hd, rfl⟩
  assemble {w stack s d found} hd hpaths hfound := by
    have hmade : ∀ e ∈ found, ∃ made, w.Records (w.source .mixin e.1) made ∧
        made.metadata = e.2.reading.record.metadata := fun e he => (hfound e he).2
    have : Nonempty Record := ⟨.empty⟩
    choose! made hrecords hmetadata using hmade
    refine ⟨_, Records.of_mixins hd hpaths fun e he => ⟨(hfound e he).1, hrecords e he⟩, ?_⟩
    rw [List.map_congr_left hmetadata]
    rfl
  metadata_eq := by
    rintro w s record record' ⟨made, h, heq⟩ ⟨made', h', heq'⟩
    rw [← heq, ← heq', h.unique h']

end Workspace

end ComponentInsight

import ComponentInsight.Extraction
import ComponentInsight.Proofs.Table

/-!
# The laws of merging

`Workspace.merge` folds the metadata of the mixins of a document and lays the document's own
declarations over them. Here this is said **by look-up** and **by name**:

* **Look-up** (`find?_props_merge`): a prop is taken from the document if it declares it, and
  otherwise from the first mixin that has it.
* **Names** (`names_merge`, `mem_names_merge`): the names of a result are those of the mixins, in
  order, followed by the new ones of the document. Props, components and events obey one law;
  `Facet` tells them apart.

Both rest on two facts about ordered tables: storing an entry appends its key unless it is known
(`Table.keys_put`, `Table.keys_putNew`), and a look-up after many stores is an `Option.or`.
-/

namespace ComponentInsight

/-! ### What a mixin contributes -/

/-- The kinds of names in metadata. -/
inductive Facet where
  | props
  | components
  | events
  deriving DecidableEq

/-- Whether names of a kind are taken over from mixins. -/
def DocumentKind.reads (k : DocumentKind) : Facet → Bool
  | .props => k.readsProps
  | .components => true
  | .events => k.readsEvents

@[simp]
theorem DocumentKind.reads_mixin (f : Facet) : DocumentKind.mixin.reads f = true := by
  cases f <;> rfl

namespace Metadata

/-- The names of a kind, in order. -/
def names (m : Metadata) : Facet → List String
  | .props => m.props.keys
  | .components => m.components.keys
  | .events => m.events

@[simp]
theorem names_empty (f : Facet) : Metadata.empty.names f = [] := by cases f <;> rfl

/-- Inheriting adds the names of a mixin behind those there, if the kind reads them. -/
theorem names_inherit (m mixin : Metadata) (kind : DocumentKind) (f : Facet) :
    (m.inherit kind mixin).names f =
      if kind.reads f then Distinct.addAll (m.names f) (mixin.names f) else m.names f := by
  cases f with
  | props =>
    cases hk : kind.readsProps
    · simp [names, inherit, DocumentKind.reads, hk]
    · simp [names, inherit, DocumentKind.reads, hk, Table.keys_putAllNew]
  | components => simp [names, inherit, DocumentKind.reads, Table.keys_putAllNew]
  | events => cases hk : kind.readsEvents <;> simp [names, inherit, DocumentKind.reads, hk]

end Metadata

/-! ### The merge -/

namespace Workspace

/-- The names a document declares itself. -/
def declaredNames (w : Workspace) (importer : Path) (d : Declarations) : Facet → List String
  | .props => d.props.keys
  | .components => Table.keys (w.componentPaths importer d)
  | .events => d.events

/-- The names taken over from mixins, each where it occurs first. -/
theorem names_inherited (kind : DocumentKind) (mixins : List Metadata) (f : Facet) :
    (inherited kind mixins).names f =
      if kind.reads f then Distinct.ofList (mixins.flatMap fun m => m.names f) else [] := by
  suffices h : ∀ base : Metadata,
      (mixins.foldl (fun m mixin => m.inherit kind mixin) base).names f =
        if kind.reads f then Distinct.addAll (base.names f) (mixins.flatMap fun m => m.names f)
        else base.names f by
    have hempty := h .empty
    rw [Metadata.names_empty] at hempty
    exact hempty
  induction mixins with
  | nil =>
    intro base
    split <;> rfl
  | cons m rest ih =>
    intro base
    rw [List.foldl_cons, ih, Metadata.names_inherit, List.flatMap_cons]
    cases kind.reads f <;> simp [Distinct.addAll_append]

/-- A name is inherited if the kind reads it and a mixin has it. -/
theorem mem_names_inherited {kind : DocumentKind} {mixins : List Metadata} {f : Facet}
    {x : String} :
    x ∈ (inherited kind mixins).names f ↔ kind.reads f = true ∧ ∃ m ∈ mixins, x ∈ m.names f := by
  rw [names_inherited]
  cases kind.reads f <;> simp [Distinct.ofList]

/-- The props of all mixins, the first one deciding. -/
private theorem props_inherited {kind : DocumentKind} (h : kind.readsProps = true)
    (mixins : List Metadata) :
    (inherited kind mixins).props = mixins.foldl (fun t m => Table.putAllNew t m.props) [] := by
  have hstep : ∀ m mixin : Metadata, m.props.putAllNew mixin.props = (m.inherit kind mixin).props :=
    fun m mixin => by rw [Metadata.inherit, if_pos h]
  exact (List.foldl_hom Metadata.props hstep).symm

/-- Components are taken over by documents of all kinds. -/
theorem components_inherited (kind : DocumentKind) (mixins : List Metadata) :
    (inherited kind mixins).components =
      mixins.foldl (fun t m => Table.putAllNew t m.components) [] :=
  (List.foldl_hom Metadata.components fun _ _ => rfl).symm

/-- A prop is inherited from the first mixin that has it. -/
theorem find?_props_inherited {kind : DocumentKind} (h : kind.readsProps = true)
    (mixins : List Metadata) (x : String) :
    (inherited kind mixins).props.find? x = mixins.findSome? fun m => m.props.find? x := by
  rw [props_inherited h, Table.find?_foldl_putAllNew, Table.find?, Option.none_or]

/-- A component is inherited from the first mixin that has it. -/
theorem find?_components_inherited (kind : DocumentKind) (mixins : List Metadata) (x : String) :
    (inherited kind mixins).components.find? x =
      mixins.findSome? fun m => m.components.find? x := by
  rw [components_inherited, Table.find?_foldl_putAllNew, Table.find?, Option.none_or]

/-- The names of a result: those taken over, then the new ones of the document. -/
theorem names_merge (w : Workspace) (kind : DocumentKind) (importer : Path) (d : Declarations)
    (mixins : List Metadata) (f : Facet) :
    (w.merge kind importer d mixins).names f =
      Distinct.addAll ((inherited kind mixins).names f) (w.declaredNames importer d f) := by
  cases f
  · exact Table.keys_putAll _ _
  · exact Table.keys_putAll _ _
  · rfl

/-- The names of a result that are taken over: those of the mixins in order and then those of the
document, each where it occurs first. -/
theorem names_merge_eq_eraseDups (w : Workspace) {kind : DocumentKind} {f : Facet}
    (hf : kind.reads f = true) (importer : Path) (d : Declarations) (mixins : List Metadata) :
    (w.merge kind importer d mixins).names f =
      (mixins.flatMap (fun m => m.names f) ++ w.declaredNames importer d f).eraseDups := by
  rw [names_merge, names_inherited, if_pos hf, Distinct.ofList, ← Distinct.addAll_append]
  exact Distinct.ofList_eq_eraseDups _

/-- A name of a result comes from a mixin or from the document alone. -/
theorem mem_names_merge {w : Workspace} {kind : DocumentKind} {importer : Path} {d : Declarations}
    {mixins : List Metadata} {f : Facet} {x : String} :
    x ∈ (w.merge kind importer d mixins).names f ↔
      (kind.reads f = true ∧ ∃ m ∈ mixins, x ∈ m.names f) ∨
        x ∈ (w.merge kind importer d []).names f := by
  have halone : x ∈ (w.merge kind importer d []).names f ↔ x ∈ w.declaredNames importer d f := by
    rw [names_merge, Distinct.mem_addAll, mem_names_inherited]
    simp
  rw [halone, names_merge, Distinct.mem_addAll, mem_names_inherited]

/-- A prop is the document's own or that of the first mixin that has it. -/
theorem find?_props_merge (w : Workspace) {kind : DocumentKind} (h : kind.readsProps = true)
    (importer : Path) (d : Declarations) (mixins : List Metadata) (x : String) :
    (w.merge kind importer d mixins).props.find? x =
      ((w.merge kind importer d []).props.find? x).or
        (mixins.findSome? fun m => m.props.find? x) := by
  have hmerge : ∀ ms : List Metadata, (w.merge kind importer d ms).props =
      (inherited kind ms).props.putAll d.props := fun _ => rfl
  rw [hmerge, hmerge, Table.find?_putAll, Table.find?_putAll, find?_props_inherited h,
    find?_props_inherited h]
  simp

end Workspace

end ComponentInsight

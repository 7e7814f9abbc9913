import ComponentInsight.Proofs.Service.Invariant
import Mathlib.Data.List.Nodup

/-!
# What a service answers

The answers to the requests of a run, with fresh edits in between and whatever was asked for before.

* **Completeness** (`mem_names_answer_iff`): the names that a script is answered with are those that
  it and the files it reaches declare. Mixins may form cycles of any shape.
* **Linearization** (`exists_tree_answer`): without cycles, a prop is the one declared by the first
  file that declares it, in the preorder of the tree of mixins.
* **Transparency** (`answer_eq_start_of_acyclic`): without cycles, the answer is that of a service
  that has read nothing yet. Capacities, evictions and stale records do not show.
-/

namespace ComponentInsight

/-- What a script declares itself: its metadata when nothing is known of any mixin. -/
def Workspace.declaredAlone (w : Workspace) (p : Path) : Metadata :=
  (((w.tree.file? p).bind File.text).bind fun text =>
    (w.extract (fun _ => none) .mixin p text).toOption).getD .empty

/-- What a document declares alone is what it has of its own. -/
private theorem Workspace.declaredAlone_eq_own (w : Workspace) (p : Path) :
    w.declaredAlone p = w.own (w.source .mixin p) := by
  unfold declaredAlone own source File.declarations? extract
  cases w.tree.file? p with
  | none => rfl
  | some f =>
    obtain ⟨text, modified⟩ := f
    cases text with
    | none => rfl
    | some text =>
      cases hd : Declarations.ofDocument .mixin p text with
      | error e => simp [hd, Except.toOption, bind, Except.bind]
      | ok d => simp [hd, Except.toOption, bind, Except.bind, pure, Except.pure]

/-! ### A project -/

namespace Sample

/-- A project in the root directory. -/
def options : ServiceOptions := { root := ⟨"/"⟩ }

def list : Path := ⟨"/list.js"⟩

def page : Path := ⟨"/page.js"⟩

def sort : Path := ⟨"/sort.js"⟩

def left : Path := ⟨"/left.js"⟩

def right : Path := ⟨"/right.js"⟩

/-- A script that exports an options object. -/
def exporting (imports object : String) : String :=
  imports ++ "export default \x7b " ++ object ++ " \x7d"

/-- A list that is paged and sorted, where sorting is paged as well, and two panels that are mixins
of each other. -/
def tree : FileTree where
  files :=
    [(["list.js"], ⟨some (exporting "import page from './page'\nimport sort from './sort'\n"
        "extends: page, mixins: [sort]"), 1⟩),
      (["page.js"], ⟨some (exporting "" "props: ['size'], emits: ['page']"), 1⟩),
      (["sort.js"], ⟨some (exporting "import page from './page'\n" "mixins: [page]"), 1⟩),
      (["left.js"],
        ⟨some (exporting "import r from './right'\n" "mixins: [r], props: ['left']"), 1⟩),
      (["right.js"],
        ⟨some (exporting "import l from './left'\n" "mixins: [l], props: ['right']"), 1⟩)]
  directories := []

/-- Another way to page, written later. -/
def newPage : File := ⟨some (exporting "" "props: ['count']"), 2⟩

/-- Another panel, written later. -/
def newRight : File :=
  ⟨some (exporting "import l from './left'\n" "mixins: [l], props: ['wide']"), 2⟩

/-- A request for a script, an edit, and the request again. -/
def editRun (p edited : Path) (file : File) : List Move :=
  [.ask (.file p .mixin), .edit edited file, .ask (.file p .mixin)]

/-- The request after the edit. -/
def editMoment (p edited : Path) (file : File) : Moment where
  service := ((Service.start options).ask tree .empty (.file p .mixin)).2
  tree := tree.write edited file
  request := .file p .mixin

private theorem editMoment_mem (p edited : Path) (file : File) : editMoment p edited file ∈
    moments .empty (.start options) tree (editRun p edited file) :=
  List.mem_cons_of_mem _ List.mem_cons_self

/-- The request for the list after paging was edited. -/
abbrev listMoment : Moment := editMoment list page newPage

/-- The request for a panel after the other one was edited. -/
abbrev leftMoment : Moment := editMoment left right newRight

private theorem eq_of_mem_editRun {p edited : Path} {file : File} {m : Moment}
    (hm : m ∈ moments .empty (.start options) tree (editRun p edited file)) :
    m.request = .file p .mixin ∧ (m.tree = tree ∨ m.tree = tree.write edited file) := by
  rcases List.mem_cons.mp hm with rfl | hm
  · exact ⟨rfl, .inl rfl⟩
  · obtain rfl := List.mem_singleton.mp hm
    exact ⟨rfl, .inr rfl⟩

/-- A run reads files of a list that is closed under mixins before and after the edit. -/
private theorem noFileCollisions_editRun {p edited : Path} {file : File} (paths : List Path)
    (hedits : FreshEdits options.root [] tree (editRun p edited file)) (hp : p ∈ paths)
    (hclosed : ∀ t, t = tree ∨ t = tree.write edited file → ∀ q ∈ paths,
      (options.workspace t .empty).mixinsOf ((options.workspace t .empty).source .mixin q) ⊆ paths)
    (hkeys : ∀ k ∈ tree.scriptKeys paths ++ (tree.write edited file).scriptKeys paths,
      ∀ k' ∈ tree.scriptKeys paths ++ (tree.write edited file).scriptKeys paths,
        k.fingerprint = k'.fingerprint → k = k') :
    NoFileCollisions .empty (moments .empty (.start options) tree (editRun p edited file)) := by
  refine noFileCollisions_of_scripts paths _ (fun m hm => ?_) (fun m hm => ?_) (fun m hm => ?_)
    hkeys
  · exact ⟨p, hp, (eq_of_mem_editRun hm).1⟩
  · rw [workspace_of_mem_moments hedits hm]
    exact hclosed m.tree (eq_of_mem_editRun hm).2
  · rcases (eq_of_mem_editRun hm).2 with htree | htree
    · rw [htree]
      exact List.subset_append_left _ _
    · rw [htree]
      exact List.subset_append_right _ _

private theorem freshEdits_list : FreshEdits options.root [] tree (editRun list page newPage) :=
  ⟨⟨by decide, by decide, by decide⟩, trivial⟩

/-- The edit of the sample writes a file with a new time. -/
theorem freshEdits_left : FreshEdits options.root [] tree (editRun left right newRight) :=
  ⟨⟨by decide, by decide, by decide⟩, trivial⟩

/-- The mixins of the list, before and after the edit. -/
theorem mixinsOf_list {t : FileTree} (ht : t = tree ∨ t = tree.write page newPage) :
    (options.workspace t .empty).mixinsOf ((options.workspace t .empty).source .mixin list) =
        [page, sort] ∧
      (options.workspace t .empty).mixinsOf ((options.workspace t .empty).source .mixin page) =
        [] ∧
      (options.workspace t .empty).mixinsOf ((options.workspace t .empty).source .mixin sort) =
        [page] := by
  have hbefore : (options.workspace tree .empty).mixinsOf
        ((options.workspace tree .empty).source .mixin list) = [page, sort] ∧
      (options.workspace tree .empty).mixinsOf
        ((options.workspace tree .empty).source .mixin page) = [] ∧
      (options.workspace tree .empty).mixinsOf
        ((options.workspace tree .empty).source .mixin sort) = [page] := by
    decide +kernel
  rcases ht with rfl | rfl
  · exact hbefore
  · rw [freshEdits_list.1.mixinsOf_eq (q := list) .empty (by decide +kernel),
      freshEdits_list.1.mixinsOf_eq (q := sort) .empty (by decide +kernel)]
    exact ⟨hbefore.1, by decide +kernel, hbefore.2.2⟩

/-- The mixins of the panels, before and after the edit. -/
theorem mixinsOf_left {t : FileTree} (ht : t = tree ∨ t = tree.write right newRight) :
    (options.workspace t .empty).mixinsOf ((options.workspace t .empty).source .mixin left) =
        [right] ∧
      (options.workspace t .empty).mixinsOf ((options.workspace t .empty).source .mixin right) =
        [left] := by
  have hbefore : (options.workspace tree .empty).mixinsOf
        ((options.workspace tree .empty).source .mixin left) = [right] ∧
      (options.workspace tree .empty).mixinsOf
        ((options.workspace tree .empty).source .mixin right) = [left] := by
    decide +kernel
  rcases ht with rfl | rfl
  · exact hbefore
  · rw [freshEdits_left.1.mixinsOf_eq (q := left) .empty (by decide +kernel)]
    exact ⟨hbefore.1, by decide +kernel⟩

/-- The keys of the scripts, before and after the edits. -/
def scriptKeys : List FileKey :=
  tree.scriptKeys [list, page, sort, left, right] ++ [⟨2, page, .mixin⟩, ⟨2, right, .mixin⟩]

/-- The keys of the scripts do not collide. -/
theorem eq_of_fingerprint_eq {keys : List FileKey} (h : keys ⊆ scriptKeys) : ∀ k ∈ keys,
    ∀ k' ∈ keys, k.fingerprint = k'.fingerprint → k = k' := by
  have hnodup : (scriptKeys.map FileKey.fingerprint).Nodup := by decide +kernel
  exact fun k hk k' hk' => List.inj_on_of_nodup_map hnodup (h hk) (h hk')

private theorem noFileCollisions_list : NoFileCollisions .empty
    (moments .empty (.start options) tree (editRun list page newPage)) := by
  refine noFileCollisions_editRun [list, page, sort] freshEdits_list (by simp) ?_
    (eq_of_fingerprint_eq (by decide))
  intro t ht
  obtain ⟨hlist, hpage, hsort⟩ := mixinsOf_list ht
  simp [hlist, hpage, hsort]

theorem noFileCollisions_left : NoFileCollisions .empty
    (moments .empty (.start options) tree (editRun left right newRight)) := by
  refine noFileCollisions_editRun [left, right] freshEdits_left (by simp) ?_
    (eq_of_fingerprint_eq (by decide))
  intro t ht
  obtain ⟨hleft, hright⟩ := mixinsOf_left ht
  simp [hleft, hright]

private theorem noBufferCollisions_list : NoBufferCollisions .empty
    (moments .empty (.start options) tree (editRun list page newPage)) :=
  noBufferCollisions_of_files fun _ hm => ⟨list, .mixin, (eq_of_mem_editRun hm).1⟩

/-- No chain of mixins from the list visits a path twice, as long as its mixins are the two. -/
theorem acyclic_of_mixinsOf {w : Workspace}
    (h : w.mixinsOf (w.source .mixin list) = [page, sort] ∧
      w.mixinsOf (w.source .mixin page) = [] ∧ w.mixinsOf (w.source .mixin sort) = [page]) :
    w.Acyclic (w.source .mixin list) ∧ w.Acyclic (w.source .mixin sort) := by
  obtain ⟨hlist, hpage, hsort⟩ := h
  have hsort_page : sort.same page = false := by decide
  have hlist_page : list.same page = false := by decide
  have hlist_sort : list.same sort = false := by decide
  have hpageAcyclic : w.Acyclic (w.source .mixin page) :=
    .of_closed (l := []) (by simp [hpage]) (by simp) (by simp) (by simp [hpage])
  have hsortAcyclic : w.Acyclic (w.source .mixin sort) :=
    .of_closed (l := [page]) (by simp [hsort]) (by simp [hpage]) (by simp [hsort_page])
      (by simp [hsort, hpageAcyclic])
  exact ⟨.of_closed (l := [page, sort]) (by simp [hlist]) (by simp [hpage, hsort])
    (by simp [hlist_page, hlist_sort]) (by simp [hlist, hpageAcyclic, hsortAcyclic]), hsortAcyclic⟩

theorem acyclic_list {t : FileTree} (ht : t = tree ∨ t = tree.write page newPage) :
    (options.workspace t .empty).Acyclic ((options.workspace t .empty).source .mixin list) :=
  (acyclic_of_mixinsOf (mixinsOf_list ht)).1

end Sample

/-! ### Answers -/

section Run

variable {options : ServiceOptions} {settings : Settings} {t : FileTree} {moves : List Move}

/-- **Completeness.** The names that a script is answered with are exactly those that the files of
its family declare themselves, in whatever cycles. -/
theorem mem_names_answer_iff (hedits : FreshEdits options.root [] t moves)
    (hfiles : NoFileCollisions settings (moments settings (.start options) t moves)) {m : Moment}
    (hm : m ∈ moments settings (.start options) t moves) {p : Path}
    (hrequest : m.request = .file p .mixin) :
    ∃ metadata, m.answer settings = .metadata metadata ∧
      ∀ (f : Facet) (name : String), name ∈ metadata.names f ↔
        ∃ q ∈ (m.workspace settings).family p,
          name ∈ ((m.workspace settings).declaredAlone q).names f := by
  obtain ⟨record, hanswer, hrecord⟩ := exists_record_of_mem_moments hedits hfiles hm hrequest
  refine ⟨record.metadata, hanswer, fun f name => ?_⟩
  simp only [Workspace.declaredAlone_eq_own]
  exact hrecord.mem_names_iff

/-- Panels that are mixins of each other, after one of them was edited. -/
theorem mem_names_answer_left :
    ∃ metadata, Sample.leftMoment.answer .empty = .metadata metadata ∧
      ∀ (f : Facet) (name : String), name ∈ metadata.names f ↔
        ∃ q ∈ (Sample.leftMoment.workspace .empty).family Sample.left,
          name ∈ ((Sample.leftMoment.workspace .empty).declaredAlone q).names f :=
  mem_names_answer_iff Sample.freshEdits_left Sample.noFileCollisions_left
    (Sample.editMoment_mem _ _ _) rfl

/-- **Linearization.** Without cycles, the mixins of a file form a tree, in which every document
stands before its mixins and these stand in order. A prop is the one declared by the first document
that declares it, and the events are those of all documents. -/
theorem exists_tree_answer (hedits : FreshEdits options.root [] t moves)
    (hfiles : NoFileCollisions settings (moments settings (.start options) t moves)) {m : Moment}
    (hm : m ∈ moments settings (.start options) t moves) {p : Path} {kind : DocumentKind}
    (hrequest : m.request = .file p kind) (hkind : kind ≠ .componentsOnly)
    (hacyclic : (m.workspace settings).Acyclic ((m.workspace settings).source kind p)) :
    ∃ (metadata : Metadata) (tree : MixinTree), m.answer settings = .metadata metadata ∧
      tree.Unfolds (m.workspace settings) (m.workspace settings).mixinsOf ∧
      tree.source = (m.workspace settings).source kind p ∧
      (∀ x, metadata.props.find? x =
        tree.preorder.findSome? fun s => ((m.workspace settings).own s).props.find? x) ∧
      (∀ x, metadata.props.find? x = none ↔
        ∀ s ∈ tree.preorder, ((m.workspace settings).own s).props.find? x = none) ∧
      ∀ e, e ∈ metadata.events ↔
        ∃ s ∈ tree.preorder, e ∈ ((m.workspace settings).own s).events := by
  obtain ⟨record, hanswer, hrecord⟩ := exists_record_of_mem_moments hedits hfiles hm hrequest
  obtain ⟨tree, hunfolds, hroot, hmerged⟩ := hrecord.exists_tree hacyclic.loopFree
  have hnext := (m.workspace settings).otherMixins_subset
  have hprops : ∀ x, record.metadata.props.find? x =
      tree.preorder.findSome? fun s => ((m.workspace settings).own s).props.find? x := by
    intro x
    rw [← hmerged]
    refine MixinTree.find?_props_merged hnext hunfolds ?_ x
    cases kind <;> simp_all [DocumentKind.readsProps]
  refine ⟨record.metadata, tree, hanswer, hunfolds.of_acyclic (hroot ▸ hacyclic), hroot, hprops,
    fun x => ?_, fun e => ?_⟩
  · rw [hprops, List.findSome?_eq_none_iff]
  · rw [← hmerged]
    refine MixinTree.mem_names_merged hnext hunfolds (f := .events) ?_
    cases kind <;> simp_all [DocumentKind.reads, DocumentKind.readsEvents]

/-- A list that is paged twice, once by way of sorting, after paging was edited. -/
theorem exists_tree_answer_list :
    ∃ (metadata : Metadata) (tree : MixinTree),
      Sample.listMoment.answer .empty = .metadata metadata ∧
      tree.Unfolds (Sample.listMoment.workspace .empty)
        (Sample.listMoment.workspace .empty).mixinsOf ∧
      tree.source = (Sample.listMoment.workspace .empty).source .mixin Sample.list ∧
      ∀ x, metadata.props.find? x = tree.preorder.findSome? fun s =>
        ((Sample.listMoment.workspace .empty).own s).props.find? x := by
  have hacyclic : (Sample.listMoment.workspace .empty).Acyclic
      ((Sample.listMoment.workspace .empty).source .mixin Sample.list) := by
    rw [workspace_of_mem_moments Sample.freshEdits_list (Sample.editMoment_mem _ _ _)]
    exact Sample.acyclic_list (.inr rfl)
  obtain ⟨metadata, tree, hanswer, hunfolds, hroot, hprops, -⟩ :=
    exists_tree_answer Sample.freshEdits_list Sample.noFileCollisions_list
      (Sample.editMoment_mem _ _ _) rfl (by decide) hacyclic
  exact ⟨metadata, tree, hanswer, hunfolds, hroot, hprops⟩

/-- **Transparency.** Without cycles, a request is answered as by a service that has read nothing
yet. -/
theorem answer_eq_start_of_acyclic (hedits : FreshEdits options.root [] t moves)
    (hfiles : NoFileCollisions settings (moments settings (.start options) t moves))
    (hbuffers : NoBufferCollisions settings (moments settings (.start options) t moves))
    {m : Moment} (hm : m ∈ moments settings (.start options) t moves)
    (hacyclic : ∀ s ∈ m.sources settings, (m.workspace settings).Acyclic s) :
    m.answer settings = ((Service.start options).ask m.tree settings m.request).1 :=
  answer_eq_of_loopFree hedits hfiles hbuffers hm fun s hs => (hacyclic s hs).loopFree

/-- A list whose paging was edited is answered as by a new service. -/
theorem answer_list_eq_start :
    Sample.listMoment.answer .empty =
      ((Service.start Sample.options).ask (Sample.tree.write Sample.page Sample.newPage) .empty
        (.file Sample.list .mixin)).1 := by
  refine answer_eq_start_of_acyclic Sample.freshEdits_list Sample.noFileCollisions_list
    Sample.noBufferCollisions_list (Sample.editMoment_mem _ _ _) fun s hs => ?_
  obtain rfl := List.mem_singleton.mp hs
  rw [workspace_of_mem_moments Sample.freshEdits_list (Sample.editMoment_mem _ _ _)]
  exact Sample.acyclic_list (.inr rfl)

end Run

end ComponentInsight

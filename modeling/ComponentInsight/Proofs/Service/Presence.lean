import ComponentInsight.Proofs.FileTree.History
import ComponentInsight.Proofs.Service.Answers
import ComponentInsight.Proofs.Service.Recall

/-!
# Files that appear and disappear

Between requests files are written and removed. A record remembers the files that were mixed in and
**no** others: neither the children of a document nor the places where an import was looked for in
vain. So it is known to be out of date when the document or a file mixed in has changed or is gone,
and only then.

`presence_iff` says what this amounts to. All answers of a run are those of a service that has read
nothing yet if no document that is still the same, together with all its mixins, has an import that
leads elsewhere at a later request (`Encounter.Undisturbed`), as it would when a file that was
missing is written or a child is removed. A **mixin** may be changed or removed at any time. On the
other hand a document that is asked for again, while it and all its mixins have the keys they had,
is answered as before, whatever other files have come and gone.
-/

namespace ComponentInsight

/-! ### Runs -/

/-- A step of a run: a request, a file that is written, new or in place of another one, or a file or
directory that is removed. -/
inductive Change where
  | ask (r : Request)
  | write (path : Path) (file : File)
  | remove (path : Path)

/-- The queries of a run that begins with a file tree. -/
def queriesAmid (settings : Settings) : FileTree → List Change → List Query
  | _, [] => []
  | t, .ask r :: rest => ⟨t, settings, r⟩ :: queriesAmid settings t rest
  | t, .write path file :: rest => queriesAmid settings (t.write path file) rest
  | t, .remove path :: rest => queriesAmid settings (t.remove path) rest

/-- Files are written at times at which no file was modified at the same place before, given the
trees of the past, and the configuration files are left alone. -/
def FreshChanges (root : Path) : List FileTree → FileTree → List Change → Prop
  | _, _, [] => True
  | past, t, .ask _ :: rest => FreshChanges root past t rest
  | past, t, .write path file :: rest =>
    (∀ u ∈ t :: past, ∀ old, u.files.find? (FileTree.placeOf path) = some old →
        old.modified ≠ file.modified) ∧
      FileTree.SameConfig root t (t.write path file) ∧
      FreshChanges root (t :: past) (t.write path file) rest
  | past, t, .remove path :: rest =>
    FileTree.SameConfig root t (t.remove path) ∧ FreshChanges root (t :: past) (t.remove path) rest

instance FreshChanges.decidable (root : Path) : (past : List FileTree) → (t : FileTree) →
    (changes : List Change) → Decidable (FreshChanges root past t changes)
  | _, _, [] => isTrue trivial
  | past, t, .ask _ :: rest => decidable root past t rest
  | past, t, .write path file :: rest =>
    have := decidable root (t :: past) (t.write path file) rest
    inferInstanceAs (Decidable (_ ∧ _ ∧ _))
  | past, t, .remove path :: rest =>
    have := decidable root (t :: past) (t.remove path) rest
    inferInstanceAs (Decidable (_ ∧ _))

section

variable {root : Path} {settings : Settings} {past : List FileTree} {t : FileTree}
  {changes : List Change}

/-- The configuration is the same at all queries of a run. -/
theorem FreshChanges.sameConfig (h : FreshChanges root past t changes) :
    ∀ q ∈ queriesAmid settings t changes, FileTree.SameConfig root t q.tree := by
  induction changes generalizing past t with
  | nil => simp [queriesAmid]
  | cons change rest ih =>
    intro q hq
    cases change with
    | ask r =>
      rcases List.mem_cons.mp hq with rfl | hq
      · exact fun _ _ => rfl
      · exact ih h q hq
    | write path file =>
      exact fun name hname => (h.2.1 name hname).trans (ih h.2.2 q hq name hname)
    | remove path => exact fun name hname => (h.1 name hname).trans (ih h.2 q hq name hname)

/-- The trees of a run are consistent, also with those of the past. -/
theorem FreshChanges.consistent (h : FreshChanges root past t changes)
    (hpast : ∀ u ∈ past, u.Consistent t) :
    (∀ u ∈ t :: past, ∀ q ∈ queriesAmid settings t changes, u.Consistent q.tree) ∧
      (queriesAmid settings t changes).Pairwise fun q q' => q.tree.Consistent q'.tree := by
  -- the past grows with every change, so that a tree is compared with all those before it
  induction changes generalizing past t with
  | nil => simp [queriesAmid]
  | cons change rest ih =>
    have hnow := FileTree.consistent_of_mem_cons hpast
    cases change with
    | ask r =>
      obtain ⟨hbefore, hpairs⟩ := ih h hpast
      refine ⟨fun u hu q hq => ?_, List.pairwise_cons.mpr ⟨hbefore t List.mem_cons_self, hpairs⟩⟩
      rcases List.mem_cons.mp hq with rfl | hq
      · exact hnow u hu
      · exact hbefore u hu q hq
    | write path file =>
      obtain ⟨hbefore, hpairs⟩ := ih h.2.2 fun u hu => (hnow u hu).write (h.1 u hu)
      exact ⟨fun u hu => hbefore u (List.mem_cons_of_mem _ hu), hpairs⟩
    | remove path =>
      obtain ⟨hbefore, hpairs⟩ := ih h.2 fun u hu => (hnow u hu).remove path
      exact ⟨fun u hu => hbefore u (List.mem_cons_of_mem _ hu), hpairs⟩

end

/-! ### Imports over time -/

namespace Encounter

/-- A document and all mixins that it reaches have the same keys in another tree. -/
def Keeps (e : Encounter) (t : FileTree) (x : Subject) : Prop :=
  x.key? t = x.key? e.tree ∧
    ∀ p, e.workspace.Reaches (x.source e.workspace) p → t.key? p .mixin = e.tree.key? p .mixin

/-- Imports of a document that two queries read lead to the same files, if the document and all its
mixins have the keys they had. -/
def Undisturbed (e e' : Encounter) : Prop :=
  ∀ x ∈ e.documents, x ∈ e'.documents → e.Keeps e'.tree x →
    e.workspace.mixinsOf (x.source e.workspace) = e'.workspace.mixinsOf (x.source e'.workspace) ∧
      e.workspace.componentsOf (x.source e.workspace) =
        e'.workspace.componentsOf (x.source e'.workspace)

end Encounter

/-- Documents that are cached under the same key in consistent trees are the same. -/
private theorem NoCollisions.source_eq {es : List Encounter} (hkeys : NoCollisions es)
    {e e' : Encounter} (he : e ∈ es) (he' : e' ∈ es) (hconsistent : e.tree.Consistent e'.tree)
    {x y : Subject} (hx : x ∈ e.documents) (hy : y ∈ e'.documents)
    (hsort : x.isBuffer = y.isBuffer) {key : Fingerprint} (hkey : x.key? e.tree = some key)
    (hkey' : y.key? e'.tree = some key) :
    x = y ∧ x.source e.workspace = x.source e'.workspace := by
  obtain ⟨rfl, hmodified⟩ := hkeys.eq_of_key? he he' hx hy hsort hkey hkey'
  refine ⟨rfl, ?_⟩
  cases x with
  | buffer text path => rfl
  | file path kind =>
    obtain ⟨f, g, hf, hg, heq⟩ := hmodified path kind rfl
    refine Workspace.source_eq_of_file?_eq (u := e.workspace) (w := e'.workspace) ?_ kind
    rw [Encounter.tree_workspace, Encounter.tree_workspace, hf, hg, hconsistent.file? hf hg heq]

/-- If imports are undisturbed, a record that is current later on is the record of its document
later on. -/
theorem Encounter.Undisturbed.countsFor {es : List Encounter} (hkeys : NoCollisions es)
    {e e' : Encounter} (he : e ∈ es) (he' : e' ∈ es) (hconsistent : e.tree.Consistent e'.tree)
    (h : e.Undisturbed e') : e.CountsFor Workspace.Records e' := by
  intro x hx y hy hsort key record hkey hkey' hrecord hcurrent
  obtain ⟨rfl, hsource⟩ := hkeys.source_eq he he' hconsistent hx hy hsort hkey hkey'
  rw [← hsource]
  -- documents that both queries read and that are the same at both
  refine hrecord.transfer { s | ∃ y ∈ e.documents, y ∈ e'.documents ∧
    y.key? e'.tree = y.key? e.tree ∧ y.source e.workspace = y.source e'.workspace ∧
    s = y.source e.workspace } ?_ ?_ ⟨x, hx, hy, hkey'.trans hkey.symm, hsource, rfl⟩ hcurrent
  · rintro _ ⟨y, hy, hy', hsame, hsource, rfl⟩ hmixins
    have himports := h y hy hy' ⟨hsame, hmixins⟩
    rwa [← hsource] at himports
  · rintro _ ⟨y, hy, hy', -, hsource, rfl⟩ p hp hp' key hkey hkey'
    rw [hsource] at hp'
    have hmem : .file p .mixin ∈ e.documents := Encounter.mixin_mem_documents hy hp
    have hmem' : .file p .mixin ∈ e'.documents := Encounter.mixin_mem_documents hy' hp'
    obtain ⟨-, hmixin⟩ := hkeys.source_eq he he' hconsistent hmem hmem' rfl hkey hkey'
    exact ⟨hmixin, .file p .mixin, hmem, hmem', hkey'.trans hkey.symm, hmixin, rfl⟩

private theorem map_toQuery_encounters (s : Service) (queries : List Query) :
    (encounters s queries).map Encounter.toQuery = queries := by
  induction queries generalizing s with
  | nil => rfl
  | cons q rest ih => rw [encounters, List.map_cons, ih]

/-! ### Documents asked for again -/

/-- A document that is asked for again, while it and all its mixins have the keys they had, is
answered as before. -/
theorem ask_later {options : ServiceOptions} {settings : Settings} {t : FileTree} {x : Subject}
    (t' : FileTree) (hkeys : NoCollisions (encounters (.start options) [⟨t, settings, x.request⟩]))
    (hfirst : ∀ e ∈ encounters (.start options) [⟨t, settings, x.request⟩],
      e.Acyclic ∧ e.Keeps t' x) :
    (((Service.start options).ask t settings x.request).2.ask t' settings x.request).1 =
      options.answer ⟨t, settings, x.request⟩ := by
  let first : Encounter := ⟨⟨t, settings, x.request⟩, .start options⟩
  have hmem : first ∈ encounters (.start options) [⟨t, settings, x.request⟩] := List.mem_cons_self
  obtain ⟨hacyclic, hkey, hmixins⟩ := hfirst first hmem
  replace hkey : x.key? t' = x.key? t := hkey
  have hsubjects : first.subjects = [x] := Service.subjects_request _ _ x
  have hx : x ∈ first.documents := Encounter.mem_documents (hsubjects ▸ List.mem_cons_self)
  cases hrecord : (Service.start options).record? first.workspace x with
  | none =>
    have hmissing : x.key? t = none := (Service.record?_eq_none_iff _ first.workspace x).mp hrecord
    rw [ServiceOptions.answer, Service.ask_request_fst_of_missing _ hmissing,
      Service.ask_request_fst_of_missing _ (hkey.trans hmissing)]
  | some record =>
    have hrecords := hkeys.records_of_record? hmem hacyclic hx hrecord
    obtain ⟨-, hremembered⟩ := Service.remembered?_ask hrecord
    have hremembered' : ((Service.start options).ask t settings x.request).2.remembered? t' x =
        some record := by
      rwa [Service.remembered?_congr hkey]
    have hcurrent : record.isCurrent t' = true := by
      refine List.all_eq_true.mpr fun z hz => ?_
      obtain ⟨hreaches, hz⟩ := hrecords.reaches hz
      rw [Dependency.isCurrent_iff] at hz ⊢
      exact (hmixins z.path hreaches).trans hz
    rw [Service.ask_fst_of_remembered? hremembered' hcurrent, ServiceOptions.answer,
      Service.ask_request_fst]
    exact congrArg (fun r => Answer.metadata ((Option.map Record.metadata r).getD .empty))
      hrecord.symm

/-! ### Answers -/

namespace Sample

/-- A tree where a script was written and sorting was removed. -/
def unsorted : FileTree := (tree.write ⟨"/wide.js"⟩ newPage).remove sort

/-- Requests for the list before and after. -/
def unsortedRun : List Change :=
  [.ask (.file list .mixin), .write ⟨"/wide.js"⟩ newPage, .remove sort, .ask (.file list .mixin)]

private theorem freshChanges_unsortedRun : FreshChanges options.root [] tree unsortedRun := by
  decide

/-- The encounters of the run. -/
abbrev unsortedEncounters : List Encounter :=
  encounters (.start options) (queriesAmid .empty tree unsortedRun)

private theorem mem_unsortedEncounters {e : Encounter} (he : e ∈ unsortedEncounters) :
    e.request = .file list .mixin ∧ (e.tree = tree ∨ e.tree = unsorted) ∧
      e.workspace = options.workspace e.tree .empty := by
  have hworkspace := workspace_of_mem_encounters (s := .start options) (.inl rfl)
    freshChanges_unsortedRun.sameConfig he
  simp only [unsortedEncounters, unsortedRun, queriesAmid, encounters, List.mem_cons,
    List.not_mem_nil, or_false] at he
  rcases he with rfl | rfl
  · exact ⟨rfl, .inl rfl, hworkspace⟩
  · exact ⟨rfl, .inr rfl, hworkspace⟩

private theorem imports_unsorted :
    ((options.workspace unsorted .empty).mixinsOf
          ((options.workspace unsorted .empty).source .mixin list) = [page] ∧
        (options.workspace unsorted .empty).mixinsOf
          ((options.workspace unsorted .empty).source .mixin page) = [] ∧
        (options.workspace unsorted .empty).mixinsOf
          ((options.workspace unsorted .empty).source .mixin sort) = []) ∧
      ∀ t ∈ [tree, unsorted], (options.workspace t .empty).componentsOf
        ((options.workspace t .empty).source .mixin page) = [] := by
  decide +kernel

private theorem acyclic_unsortedEncounters {e : Encounter} (he : e ∈ unsortedEncounters) :
    e.Acyclic := by
  obtain ⟨hrequest, htree, hworkspace⟩ := mem_unsortedEncounters he
  intro x hx
  obtain rfl : x = .file list .mixin :=
    List.mem_singleton.mp (Encounter.subjects_of_request (x := .file list .mixin) hrequest ▸ hx)
  rw [hworkspace]
  rcases htree with htree | htree
  · rw [htree]
    exact (acyclic_of_mixinsOf (mixinsOf_list (.inl rfl))).1
  · rw [htree]
    obtain ⟨hlist, hpage, -⟩ := imports_unsorted.1
    have hlist_page : list.same page = false := by decide
    refine .of_closed (l := [page]) (by simp [Subject.source, hlist]) (by simp [hpage])
      (by simpa [Subject.source, Workspace.source] using hlist_page) ?_
    simp only [Subject.source, hlist, List.mem_singleton, forall_eq]
    exact .of_closed (l := []) (by simp [hpage]) (by simp) (by simp) (by simp [hpage])

private theorem exists_path_of_mem_unsortedEncounters {e : Encounter}
    (he : e ∈ unsortedEncounters) {x : Subject} (hx : x ∈ e.documents) :
    ∃ q ∈ [list, page, sort], x = .file q .mixin := by
  obtain ⟨hrequest, htree, hworkspace⟩ := mem_unsortedEncounters he
  refine Encounter.exists_path_of_mem_documents hrequest (by simp) ?_ hx
  rw [hworkspace]
  rcases htree with htree | htree
  · obtain ⟨hlist, hpage, hsort⟩ := mixinsOf_list (.inl rfl)
    simp [htree, hlist, hpage, hsort]
  · obtain ⟨hlist, hpage, hsort⟩ := imports_unsorted.1
    simp [htree, hlist, hpage, hsort]

private theorem noCollisions_unsortedEncounters : NoCollisions unsortedEncounters := by
  refine noCollisions_of_scripts [list, page, sort]
    (tree.scriptKeys [list, page, sort] ++ unsorted.scriptKeys [list, page, sort])
    (fun e he x hx => exists_path_of_mem_unsortedEncounters he hx) (fun e he => ?_)
    (eq_of_fingerprint_eq (by decide))
  rcases (mem_unsortedEncounters he).2.1 with htree | htree
  · rw [htree]
    exact List.subset_append_left _ _
  · rw [htree]
    exact List.subset_append_right _ _

/-- Sorting is gone, which the list was mixed from, and paging imports nothing. -/
private theorem undisturbed_unsortedEncounters :
    unsortedEncounters.Pairwise Encounter.Undisturbed := by
  refine List.pairwise_pair.mpr fun x hx _ hkeeps => ?_
  have hfirst := (mem_unsortedEncounters List.mem_cons_self).2.2
  have hlater := (mem_unsortedEncounters (List.mem_cons_of_mem _ List.mem_cons_self)).2.2
  obtain ⟨q, hq, rfl⟩ := exists_path_of_mem_unsortedEncounters List.mem_cons_self hx
  obtain ⟨hlist, hpage, -⟩ := mixinsOf_list (.inl rfl)
  obtain ⟨⟨-, hpage', -⟩, hcomponents⟩ := imports_unsorted
  have hgone : unsorted.key? sort .mixin ≠ tree.key? sort .mixin := by decide
  simp only [List.mem_cons, List.not_mem_nil, or_false] at hq
  rcases hq with rfl | rfl | rfl
  · refine absurd (hkeeps.2 sort ?_) hgone
    rw [hfirst]
    exact .direct (by simp [Subject.source, hlist])
  · rw [hfirst, hlater]
    exact ⟨hpage.trans hpage'.symm,
      (hcomponents tree (by simp)).trans (hcomponents unsorted (by simp)).symm⟩
  · exact absurd hkeeps.1 hgone

/-- A board with a panel, while it is edited. -/
def boardText : String :=
  "<script>" ++ exporting "import Panel from './Panel'\n" "components: \x7b Panel \x7d" ++
    "</script>"

def board : Subject := .buffer boardText ⟨"/board.vue"⟩

/-- Requests for the board before and after there is a panel. -/
def boardRun : List Change :=
  [.ask board.request, .write ⟨"/Panel.vue"⟩ ⟨some "", 1⟩, .ask board.request]

/-- The encounters of the run. -/
abbrev boardEncounters : List Encounter :=
  encounters (.start options) (queriesAmid .empty .empty boardRun)

private theorem mixinsOf_board (w : Workspace) :
    w.mixinsOf (bufferSource boardText ⟨"/board.vue"⟩) = [] :=
  Workspace.mixinsOf_eq_nil (by decide +kernel)

private theorem request_boardEncounters {e : Encounter} (he : e ∈ boardEncounters) :
    e.request = board.request := by
  simp only [boardEncounters, boardRun, queriesAmid, encounters, List.mem_cons, List.not_mem_nil,
    or_false] at he
  rcases he with rfl | rfl <;> rfl

/-- The board is answered otherwise once there is a panel. -/
private theorem answer_board_ne :
    options.answer ⟨.empty, .empty, board.request⟩ ≠
      options.answer ⟨FileTree.empty.write ⟨"/Panel.vue"⟩ ⟨some "", 1⟩, .empty, board.request⟩ := by
  decide +kernel

end Sample

/-- **Files that come and go.** While files are written and removed, requests are answered as by a
service that has read nothing yet if imports are undisturbed. A document that is asked for again,
while it and all its mixins have the keys they had, is answered right exactly if new services answer
it in the same way at both times. -/
theorem presence_iff (options : ServiceOptions) (settings : Settings) (t : FileTree) :
    (∀ changes : List Change, FreshChanges options.root [] t changes →
      NoCollisions (encounters (.start options) (queriesAmid settings t changes)) →
      (∀ e ∈ encounters (.start options) (queriesAmid settings t changes), e.Acyclic) →
      (encounters (.start options) (queriesAmid settings t changes)).Pairwise
        Encounter.Undisturbed →
      ∀ e ∈ encounters (.start options) (queriesAmid settings t changes),
        e.answer = options.answer e.toQuery) ∧
    ∀ (x : Subject) (t' : FileTree),
      NoCollisions (encounters (.start options) [⟨t, settings, x.request⟩]) →
      (∀ e ∈ encounters (.start options) [⟨t, settings, x.request⟩],
        e.Acyclic ∧ e.Keeps t' x) →
      ((∀ e ∈ encounters (.start options) [⟨t, settings, x.request⟩, ⟨t', settings, x.request⟩],
        e.answer = options.answer e.toQuery) ↔
        options.answer ⟨t, settings, x.request⟩ = options.answer ⟨t', settings, x.request⟩) := by
  constructor
  · intro changes hfresh hkeys hacyclic hundisturbed e he
    have hconsistent : (encounters (.start options) (queriesAmid settings t changes)).Pairwise
        fun e e' => e.tree.Consistent e'.tree := by
      have hqueries : (queriesAmid settings t changes).Pairwise
          fun q q' => q.tree.Consistent q'.tree := (hfresh.consistent (by simp)).2
      rwa [← map_toQuery_encounters (.start options) (queriesAmid settings t changes),
        List.pairwise_map] at hqueries
    have hlater := (hundisturbed.and hconsistent).imp_of_mem fun he he' h =>
      h.1.countsFor hkeys he he' h.2
    exact answer_eq_start_of_countsFor Workspace.recordLaw_records hfresh.sameConfig hacyclic
      (fun e he => hkeys.countsFor_self he) hlater he
  · intro x t' hkeys hfirst
    exact forall_answer_pair_iff (ask_later t' hkeys hfirst)

/-- A list that is asked for again after a script was written and one of its mixins removed. -/
theorem presence_list :
    ∀ e ∈ Sample.unsortedEncounters, e.answer = Sample.options.answer e.toQuery :=
  (presence_iff Sample.options .empty Sample.tree).1 Sample.unsortedRun
    Sample.freshChanges_unsortedRun Sample.noCollisions_unsortedEncounters
    (fun _ he => Sample.acyclic_unsortedEncounters he) Sample.undisturbed_unsortedEncounters

/-- A board that is asked for again after its panel was written, although it has no mixins and no
fingerprints collide. -/
theorem not_presence_board :
    FreshChanges Sample.options.root [] .empty Sample.boardRun ∧
      NoCollisions Sample.boardEncounters ∧ (∀ e ∈ Sample.boardEncounters, e.Acyclic) ∧
      ¬ ∀ e ∈ Sample.boardEncounters, e.answer = Sample.options.answer e.toQuery := by
  have hdocuments : ∀ e : Encounter, e.request = Sample.board.request →
      ∀ x ∈ e.documents, x = Sample.board :=
    fun e he x hx => Encounter.eq_of_mem_documents he (Sample.mixinsOf_board _) hx
  have hacyclic : ∀ e : Encounter, e.request = Sample.board.request → e.Acyclic :=
    fun e he => Encounter.acyclic_of_buffer he (Sample.mixinsOf_board _)
  refine ⟨by decide, ?_, ?_, fun h => ?_⟩
  · exact noCollisions_of_buffer fun e he => hdocuments e (Sample.request_boardEncounters he)
  · exact fun e he => hacyclic e (Sample.request_boardEncounters he)
  · have hfirst : ∀ e ∈ encounters (.start Sample.options) [⟨.empty, .empty, Sample.board.request⟩],
        e.request = Sample.board.request := by
      intro e he
      rw [List.mem_singleton.mp he]
    have hkeys : NoCollisions
        (encounters (.start Sample.options) [⟨.empty, .empty, Sample.board.request⟩]) :=
      noCollisions_of_buffer fun e he => hdocuments e (hfirst e he)
    -- the key of a buffer tells nothing of the tree
    have hkeeps : ∀ (e : Encounter) (t : FileTree), e.Keeps t Sample.board := fun e t =>
      ⟨rfl, fun p hp => absurd hp (Workspace.not_reaches_of_mixinsOf_eq_nil
        (Sample.mixinsOf_board e.workspace))⟩
    have hlater := ask_later (FileTree.empty.write ⟨"/Panel.vue"⟩ ⟨some "", 1⟩) hkeys
      fun e he => ⟨hacyclic e (hfirst e he), hkeeps e _⟩
    exact Sample.answer_board_ne ((forall_answer_pair_iff hlater).mp h)

end ComponentInsight

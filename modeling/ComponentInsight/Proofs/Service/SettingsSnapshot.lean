import ComponentInsight.Proofs.Service.Answers
import ComponentInsight.Proofs.Service.Recall

/-!
# Settings from request to request

Every request brings its own settings, and its answer should be the one that a service that has read
nothing yet gives under **these** settings. Keys of files and buffers tell nothing of settings, so a
record made under others is used as well.

`snapshot_iff` says when this does no harm. While no file changes, all answers of a run are right if
any two requests that read the same document bring settings under which new services tell the same
of it (`SettingsAgree`). The condition cannot be left out for a single document: a document that is
asked for again with other settings is answered **as before**, so the answer is right exactly if the
settings agree on the document.
-/

namespace ComponentInsight

/-- Requests, each with settings of its own, while no file changes. -/
def queriesOn (t : FileTree) (asked : List (Settings × Request)) : List Query :=
  asked.map fun a => ⟨t, a.1, a.2⟩

/-- Services that have read nothing yet tell the same of a document under the settings of any two
queries that read it. -/
def SettingsAgree (options : ServiceOptions) (es : List Encounter) : Prop :=
  ∀ e ∈ es, ∀ e' ∈ es, ∀ x ∈ e.documents, x ∈ e'.documents →
    options.answer ⟨e.tree, e.settings, x.request⟩ =
      options.answer ⟨e'.tree, e'.settings, x.request⟩

section

variable {options : ServiceOptions} {t : FileTree} {asked : List (Settings × Request)}

private theorem tree_of_mem_encounters {s : Service} {e : Encounter}
    (he : e ∈ encounters s (queriesOn t asked)) : e.tree = t := by
  induction asked generalizing s with
  | nil => simp [queriesOn, encounters] at he
  | cons a rest ih =>
    rcases List.mem_cons.mp he with rfl | he
    · rfl
    · exact ih he

private theorem sameConfig_queriesOn :
    ∀ q ∈ queriesOn t asked, FileTree.SameConfig options.root t q.tree := by
  intro q hq
  obtain ⟨a, -, rfl⟩ := List.mem_map.mp hq
  exact fun _ _ => rfl

private theorem workspace_of_mem_queriesOn {e : Encounter}
    (he : e ∈ encounters (.start options) (queriesOn t asked)) :
    e.workspace = options.workspace e.tree e.settings :=
  workspace_of_mem_encounters (s := .start options) (.inl rfl) sameConfig_queriesOn he

/-- A service that has read nothing yet answers a document that is read with the metadata of its
record. -/
private theorem exists_records_answer {es : List Encounter} (hkeys : NoCollisions es)
    {e : Encounter} (he : e ∈ es) (hacyclic : e.Acyclic)
    (hworkspace : e.workspace = options.workspace e.tree e.settings) {x : Subject}
    (hx : x ∈ e.documents) {key : Fingerprint} (hkey : x.key? e.tree = some key) :
    ∃ record, e.workspace.Records (x.source e.workspace) record ∧
      options.answer ⟨e.tree, e.settings, x.request⟩ = .metadata record.metadata := by
  obtain ⟨record, hrecord⟩ := (Service.start options).exists_record? (w := e.workspace) hkey
  refine ⟨record, hkeys.records_of_record? he hacyclic hx hrecord, ?_⟩
  have hanswer := (Service.start options).ask_request_fst e.tree e.settings x
  rw [ServiceOptions.workspace] at hworkspace
  rw [← hworkspace, hrecord] at hanswer
  exact hanswer

/-- Where settings agree, the metadata of a record made under some counts under others. -/
private theorem SettingsAgree.countsFor
    (hkeys : NoCollisions (encounters (.start options) (queriesOn t asked)))
    (hacyclic : ∀ e ∈ encounters (.start options) (queriesOn t asked), e.Acyclic)
    (hagree : SettingsAgree options (encounters (.start options) (queriesOn t asked)))
    {e e' : Encounter} (he : e ∈ encounters (.start options) (queriesOn t asked))
    (he' : e' ∈ encounters (.start options) (queriesOn t asked)) :
    e.CountsFor Workspace.RecordsMetadata e' := by
  intro x hx y hy hsort key record hkey hkey' ⟨made, hmade, hmetadata⟩ _
  obtain ⟨rfl, -⟩ := hkeys.eq_of_key? he he' hx hy hsort hkey hkey'
  obtain ⟨old, hold, hanswer⟩ :=
    exists_records_answer hkeys he (hacyclic e he) (workspace_of_mem_queriesOn he) hx hkey
  obtain ⟨new, hnew, hanswer'⟩ :=
    exists_records_answer hkeys he' (hacyclic e' he') (workspace_of_mem_queriesOn he') hy hkey'
  have hsame : old.metadata = new.metadata := by
    have heq := hagree e he e' he' x hx hy
    rw [hanswer, hanswer'] at heq
    exact Answer.metadata.inj heq
  obtain rfl := hmade.unique hold
  exact ⟨new, hnew, hsame.symm.trans hmetadata⟩

/-- Settings agree if they lead the imports of every document that two queries read to the same
files. -/
theorem settingsAgree_of_imports
    (hkeys : NoCollisions (encounters (.start options) (queriesOn t asked)))
    (hacyclic : ∀ e ∈ encounters (.start options) (queriesOn t asked), e.Acyclic)
    (himports : ∀ e ∈ encounters (.start options) (queriesOn t asked),
      ∀ e' ∈ encounters (.start options) (queriesOn t asked),
        ∀ x ∈ e.documents, x ∈ e'.documents →
          e.workspace.mixinsOf (x.source e.workspace) =
              e'.workspace.mixinsOf (x.source e'.workspace) ∧
            e.workspace.componentsOf (x.source e.workspace) =
              e'.workspace.componentsOf (x.source e'.workspace)) :
    SettingsAgree options (encounters (.start options) (queriesOn t asked)) := by
  intro e he e' he' x hx hx'
  have htree : e.tree = e'.tree :=
    (tree_of_mem_encounters he).trans (tree_of_mem_encounters he').symm
  have hsource : ∀ y : Subject, y.source e.workspace = y.source e'.workspace := by
    intro y
    cases y with
    | file path kind =>
      exact Workspace.source_eq_of_file?_eq (congrArg (FileTree.file? · path) htree) kind
    | buffer text path => rfl
  cases hkey : x.key? e.tree with
  | none =>
    rw [ServiceOptions.answer, ServiceOptions.answer, Service.ask_request_fst_of_missing _ hkey,
      Service.ask_request_fst_of_missing _ (htree ▸ hkey)]
  | some key =>
    obtain ⟨record, hrecord, hanswer⟩ := exists_records_answer hkeys he (hacyclic e he)
      (workspace_of_mem_queriesOn he) hx hkey
    obtain ⟨record', hrecord', hanswer'⟩ := exists_records_answer hkeys he' (hacyclic e' he')
      (workspace_of_mem_queriesOn he') hx' (htree ▸ hkey)
    -- the record of the one workspace is that of the other
    have htransfer : e'.workspace.Records (x.source e.workspace) record := by
      refine hrecord.transfer
        { s | ∃ y ∈ e.documents, y ∈ e'.documents ∧ s = y.source e.workspace } ?_ ?_
        ⟨x, hx, hx', rfl⟩ ?_
      · rintro _ ⟨y, hy, hy', rfl⟩ -
        have h := himports e he e' he' y hy hy'
        rwa [← hsource] at h
      · rintro _ ⟨y, hy, hy', rfl⟩ p hp hp' key - -
        refine ⟨hsource (.file p .mixin), .file p .mixin, Encounter.mixin_mem_documents hy hp,
          Encounter.mixin_mem_documents hy' ?_, rfl⟩
        rwa [← hsource]
      · refine List.all_eq_true.mpr fun z hz => ?_
        rw [Encounter.tree_workspace, ← htree]
        exact (hrecord.reaches hz).2
    rw [hsource] at htransfer
    rw [hanswer, hanswer', htransfer.unique hrecord']

end

namespace Sample

/-- Settings with an alias for the sources. -/
def sources (root : String) : Settings := Settings.empty.withAlias "@/" root

/-- Requests for the list and for sorting, under settings without and with the alias. -/
def listAsked : List (Settings × Request) :=
  [(.empty, .file list .mixin), (sources "src/", .file list .mixin), (.empty, .file sort .mixin)]

/-- The alias plays no part in the imports of the list and of its mixins. -/
private theorem imports_list {settings : Settings}
    (h : settings ∈ [.empty, sources "src/"]) :
    ((options.workspace tree settings).mixinsOf
          ((options.workspace tree settings).source .mixin list) = [page, sort] ∧
        (options.workspace tree settings).mixinsOf
          ((options.workspace tree settings).source .mixin page) = [] ∧
        (options.workspace tree settings).mixinsOf
          ((options.workspace tree settings).source .mixin sort) = [page]) ∧
      ∀ q ∈ [list, page, sort], (options.workspace tree settings).componentsOf
        ((options.workspace tree settings).source .mixin q) = [] := by
  revert settings
  decide +kernel

/-- The encounters of the run for the list. -/
abbrev listEncounters : List Encounter := encounters (.start options) (queriesOn tree listAsked)

private theorem mem_listEncounters {e : Encounter} (he : e ∈ listEncounters) :
    e.workspace = options.workspace tree e.settings ∧
      e.settings ∈ [.empty, sources "src/"] ∧
      ∃ p ∈ [list, sort], e.request = .file p .mixin := by
  have hworkspace := workspace_of_mem_queriesOn he
  rw [tree_of_mem_encounters he] at hworkspace
  refine ⟨hworkspace, ?_⟩
  simp only [listEncounters, listAsked, queriesOn, List.map_cons, List.map_nil, encounters,
    List.mem_cons, List.not_mem_nil, or_false] at he
  rcases he with rfl | rfl | rfl <;> simp

private theorem acyclic_listEncounters {e : Encounter} (he : e ∈ listEncounters) : e.Acyclic := by
  obtain ⟨hworkspace, hsettings, p, hp, hrequest⟩ := mem_listEncounters he
  obtain ⟨hlist, hsort⟩ := acyclic_of_mixinsOf (imports_list hsettings).1
  intro x hx
  rw [Encounter.subjects, hrequest] at hx
  obtain rfl := List.mem_singleton.mp hx
  rw [hworkspace]
  rcases List.mem_pair.mp hp with rfl | rfl
  · exact hlist
  · exact hsort

private theorem exists_path_of_mem_listEncounters {e : Encounter} (he : e ∈ listEncounters)
    {x : Subject} (hx : x ∈ e.documents) : ∃ q ∈ [list, page, sort], x = .file q .mixin := by
  obtain ⟨hworkspace, hsettings, p, hp, hrequest⟩ := mem_listEncounters he
  obtain ⟨hlist, hpage, hsort⟩ := (imports_list hsettings).1
  refine Encounter.exists_path_of_mem_documents hrequest ?_ ?_ hx
  · rcases List.mem_pair.mp hp with rfl | rfl <;> simp
  · simp [hworkspace, hlist, hpage, hsort]

private theorem noCollisions_listEncounters : NoCollisions listEncounters := by
  refine noCollisions_of_scripts [list, page, sort] (tree.scriptKeys [list, page, sort])
    (fun e he x hx => exists_path_of_mem_listEncounters he hx) (fun e he => ?_)
    (eq_of_fingerprint_eq (by decide))
  rw [tree_of_mem_encounters he]
  exact List.Subset.refl _

private theorem settingsAgree_listEncounters : SettingsAgree options listEncounters := by
  refine settingsAgree_of_imports noCollisions_listEncounters
    (fun e he => acyclic_listEncounters he) fun e he e' he' x hx _ => ?_
  obtain ⟨q, hq, rfl⟩ := exists_path_of_mem_listEncounters he hx
  obtain ⟨hworkspace, hsettings, -⟩ := mem_listEncounters he
  obtain ⟨hworkspace', hsettings', -⟩ := mem_listEncounters he'
  obtain ⟨⟨hlist, hpage, hsort⟩, hcomponents⟩ := imports_list hsettings
  obtain ⟨⟨hlist', hpage', hsort'⟩, hcomponents'⟩ := imports_list hsettings'
  simp only [Subject.source, hworkspace, hworkspace']
  refine ⟨?_, (hcomponents q hq).trans (hcomponents' q hq).symm⟩
  simp only [List.mem_cons, List.not_mem_nil, or_false] at hq
  rcases hq with rfl | rfl | rfl
  · rw [hlist, hlist']
  · rw [hpage, hpage']
  · rw [hsort, hsort']

/-- Two panels of one name. -/
def panels : FileTree where
  files := [(["old", "Panel.vue"], ⟨some "", 1⟩), (["new", "Panel.vue"], ⟨some "", 1⟩)]
  directories := [["old"], ["new"]]

/-- A frame with one of the panels, whichever the sources are. -/
def frameText : String :=
  "<script>" ++ exporting "import Panel from '@/Panel'\n" "components: \x7b Panel \x7d" ++
    "</script>"

/-- The frame, while it is edited. -/
def frame : Subject := .buffer frameText ⟨"/frame.vue"⟩

/-- The frame, asked for under two settings. -/
abbrev frameEncounters : List Encounter :=
  encounters (.start options) (queriesOn panels
    [(sources "old/", frame.request), (sources "new/", frame.request)])

/-- The frame has no mixins, under any settings. -/
private theorem mixinsOf_frame (w : Workspace) :
    w.mixinsOf (bufferSource frameText ⟨"/frame.vue"⟩) = [] :=
  Workspace.mixinsOf_eq_nil (by decide +kernel)

private theorem request_frameEncounters {e : Encounter} (he : e ∈ frameEncounters) :
    e.request = frame.request := by
  simp only [frameEncounters, queriesOn, List.map_cons, List.map_nil, encounters, List.mem_cons,
    List.not_mem_nil, or_false] at he
  rcases he with rfl | rfl <;> rfl

/-- The frame is answered otherwise under other settings. -/
private theorem answer_frame_ne :
    options.answer ⟨panels, sources "old/", frame.request⟩ ≠
      options.answer ⟨panels, sources "new/", frame.request⟩ := by
  decide +kernel

end Sample

/-- **Settings of one request.** While no file changes, requests are answered as by a service that
has read nothing yet and is asked under the settings of the request, if settings agree on every
document that two requests read. A document that was asked for under some settings is answered right
under others exactly if they agree on it. -/
theorem snapshot_iff (options : ServiceOptions) (t : FileTree) :
    (∀ asked : List (Settings × Request),
      NoCollisions (encounters (.start options) (queriesOn t asked)) →
      (∀ e ∈ encounters (.start options) (queriesOn t asked), e.Acyclic) →
      SettingsAgree options (encounters (.start options) (queriesOn t asked)) →
      ∀ e ∈ encounters (.start options) (queriesOn t asked),
        e.answer = options.answer e.toQuery) ∧
    ∀ (x : Subject) (settings settings' : Settings),
      (∀ e ∈ encounters (.start options)
          (queriesOn t [(settings, x.request), (settings', x.request)]),
        e.answer = options.answer e.toQuery) ↔
        options.answer ⟨t, settings, x.request⟩ = options.answer ⟨t, settings', x.request⟩ := by
  refine ⟨fun asked hkeys hacyclic hagree e he => ?_, fun x settings settings' => ?_⟩
  · have hcounts : ∀ e ∈ encounters (.start options) (queriesOn t asked),
        ∀ e' ∈ encounters (.start options) (queriesOn t asked),
          e.CountsFor Workspace.RecordsMetadata e' :=
      fun e he e' he' => SettingsAgree.countsFor hkeys hacyclic hagree he he'
    exact answer_eq_start_of_countsFor Workspace.recordLaw_recordsMetadata sameConfig_queriesOn
      hacyclic (fun e he => hcounts e he e he) (List.pairwise_of_forall_mem_list hcounts) he
  · exact forall_answer_pair_iff ((Service.start options).ask_again t settings settings' x)

/-- A list that is asked for under settings that agree on it and on its mixins. -/
theorem snapshot_list : ∀ e ∈ Sample.listEncounters, e.answer = Sample.options.answer e.toQuery :=
  (snapshot_iff Sample.options Sample.tree).1 Sample.listAsked Sample.noCollisions_listEncounters
    (fun _ he => Sample.acyclic_listEncounters he) Sample.settingsAgree_listEncounters

/-- A frame that is asked for under settings that do not agree on it, although it has no mixins and
no fingerprints collide. -/
theorem not_snapshot_frame :
    NoCollisions Sample.frameEncounters ∧ (∀ e ∈ Sample.frameEncounters, e.Acyclic) ∧
      ¬ ∀ e ∈ Sample.frameEncounters, e.answer = Sample.options.answer e.toQuery := by
  refine ⟨?_, fun e he => ?_, fun h => ?_⟩
  · exact noCollisions_of_buffer fun e he x hx =>
      Encounter.eq_of_mem_documents (Sample.request_frameEncounters he) (Sample.mixinsOf_frame _) hx
  · exact Encounter.acyclic_of_buffer (Sample.request_frameEncounters he) (Sample.mixinsOf_frame _)
  · have hagain := (Service.start Sample.options).ask_again Sample.panels (Sample.sources "old/")
      (Sample.sources "new/") Sample.frame
    exact Sample.answer_frame_ne ((forall_answer_pair_iff hagain).mp h)

end ComponentInsight

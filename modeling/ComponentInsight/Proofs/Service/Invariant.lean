import ComponentInsight.Proofs.Service.Requests

/-!
# The invariant of a service

`Versions.Holds V s`: every record that a service remembers tells what its document said in one of
the workspaces of `V`. A new service remembers nothing, and every request **keeps** the invariant
(`Versions.stepInvariant`), hence every run does (`Versions.holds_of_mem_moments`), with the
versions that the run itself goes through (`Versions.ofMoments`).

While the invariant holds, files and buffers are **answered** by faithful records
(`Versions.Holds.exists_record_file`, `Versions.Holds.exists_record_buffer`). Two services for which
it holds answer a request in the same way if no document it reads first has loops
(`Versions.sameAnswers`).
-/

namespace ComponentInsight

/-- The metadata of a document without loops is the same in all faithful records. -/
theorem Record.Faithful.metadata_eq {w : Workspace} {s : Source} {record record' : Record}
    (h : record.Faithful w s) (h' : record'.Faithful w s) (hloop : w.LoopFree s) :
    record.metadata = record'.metadata := by
  obtain ⟨t, ht, hroot, hmerged⟩ := h.exists_tree hloop
  obtain ⟨t', ht', hroot', hmerged'⟩ := h'.exists_tree hloop
  rw [← hmerged, ← hmerged', ht.unique ht' (hroot.trans hroot'.symm)]

namespace Versions

variable {V : Versions} {w : Workspace} {s s' : Service}

/-- Every record that a service remembers tells what its document said in some version. -/
structure Holds (V : Versions) (s : Service) : Prop where
  files : s.files.All V.FileEntry
  buffers : s.buffers.All V.BufferEntry

/-- A subject is read in one of the workspaces, and the keys concerned count. -/
def AdmitsSubject (V : Versions) (w : Workspace) : Subject → Prop
  | .file path kind => V.AdmitsFile w path kind
  | .buffer text path => V.Admits w (bufferSource text path) ∧ ⟨text, path⟩ ∈ V.bufferKeys

/-- Nothing is remembered at the start. -/
theorem holds_start (V : Versions) (options : ServiceOptions) : V.Holds (.start options) :=
  ⟨Cache.all_empty _, Cache.all_empty _⟩

namespace Holds

/-! ### Files and buffers -/

/-- A request for a file keeps the invariant. -/
private theorem file (h : V.Holds s) {path : Path} {kind : DocumentKind}
    (hw : V.AdmitsFile w path kind) : V.Holds (s.file w path kind).2 := by
  rw [Service.file_eq]
  exact ⟨(V.lookup hw h.files).1, h.buffers⟩

/-- So does a request for a buffer. -/
private theorem buffer (h : V.Holds s) {text : String} {path : Path}
    (hw : V.AdmitsSubject w (.buffer text path)) : V.Holds (s.buffer w text path).2 := by
  obtain ⟨hbuffers, hfiles, -⟩ := V.lookupBuffer hw.1 hw.2 h.buffers h.files
  rw [Service.buffer_eq]
  exact ⟨hfiles, hbuffers⟩

/-- A file is answered by a faithful record. -/
theorem exists_record_file (h : V.Holds s) {path : Path} {kind : DocumentKind}
    (hw : V.AdmitsFile w path kind) (hfile : w.tree.isFile path = true) :
    ∃ record : Record, (s.file w path kind).1 = some record.metadata ∧
      record.Faithful w (w.source kind path) := by
  obtain ⟨found, hfound, -⟩ := Workspace.exists_lookup_eq_some hfile [] kind s.files
  refine ⟨found.reading.record, ?_, (V.lookup hw h.files).2 found hfound⟩
  rw [Service.file_eq, hfound]
  rfl

/-- A buffer is answered by a faithful record. -/
theorem exists_record_buffer (h : V.Holds s)
    (hinj : Set.InjOn BufferKey.fingerprint V.bufferKeys) {text : String} {path : Path}
    (hw : V.AdmitsSubject w (.buffer text path)) :
    ∃ record : Record, (s.buffer w text path).1 = record.metadata ∧
      record.Faithful w (bufferSource text path) := by
  obtain ⟨-, -, hrecord⟩ := V.lookupBuffer hw.1 hw.2 h.buffers h.files
  rw [Service.buffer_eq]
  exact ⟨_, rfl, hrecord hinj⟩

/-- Files without loops are answered in the same way. -/
theorem file_fst_eq (h : V.Holds s) (h' : V.Holds s') {path : Path} {kind : DocumentKind}
    (hw : V.AdmitsFile w path kind) (hloop : w.LoopFree (w.source kind path)) :
    (s.file w path kind).1 = (s'.file w path kind).1 := by
  cases hfile : w.tree.isFile path with
  | true =>
    obtain ⟨record, heq, hrecord⟩ := h.exists_record_file hw hfile
    obtain ⟨record', heq', hrecord'⟩ := h'.exists_record_file hw hfile
    rw [heq, heq', hrecord.metadata_eq hrecord' hloop]
  | false => rw [s.file_fst_eq_none kind hfile, s'.file_fst_eq_none kind hfile]

/-- Buffers without loops are answered in the same way. -/
theorem buffer_fst_eq (h : V.Holds s) (h' : V.Holds s')
    (hinj : Set.InjOn BufferKey.fingerprint V.bufferKeys) {text : String} {path : Path}
    (hw : V.AdmitsSubject w (.buffer text path)) (hloop : w.LoopFree (bufferSource text path)) :
    (s.buffer w text path).1 = (s'.buffer w text path).1 := by
  obtain ⟨record, heq, hrecord⟩ := h.exists_record_buffer hinj hw
  obtain ⟨record', heq', hrecord'⟩ := h'.exists_record_buffer hinj hw
  rw [heq, heq', hrecord.metadata_eq hrecord' hloop]

/-- A request reads the same first if that has no loops. -/
theorem subjects_eq (h : V.Holds s) (h' : V.Holds s')
    (hinj : Set.InjOn BufferKey.fingerprint V.bufferKeys) {r : Request}
    (hw : ∀ x ∈ s.subjects w r, V.AdmitsSubject w x)
    (hloop : ∀ x ∈ s'.subjects w r, w.LoopFree (x.source w)) :
    s.subjects w r = s'.subjects w r := by
  cases r with
  | componentMetadata text path tag =>
    have hbuffer := h.buffer_fst_eq h' hinj (hw (.buffer text path) List.mem_cons_self)
      (hloop (.buffer text path) List.mem_cons_self)
    simp only [Service.subjects, Service.child?, hbuffer]
  | _ => rfl

end Holds

/-! ### Requests -/

/-- Reading documents that are admitted keeps the invariant. -/
theorem stepInvariant (V : Versions) (w : Workspace) :
    Service.StepInvariant w V.Holds (V.AdmitsSubject w) where
  config h := ⟨h.files, h.buffers⟩
  file h hx := h.file hx
  buffer h hx := h.buffer hx
  clear _ := ⟨Cache.all_clear _, Cache.all_clear _⟩

/-- The invariant determines what is told of documents without loops. -/
theorem sameAnswers (V : Versions) (w : Workspace)
    (hinj : Set.InjOn BufferKey.fingerprint V.bufferKeys) :
    Service.SameAnswers w V.Holds
      (fun x => V.AdmitsSubject w x ∧ w.LoopFree (x.source w)) where
  config h := (V.stepInvariant w).config h
  file h hx := (V.stepInvariant w).file h hx.1
  buffer h hx := (V.stepInvariant w).buffer h hx.1
  clear h := (V.stepInvariant w).clear h
  metadata_eq {s s' x} h h' hx := by
    cases x with
    | file path kind => rw [← Service.file_fst, ← Service.file_fst, h.file_fst_eq h' hx.1 hx.2]
    | buffer text path =>
      rw [← Service.buffer_fst, ← Service.buffer_fst, h.buffer_fst_eq h' hinj hx.1 hx.2]

/-! ### Runs -/

/-- If everything the requests of a run read is admitted, the invariant holds at each of them. -/
theorem holds_of_mem_moments {settings : Settings} {t : FileTree} {moves : List Move}
    (hs : V.Holds s)
    (hw : ∀ m ∈ moments settings s t moves, ∀ x ∈ m.subjects settings,
      V.AdmitsSubject (m.workspace settings) x)
    {m : Moment} (hm : m ∈ moments settings s t moves) : V.Holds m.service := by
  induction moves generalizing s t with
  | nil => simp [moments] at hm
  | cons move rest ih =>
    cases move with
    | ask r =>
      rcases List.mem_cons.mp hm with rfl | hm
      · exact hs
      · exact ih ((V.stepInvariant _).ask hs rfl (hw ⟨s, t, r⟩ List.mem_cons_self))
          (fun m hm => hw m (List.mem_cons_of_mem _ hm)) hm
    | edit path file => exact ih hs hw hm

/-- The versions that some requests go through. -/
def ofMoments {settings : Settings} {ms : List Moment}
    (halike : ∀ m ∈ ms, ∀ m' ∈ ms, (m.workspace settings).Alike (m'.workspace settings))
    (hfiles : NoFileCollisions settings ms) : Versions where
  workspaces := { w | ∃ m ∈ ms, m.workspace settings = w }
  fileKeys := { k | ∃ m ∈ ms, k ∈ m.fileKeys settings }
  bufferKeys := { k | ∃ m ∈ ms, k ∈ m.bufferKeys settings }
  alike := by
    rintro _ ⟨m, hm, rfl⟩ _ ⟨m', hm', rfl⟩
    exact halike m hm m' hm'
  fileKeys_injOn := hfiles

/-- What the requests read is admitted by the versions they go through. -/
theorem admitsSubject_ofMoments {settings : Settings} {ms : List Moment}
    (halike : ∀ m ∈ ms, ∀ m' ∈ ms, (m.workspace settings).Alike (m'.workspace settings))
    (hfiles : NoFileCollisions settings ms) {m : Moment} (hm : m ∈ ms) {x : Subject}
    (hx : x ∈ m.subjects settings) :
    (ofMoments halike hfiles).AdmitsSubject (m.workspace settings) x := by
  have hadmits : (ofMoments halike hfiles).Admits (m.workspace settings)
      (x.source (m.workspace settings)) :=
    ⟨⟨m, hm, rfl⟩, fun k hk => ⟨m, hm, .inr ⟨_, List.mem_map_of_mem hx, hk⟩⟩⟩
  cases x with
  | file path kind => exact ⟨hadmits, fun {f} hf => ⟨m, hm, .inl ⟨hx, f, hf, rfl⟩⟩⟩
  | buffer text path => exact ⟨hadmits, m, hm, hx⟩

end Versions

section Run

variable {options : ServiceOptions} {settings : Settings} {t : FileTree} {moves : List Move}

/-- For a run from a new service there are versions that admit all that is read and for which the
invariant holds at every request, as it does for a new service. -/
theorem exists_versions (hedits : FreshEdits options.root [] t moves)
    (hfiles : NoFileCollisions settings (moments settings (.start options) t moves)) :
    ∃ V : Versions,
      V.bufferKeys =
        { k | ∃ m ∈ moments settings (.start options) t moves, k ∈ m.bufferKeys settings } ∧
      ∀ m ∈ moments settings (.start options) t moves, V.Holds m.service ∧
        ∀ x ∈ m.subjects settings, V.AdmitsSubject (m.workspace settings) x := by
  have halike : ∀ m ∈ moments settings (.start options) t moves,
      ∀ m' ∈ moments settings (.start options) t moves,
        (m.workspace settings).Alike (m'.workspace settings) :=
    fun m hm m' hm' => alike_of_mem_moments hedits hm hm'
  have hadmits : ∀ m ∈ moments settings (.start options) t moves, ∀ x ∈ m.subjects settings,
      (Versions.ofMoments halike hfiles).AdmitsSubject (m.workspace settings) x :=
    fun m hm x hx => Versions.admitsSubject_ofMoments halike hfiles hm hx
  refine ⟨.ofMoments halike hfiles, rfl, fun m hm => ⟨?_, hadmits m hm⟩⟩
  exact Versions.holds_of_mem_moments (Versions.holds_start _ options) hadmits hm

/-- Every file that a run asks for is answered by a faithful record. -/
theorem exists_record_of_mem_moments (hedits : FreshEdits options.root [] t moves)
    (hfiles : NoFileCollisions settings (moments settings (.start options) t moves)) {m : Moment}
    (hm : m ∈ moments settings (.start options) t moves) {path : Path} {kind : DocumentKind}
    (hrequest : m.request = .file path kind) :
    ∃ record : Record, m.answer settings = .metadata record.metadata ∧
      record.Faithful (m.workspace settings) ((m.workspace settings).source kind path) := by
  obtain ⟨V, -, hV⟩ := exists_versions hedits hfiles
  obtain ⟨hholds, hadmits⟩ := hV m hm
  have hanswer : m.answer settings = .metadata
      (((m.service.workspace m.tree settings).2.file (m.workspace settings) path kind).1.getD
        .empty) := by
    rw [Moment.answer, hrequest, Service.ask_file]
    rfl
  rw [hanswer]
  cases hfile : m.tree.isFile path with
  | true =>
    have hw : V.AdmitsFile (m.workspace settings) path kind :=
      hadmits (.file path kind) (by simp [Moment.subjects, hrequest, Service.subjects])
    obtain ⟨record, heq, hrecord⟩ :=
      ((V.stepInvariant (m.workspace settings)).workspace hholds m.tree settings).exists_record_file
        hw hfile
    exact ⟨record, by rw [heq]; rfl, hrecord⟩
  | false =>
    -- nothing is found, which is what a missing file says
    have hmissing : m.tree.file? path = none := by simpa [FileTree.isFile] using hfile
    have htree : (m.workspace settings).tree = m.tree := rfl
    refine ⟨.empty, ?_, Workspace.faithful_empty (by simp [Workspace.source, htree, hmissing])⟩
    rw [Service.file_fst_eq_none _ kind hfile]
    rfl

/-- Every request of a run whose documents have no loops is answered as by a new service. -/
theorem answer_eq_of_loopFree (hedits : FreshEdits options.root [] t moves)
    (hfiles : NoFileCollisions settings (moments settings (.start options) t moves))
    (hbuffers : NoBufferCollisions settings (moments settings (.start options) t moves))
    {m : Moment} (hm : m ∈ moments settings (.start options) t moves)
    (hloop : ∀ s ∈ m.sources settings, (m.workspace settings).LoopFree s) :
    m.answer settings = ((Service.start options).ask m.tree settings m.request).1 := by
  obtain ⟨V, hbufferKeys, hV⟩ := exists_versions hedits hfiles
  obtain ⟨hholds, hadmits⟩ := hV m hm
  exact (V.sameAnswers _ (hbufferKeys ▸ hbuffers)).ask_fst hholds (Versions.holds_start V options)
    rfl (workspace_of_mem_moments hedits hm).symm
    fun x hx => ⟨hadmits x hx, hloop _ (List.mem_map_of_mem hx)⟩

end Run

end ComponentInsight

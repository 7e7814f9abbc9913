import ComponentInsight.Proofs.Service.Coherence

/-!
# Asking again

What is answered for a file or a buffer is a record (`Service.record?`), and the record stays in the
cache at the key of the document. A later request finds it there as long as the document has its key
and the record is current, and answers with it (`ask_fst_of_remembered?`): **neither** the settings
**nor** other files are looked at.

Records that are answered are always current, so the same request made again right away is answered
as before, whatever the settings (`ask_again`).
-/

namespace ComponentInsight

/-! ### Lookups -/

namespace Workspace

variable {w : Workspace} {path : Path} {kind : DocumentKind} {cache : Cache Record}

/-- A reading of mixins that were found just now is current. -/
private theorem isCurrent_assemble {stack : List Path} {d : Declarations}
    {found : List (Path × Found)}
    (hfound : ∀ e ∈ found, w.tree.key? e.1 .mixin = some e.2.key ∧
      e.2.reading.record.isCurrent w.tree = true) :
    (w.assemble stack kind path d found).record.isCurrent w.tree = true := by
  refine List.all_eq_true.mpr fun x hx => ?_
  obtain ⟨e, he, rfl | hx⟩ := mem_mixins_assemble.mp hx
  · exact Dependency.isCurrent_iff.mpr (hfound e he).1
  · exact List.all_eq_true.mp (hfound e he).2 x hx

/-- Whatever is cached, lookups give records that are current. -/
private theorem lookupInvariant_isCurrent (w : Workspace) :
    w.LookupInvariant (fun _ => True) (fun _ _ _ => True)
      (fun _ _ _ r => r.record.isCurrent w.tree = true) where
  probe _ _ _ := trivial
  hit _ _ _ hhit := by
    rw [Cache.probe_fst, Option.filter_eq_some_iff] at hhit
    exact hhit.2
  silent _ _ _ _ _ := rfl
  inner _ _ _ _ := trivial
  read _ _ _ _ _ _ hfound := isCurrent_assemble hfound
  settle {_ path kind f cache r} _ _ _ hr _ := by
    refine ⟨trivial, ?_⟩
    rcases cache.settle_cases (f.key path kind) (Record.isCurrent w.tree) r.record
      with heq | ⟨existing, -, hcurrent, heq⟩
    · rw [heq]
      exact hr
    · rw [heq]
      exact hcurrent

/-- Whatever is cached, reading gives records that are current. -/
theorem isCurrent_read (w : Workspace) (stack : List Path) (kind : DocumentKind)
    (path : Path) (d : Option Declarations) (cache : Cache Record) :
    (w.read stack kind path d cache).1.record.isCurrent w.tree = true := by
  cases d with
  | none => rfl
  | some d =>
    have hpre : ∀ p ∈ w.freshMixins (stack ++ [path]) path d, True := fun _ _ => trivial
    obtain ⟨-, found, -, hfound, hread⟩ :=
      w.lookupInvariant_isCurrent.read_document hpre (trivial : (fun _ => True) cache)
    rw [hread]
    exact isCurrent_assemble hfound

/-- What a lookup finds is current, and is the entry used last. -/
theorem inFront_lookup {found : Found} (h : (w.lookup [] path kind cache).1 = some found) :
    found.reading.record.isCurrent w.tree = true ∧
      (w.lookup [] path kind cache).2.InFront found.key found.reading.record := by
  refine ⟨(w.lookupInvariant_isCurrent.lookup trivial trivial).2 found h, ?_⟩
  rw [lookup_eq] at h ⊢
  cases hf : w.tree.file? path with
  | none => simp [hf] at h
  | some f =>
    rw [hf] at h
    dsimp only at h ⊢
    rcases hprobe : cache.probe (f.key path kind) (Record.isCurrent w.tree)
      with ⟨_ | record, cache'⟩
    · rw [hprobe] at h
      obtain rfl := Option.some.inj h
      dsimp only [List.length_nil]
      rw [Reading.keep_zero]
      exact Cache.inFront_settle _ _ _ _
    · rw [hprobe] at h
      obtain rfl := Option.some.inj h
      have hfront := Cache.inFront_probe (congrArg Prod.fst hprobe)
      rwa [hprobe] at hfront

/-- A current record that is cached at the key of a file is found. -/
theorem lookup_fst_of_find? {f : File} {record : Record} (hf : w.tree.file? path = some f)
    (hfind : cache.entries.find? (f.key path kind) = some record)
    (hcurrent : record.isCurrent w.tree = true) :
    (w.lookup [] path kind cache).1 = some ⟨f.key path kind, ⟨record, none⟩⟩ := by
  have hprobe : (cache.probe (f.key path kind) (Record.isCurrent w.tree)).1 = some record := by
    rw [Cache.probe_fst, hfind]
    simp [Option.filter, hcurrent]
  rw [lookup_eq, hf]
  dsimp only
  rcases hprobed : cache.probe (f.key path kind) (Record.isCurrent w.tree)
    with ⟨_ | record', cache'⟩
  · simp [hprobed] at hprobe
  · rw [hprobed] at hprobe
    obtain rfl := Option.some.inj hprobe
    rfl

variable {text : String} {buffers files : Cache Record}

/-- What is answered for a buffer is current, and is the entry used last. -/
theorem inFront_lookupBuffer (w : Workspace) (text : String) (path : Path)
    (buffers files : Cache Record) :
    (w.lookupBuffer text path buffers files).1.isCurrent w.tree = true ∧
      (w.lookupBuffer text path buffers files).2.1.InFront (bufferKey text path)
        (w.lookupBuffer text path buffers files).1 := by
  constructor
  · refine (lookupBuffer_spec (I := fun _ => True) (P := fun _ _ => True)
      (Q := fun record => record.isCurrent w.tree = true) (fun _ _ h => h)
      (fun r files' heq => ⟨trivial, trivial, ?_⟩) (fun _ _ => trivial) trivial).2.2
    have hread := w.isCurrent_read [] .componentsOnly path
      (Declarations.ofDocument .componentsOnly path text).toOption files
    rw [heq] at hread
    exact hread
  · unfold lookupBuffer
    dsimp only
    rcases hprobe : buffers.probe (bufferKey text path) (Record.isCurrent w.tree)
      with ⟨_ | record, buffers'⟩
    · dsimp only
      rw [Reading.keep_zero]
      exact Cache.inFront_settle _ _ _ _
    · have hfront := Cache.inFront_probe (congrArg Prod.fst hprobe)
      rwa [hprobe] at hfront

/-- A current record that is cached at the key of a buffer is answered. -/
theorem lookupBuffer_fst_of_find? {record : Record}
    (hfind : buffers.entries.find? (bufferKey text path) = some record)
    (hcurrent : record.isCurrent w.tree = true) :
    (w.lookupBuffer text path buffers files).1 = record := by
  have hprobe : (buffers.probe (bufferKey text path) (Record.isCurrent w.tree)).1 =
      some record := by
    rw [Cache.probe_fst, hfind]
    simp [Option.filter, hcurrent]
  unfold lookupBuffer
  dsimp only
  rcases hprobed : buffers.probe (bufferKey text path) (Record.isCurrent w.tree)
    with ⟨_ | record', buffers'⟩
  · simp [hprobed] at hprobe
  · rw [hprobed] at hprobe
    exact Option.some.inj hprobe

end Workspace

/-! ### Services -/

namespace Service

/-- The record that is remembered for a document. -/
def remembered? (s : Service) (t : FileTree) : Subject → Option Record
  | .file path kind => (t.key? path kind).bind s.files.entries.find?
  | .buffer text path => s.buffers.entries.find? (bufferKey text path)

variable {s : Service} {t : FileTree} {settings : Settings} {x : Subject} {record : Record}

/-- What is remembered of a document depends on its key only. -/
theorem remembered?_congr {t' : FileTree} (h : x.key? t' = x.key? t) :
    s.remembered? t' x = s.remembered? t x := by
  cases x with
  | file path kind =>
    replace h : t'.key? path kind = t.key? path kind := h
    rw [remembered?, remembered?, h]
  | buffer text path => rfl

/-- The record that is answered is current and remembered. -/
theorem remembered?_ask (h : s.record? (s.workspace t settings).1 x = some record) :
    record.isCurrent t = true ∧ (s.ask t settings x.request).2.remembered? t x = some record := by
  cases x with
  | file path kind =>
    obtain ⟨found, hfound, rfl⟩ := Option.map_eq_some_iff.mp h
    obtain ⟨hcurrent, hfront⟩ := Workspace.inFront_lookup hfound
    have hkey := (s.workspace t settings).1.lookup_fst_map_key [] path kind s.files
    rw [hfound] at hkey
    refine ⟨hcurrent, ?_⟩
    replace hkey : t.key? path kind = some found.key := hkey.symm
    rw [remembered?, hkey, Subject.request, files_ask_file]
    exact hfront.find?
  | buffer text path =>
    obtain rfl := Option.some.inj h
    obtain ⟨hcurrent, hfront⟩ := (s.workspace t settings).1.inFront_lookupBuffer text path
      s.buffers s.files
    refine ⟨hcurrent, ?_⟩
    rw [remembered?, Subject.request, ask_buffer, buffer_eq, workspace_snd]
    exact hfront.find?

/-- A current record that is remembered is answered, whatever the settings. -/
theorem ask_fst_of_remembered? (h : s.remembered? t x = some record)
    (hcurrent : record.isCurrent t = true) (settings : Settings) :
    (s.ask t settings x.request).1 = .metadata record.metadata := by
  have hrecord : s.record? (s.workspace t settings).1 x = some record := by
    cases x with
    | file path kind =>
      obtain ⟨key, hkey, hfind⟩ := Option.bind_eq_some_iff.mp h
      obtain ⟨f, hf, rfl⟩ := Option.map_eq_some_iff.mp hkey
      have hlookup := Workspace.lookup_fst_of_find? (w := (s.workspace t settings).1) hf hfind
        hcurrent
      rw [record?, hlookup]
      rfl
    | buffer text path =>
      replace h : s.buffers.entries.find? (bufferKey text path) = some record := h
      exact congrArg some (Workspace.lookupBuffer_fst_of_find? h hcurrent)
  rw [ask_request_fst, hrecord]
  rfl

/-- A document that is asked for again right away is answered as before, whatever the settings. -/
theorem ask_again (s : Service) (t : FileTree) (settings settings' : Settings) (x : Subject) :
    ((s.ask t settings x.request).2.ask t settings' x.request).1 =
      (s.ask t settings x.request).1 := by
  cases hrecord : s.record? (s.workspace t settings).1 x with
  | some record =>
    obtain ⟨hcurrent, hremembered⟩ := remembered?_ask hrecord
    rw [ask_request_fst s, hrecord, ask_fst_of_remembered? hremembered hcurrent]
    rfl
  | none =>
    -- there is no such document, before and after
    have hmissing : x.key? t = none := (s.record?_eq_none_iff _ x).mp hrecord
    rw [ask_request_fst_of_missing _ hmissing, ask_request_fst_of_missing _ hmissing]

end Service

/-- If a second query is answered as the first one was, both are answered right exactly if services
that have read nothing yet answer them in the same way. -/
theorem forall_answer_pair_iff {options : ServiceOptions} {q q' : Query}
    (h : (((Service.start options).ask q.tree q.settings q.request).2.ask q'.tree q'.settings
      q'.request).1 = options.answer q) :
    (∀ e ∈ encounters (.start options) [q, q'], e.answer = options.answer e.toQuery) ↔
      options.answer q = options.answer q' := by
  constructor
  · intro hall
    exact h.symm.trans (hall _ (List.mem_cons_of_mem _ List.mem_cons_self))
  · intro heq e he
    rcases List.mem_cons.mp he with rfl | he
    · rfl
    · obtain rfl := List.mem_singleton.mp he
      exact h.trans heq

end ComponentInsight

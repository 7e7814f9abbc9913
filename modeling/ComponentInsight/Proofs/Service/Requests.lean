import ComponentInsight.Proofs.Service.Runs

/-!
# From documents to requests

A request reads a file, a buffer, or a buffer and then a file that it registers. What is known of
single files and buffers is carried to whole requests here, once for all invariants of services:
a property that reading a file or a buffer keeps is kept by requests (`StepInvariant.ask`), and if
it also determines the metadata of files and buffers, it determines answers (`SameAnswers.ask_fst`).

Both ask something of the documents that a request reads first (`Service.subjects`) only.
-/

namespace ComponentInsight

/-! ### Documents -/

namespace Subject

/-- The key a document is cached under, if there is such a document. -/
def key? (t : FileTree) : Subject → Option Fingerprint
  | .file path kind => t.key? path kind
  | .buffer text path => some (bufferKey text path)

/-- Whether the document is a buffer. Files and buffers are cached apart. -/
def isBuffer : Subject → Bool
  | .file _ _ => false
  | .buffer _ _ => true

/-- The request for a document. -/
def request : Subject → Request
  | .file path kind => .file path kind
  | .buffer text path => .buffer text path

end Subject

namespace Service

/-- The record that is answered for a document; none if there is no such document. -/
def record? (s : Service) (w : Workspace) : Subject → Option Record
  | .file path kind => (w.lookup [] path kind s.files).1.map fun f => f.reading.record
  | .buffer text path => some (w.lookupBuffer text path s.buffers s.files).1

section Record

variable (s : Service) (w : Workspace)

/-- The answer for a file is the metadata of its record. -/
theorem file_fst (path : Path) (kind : DocumentKind) :
    (s.file w path kind).1 = (s.record? w (.file path kind)).map Record.metadata := by
  rw [file_eq, record?, Option.map_map]
  rfl

/-- The answer for a buffer is the metadata of its record. -/
theorem buffer_fst (text : String) (path : Path) :
    some (s.buffer w text path).1 = (s.record? w (.buffer text path)).map Record.metadata := by
  rw [buffer_eq]
  rfl

/-- A document is answered with the metadata of its record. -/
theorem ask_request_fst (t : FileTree) (settings : Settings) (x : Subject) :
    (s.ask t settings x.request).1 =
      .metadata (((s.record? (s.workspace t settings).1 x).map Record.metadata).getD .empty) := by
  cases x with
  | file path kind =>
    rw [Subject.request, ask_file_fst, record?, Option.map_map]
    rfl
  | buffer text path =>
    rw [Subject.request, ask_buffer, buffer_eq, workspace_snd]
    rfl

/-- A document has a record if it has a key. -/
theorem record?_eq_none_iff (x : Subject) :
    s.record? w x = none ↔ x.key? w.tree = none := by
  cases x with
  | file path kind =>
    rw [Subject.key?, ← w.lookup_fst_map_key [] path kind s.files, record?, Option.map_eq_none_iff,
      Option.map_eq_none_iff]
  | buffer text path => simp [record?, Subject.key?]

/-- A document that does not exist is answered with empty metadata. -/
theorem ask_request_fst_of_missing {t : FileTree} {x : Subject} (h : x.key? t = none)
    (settings : Settings) : (s.ask t settings x.request).1 = .metadata .empty := by
  rw [ask_request_fst, (s.record?_eq_none_iff (s.workspace t settings).1 x).mpr h]
  rfl

/-- A document with a key has a record. -/
theorem exists_record? {w : Workspace} {x : Subject} {key : Fingerprint}
    (hkey : x.key? w.tree = some key) : ∃ record, s.record? w x = some record := by
  refine Option.ne_none_iff_exists'.mp fun hnone => ?_
  cases hkey.symm.trans ((s.record?_eq_none_iff w x).mp hnone)

/-- A file that does not exist is not found. -/
theorem file_fst_eq_none {w : Workspace} {path : Path} (kind : DocumentKind)
    (h : w.tree.isFile path = false) : (s.file w path kind).1 = none := by
  have hmissing : w.tree.file? path = none := by simpa [FileTree.isFile] using h
  have hkey := w.lookup_fst_map_key [] path kind s.files
  rw [FileTree.key?, hmissing, Option.map_none, Option.map_eq_none_iff] at hkey
  rw [file_eq, hkey]
  rfl

end Record

/-! ### Requests -/

/-- What a property of services has to satisfy in order to be kept by requests in a workspace, as
long as they read documents that are admitted. -/
structure StepInvariant (w : Workspace) (Holds : Service → Prop) (Admits : Subject → Prop) :
    Prop where
  /-- Looking the configuration up keeps it. -/
  config {s config} (h : Holds s) : Holds { s with config }
  file {s path kind} (h : Holds s) (hx : Admits (.file path kind)) : Holds (s.file w path kind).2
  buffer {s text path} (h : Holds s) (hx : Admits (.buffer text path)) :
    Holds (s.buffer w text path).2
  clear {s} (h : Holds s) : Holds s.clear

/-- A property that moreover determines the metadata of documents that are admitted. -/
structure SameAnswers (w : Workspace) (Holds : Service → Prop) (Admits : Subject → Prop) : Prop
    extends StepInvariant w Holds Admits where
  metadata_eq {s s' x} (h : Holds s) (h' : Holds s') (hx : Admits x) :
    (s.record? w x).map Record.metadata = (s'.record? w x).map Record.metadata

variable {w : Workspace} {Holds : Service → Prop} {Admits : Subject → Prop} {s s' : Service}
  {t : FileTree} {settings : Settings} {r : Request}

/-- Reading the settings keeps what holds of the service. -/
theorem StepInvariant.workspace (h : StepInvariant w Holds Admits) (hs : Holds s) (t : FileTree)
    (settings : Settings) : Holds (s.workspace t settings).2 := by
  rw [workspace_snd]
  exact h.config hs

/-- What files and buffers keep is kept by requests. -/
theorem StepInvariant.ask (h : StepInvariant w Holds Admits) (hs : Holds s)
    (hw : (s.workspace t settings).1 = w) (hx : ∀ x ∈ s.subjects w r, Admits x) :
    Holds (s.ask t settings r).2 := by
  have hs' : Holds (s.workspace t settings).2 := h.workspace hs t settings
  cases r with
  | file path kind =>
    rw [ask_file, hw]
    exact h.file hs' (hx (.file path kind) List.mem_cons_self)
  | buffer text path =>
    rw [ask_buffer, hw]
    exact h.buffer hs' (hx (.buffer text path) List.mem_cons_self)
  | componentPath text path tag =>
    rw [ask_componentPath, hw]
    exact h.buffer hs' (hx (.buffer text path) List.mem_cons_self)
  | componentMetadata text path tag =>
    have hbuffer := h.buffer hs' (hx (.buffer text path) List.mem_cons_self)
    rw [ask_componentMetadata, hw]
    dsimp only
    split
    · exact hbuffer
    · next p hchild =>
      exact h.file hbuffer (hx (.file p (.forPath p)) (by simp [subjects, hchild]))
  | clear => exact h.clear hs

namespace SameAnswers

private theorem file_fst (h : SameAnswers w Holds Admits) (hs : Holds s) (hs' : Holds s')
    {path : Path} {kind : DocumentKind} (hx : Admits (.file path kind)) :
    (s.file w path kind).1 = (s'.file w path kind).1 := by
  rw [Service.file_fst, Service.file_fst, h.metadata_eq hs hs' hx]

private theorem buffer_fst (h : SameAnswers w Holds Admits) (hs : Holds s) (hs' : Holds s')
    {text : String} {path : Path} (hx : Admits (.buffer text path)) :
    (s.buffer w text path).1 = (s'.buffer w text path).1 := by
  have heq := h.metadata_eq hs hs' hx
  rw [← Service.buffer_fst, ← Service.buffer_fst] at heq
  exact Option.some.inj heq

/-- A buffer registers the same child components. -/
theorem child?_eq (h : SameAnswers w Holds Admits) (hs : Holds s) (hs' : Holds s') {text : String}
    {path : Path} (hx : Admits (.buffer text path)) (tag : String) :
    s.child? w text path tag = s'.child? w text path tag := by
  rw [child?, child?, h.buffer_fst hs hs' hx]

/-- A request is answered in the same way. -/
theorem ask_fst (h : SameAnswers w Holds Admits) (hs : Holds s) (hs' : Holds s')
    (hw : (s.workspace t settings).1 = w) (hw' : (s'.workspace t settings).1 = w)
    (hx : ∀ x ∈ s.subjects w r, Admits x) :
    (s.ask t settings r).1 = (s'.ask t settings r).1 := by
  -- the configuration is looked up first, which leaves the caches alone
  have hs₁ : Holds (s.workspace t settings).2 := h.workspace hs t settings
  have hs₁' : Holds (s'.workspace t settings).2 := h.workspace hs' t settings
  cases r with
  | file path kind =>
    rw [ask_file, ask_file, hw, hw']
    dsimp only
    rw [h.file_fst hs₁ hs₁' (hx (.file path kind) List.mem_cons_self)]
  | buffer text path =>
    rw [ask_buffer, ask_buffer, hw, hw']
    dsimp only
    rw [h.buffer_fst hs₁ hs₁' (hx (.buffer text path) List.mem_cons_self)]
  | componentPath text path tag =>
    rw [ask_componentPath, ask_componentPath, hw, hw',
      h.child?_eq hs hs' (hx (.buffer text path) List.mem_cons_self)]
  | componentMetadata text path tag =>
    have hbuffer : Admits (.buffer text path) := hx (.buffer text path) List.mem_cons_self
    rw [ask_componentMetadata, ask_componentMetadata, hw, hw']
    dsimp only
    rw [← h.child?_eq hs hs' hbuffer]
    cases hp : s.child? w text path tag with
    | none => rfl
    | some p =>
      have hchild : Admits (.file p (.forPath p)) := hx _ (by simp [subjects, hp])
      dsimp only
      rw [h.file_fst (h.buffer hs₁ hbuffer) (h.buffer hs₁' hbuffer) hchild]
  | clear => rfl

end SameAnswers

end Service

end ComponentInsight

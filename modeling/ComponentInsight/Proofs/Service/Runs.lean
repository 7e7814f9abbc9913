import ComponentInsight.Proofs.Lookup.Versions
import ComponentInsight.Service
import Mathlib.Data.List.Find

/-!
# Runs of a service

A run is a list of moves: a request to the service (`Move.ask`) or a file that is rewritten
(`Move.edit`). `moments` lists the requests of a run, each with the service and the file tree it
meets.

* **Edits** are fresh (`FreshEdits`): each one rewrites a file that exists, leaves the project
  configuration alone and gives the file a time it never had before in the run.
* **Keys**: a request reads some files and buffers first (`Service.subjects`) and then the files
  they reach. The keys of all these are those that count (`Moment.fileKeys`, `Moment.bufferKeys`);
  `NoFileCollisions` and `NoBufferCollisions` say that their fingerprints differ.

Fresh edits keep the trees of a run versions of one project (`FileTree.SameProject`), and the
configuration is the same at every request. So the workspaces of the requests are alike
(`alike_of_mem_moments`), as `Versions` asks for.
-/

namespace ComponentInsight

/-! ### Requests -/

/-- What a request reads first: a file in some way, or a buffer. -/
inductive Subject where
  | file (path : Path) (kind : DocumentKind)
  | buffer (text : String) (path : Path)
  deriving DecidableEq

/-- The document a subject is. -/
def Subject.source (w : Workspace) : Subject → Source
  | .file path kind => w.source kind path
  | .buffer text path => bufferSource text path

/-- What a service can be asked. -/
inductive Request where
  /-- The metadata of a file, read as told. -/
  | file (path : Path) (kind : DocumentKind)
  /-- The registered components of a buffer. -/
  | buffer (text : String) (path : Path)
  /-- The file of a child component that is registered by a buffer. -/
  | componentPath (text : String) (path : Path) (tag : String)
  /-- The metadata of a child component that is registered by a buffer. -/
  | componentMetadata (text : String) (path : Path) (tag : String)
  /-- Forgetting all results. -/
  | clear
  deriving DecidableEq

/-- What a service answers. -/
inductive Answer where
  | metadata (m : Metadata)
  | path (p : Option Path)
  | child (m : Option Metadata)
  | done
  deriving DecidableEq

namespace Service

/-- The answer to a request, and the service afterwards. -/
def ask (s : Service) (t : FileTree) (settings : Settings) : Request → Answer × Service
  | .file path kind =>
    let (m, s) := s.resolveFileAs t settings path kind
    (.metadata m, s)
  | .buffer text path =>
    let (m, s) := s.resolveBuffer t settings text path
    (.metadata m, s)
  | .componentPath text path tag =>
    let (p, s) := s.componentPath? t settings text path tag
    (.path p, s)
  | .componentMetadata text path tag =>
    let (m, s) := s.componentMetadata? t settings text path tag
    (.child m, s)
  | .clear => (.done, s.clear)

/-- The service after some requests, while no file changes. -/
def after (s : Service) (t : FileTree) (settings : Settings) (requests : List Request) : Service :=
  requests.foldl (fun s r => (s.ask t settings r).2) s

/-- A file is looked up in the cache of files. -/
theorem file_eq (s : Service) (w : Workspace) (path : Path) (kind : DocumentKind) :
    s.file w path kind =
      ((w.lookup [] path kind s.files).1.map fun f => f.reading.record.metadata,
        { s with files := (w.lookup [] path kind s.files).2 }) := by
  unfold file
  rcases w.lookup [] path kind s.files with ⟨found, files⟩
  rfl

/-- A buffer is looked up in the cache of buffers. -/
theorem buffer_eq (s : Service) (w : Workspace) (text : String) (path : Path) :
    s.buffer w text path =
      ((w.lookupBuffer text path s.buffers s.files).1.metadata,
        { s with
          buffers := (w.lookupBuffer text path s.buffers s.files).2.1
          files := (w.lookupBuffer text path s.buffers s.files).2.2 }) := by
  unfold buffer
  rcases w.lookupBuffer text path s.buffers s.files with ⟨record, buffers, files⟩
  rfl

/-- The file of a child component that a buffer registers, as the service tells it. -/
def child? (s : Service) (w : Workspace) (text : String) (path : Path) (tag : String) :
    Option Path :=
  (s.buffer w text path).1.component? tag

section Ask

variable (s : Service) (t : FileTree) (settings : Settings)

/-- A service that reads its settings changes nothing but these. -/
theorem workspace_snd : (s.workspace t settings).2 =
    { s with config := (ProjectConfig.cached t s.options.root s.config).2 } := by
  simp only [workspace, resolver]

/-- Looking the configuration up does not change what a buffer registers. -/
theorem child?_workspace (w : Workspace) (text : String) (path : Path) (tag : String) :
    (s.workspace t settings).2.child? w text path tag = s.child? w text path tag := by
  simp only [child?, buffer_eq, workspace_snd]

/-- A request for a file is answered in the workspace of the moment. -/
theorem ask_file (path : Path) (kind : DocumentKind) :
    s.ask t settings (.file path kind) =
      let found := (s.workspace t settings).2.file (s.workspace t settings).1 path kind
      (.metadata (found.1.getD .empty), found.2) := by
  unfold ask resolveFileAs
  rcases s.workspace t settings with ⟨w, s'⟩
  rfl

/-- The answer for a file is the metadata that is found, or none. -/
theorem ask_file_fst (path : Path) (kind : DocumentKind) :
    (s.ask t settings (.file path kind)).1 =
      .metadata ((((s.workspace t settings).1.lookup [] path kind s.files).1.map
        fun f => f.reading.record.metadata).getD .empty) := by
  rw [ask_file, file_eq, workspace_snd]

/-- The lookup of a file leaves its cache behind. -/
theorem files_ask_file (path : Path) (kind : DocumentKind) :
    (s.ask t settings (.file path kind)).2.files =
      ((s.workspace t settings).1.lookup [] path kind s.files).2 := by
  rw [ask_file, file_eq, workspace_snd]

theorem ask_buffer (text : String) (path : Path) :
    s.ask t settings (.buffer text path) =
      let found := (s.workspace t settings).2.buffer (s.workspace t settings).1 text path
      (.metadata found.1, found.2) := by
  unfold ask resolveBuffer
  rcases s.workspace t settings with ⟨w, s'⟩
  rfl

/-- A request for the file of a tag is answered through the buffer. -/
theorem ask_componentPath (text : String) (path : Path) (tag : String) :
    s.ask t settings (.componentPath text path tag) =
      (.path (s.child? (s.workspace t settings).1 text path tag),
        ((s.workspace t settings).2.buffer (s.workspace t settings).1 text path).2) := by
  rw [← s.child?_workspace t settings]
  unfold ask componentPath? resolveBuffer child?
  rcases s.workspace t settings with ⟨w, s'⟩
  rfl

/-- A child component is looked up after the buffer that registers it. -/
theorem ask_componentMetadata (text : String) (path : Path) (tag : String) :
    s.ask t settings (.componentMetadata text path tag) =
      let w := (s.workspace t settings).1
      let s' := ((s.workspace t settings).2.buffer w text path).2
      match s.child? w text path tag with
      | none => (.child none, s')
      | some p => (.child (s'.file w p (.forPath p)).1, (s'.file w p (.forPath p)).2) := by
  dsimp only
  rw [← s.child?_workspace t settings]
  unfold ask componentMetadata? child?
  rcases s.workspace t settings with ⟨w, s'⟩
  dsimp only
  cases (s'.buffer w text path).1.component? tag <;> rfl

end Ask

/-- What a request reads first. -/
def subjects (s : Service) (w : Workspace) : Request → List Subject
  | .file path kind => [.file path kind]
  | .buffer text path => [.buffer text path]
  | .componentPath text path _ => [.buffer text path]
  | .componentMetadata text path tag =>
    .buffer text path :: (s.child? w text path tag).toList.map fun p => .file p (.forPath p)
  | .clear => []

end Service

/-! ### Moves and moments -/

/-- A step of a run. -/
inductive Move where
  | ask (r : Request)
  | edit (path : Path) (file : File)

/-- A request of a run, with the service and the file tree it meets. -/
structure Moment where
  service : Service
  tree : FileTree
  request : Request

/-- The requests of a run that begins with a service and a file tree. -/
def moments (settings : Settings) : Service → FileTree → List Move → List Moment
  | _, _, [] => []
  | s, t, .ask r :: rest => ⟨s, t, r⟩ :: moments settings (s.ask t settings r).2 t rest
  | s, t, .edit path file :: rest => moments settings s (t.write path file) rest

namespace Moment

variable (settings : Settings) (m : Moment)

/-- The answer that is given. -/
def answer : Answer := (m.service.ask m.tree settings m.request).1

/-- The workspace of the request. -/
def workspace : Workspace := (m.service.workspace m.tree settings).1

/-- What the request reads first. -/
def subjects : List Subject := m.service.subjects (m.workspace settings) m.request

/-- The documents the request reads first. -/
def sources : List Source := (m.subjects settings).map (Subject.source (m.workspace settings))

/-- The keys of the files that are read: those read first, and those reached from there. -/
def fileKeys : Set FileKey :=
  { k | .file k.path k.kind ∈ m.subjects settings ∧
      ∃ f, m.tree.file? k.path = some f ∧ f.modified = k.modified } ∪
    { k | ∃ s ∈ m.sources settings, k ∈ (m.workspace settings).mixinKeys s }

/-- The keys of the buffers that are read. -/
def bufferKeys : Set BufferKey := { k | .buffer k.text k.path ∈ m.subjects settings }

end Moment

/-- Different keys of files that are asked for at some moments have different fingerprints. -/
def NoFileCollisions (settings : Settings) (ms : List Moment) : Prop :=
  Set.InjOn FileKey.fingerprint { k | ∃ m ∈ ms, k ∈ m.fileKeys settings }

/-- Different keys of buffers that are asked for at some moments have different fingerprints. -/
def NoBufferCollisions (settings : Settings) (ms : List Moment) : Prop :=
  Set.InjOn BufferKey.fingerprint { k | ∃ m ∈ ms, k ∈ m.bufferKeys settings }

/-- A file that exists is rewritten, none of the configuration files, and modified at a time at
which it was never modified before. -/
structure IsFreshEdit (root : Path) (past : List FileTree) (t : FileTree) (path : Path)
    (file : File) : Prop where
  isFile : t.isFile path = true
  notConfig : ∀ name ∈ ProjectConfig.fileNames, t.locate? (root.join ⟨name⟩) ≠ t.locate? path
  fresh : ∀ u ∈ t :: past, ∀ old, u.file? path = some old → old.modified ≠ file.modified

/-- All edits of a run are fresh, given the trees of the past. -/
def FreshEdits (root : Path) : List FileTree → FileTree → List Move → Prop
  | _, _, [] => True
  | past, t, .ask _ :: rest => FreshEdits root past t rest
  | past, t, .edit path file :: rest =>
    IsFreshEdit root past t path file ∧ FreshEdits root (t :: past) (t.write path file) rest

/-- A run without edits has no edit that is not fresh. -/
theorem freshEdits_asks (root : Path) (past : List FileTree) (t : FileTree)
    (requests : List Request) : FreshEdits root past t (requests.map .ask) := by
  induction requests with
  | nil => trivial
  | cons r rest ih => exact ih

/-- The service after some requests is the one that the next request meets. -/
theorem mem_moments_after (settings : Settings) (s : Service) (t : FileTree)
    (requests : List Request) (r : Request) :
    ⟨s.after t settings requests, t, r⟩ ∈ moments settings s t ((requests ++ [r]).map .ask) := by
  induction requests generalizing s with
  | nil => exact List.mem_cons_self
  | cons q rest ih => exact List.mem_cons_of_mem _ (ih (s.ask t settings q).2)

/-! ### Trees of one project -/

/-- The trees have the same configuration files. -/
def FileTree.SameConfig (root : Path) (t u : FileTree) : Prop :=
  ∀ name ∈ ProjectConfig.fileNames, t.file? (root.join ⟨name⟩) = u.file? (root.join ⟨name⟩)

instance (root : Path) (t u : FileTree) : Decidable (FileTree.SameConfig root t u) :=
  inferInstanceAs (Decidable (∀ name ∈ ProjectConfig.fileNames, _))

/-- The configuration is read from the configuration files alone. -/
theorem FileTree.SameConfig.cached_eq {root : Path} {t u : FileTree} (h : SameConfig root t u)
    (slot : Option ProjectConfig.Slot) :
    ProjectConfig.cached t root slot = ProjectConfig.cached u root slot := by
  have hfind : ProjectConfig.find? t root = ProjectConfig.find? u root := by
    refine List.find?_congr (List.forall_mem_map.mpr fun name hname => ?_)
    simp only [isFile, h name hname]
  unfold ProjectConfig.cached ProjectConfig.load
  rw [hfind]
  cases hfound : ProjectConfig.find? u root with
  | none => rfl
  | some path =>
    obtain ⟨name, hname, rfl⟩ := List.mem_map.mp (List.mem_of_find?_eq_some hfound)
    simp only [h name hname]

/-- The trees have the same files, a file that differs was modified at another time, and the project
configuration is the same. -/
structure FileTree.SameProject (root : Path) (t u : FileTree) : Prop where
  locate : t.locate? = u.locate?
  isFile : t.isFile = u.isFile
  file {p f g} (hf : t.file? p = some f) (hg : u.file? p = some g)
    (h : f.modified = g.modified) : f = g
  config : SameConfig root t u

namespace FileTree.SameProject

variable {root : Path} {t u v : FileTree}

private theorem refl (root : Path) (t : FileTree) : SameProject root t t where
  locate := rfl
  isFile := rfl
  file hf hg _ := Option.some.inj (hf.symm.trans hg)
  config _ _ := rfl

private theorem symm (h : SameProject root t u) : SameProject root u t where
  locate := h.locate.symm
  isFile := h.isFile.symm
  file hf hg heq := (h.file hg hf heq.symm).symm
  config name hname := (h.config name hname).symm

/-- A fresh edit leaves a tree of the same project, as of all trees before. -/
theorem write {past : List FileTree} {path : Path} {file : File}
    (hpast : ∀ u ∈ t :: past, SameProject root t u) (hedit : IsFreshEdit root past t path file) :
    ∀ u ∈ t :: past, SameProject root (t.write path file) u := by
  intro u hu
  have hsame := hpast u hu
  have hfile : ∀ q, (t.write path file).file? q =
      if t.locate? q = t.locate? path then some file else t.file? q :=
    fun q => file?_write hedit.isFile file q
  -- where the edit is visible, the file that was there is the one rewritten
  have hplace : ∀ q, t.locate? q = t.locate? path → u.file? q = u.file? path := by
    intro q hq
    simp only [file?, ← hsame.locate, hq]
  refine ⟨?_, ?_, ?_, ?_⟩
  · rw [← hsame.locate]
    exact funext (locate?_write hedit.isFile file)
  · rw [← hsame.isFile]
    funext q
    by_cases hq : t.locate? q = t.locate? path
    · have hold : t.file? q = t.file? path := by simp only [file?, hq]
      rw [FileTree.isFile, FileTree.isFile, hfile, if_pos hq, hold]
      exact hedit.isFile.symm
    · simp [FileTree.isFile, hfile, hq]
  · intro q f g hf hg heq
    rw [hfile] at hf
    split at hf
    · next hq =>
      obtain rfl := Option.some.inj hf
      exact absurd heq.symm (hedit.fresh u hu g (hplace q hq ▸ hg))
    · exact hsame.file hf hg heq
  · intro name hname
    rw [hfile, if_neg (hedit.notConfig name hname)]
    exact hsame.config name hname

/-- The configuration of a project is the same in all its trees. -/
theorem cached_eq (h : SameProject root t u) (slot : Option ProjectConfig.Slot) :
    ProjectConfig.cached t root slot = ProjectConfig.cached u root slot :=
  SameConfig.cached_eq h.config slot

end FileTree.SameProject

/-- The trees that the requests of a run meet are trees of one project, also with those of the
past. -/
theorem sameProject_of_mem_moments {root : Path} {settings : Settings} {s : Service}
    {past : List FileTree} {t : FileTree} {moves : List Move}
    (hedits : FreshEdits root past t moves)
    (hpast : ∀ u ∈ t :: past, FileTree.SameProject root t u) {m : Moment}
    (hm : m ∈ moments settings s t moves) :
    (∀ u ∈ t :: past, FileTree.SameProject root m.tree u) ∧
      ∀ m' ∈ moments settings s t moves, FileTree.SameProject root m.tree m'.tree := by
  -- the past grows with every edit, so that a tree is compared with all those before it
  induction moves generalizing s past t m with
  | nil => simp [moments] at hm
  | cons move rest ih =>
    cases move with
    | ask r =>
      have hrest : ∀ m' ∈ moments settings (s.ask t settings r).2 t rest,
          FileTree.SameProject root m'.tree t :=
        fun m' hm' => (ih hedits hpast hm').1 t List.mem_cons_self
      rcases List.mem_cons.mp hm with rfl | hm
      · refine ⟨hpast, fun m' hm' => ?_⟩
        rcases List.mem_cons.mp hm' with rfl | hm'
        · exact .refl root _
        · exact (hrest m' hm').symm
      · refine ⟨(ih hedits hpast hm).1, fun m' hm' => ?_⟩
        rcases List.mem_cons.mp hm' with rfl | hm'
        · exact hrest m hm
        · exact (ih hedits hpast hm).2 m' hm'
    | edit path file =>
      obtain ⟨hedit, hedits⟩ := hedits
      have hwritten : ∀ u ∈ t.write path file :: t :: past,
          FileTree.SameProject root (t.write path file) u := by
        intro u hu
        rcases List.mem_cons.mp hu with rfl | hu
        · exact .refl root _
        · exact FileTree.SameProject.write hpast hedit u hu
      obtain ⟨hold, hall⟩ := ih hedits hwritten hm
      exact ⟨fun u hu => hold u (List.mem_cons_of_mem _ hu), hall⟩

/-! ### The workspaces of a run -/

namespace Service

/-- The slot for the configuration is empty or holds the configuration of the project. -/
def Configured (s : Service) (t : FileTree) : Prop :=
  s.config = none ∨ s.config = (ProjectConfig.cached t s.options.root none).2

/-- A slot that holds the configuration of the project gives that configuration. -/
theorem Configured.cached_eq {s : Service} {t : FileTree} (h : s.Configured t) :
    ProjectConfig.cached t s.options.root s.config =
      ProjectConfig.cached t s.options.root none := by
  rcases h with h | h
  · rw [h]
  · rw [h]
    unfold ProjectConfig.cached
    cases ProjectConfig.find? t s.options.root with
    | none => rfl
    | some path => simp

/-- The workspace of a request is that of a service that has read nothing yet. -/
theorem Configured.workspace_eq {s : Service} {t : FileTree} (h : s.Configured t)
    (settings : Settings) :
    (s.workspace t settings).1 = ((start s.options).workspace t settings).1 := by
  simp only [workspace, resolver, h.cached_eq]
  rfl

/-- A service stays configured for a tree with the same settings. -/
theorem Configured.congr {s : Service} {t u : FileTree} (h : s.Configured t)
    (hsame : FileTree.SameConfig s.options.root t u) : s.Configured u := by
  rwa [Configured, ← hsame.cached_eq]

/-- A request leaves the options alone, and the slot as it was or as the configuration is read. -/
theorem options_config_ask (s : Service) (t : FileTree) (settings : Settings) (r : Request) :
    (s.ask t settings r).2.options = s.options ∧
      ((s.ask t settings r).2.config = s.config ∨ (s.ask t settings r).2.config =
        (ProjectConfig.cached t s.options.root s.config).2) := by
  cases r with
  | file path kind => simp [ask_file, file_eq, workspace, resolver]
  | buffer text path => simp [ask_buffer, buffer_eq, workspace, resolver]
  | componentPath text path tag => simp [ask_componentPath, buffer_eq, workspace, resolver]
  | componentMetadata text path tag =>
    rw [ask_componentMetadata]
    dsimp only
    split <;> simp [file_eq, buffer_eq, workspace, resolver]
  | clear => exact ⟨rfl, .inl rfl⟩

/-- A request leaves a service configured. -/
theorem Configured.ask {s : Service} {t : FileTree} (h : s.Configured t) (settings : Settings)
    (r : Request) : (s.ask t settings r).2.Configured t := by
  obtain ⟨hoptions, hconfig⟩ := s.options_config_ask t settings r
  unfold Configured at h ⊢
  rw [hoptions]
  rcases hconfig with hconfig | hconfig
  · rwa [hconfig]
  · rw [hconfig, Configured.cached_eq h]
    exact .inr rfl

end Service

/-- At every request of a run the service has the options it had, and no other configuration than
that of the project. -/
theorem configured_of_mem_moments {settings : Settings} {s : Service} {past : List FileTree}
    {t : FileTree} {moves : List Move} (hedits : FreshEdits s.options.root past t moves)
    (hpast : ∀ u ∈ t :: past, FileTree.SameProject s.options.root t u) (hs : s.Configured t)
    {m : Moment} (hm : m ∈ moments settings s t moves) :
    m.service.options = s.options ∧ m.service.Configured m.tree := by
  induction moves generalizing s past t m with
  | nil => simp [moments] at hm
  | cons move rest ih =>
    cases move with
    | ask r =>
      have hoptions := (s.options_config_ask t settings r).1
      rcases List.mem_cons.mp hm with rfl | hm
      · exact ⟨rfl, hs⟩
      · have h := ih (by rwa [hoptions]) (by rwa [hoptions]) (hs.ask settings r) hm
        rwa [hoptions] at h
    | edit path file =>
      obtain ⟨hedit, hedits⟩ := hedits
      have hwritten := FileTree.SameProject.write hpast hedit
      refine ih hedits (fun u hu => ?_)
        (hs.congr (hwritten t List.mem_cons_self).symm.config) hm
      rcases List.mem_cons.mp hu with rfl | hu
      · exact .refl _ _
      · exact hwritten u hu

/-- The workspace of a service with the options that has read nothing yet. -/
def ServiceOptions.workspace (options : ServiceOptions) (t : FileTree) (settings : Settings) :
    Workspace :=
  ((Service.start options).workspace t settings).1

/-- The workspaces of the trees of one project are alike. -/
theorem FileTree.SameProject.alike {options : ServiceOptions} {t u : FileTree}
    (h : SameProject options.root t u) (settings : Settings) :
    (options.workspace t settings).Alike (options.workspace u settings) := by
  refine ⟨?_, h.isFile, h.file⟩
  have hcached := h.cached_eq none
  simp only [ServiceOptions.workspace, Service.workspace, Service.resolver, Service.start, hcached]

/-- At every request of a run from a new service, the workspace is that of a new service. -/
theorem workspace_of_mem_moments {options : ServiceOptions} {settings : Settings} {t : FileTree}
    {moves : List Move} (hedits : FreshEdits options.root [] t moves) {m : Moment}
    (hm : m ∈ moments settings (.start options) t moves) :
    m.workspace settings = options.workspace m.tree settings := by
  obtain ⟨hoptions, hconfigured⟩ :=
    configured_of_mem_moments hedits (by simp [FileTree.SameProject.refl]) (.inl rfl) hm
  rw [Moment.workspace, hconfigured.workspace_eq, hoptions]
  rfl

/-- The workspaces at the requests of a run from a new service are alike. -/
theorem alike_of_mem_moments {options : ServiceOptions} {settings : Settings} {t : FileTree}
    {moves : List Move} (hedits : FreshEdits options.root [] t moves) {m m' : Moment}
    (hm : m ∈ moments settings (.start options) t moves)
    (hm' : m' ∈ moments settings (.start options) t moves) :
    (m.workspace settings).Alike (m'.workspace settings) := by
  have hsame : FileTree.SameProject options.root m.tree m'.tree :=
    (sameProject_of_mem_moments hedits (by simp [FileTree.SameProject.refl]) hm).2 m' hm'
  rw [workspace_of_mem_moments hedits hm, workspace_of_mem_moments hedits hm']
  exact hsame.alike settings

/-- A fresh edit leaves the mixins of other files as they were. -/
theorem IsFreshEdit.mixinsOf_eq {options : ServiceOptions} {t : FileTree} {path q : Path}
    {file : File} (h : IsFreshEdit options.root [] t path file) (settings : Settings)
    (hq : t.locate? q ≠ t.locate? path) :
    (options.workspace (t.write path file) settings).mixinsOf
        ((options.workspace (t.write path file) settings).source .mixin q) =
      (options.workspace t settings).mixinsOf
        ((options.workspace t settings).source .mixin q) := by
  have hsame : FileTree.SameProject options.root (t.write path file) t :=
    FileTree.SameProject.write (by simp [FileTree.SameProject.refl]) h t List.mem_cons_self
  have hfile : (t.write path file).file? q = t.file? q := by
    rw [FileTree.file?_write h.isFile, if_neg hq]
  have hsource : (options.workspace (t.write path file) settings).source .mixin q =
      (options.workspace t settings).source .mixin q :=
    Workspace.source_eq_of_file?_eq hfile .mixin
  rw [hsource, (hsame.alike settings).mixinsOf_eq]

/-! ### Runs that ask for scripts -/

/-- The keys of the scripts at some paths. -/
def FileTree.scriptKeys (t : FileTree) (paths : List Path) : List FileKey :=
  paths.filterMap fun p => (t.file? p).map fun f => ⟨f.modified, p, .mixin⟩

/-- The keys of a family are among those of any list that is closed under mixins. -/
theorem Workspace.mem_scriptKeys {w : Workspace} {p : Path} {paths : List Path} (hp : p ∈ paths)
    (hclosed : ∀ q ∈ paths, w.mixinsOf (w.source .mixin q) ⊆ paths) {k : FileKey}
    (hk : k ∈ w.familyKeys p) : k ∈ w.tree.scriptKeys paths := by
  obtain ⟨modified, path, kind⟩ := k
  obtain ⟨rfl, hpath, f, hf, rfl⟩ := hk
  refine List.mem_filterMap.mpr ⟨path, ?_, by rw [hf]; rfl⟩
  rcases hpath with rfl | hreaches
  · exact hp
  · exact hreaches.mem_of_closed (hclosed p hp) hclosed

/-- A request for a script reads the files of its family. -/
theorem Moment.fileKeys_subset {settings : Settings} {m : Moment} {p : Path}
    (hrequest : m.request = .file p .mixin) :
    m.fileKeys settings ⊆ (m.workspace settings).familyKeys p := by
  have hsubjects : m.subjects settings = [.file p .mixin] := by
    simp [subjects, hrequest, Service.subjects]
  rintro k (⟨hk, f, hf, hmodified⟩ | ⟨s, hs, hkind, hreaches, hf⟩)
  · rw [hsubjects, List.mem_singleton] at hk
    obtain ⟨hpath, hkind⟩ := Subject.file.inj hk
    exact ⟨hkind, .inl hpath, f, hf, hmodified⟩
  · rw [sources, hsubjects] at hs
    obtain rfl := List.mem_singleton.mp hs
    exact ⟨hkind, .inr hreaches, hf⟩

/-- Requests for scripts do not collide if the keys of all files concerned do not. -/
theorem noFileCollisions_of_scripts {settings : Settings} {ms : List Moment} (paths : List Path)
    (keys : List FileKey) (hrequest : ∀ m ∈ ms, ∃ p ∈ paths, m.request = .file p .mixin)
    (hclosed : ∀ m ∈ ms, ∀ q ∈ paths,
      (m.workspace settings).mixinsOf ((m.workspace settings).source .mixin q) ⊆ paths)
    (hsubset : ∀ m ∈ ms, m.tree.scriptKeys paths ⊆ keys)
    (hkeys : ∀ k ∈ keys, ∀ k' ∈ keys, k.fingerprint = k'.fingerprint → k = k') :
    NoFileCollisions settings ms := by
  have hmem : ∀ k, (∃ m ∈ ms, k ∈ m.fileKeys settings) → k ∈ keys := by
    rintro k ⟨m, hm, hk⟩
    obtain ⟨p, hp, hrequest⟩ := hrequest m hm
    exact hsubset m hm
      (Workspace.mem_scriptKeys hp (hclosed m hm) (Moment.fileKeys_subset hrequest hk))
  exact fun k hk k' hk' heq => hkeys k (hmem k hk) k' (hmem k' hk') heq

/-- Requests for files read no buffers. -/
theorem noBufferCollisions_of_files {settings : Settings} {ms : List Moment}
    (hrequest : ∀ m ∈ ms, ∃ p kind, m.request = .file p kind) : NoBufferCollisions settings ms := by
  rintro k ⟨m, hm, hk⟩
  obtain ⟨p, kind, hrequest⟩ := hrequest m hm
  have hbuffer : Subject.buffer k.text k.path ∈ m.subjects settings := hk
  simp [Moment.subjects, hrequest, Service.subjects] at hbuffer

end ComponentInsight

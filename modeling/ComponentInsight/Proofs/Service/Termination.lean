import ComponentInsight.Proofs.Lookup.Calls
import ComponentInsight.Proofs.Service.Runs
import Mathlib.Data.List.Perm.Subperm

/-!
# Every request returns

`Service.Opens` and `Service.Asks` say what a service does for a request, rule by rule, with the
stacks of the documents that are read on the way. Whatever the service remembers, the rules lead to
exactly one answer, the one that `Service.ask` gives (`exists_asks_iff`). No depth is prescribed
anywhere; how deep the stack can get follows from the files (`length_above_le`).
-/

namespace ComponentInsight

/-! ### Files and buffers -/

namespace Service

variable {s : Service} {w : Workspace}

/-- Looking up what a request reads first. -/
inductive Opens (s : Service) (w : Workspace) : Subject → Option Metadata × Service →
    List (List Path) → Prop where
  | file {path kind found files pushes}
    (hlook : w.Looks [] path kind s.files (found, files) pushes) :
    Opens s w (.file path kind)
      (found.map fun f => f.reading.record.metadata, { s with files }) pushes
  | hit {text path record buffers}
    (hprobe : s.buffers.probe (bufferKey text path) (Record.isCurrent w.tree) =
      (some record, buffers)) :
    Opens s w (.buffer text path) (some record.metadata, { s with buffers }) []
  | miss {text path buffers r files pushes}
    (hprobe : s.buffers.probe (bufferKey text path) (Record.isCurrent w.tree) = (none, buffers))
    (hread : w.Reads ⟨[], bufferSource text path⟩ s.files (r, files) pushes) :
    Opens s w (.buffer text path)
      (some (r.keep w.tree (bufferKey text path) 0 buffers).1.record.metadata,
        { s with buffers := (r.keep w.tree (bufferKey text path) 0 buffers).2, files }) pushes

/-- The metadata of what a request reads first. -/
def subjectMetadata (s : Service) (w : Workspace) : Subject → Option Metadata × Service
  | .file path kind => s.file w path kind
  | .buffer text path => ((s.buffer w text path).1, (s.buffer w text path).2)

/-- Whatever a request reads first can be looked up, with one result. -/
theorem exists_opens_iff (s : Service) (w : Workspace) (x : Subject) :
    ∃ pushes, w.Returns ⟨[], x.source w⟩ (s.subjectMetadata w x) (s.Opens w x) pushes := by
  cases x with
  | file path kind =>
    obtain ⟨pushes, hiff, hpushed⟩ := w.exists_looks_iff [] path kind s.files
    refine ⟨pushes, fun result ps => ⟨?_, ?_⟩, hpushed⟩
    · rintro ⟨hlook⟩
      obtain ⟨heq, rfl⟩ := (hiff _ _).mp hlook
      rw [subjectMetadata, file_eq, ← heq]
      exact ⟨rfl, rfl⟩
    · rintro ⟨rfl, rfl⟩
      rw [subjectMetadata, file_eq]
      exact .file ((hiff _ _).mpr ⟨rfl, rfl⟩)
  | buffer text path =>
    rw [subjectMetadata, buffer_eq, Workspace.lookupBuffer]
    dsimp only
    rcases hprobe : s.buffers.probe (bufferKey text path) (Record.isCurrent w.tree)
      with ⟨_ | record, buffers⟩
    · obtain ⟨pushes, hiff, hpushed⟩ := w.exists_reads_iff ⟨[], bufferSource text path⟩ s.files
      refine ⟨pushes, fun result ps => ⟨?_, ?_⟩, hpushed⟩
      · rintro (_ | ⟨hprobe'⟩ | ⟨hprobe', hread⟩)
        · simp [hprobe] at hprobe'
        · obtain ⟨-, rfl⟩ := Prod.mk.inj (hprobe.symm.trans hprobe')
          obtain ⟨heq, rfl⟩ := (hiff _ _).mp hread
          replace heq : _ = w.read [] .componentsOnly path
            (Declarations.ofDocument .componentsOnly path text).toOption s.files := heq
          dsimp only
          rw [← heq]
          exact ⟨rfl, rfl⟩
      · rintro ⟨rfl, rfl⟩
        exact .miss hprobe ((hiff _ _).mpr ⟨rfl, rfl⟩)
    · refine ⟨[], fun result ps => ⟨?_, ?_⟩, by simp⟩
      · rintro (_ | ⟨hprobe'⟩ | ⟨hprobe', -⟩)
        · obtain ⟨hrecord, rfl⟩ := Prod.mk.inj (hprobe.symm.trans hprobe')
          obtain rfl := Option.some.inj hrecord
          exact ⟨rfl, rfl⟩
        · simp [hprobe] at hprobe'
      · rintro ⟨rfl, rfl⟩
        exact .hit hprobe

end Service

/-! ### Requests -/

/-- Answering the request of a moment, with the stacks of the documents that are read meanwhile. -/
inductive Asks (settings : Settings) : Moment → Answer × Service → List (List Path) → Prop where
  | file {s t path kind m s' pushes}
    (hopen : (s.workspace t settings).2.Opens (s.workspace t settings).1 (.file path kind)
      (m, s') pushes) :
    Asks settings ⟨s, t, .file path kind⟩ (.metadata (m.getD .empty), s') pushes
  | buffer {s t text path m s' pushes}
    (hopen : (s.workspace t settings).2.Opens (s.workspace t settings).1 (.buffer text path)
      (some m, s') pushes) :
    Asks settings ⟨s, t, .buffer text path⟩ (.metadata m, s') pushes
  | componentPath {s t text path tag m s' pushes}
    (hopen : (s.workspace t settings).2.Opens (s.workspace t settings).1 (.buffer text path)
      (some m, s') pushes) :
    Asks settings ⟨s, t, .componentPath text path tag⟩ (.path (m.component? tag), s') pushes
  | noChild {s t text path tag m s' pushes}
    (hopen : (s.workspace t settings).2.Opens (s.workspace t settings).1 (.buffer text path)
      (some m, s') pushes) (hchild : m.component? tag = none) :
    Asks settings ⟨s, t, .componentMetadata text path tag⟩ (.child none, s') pushes
  | child {s t text path tag m s' pushes p m' s'' pushes'}
    (hopen : (s.workspace t settings).2.Opens (s.workspace t settings).1 (.buffer text path)
      (some m, s') pushes) (hchild : m.component? tag = some p)
    (hfile : s'.Opens (s.workspace t settings).1 (.file p (.forPath p)) (m', s'') pushes') :
    Asks settings ⟨s, t, .componentMetadata text path tag⟩ (.child m', s'') (pushes ++ pushes')
  | clear {s t} : Asks settings ⟨s, t, .clear⟩ (.done, s.clear) []

/-- The rules lead from a moment to one answer, that of the service, and pass through calls made on
behalf of what the request reads first. -/
structure Moment.Returns (settings : Settings) (m : Moment) (pushes : List (List Path)) : Prop where
  iff : ∀ result ps, Asks settings m result ps ↔
    result = m.service.ask m.tree settings m.request ∧ ps = pushes
  pushed : ∀ stack ∈ pushes, ∃ x ∈ m.subjects settings, ∃ c,
    (m.workspace settings).CallsStar ⟨[], x.source (m.workspace settings)⟩ c ∧ stack = c.pushed

section

variable (settings : Settings) (s : Service) (t : FileTree)

/-- The rules for a buffer give one result, that of the function. -/
private theorem exists_opens_buffer_iff (text : String) (path : Path) :
    ∃ pushes, (∀ m s' ps, (s.workspace t settings).2.Opens (s.workspace t settings).1
        (.buffer text path) (some m, s') ps ↔
          (m, s') = (s.workspace t settings).2.buffer (s.workspace t settings).1 text path ∧
            ps = pushes) ∧
      ∀ stack ∈ pushes, ∃ c, (s.workspace t settings).1.CallsStar ⟨[], bufferSource text path⟩ c ∧
        stack = c.pushed := by
  obtain ⟨pushes, hiff, hpushed⟩ := (s.workspace t settings).2.exists_opens_iff
    (s.workspace t settings).1 (.buffer text path)
  refine ⟨pushes, fun m s' ps => (hiff _ _).trans (and_congr_left fun _ => ?_), hpushed⟩
  rw [Service.subjectMetadata, Prod.mk.injEq, Option.some.injEq, Prod.ext_iff]

/-- A request for a file returns. -/
private theorem exists_returns_file (path : Path) (kind : DocumentKind) :
    ∃ pushes, (Moment.mk s t (.file path kind)).Returns settings pushes := by
  obtain ⟨pushes, hiff, hpushed⟩ := (s.workspace t settings).2.exists_opens_iff
    (s.workspace t settings).1 (.file path kind)
  refine ⟨pushes, fun result ps => ?_, fun stack hstack =>
    ⟨_, List.mem_cons_self, hpushed stack hstack⟩⟩
  dsimp only
  rw [Service.ask_file]
  constructor
  · intro h
    cases h with
    | file hopen =>
      obtain ⟨heq, rfl⟩ := (hiff _ _).mp hopen
      replace heq : _ = Service.file _ _ path kind := heq
      rw [← heq]
      exact ⟨rfl, rfl⟩
  · rintro ⟨rfl, rfl⟩
    exact .file ((hiff _ _).mpr ⟨rfl, rfl⟩)

private theorem exists_returns_buffer (text : String) (path : Path) :
    ∃ pushes, (Moment.mk s t (.buffer text path)).Returns settings pushes := by
  obtain ⟨pushes, hiff, hpushed⟩ := exists_opens_buffer_iff settings s t text path
  refine ⟨pushes, fun result ps => ?_, fun stack hstack =>
    ⟨.buffer text path, List.mem_cons_self, hpushed stack hstack⟩⟩
  dsimp only
  rw [Service.ask_buffer]
  constructor
  · intro h
    cases h with
    | buffer hopen =>
      obtain ⟨heq, rfl⟩ := (hiff _ _ _).mp hopen
      rw [← heq]
      exact ⟨rfl, rfl⟩
  · rintro ⟨rfl, rfl⟩
    exact .buffer ((hiff _ _ _).mpr ⟨rfl, rfl⟩)

private theorem exists_returns_componentPath (text : String) (path : Path) (tag : String) :
    ∃ pushes, (Moment.mk s t (.componentPath text path tag)).Returns settings pushes := by
  obtain ⟨pushes, hiff, hpushed⟩ := exists_opens_buffer_iff settings s t text path
  refine ⟨pushes, fun result ps => ?_, fun stack hstack =>
    ⟨.buffer text path, List.mem_cons_self, hpushed stack hstack⟩⟩
  dsimp only
  rw [Service.ask_componentPath, ← s.child?_workspace t settings, Service.child?]
  constructor
  · intro h
    cases h with
    | componentPath hopen =>
      obtain ⟨heq, rfl⟩ := (hiff _ _ _).mp hopen
      rw [← heq]
      exact ⟨rfl, rfl⟩
  · rintro ⟨rfl, rfl⟩
    exact .componentPath ((hiff _ _ _).mpr ⟨rfl, rfl⟩)

/-- What the rules find for a buffer registers the child component that the service tells. -/
private theorem component?_of_opens {text : String} {path : Path} {m : Metadata} {s' : Service}
    {ps : List (List Path)} (h : (s.workspace t settings).2.Opens (s.workspace t settings).1
      (.buffer text path) (some m, s') ps) (tag : String) :
    m.component? tag = s.child? (s.workspace t settings).1 text path tag := by
  obtain ⟨pushes, hiff, -⟩ := exists_opens_buffer_iff settings s t text path
  rw [← s.child?_workspace t settings, Service.child?, ← ((hiff _ _ _).mp h).1]

/-- Without a child component of the tag only the buffer is read. -/
private theorem exists_returns_of_child?_eq_none {text : String} {path : Path} {tag : String}
    (hchild : s.child? (s.workspace t settings).1 text path tag = none) :
    ∃ pushes, (Moment.mk s t (.componentMetadata text path tag)).Returns settings pushes := by
  obtain ⟨pushes, hiff, hpushed⟩ := exists_opens_buffer_iff settings s t text path
  refine ⟨pushes, fun result ps => ?_, fun stack hstack =>
    ⟨.buffer text path, List.mem_cons_self, hpushed stack hstack⟩⟩
  dsimp only
  rw [Service.ask_componentMetadata]
  dsimp only
  rw [hchild]
  constructor
  · intro h
    cases h with
    | noChild hopen _ =>
      obtain ⟨heq, rfl⟩ := (hiff _ _ _).mp hopen
      rw [← heq]
      exact ⟨rfl, rfl⟩
    | child hopen hsome _ =>
      rw [component?_of_opens settings s t hopen, hchild] at hsome
      cases hsome
  · rintro ⟨rfl, rfl⟩
    have hopen := (hiff _ _ _).mpr ⟨rfl, rfl⟩
    exact .noChild hopen ((component?_of_opens settings s t hopen tag).trans hchild)

/-- The file of a child component is read after the buffer. -/
private theorem exists_returns_of_child?_eq_some {text : String} {path p : Path} {tag : String}
    (hchild : s.child? (s.workspace t settings).1 text path tag = some p) :
    ∃ pushes, (Moment.mk s t (.componentMetadata text path tag)).Returns settings pushes := by
  obtain ⟨pushes, hiff, hpushed⟩ := exists_opens_buffer_iff settings s t text path
  obtain ⟨others, hiff', hpushed'⟩ :=
    ((s.workspace t settings).2.buffer (s.workspace t settings).1 text path).2.exists_opens_iff
      (s.workspace t settings).1 (.file p (.forPath p))
  refine ⟨pushes ++ others, fun result ps => ?_, fun stack hstack => ?_⟩
  · dsimp only
    rw [Service.ask_componentMetadata]
    dsimp only
    rw [hchild]
    constructor
    · intro h
      cases h with
      | noChild hopen hnone =>
        rw [component?_of_opens settings s t hopen, hchild] at hnone
        cases hnone
      | child hopen hsome hfile =>
        rw [component?_of_opens settings s t hopen, hchild] at hsome
        obtain rfl := Option.some.inj hsome
        obtain ⟨heq, rfl⟩ := (hiff _ _ _).mp hopen
        rw [← heq] at hiff' ⊢
        obtain ⟨heq', rfl⟩ := (hiff' _ _).mp hfile
        replace heq' : _ = Service.file _ _ p (.forPath p) := heq'
        dsimp only at heq' ⊢
        rw [← heq']
        exact ⟨rfl, rfl⟩
    · rintro ⟨rfl, rfl⟩
      have hopen := (hiff _ _ _).mpr ⟨rfl, rfl⟩
      exact .child hopen ((component?_of_opens settings s t hopen tag).trans hchild)
        ((hiff' _ _).mpr ⟨rfl, rfl⟩)
  · rcases List.mem_append.mp hstack with hstack | hstack
    · exact ⟨.buffer text path, List.mem_cons_self, hpushed stack hstack⟩
    · refine ⟨.file p (.forPath p), ?_, hpushed' stack hstack⟩
      simp [Moment.subjects, Moment.workspace, Service.subjects, hchild]

/-- Forgetting all results reads nothing. -/
private theorem returns_clear : (Moment.mk s t .clear).Returns settings [] := by
  refine ⟨fun result ps => ⟨?_, ?_⟩, by simp⟩
  · rintro ⟨⟩
    exact ⟨rfl, rfl⟩
  · rintro ⟨rfl, rfl⟩
    exact .clear

end

/-- The rules give one answer, whatever is asked for. -/
theorem Moment.exists_returns (settings : Settings) (m : Moment) :
    ∃ pushes, m.Returns settings pushes := by
  obtain ⟨s, t, r⟩ := m
  cases r with
  | file path kind => exact exists_returns_file settings s t path kind
  | buffer text path => exact exists_returns_buffer settings s t text path
  | componentPath text path tag => exact exists_returns_componentPath settings s t text path tag
  | componentMetadata text path tag =>
    cases hchild : s.child? (s.workspace t settings).1 text path tag with
    | none => exact exists_returns_of_child?_eq_none settings s t hchild
    | some p => exact exists_returns_of_child?_eq_some settings s t hchild
  | clear => exact ⟨[], returns_clear settings s t⟩

/-! ### The depth of the stack -/

namespace Workspace

variable {w : Workspace} {s : Source} {c : List Path}

/-- The files of a chain from a file are where imports of files lead. -/
theorem IsChain.mem_importable {kind : DocumentKind} {path : Path}
    (h : w.IsMixinChain (w.source kind path) c) : ∀ p ∈ c, p ∈ w.importable := by
  induction c generalizing kind path with
  | nil => simp
  | cons q c ih =>
    intro p hp
    rcases List.mem_cons.mp hp with rfl | hp
    · exact mem_importable_of_mem_mixinsOf h.1
    · exact ih h.2 p hp

/-- The files of a chain are where imports of files lead, or those of the document it begins
with. -/
theorem IsChain.mem_importable_or (h : w.IsMixinChain s c) :
    ∀ p ∈ c, w.tree.isFile p = true ∧ (p ∈ w.importable ∨ p ∈ w.mixinsOf s) := by
  cases c with
  | nil => simp
  | cons q c =>
    intro p hp
    refine ⟨?_, ?_⟩
    · obtain ⟨a, b, heq⟩ := List.append_of_mem hp
      rw [heq] at h
      exact (isChain_append.mp h).1.reaches.isFile
    · rcases List.mem_cons.mp hp with rfl | hp
      · exact .inr h.1
      · exact .inl (h.2.mem_importable p hp)

/-- A chain without repetitions has at most one file more than there are within reach. -/
theorem length_above_le (h : w.IsMixinChain s c)
    (hdistinct : c.Pairwise fun p q => p.same q = false) : c.length ≤ w.reach.length + 1 := by
  cases c with
  | nil => simp
  | cons q c =>
    have hnodup : c.Nodup := by
      refine (List.pairwise_cons.mp hdistinct).2.imp fun hne heq => ?_
      simp [heq] at hne
    have hsubset : c ⊆ w.reach := fun p hp => w.importable_subset_reach (h.2.mem_importable p hp)
    have hlength : c.length ≤ w.reach.length := (List.subperm_of_subset hnodup hsubset).length_le
    simpa using hlength

end Workspace

/-- **Termination.** The calls of a request are well founded, and the rules lead to exactly one
answer, whatever the service remembers. At every moment the stack begins with a document that the
request reads first, never holds one path twice, and is otherwise a chain of files that imports lead
to, of which there are finitely many. -/
theorem exists_asks_iff (settings : Settings) (m : Moment) :
    (WellFounded fun inner outer => (m.workspace settings).Calls outer inner) ∧
    (m.workspace settings).importable.Finite ∧
    ∃ pushes : List (List Path),
      (∀ result ps, Asks settings m result ps ↔
        result = m.service.ask m.tree settings m.request ∧ ps = pushes) ∧
      ∀ stack ∈ pushes, (stack.Pairwise fun p q => p.same q = false) ∧
        ∃ s ∈ m.sources settings, ∃ above, stack = s.path :: above ∧
          (m.workspace settings).IsMixinChain s above ∧
          (∀ p ∈ above, m.tree.isFile p = true ∧
            (p ∈ (m.workspace settings).importable ∨ p ∈ (m.workspace settings).mixinsOf s)) ∧
          above.length ≤ (m.workspace settings).reach.length + 1 := by
  refine ⟨(m.workspace settings).wellFounded_calls, (m.workspace settings).finite_importable, ?_⟩
  obtain ⟨pushes, hiff, hpushed⟩ := m.exists_returns settings
  refine ⟨pushes, hiff, fun stack hstack => ?_⟩
  obtain ⟨x, hx, c, hcalls, rfl⟩ := hpushed stack hstack
  have hpairwise : c.pushed.Pairwise fun p q => p.same q = false :=
    Workspace.pairwise_pushed hcalls (List.pairwise_singleton _ _)
  obtain ⟨above, habove, hchain, -⟩ := Workspace.exists_chain_pushed hcalls
  replace habove : c.pushed = (x.source (m.workspace settings)).path :: above := habove
  refine ⟨hpairwise, _, List.mem_map_of_mem hx, above, habove, hchain,
    hchain.mem_importable_or, Workspace.length_above_le hchain ?_⟩
  rw [habove] at hpairwise
  exact (List.pairwise_cons.mp hpairwise).2

end ComponentInsight

import ComponentInsight.Cache
import ComponentInsight.Lookup.Record
import ComponentInsight.Lookup.Reach

/-!
# Looking files up

The metadata of a file by way of the cache. A file that is not cached, or whose mixins have changed,
is read, and its mixins are looked up in turn.

The files being read at a moment form a stack, the one asked for at the bottom. A mixin that is on
the stack already closes a cycle and is left out. What is read on the way from that mixin to the top
of the stack is then incomplete: it is passed on but never cached. A reading therefore tells at
which position of the stack a mixin was left out (`Reading.cut`), and is stored only if that is not
below its own.

`Workspace.lookup` needs no bound on the depth of the recursion: every mixin it follows is new on
the stack and within the reach of the workspace.
-/

namespace ComponentInsight

/-- What reading a document gave. -/
structure Reading where
  record : Record
  /-- The lowest position on the stack of a mixin that was left out. -/
  cut : Option Nat
  deriving DecidableEq, Repr

namespace Reading

/-- The reading of a document that declares nothing. -/
def empty : Reading := ⟨.empty, none⟩

/-- Whether a reading at a position of the stack lacks what a file below that position has. -/
def isPartial (r : Reading) (position : Nat) : Bool := r.cut.any (· < position)

/-- Cache a reading unless it is partial; the reading that counts from now on. -/
def keep (t : FileTree) (key : Fingerprint) (position : Nat) (r : Reading) (cache : Cache Record) :
    Reading × Cache Record :=
  if r.isPartial position then (r, cache)
  else
    let (record, cache) := cache.settle key (Record.isCurrent t) r.record
    (⟨record, r.cut⟩, cache)

end Reading

/-- A file that was found, under its key. -/
structure Found where
  key : Fingerprint
  reading : Reading
  deriving DecidableEq, Repr

/-- The mixins of a document as far as they have been looked up. -/
structure Gathered where
  metadata : List Metadata
  mixins : List Dependency
  cut : Option Nat
  cache : Cache Record

namespace Gathered

/-- No mixin looked up yet. -/
def start (cut : Option Nat) (cache : Cache Record) : Gathered := ⟨[], [], cut, cache⟩

/-- One more mixin looked up. -/
def add (g : Gathered) (path : Path) : Option Found × Cache Record → Gathered
  | (none, cache) => { g with cache }
  | (some f, cache) =>
    { metadata := g.metadata ++ [f.reading.record.metadata]
      mixins := g.mixins ++ ⟨path, f.key⟩ :: f.reading.record.mixins
      cut := Option.merge min g.cut f.reading.cut
      cache }

end Gathered

namespace Workspace

/-- The lowest position on the stack of a mixin of a document. -/
def lowestCut (w : Workspace) (stack : List Path) (path : Path) (d : Declarations) : Option Nat :=
  ((w.mixinPaths path d).filterMap fun p => stack.findIdx? fun q => q.same p).min?

/-- The mixins of a document that are not on the stack. -/
def freshMixins (w : Workspace) (stack : List Path) (path : Path) (d : Declarations) : List Path :=
  (w.mixinPaths path d).filter fun p => !onStack stack p

/-- Look up, one after another, the mixins of a document that are not on the stack. -/
def gather (w : Workspace) (find : Path → Cache Record → Option Found × Cache Record)
    (stack : List Path) (path : Path) (d : Declarations) (cache : Cache Record) : Gathered :=
  (w.freshMixins stack path d).foldl (fun g p => g.add p (find p g.cache))
    (.start (w.lowestCut stack path d) cache)

/-- The reading of a document whose mixins have been looked up. -/
def conclude (w : Workspace) (kind : DocumentKind) (path : Path) (d : Declarations) (g : Gathered) :
    Reading :=
  ⟨⟨w.merge kind path d g.metadata, g.mixins⟩, g.cut⟩

/-- Look a file up while the files of the stack are being read; nothing if there is no file. -/
def lookup (w : Workspace) (stack : List Path) (path : Path) (kind : DocumentKind)
    (cache : Cache Record) : Option Found × Cache Record :=
  match _hf : w.tree.file? path with
  | none => (none, cache)
  | some file =>
    let key := file.key path kind
    match cache.probe key (Record.isCurrent w.tree) with
    | (some record, cache) => (some ⟨key, ⟨record, none⟩⟩, cache)
    | (none, cache) =>
      let (reading, cache) :=
        match _hd : file.declarations? kind path with
        | none => (Reading.empty, cache)
        | some d =>
          let inner := stack ++ [path]
          let mixins := w.freshMixins inner path d
          let add (g : Gathered) (p : { p // p ∈ mixins }) : Gathered :=
            g.add p.1 (w.lookup inner p.1 .mixin g.cache)
          let g := mixins.attach.foldl add (.start (w.lowestCut inner path d) cache)
          (w.conclude kind path d g, g.cache)
      let (reading, cache) := reading.keep w.tree key stack.length cache
      (some ⟨key, reading⟩, cache)
termination_by w.unseen (stack ++ [path])
decreasing_by
  obtain ⟨hp, hnew⟩ := List.mem_filter.1 p.2
  exact unseen_concat_lt (mem_reach _hf _hd hp) (by simpa using hnew)

/-- Read a document whose declarations are known, below the files of the stack. -/
def read (w : Workspace) (stack : List Path) (kind : DocumentKind) (path : Path)
    (d : Option Declarations) (cache : Cache Record) : Reading × Cache Record :=
  match d with
  | none => (.empty, cache)
  | some d =>
    let inner := stack ++ [path]
    let g := w.gather (fun p cache => w.lookup inner p .mixin cache) inner path d cache
    (w.conclude kind path d g, g.cache)

/-- A lookup takes a current record from the cache or reads the file. -/
theorem lookup_eq (w : Workspace) (stack : List Path) (path : Path) (kind : DocumentKind)
    (cache : Cache Record) :
    w.lookup stack path kind cache =
      match w.tree.file? path with
      | none => (none, cache)
      | some file =>
        match cache.probe (file.key path kind) (Record.isCurrent w.tree) with
        | (some record, cache) => (some ⟨file.key path kind, ⟨record, none⟩⟩, cache)
        | (none, cache) =>
          let (reading, cache) := w.read stack kind path (file.declarations? kind path) cache
          let (reading, cache) := reading.keep w.tree (file.key path kind) stack.length cache
          (some ⟨file.key path kind, reading⟩, cache) := by
  rw [lookup]
  cases w.tree.file? path with
  | none => rfl
  | some file =>
    rcases hprobe : cache.probe (file.key path kind) (Record.isCurrent w.tree) with ⟨_ | _, cache⟩
    · simp only [hprobe]
      cases file.declarations? kind path with
      | none => rfl
      | some d => simp [read, gather]
    · simp [hprobe]

/-- Look a buffer up. Only its registered components are read. -/
def lookupBuffer (w : Workspace) (text : String) (path : Path) (buffers files : Cache Record) :
    Record × Cache Record × Cache Record :=
  let key := bufferKey text path
  match buffers.probe key (Record.isCurrent w.tree) with
  | (some record, buffers) => (record, buffers, files)
  | (none, buffers) =>
    let declarations := (Declarations.ofDocument .componentsOnly path text).toOption
    let (reading, files) := w.read [] .componentsOnly path declarations files
    let (reading, buffers) := reading.keep w.tree key 0 buffers
    (reading.record, buffers, files)

end Workspace

end ComponentInsight

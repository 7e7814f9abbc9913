import ComponentInsight.Fingerprint
import ComponentInsight.Metadata

/-!
# Records of results

A cached result remembers the mixin files that went into it, each with the key it had at the time.
The key of a file tells its modification time, its path and how it was read; so a result is current
as long as the keys of its mixins are. The key of a buffer tells its text and its path.
-/

namespace ComponentInsight

/-- The key of a file read by way of a path. Times before the epoch count as the epoch. -/
def File.key (f : File) (path : Path) (kind : DocumentKind) : Fingerprint :=
  .ofParts [.integer f.modified.toNat, .text path.text, .text kind.tag]

/-- The key a file would be read under now; none if there is no file. -/
def FileTree.key? (t : FileTree) (path : Path) (kind : DocumentKind) : Option Fingerprint :=
  (t.file? path).map fun f => f.key path kind

/-- The key of a path is that of its file. -/
theorem FileTree.key?_of_file? {t : FileTree} {path : Path} {f : File}
    (h : t.file? path = some f) (kind : DocumentKind) :
    t.key? path kind = some (f.key path kind) := by
  rw [key?, h, Option.map_some]

/-- The key of a buffer. -/
def bufferKey (text : String) (path : Path) : Fingerprint := .ofParts [.text text, .text path.text]

/-- A mixin file that went into a result, with its key at the time. -/
structure Dependency where
  path : Path
  key : Fingerprint
  deriving DecidableEq, Repr

/-- Whether the file still has its key. -/
def Dependency.isCurrent (t : FileTree) (d : Dependency) : Bool :=
  t.key? d.path .mixin == some d.key

/-- A dependency is current if the file still has the key that was recorded. -/
theorem Dependency.isCurrent_iff {t : FileTree} {d : Dependency} :
    d.isCurrent t = true ↔ t.key? d.path .mixin = some d.key := by
  simp [isCurrent]

/-- A result and the mixins that went into it, directly or by way of other mixins. -/
structure Record where
  metadata : Metadata
  mixins : List Dependency
  deriving DecidableEq, Repr

namespace Record

/-- The result for a document that declares nothing. -/
def empty : Record := ⟨.empty, []⟩

/-- Whether no mixin has changed since. -/
def isCurrent (t : FileTree) (e : Record) : Bool := e.mixins.all (·.isCurrent t)

end Record

end ComponentInsight

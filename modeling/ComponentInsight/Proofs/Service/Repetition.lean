import ComponentInsight.Proofs.Service.Answers
import ComponentInsight.Proofs.Service.Recall

/-!
# The second of two equal requests

A request leaves the record it answers as the entry used last (`Workspace.inFront_lookup`), and that
record is current. The same request made again finds it there: it counts one hit and leaves all else
as it is, the order of the entries included (`Service.resolve_twice`). This holds for a service in
any state and for caches of any capacity: what is stored for the mixins on the way may push out any
entry except this one, which is stored after them.
-/

namespace ComponentInsight

/-! ### Lookups -/

namespace Workspace

variable {w : Workspace} {path : Path} {kind : DocumentKind} {text : String}
  {cache buffers : Cache Record} {record : Record}

/-- A current record that was used last is found with one hit. -/
theorem lookup_of_inFront {f : File} (hf : w.tree.file? path = some f)
    (hfront : cache.InFront (f.key path kind) record) (hcurrent : record.isCurrent w.tree = true) :
    w.lookup [] path kind cache =
      (some ⟨f.key path kind, ⟨record, none⟩⟩, cache.hit) := by
  rw [lookup_eq, hf]
  dsimp only
  rw [hfront.probe_eq hcurrent]

/-- A file that exists is found again with one hit. -/
theorem lookup_lookup (hfile : w.tree.isFile path = true) (kind : DocumentKind)
    (cache : Cache Record) :
    ∃ found again : Found, (w.lookup [] path kind cache).1 = some found ∧
      w.lookup [] path kind (w.lookup [] path kind cache).2 =
        (some again, (w.lookup [] path kind cache).2.hit) ∧
      again.reading.record = found.reading.record := by
  obtain ⟨f, hf⟩ := Option.isSome_iff_exists.mp hfile
  have hkey := w.lookup_fst_map_key [] path kind cache
  rw [FileTree.key?_of_file? hf] at hkey
  obtain ⟨found, hfound, hfoundKey⟩ := Option.map_eq_some_iff.mp hkey
  obtain ⟨hcurrent, hfront⟩ := inFront_lookup hfound
  rw [hfoundKey] at hfront
  exact ⟨found, _, hfound, lookup_of_inFront hf hfront hcurrent, rfl⟩

/-- A current record that was used last is answered with one hit. -/
theorem lookupBuffer_of_inFront (hfront : buffers.InFront (bufferKey text path) record)
    (hcurrent : record.isCurrent w.tree = true) (files : Cache Record) :
    w.lookupBuffer text path buffers files = (record, buffers.hit, files) := by
  unfold lookupBuffer
  dsimp only
  rw [hfront.probe_eq hcurrent]

end Workspace

/-! ### Requests -/

/-- The configuration that was looked up last is found again. -/
theorem ProjectConfig.cached_cached (t : FileTree) (root : Path) (slot : Option Slot) :
    cached t root (cached t root slot).2 = cached t root slot := by
  unfold cached
  cases find? t root with
  | none => rfl
  | some path =>
    rcases slot with _ | slot
    · simp
    · dsimp only
      by_cases hkept : slot.path.same path ∧
          slot.modified = ((t.file? path).map File.modified).getD 0
      · rw [if_pos hkept]
        exact if_pos hkept
      · rw [if_neg hkept]
        simp

namespace Service

variable (s : Service) (t : FileTree) (settings : Settings)

/-- The workspace stays the same while the caches change. -/
theorem workspace_again (files buffers : Cache Record) :
    ({ (s.workspace t settings).2 with files, buffers } : Service).workspace t settings =
      ((s.workspace t settings).1, { (s.workspace t settings).2 with files, buffers }) := by
  simp only [workspace, resolver, ProjectConfig.cached_cached]

/-- Resolving a file is a lookup in the workspace of the moment. -/
theorem resolveFileAs_eq (path : Path) (kind : DocumentKind) :
    s.resolveFileAs t settings path kind =
      let found := (s.workspace t settings).1.lookup [] path kind s.files
      ((found.1.map fun f => f.reading.record.metadata).getD .empty,
        { (s.workspace t settings).2 with files := found.2 }) := by
  simp only [resolveFileAs, file_eq, workspace_snd]

theorem resolveBuffer_eq (text : String) (path : Path) :
    s.resolveBuffer t settings text path =
      let found := (s.workspace t settings).1.lookupBuffer text path s.buffers s.files
      (found.1.metadata,
        { (s.workspace t settings).2 with buffers := found.2.1, files := found.2.2 }) := by
  simp only [resolveBuffer, buffer_eq, workspace_snd]

/-- The second of two equal requests, with no change to a file in between, is answered like the
first one; it counts one hit in the cache of the document and changes nothing else. -/
theorem resolve_twice :
    (∀ path kind, t.isFile path = true →
      let first := s.resolveFileAs t settings path kind
      first.2.resolveFileAs t settings path kind =
        (first.1, { first.2 with files := first.2.files.hit })) ∧
    ∀ text path,
      let first := s.resolveBuffer t settings text path
      first.2.resolveBuffer t settings text path =
        (first.1, { first.2 with buffers := first.2.buffers.hit }) := by
  refine ⟨fun path kind hfile => ?_, fun text path => ?_⟩
  · have hfile' : (s.workspace t settings).1.tree.isFile path = true := hfile
    obtain ⟨found, again, hfound, hagain, hrecord⟩ :=
      Workspace.lookup_lookup hfile' kind s.files
    dsimp only
    rw [resolveFileAs_eq]
    dsimp only
    rw [resolveFileAs_eq, workspace_again]
    dsimp only
    rw [hagain, hfound]
    simp only [Option.map_some, hrecord]
  · obtain ⟨hcurrent, hfront⟩ := (s.workspace t settings).1.inFront_lookupBuffer text path
      s.buffers s.files
    dsimp only
    rw [resolveBuffer_eq]
    dsimp only
    rw [resolveBuffer_eq, workspace_again]
    dsimp only
    rw [Workspace.lookupBuffer_of_inFront hfront hcurrent]

/-- Panels that are mixins of each other, in a service with room for one file. -/
theorem resolve_twice_left :
    Sample.tree.isFile Sample.left = true ∧
      let service := Service.start { Sample.options with fileCapacity := 1 }
      let first := service.resolveFileAs Sample.tree .empty Sample.left .mixin
      first.2.resolveFileAs Sample.tree .empty Sample.left .mixin =
        (first.1, { first.2 with files := first.2.files.hit }) := by
  have hfile : Sample.tree.isFile Sample.left = true := by decide
  exact ⟨hfile, (resolve_twice _ Sample.tree .empty).1 Sample.left .mixin hfile⟩

end Service

end ComponentInsight

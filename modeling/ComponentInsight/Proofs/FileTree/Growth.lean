import ComponentInsight.FileTree
import ComponentInsight.Proofs.Metadata.Merging

/-!
# Trees that grow

`t.KeptIn u`: every file and every directory of `t` has its place in `u` too. What a file says may
be different, and there may be more of both. Then **paths** that lead somewhere in `t` lead to the
same place in `u`, and files stay files (`FileTree.KeptIn.isFile`).

Directories count, even empty ones: `a/../b` leads nowhere without `a`.

Making directories, writing and touching files only lets a tree grow; removing does not.
-/

namespace ComponentInsight.FileTree

/-- Whatever is in a tree is at its place in another one. -/
structure KeptIn (t u : FileTree) : Prop where
  files {place : Place} (h : (t.files.find? place).isSome) : (u.files.find? place).isSome
  directories {place : Place} (h : t.isDirectoryAt place = true) : u.isDirectoryAt place = true

namespace KeptIn

variable {t u v : FileTree}

/-- A tree that keeps another keeps what that one kept. -/
theorem trans (h : t.KeptIn u) (h' : u.KeptIn v) : t.KeptIn v where
  files hplace := h'.files (h.files hplace)
  directories hplace := h'.directories (h.directories hplace)

/-! ### Paths -/

private theorem existsAt (h : t.KeptIn u) {place : Place} (hplace : t.existsAt place = true) :
    u.existsAt place = true := by
  unfold FileTree.existsAt at hplace ⊢
  rw [Bool.or_eq_true] at hplace ⊢
  exact hplace.imp h.directories h.files

private theorem follow (h : t.KeptIn u) {segments : List String} {p final : Place}
    (hfollow : t.follow segments p = some final) : u.follow segments p = some final := by
  -- the way is the same in both trees: wherever `t` lets one pass, so does `u`
  induction segments generalizing p with
  | nil => exact hfollow
  | cons s rest ih =>
    unfold FileTree.follow at hfollow ⊢
    split at hfollow
    · cases hfollow
    next hdir =>
    rw [if_neg (by simpa using h.directories (by simpa using hdir))]
    split at hfollow
    · next hs =>
      rw [if_pos hs]
      exact ih hfollow
    next hs =>
    rw [if_neg hs]
    split at hfollow
    · next hup =>
      rw [if_pos hup]
      exact ih hfollow
    next hup =>
    rw [if_neg hup]
    split at hfollow
    · next hexists =>
      rw [if_pos (h.existsAt hexists)]
      exact ih hfollow
    · cases hfollow

/-- A path leads to the same place in a tree that grew. -/
theorem locate? (h : t.KeptIn u) {p : Path} {place : Place}
    (hplace : t.locate? p = some place) : u.locate? p = some place := by
  unfold FileTree.locate? at hplace ⊢
  split at hplace
  · next habsolute =>
    rw [if_pos habsolute]
    exact h.follow hplace
  · cases hplace

/-- What is a file stays a file. -/
theorem isFile (h : t.KeptIn u) {p : Path} (hp : t.isFile p = true) : u.isFile p = true := by
  obtain ⟨f, hf⟩ := Option.isSome_iff_exists.mp hp
  obtain ⟨place, hplace, hfind⟩ := Option.bind_eq_some_iff.mp hf
  rw [FileTree.isFile, FileTree.file?, h.locate? hplace]
  exact h.files (Option.isSome_iff_exists.mpr ⟨f, hfind⟩)

/-! ### Changes -/

private theorem addDirectory (t : FileTree) (place : Place) : t.KeptIn (t.addDirectory place) where
  files h := h
  directories h := by
    simp only [FileTree.addDirectory, isDirectoryAt, Bool.or_eq_true, List.contains_iff_mem,
      List.mem_append] at h ⊢
    exact h.imp_right .inl

theorem makeDirectory (t : FileTree) (p : Path) : t.KeptIn (t.makeDirectory p) :=
  addDirectory t _

/-- Storing a file keeps all there is. -/
theorem put (t : FileTree) (place : Place) (f : File) :
    t.KeptIn { t with files := t.files.put place f } where
  files h := by
    rw [Table.find?_put]
    split
    · rfl
    · exact h
  directories h := h

/-- Writing a file leaves everything at its place. -/
theorem write (t : FileTree) (p : Path) (f : File) : t.KeptIn (t.write p f) :=
  (addDirectory t _).trans (put _ (placeOf p) f)

theorem touch (t : FileTree) (p : Path) (modified : Int) : t.KeptIn (t.touch p modified) := by
  unfold FileTree.touch
  split
  · exact put t _ _
  · exact ⟨id, id⟩

end KeptIn

end ComponentInsight.FileTree

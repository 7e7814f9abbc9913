import ComponentInsight.Proofs.FileTree.Rewriting
import ComponentInsight.Proofs.Table

/-!
# Trees over time

A file that is remembered is known again by the time it was last modified. That is enough as long as
files that stand in one place at different times differ in their times (`FileTree.Consistent`). A
tree stays consistent with the trees of its past when files are removed, and when they are written
at times that are new for their places.
-/

namespace ComponentInsight

/-- An entry that is found among those with certain keys is found among all. -/
theorem Table.find?_of_find?_filter {κ α : Type} [DecidableEq κ] {t : Table κ α} {p : κ → Bool}
    {k : κ} {v : α} (h : Table.find? (t.filter fun e => p e.1) k = some v) :
    t.find? k = some v := by
  induction t with
  | nil => simp [find?] at h
  | cons e rest ih =>
    obtain ⟨k', v'⟩ := e
    rw [List.filter_cons] at h
    split at h
    · simp only [find?] at h ⊢
      split
      · next heq => rwa [if_pos heq] at h
      · next hne => exact ih (by rwa [if_neg hne] at h)
    · next hp =>
      -- the entry is left out, and others with its key as well
      have hne : k' ≠ k := by
        rintro rfl
        have hmem := List.mem_filter.mp (mem_of_find?_eq_some h)
        exact hp hmem.2
      rw [find?, if_neg hne]
      exact ih h

namespace FileTree

/-- Files at one place that were modified at the same time are the same. -/
def Consistent (t u : FileTree) : Prop :=
  ∀ place f g, t.files.find? place = some f → u.files.find? place = some g →
    f.modified = g.modified → f = g

private theorem Consistent.refl (t : FileTree) : t.Consistent t :=
  fun _ _ _ hf hg _ => Option.some.inj (hf.symm.trans hg)

/-- A file is found at the place that its path names. -/
theorem find?_placeOf {t : FileTree} {p : Path} {f : File} (h : t.file? p = some f) :
    t.files.find? (placeOf p) = some f := by
  obtain ⟨place, hplace, hf⟩ := Option.bind_eq_some_iff.mp h
  rwa [placeOf_of_locate? hplace]

/-- In consistent trees, files of one path with one time of modification are the same. -/
theorem Consistent.file? {t u : FileTree} (h : t.Consistent u) {p : Path} {f g : File}
    (hf : t.file? p = some f) (hg : u.file? p = some g) (hmodified : f.modified = g.modified) :
    f = g :=
  h _ f g (find?_placeOf hf) (find?_placeOf hg) hmodified

/-- A file that is written at a new time is no other file of that time. -/
theorem Consistent.write {t u : FileTree} (h : u.Consistent t) {p : Path} {file : File}
    (hfresh : ∀ old, u.files.find? (placeOf p) = some old → old.modified ≠ file.modified) :
    u.Consistent (t.write p file) := by
  intro place f g hf hg hmodified
  replace hg : (t.files.put (placeOf p) file).find? place = some g := hg
  rw [Table.find?_put] at hg
  split at hg
  · next heq =>
    obtain rfl := Option.some.inj hg
    exact absurd hmodified (hfresh f (heq ▸ hf))
  · exact h place f g hf hg hmodified

/-- A removal is consistent with everything the tree was consistent with. -/
theorem Consistent.remove {t u : FileTree} (h : u.Consistent t) (p : Path) :
    u.Consistent (t.remove p) := by
  intro place f g hf hg
  refine h place f g hf (Table.find?_of_find?_filter (p := fun q => !(placeOf p).isPrefixOf q) ?_)
  exact hg

/-- A tree is consistent with a past that it belongs to. -/
theorem consistent_of_mem_cons {t : FileTree} {past : List FileTree}
    (h : ∀ u ∈ past, u.Consistent t) : ∀ u ∈ t :: past, u.Consistent t := by
  intro u hu
  rcases List.mem_cons.mp hu with rfl | hu
  · exact .refl _
  · exact h u hu

end FileTree

end ComponentInsight

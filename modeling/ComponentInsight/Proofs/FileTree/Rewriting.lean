import ComponentInsight.Lookup.Reach
import ComponentInsight.Proofs.FileTree.Components
import ComponentInsight.Proofs.Metadata.Merging

/-!
# Paths that lead to one file, and rewriting a file

Two texts that name one path (`Path.same`) lead to one file if they lead to any
(`FileTree.file?_eq_of_same`): a path is followed segment by segment, and where it ends is told by
its components alone (`FileTree.componentsOf_of_locate?`). A trailing separator is the reason for
the proviso, as it asks for a directory and is no component.

Writing to a path that leads to a file replaces that file and nothing else
(`FileTree.file?_write`): the place written to, found by resolving the path lexically, is the place
the path leads to, and the directories on the way exist already.
-/

namespace ComponentInsight

namespace Path

/-! ### What texts of one path have in common -/

/-- Paths are the same if they have the same components. -/
theorem same_iff {p q : Path} : p.same q = true ↔ p.components = q.components := by
  simp [same]

@[simp]
theorem same_refl (p : Path) : p.same p = true := same_iff.mpr rfl

private theorem directory_eq_of_same {p q : Path} (h : p.same q = true) :
    p.directory = q.directory := by
  simp [directory, same_iff.mp h]

theorem home_eq_of_same {p q : Path} (h : p.same q = true) : p.home = q.home := by
  simp [home, directory_eq_of_same h]

theorem fileName?_eq_of_same {p q : Path} (h : p.same q = true) : p.fileName? = q.fileName? := by
  simp [fileName?, same_iff.mp h]

end Path

namespace FileTree

/-! ### Where a path leads -/

/-- A place whose names are plain and all of whose ancestors are directories. -/
structure WellPlaced (t : FileTree) (place : Place) : Prop where
  plain : ∀ s ∈ place, Path.IsPlain s
  above : ∀ q, q <+: place → q ≠ place → t.isDirectoryAt q = true

private theorem wellPlaced_nil (t : FileTree) : t.WellPlaced [] where
  plain := by simp
  above q hq hne := absurd (List.prefix_nil.mp hq) hne

/-- All places from the root to the directory of the place are directories. -/
theorem WellPlaced.isDirectoryAt {t : FileTree} {place q : Place} (h : t.WellPlaced place)
    (hq : q <+: place.dropLast) : t.isDirectoryAt q = true := by
  by_cases hnil : place = []
  · -- the directory of the root is the root itself
    obtain rfl : q = [] := by simpa [hnil] using hq
    simp [FileTree.isDirectoryAt]
  · refine h.above q (hq.trans ( List.dropLast_prefix place)) fun heq => hnil ?_
    have hlen : place.length ≤ place.length - 1 := by
      rw [← List.length_dropLast, ← heq]
      exact heq ▸ hq.length_le
    exact List.eq_nil_of_length_eq_zero (by omega)

private theorem WellPlaced.dropLast {t : FileTree} {place : Place} (h : t.WellPlaced place) :
    t.WellPlaced place.dropLast where
  plain s hs := h.plain s (List.dropLast_subset place hs)
  above _ hq _ := h.isDirectoryAt hq

private theorem WellPlaced.concat {t : FileTree} {place : Place} {s : String}
    (h : t.WellPlaced place)
    (hdir : t.isDirectoryAt place = true) (hs : Path.IsPlain s) : t.WellPlaced (place ++ [s]) where
  plain x hx := by
    rcases List.mem_append.mp hx with hx | hx
    · exact h.plain x hx
    · exact (List.mem_singleton.mp hx) ▸ hs
  above q hq hne := by
    have hq' : q <+: place := (List.prefix_concat_iff.mp hq).resolve_left hne
    by_cases heq : q = place
    · exact heq ▸ hdir
    · exact h.above q hq' heq

/-- Following segments adds their components to the place it starts from. -/
theorem follow_spec {t : FileTree} {segments : List String} {p final : Place}
    (h : t.follow segments p = some final) (hseg : ∀ s ∈ segments, '/' ∉ s.toList)
    (hp : t.WellPlaced p) :
    t.WellPlaced final ∧ (segments.filterMap Path.component?).foldl Path.push
      (componentsOf p).reverse = (componentsOf final).reverse := by
  induction segments generalizing p with
  | nil =>
    obtain rfl : p = final := by simpa [follow] using h
    exact ⟨hp, rfl⟩
  | cons s rest ih =>
    have hrest : ∀ s ∈ rest, '/' ∉ s.toList := fun x hx => hseg x (List.mem_cons_of_mem _ hx)
    unfold follow at h
    split at h
    · simp at h
    next hdir =>
    split at h
    · next hs =>
      have hc : Path.component? s = none := by simp [Path.component?, hs]
      rw [List.filterMap_cons_none hc]
      exact ih h hrest hp
    next hs =>
    split at h
    · next hup =>
      have hc : Path.component? s = some .up := by simp [Path.component?, hup]
      rw [List.filterMap_cons_some hc, List.foldl_cons, push_up_componentsOf]
      exact ih h hrest hp.dropLast
    next hup =>
    split at h
    · have hc : Path.component? s = some (.name s) := by simp [Path.component?, hs, hup]
      rw [List.filterMap_cons_some hc, List.foldl_cons, push_name_componentsOf]
      exact ih h hrest (hp.concat (by simpa using hdir) ⟨hc, hseg s List.mem_cons_self⟩)
    · simp at h

/-- A path leads to the place that its components name. -/
theorem wellPlaced_of_locate? {t : FileTree} {p : Path} {place : Place}
    (h : t.locate? p = some place) :
    t.WellPlaced place ∧ Path.normalComponents p.components = componentsOf place := by
  unfold locate? at h
  split at h
  case isFalse => simp at h
  case isTrue habs =>
  obtain ⟨rest, hseg, hcomp, hslash⟩ := Path.exists_segments_of_isAbsolute habs
  have hrest : t.follow rest [] = some place := by
    rw [hseg] at h
    simpa [follow, isDirectoryAt] using h
  obtain ⟨hplace, hfold⟩ := follow_spec hrest hslash t.wellPlaced_nil
  have hroot : Path.push [] .root = (componentsOf []).reverse := rfl
  refine ⟨hplace, ?_⟩
  rw [hcomp, Path.normalComponents, Path.extend, List.reverse_nil, List.foldl_cons, hroot, hfold,
    List.reverse_reverse]

theorem isWritten_componentsOf {place : Place} (h : ∀ s ∈ place, Path.IsPlain s) :
    Path.IsWritten (componentsOf place) :=
  .absolute (by simpa using fun s hs => .name (h s hs))

/-- A place is determined by its components. -/
theorem componentsOf_injective : Function.Injective componentsOf := by
  intro p q h
  have hnames : p.map Component.name = q.map Component.name := by simpa [componentsOf] using h
  exact (List.map_inj_right fun _ _ => Component.name.inj).mp hnames

/-- Texts of one path that lead anywhere lead to one place. -/
theorem locate?_eq_of_same {t : FileTree} {p q : Path} {a b : Place} (h : p.same q = true)
    (hp : t.locate? p = some a) (hq : t.locate? q = some b) : a = b := by
  apply componentsOf_injective
  rw [← (wellPlaced_of_locate? hp).2, ← (wellPlaced_of_locate? hq).2, Path.same_iff.mp h]

/-- Texts of one path that lead to files lead to one file. -/
theorem file?_eq_of_same {t : FileTree} {p q : Path} (h : p.same q = true)
    (hp : t.isFile p = true) (hq : t.isFile q = true) : t.file? p = t.file? q := by
  obtain ⟨f, hf⟩ := Option.isSome_iff_exists.mp hp
  obtain ⟨g, hg⟩ := Option.isSome_iff_exists.mp hq
  obtain ⟨a, ha, hfa⟩ := Option.bind_eq_some_iff.mp hf
  obtain ⟨b, hb, hgb⟩ := Option.bind_eq_some_iff.mp hg
  rw [locate?_eq_of_same h ha hb, hgb] at hfa
  rw [hf, hg, hfa]

/-! ### Rewriting a file -/

/-- A path leads to the place it names lexically. -/
theorem placeOf_of_locate? {t : FileTree} {p : Path} {place : Place}
    (h : t.locate? p = some place) : placeOf p = place := by
  obtain ⟨hplace, hcomp⟩ := wellPlaced_of_locate? h
  have hnorm : p.normalize.components = componentsOf place := by
    rw [Path.normalize, hcomp]
    exact (isWritten_componentsOf hplace.plain).components_ofComponents
  unfold placeOf
  rw [hnorm]
  simp [componentsOf, List.filterMap_map]

/-- The directories on the way to a file exist, so writing to it only replaces it. -/
theorem write_eq {t : FileTree} {p : Path} {place : Place} (h : t.locate? p = some place)
    (f : File) : t.write p f = { t with files := t.files.put place f } := by
  have hplace := (wellPlaced_of_locate? h).1
  have hnone : (ancestors place.dropLast).filter (!t.isDirectoryAt ·) = [] := by
    refine List.filter_eq_nil_iff.mpr fun q hq => ?_
    simp [hplace.isDirectoryAt (mem_ancestors.mp hq)]
  unfold write
  rw [placeOf_of_locate? h]
  simp [addDirectory, hnone]

/-- Where segments lead depends only on what exists and on what is a directory. -/
private theorem follow_congr {t u : FileTree} (hdir : t.isDirectoryAt = u.isDirectoryAt)
    (hexists : t.existsAt = u.existsAt) (segments : List String) (p : Place) :
    t.follow segments p = u.follow segments p := by
  induction segments generalizing p with
  | nil => rfl
  | cons s rest ih => simp only [follow, hdir, hexists, ih]

/-- After writing to a path that leads to a file, all paths lead where they led before. -/
theorem locate?_write {t : FileTree} {p : Path} (h : t.isFile p = true) (f : File) (q : Path) :
    (t.write p f).locate? q = t.locate? q := by
  obtain ⟨old, hold⟩ := Option.isSome_iff_exists.mp h
  obtain ⟨place, hplace, hfile⟩ := Option.bind_eq_some_iff.mp hold
  have hdir : (t.write p f).isDirectoryAt = t.isDirectoryAt := by
    rw [write_eq hplace]
    rfl
  have hexists : (t.write p f).existsAt = t.existsAt := by
    funext x
    unfold existsAt
    rw [hdir, write_eq hplace, Table.find?_put]
    by_cases hx : place = x
    · subst hx
      simp [hfile]
    · simp [hx]
  simp only [locate?, follow_congr hdir hexists]

/-- Writing to a path that leads to a file replaces this file and nothing else. -/
theorem file?_write {t : FileTree} {p : Path} (h : t.isFile p = true) (f : File) (q : Path) :
    (t.write p f).file? q = if t.locate? q = t.locate? p then some f else t.file? q := by
  obtain ⟨old, hold⟩ := Option.isSome_iff_exists.mp h
  obtain ⟨place, hplace, -⟩ := Option.bind_eq_some_iff.mp hold
  unfold file?
  rw [locate?_write h, write_eq hplace, hplace]
  cases hq : t.locate? q with
  | none => simp
  | some b =>
    by_cases hb : b = place
    · simp [hb, Table.find?_put]
    · simp [hb, Ne.symm hb, Table.find?_put]

end FileTree

end ComponentInsight

import ComponentInsight.Proofs.FileTree.Normalizing

/-!
# The paths of places

Every place has one normalized path (`FileTree.pathOf`), and absolute paths are normalized to such
paths (`Path.normalize_eq_pathOf`). For them it makes no difference whether one looks at the text or
at the components:

* **Joining** with names puts them behind those of the place (`FileTree.pathOf_join`), and nothing
  else leads there (`FileTree.exists_names_of_pathOf_eq_join`).
* **The part below a directory** is what joining has put there (`Path.relativeTo?_pathOf`).
-/

namespace ComponentInsight

open FileTree (componentsOf placeOf)

namespace FileTree

/-! ### One path for each place -/

/-- The path of a place. -/
def pathOf (place : Place) : Path := .ofComponents (componentsOf place)

variable {place : Place}

/-- The path of a place is written with a slash in front of each name. -/
theorem text_pathOf (place : Place) : (pathOf place).text = "/" ++ "/".intercalate place := by
  have htext : (place.map Component.name).map Component.text = place := by
    simp [Function.comp_def, Component.text]
  rw [pathOf, componentsOf, Path.ofComponents, htext]

/-- The path of a place has its names as components. -/
private theorem components_pathOf (h : ∀ s ∈ place, Path.IsPlain s) :
    (pathOf place).components = componentsOf place :=
  (isWritten_componentsOf h).components_ofComponents

theorem isAbsolute_pathOf (place : Place) : (pathOf place).isAbsolute = true := by
  simp [Path.isAbsolute, text_pathOf]

/-- The path of a place other than the root does not end with a separator. -/
theorem getLast?_text_pathOf (h : ∀ s ∈ place, Path.IsPlain s) (hne : place ≠ []) :
    (pathOf place).text.toList.getLast? ≠ some '/' := by
  obtain ⟨init, s, rfl⟩ := (List.eq_nil_or_concat place).resolve_left hne
  rw [List.concat_eq_append] at h
  have hs : Path.IsPlain s := h s (by simp)
  have hs' : s.toList ≠ [] := fun hempty => (Path.isPlain_iff.mp hs).1 (by simpa using hempty)
  obtain ⟨front, hfront⟩ := Path.exists_intercalate_concat init
  rw [text_pathOf, List.concat_eq_append, hfront, ← String.append_assoc, String.toList_append,
    List.getLast?_append_of_ne_nil _ hs']
  exact fun hlast => hs.noSlash (List.mem_of_getLast? hlast)

/-! ### Joining -/

theorem isAbsolute_intercalate_names {names : List String} (h : ∀ s ∈ names, Path.IsPlain s) :
    (Path.mk ("/".intercalate names)).isAbsolute = false := by
  cases names with
  | nil => rfl
  | cons s rest =>
    have hs : Path.IsPlain s := h s List.mem_cons_self
    have hmap : ((s :: rest).map Component.name).map Component.text = s :: rest := by
      simp [Function.comp_def, Component.text]
    rw [← hmap]
    exact Path.isAbsolute_intercalate (c := .name s) (Path.isPlain_iff.mp hs).1 hs.noSlash

theorem separator_pathOf (h : ∀ s ∈ place, Path.IsPlain s) (hne : place ≠ []) :
    (pathOf place).separator = "/" := by
  have hempty : (pathOf place).text ≠ "" := by simp [text_pathOf]
  exact Path.separator_eq_slash hempty (getLast?_text_pathOf h hne)

/-- Joining with names puts them behind those of the place. -/
theorem pathOf_join {names : List String} (h : ∀ s ∈ place, Path.IsPlain s)
    (hnames : ∀ s ∈ names, Path.IsPlain s) (hne : names ≠ []) :
    (pathOf place).join ⟨"/".intercalate names⟩ = pathOf (place ++ names) := by
  have htext : ((pathOf place).join ⟨"/".intercalate names⟩).text =
      (pathOf (place ++ names)).text := by
    rw [Path.text_join _ (isAbsolute_intercalate_names hnames), text_pathOf (place ++ names)]
    by_cases hplace : place = []
    · subst hplace
      have hseparator : (pathOf []).separator = "" := by decide
      rw [hseparator, text_pathOf]
      simp
    · rw [separator_pathOf h hplace, text_pathOf,
        String.intercalate_append_of_ne_nil hplace hne]
      simp [String.append_assoc]
  exact congrArg Path.mk htext

/-- Joining with a name puts it behind those of the place. -/
theorem pathOf_join_name {s : String} (h : ∀ s ∈ place, Path.IsPlain s) (hs : Path.IsPlain s) :
    (pathOf place).join ⟨s⟩ = pathOf (place ++ [s]) := by
  rw [← pathOf_join h (List.forall_mem_singleton.mpr hs) (List.cons_ne_nil s []),
    String.intercalate_singleton]

/-- Whatever leads below a directory joins names to it. -/
theorem exists_names_of_pathOf_eq_join {base : Place} {q : Path}
    (hbase : ∀ s ∈ base, Path.IsPlain s) (h : ∀ s ∈ place, Path.IsPlain s) (hne : place ≠ [])
    (hq : q.isAbsolute = false) (heq : pathOf place = (pathOf base).join q) :
    ∃ names, names ≠ [] ∧ place = base ++ names ∧ q = ⟨"/".intercalate names⟩ := by
  have hnames : place.map .name = base.map .name ++ Path.steps q.text.toList := by
    have hcomponents := congrArg Path.components heq
    have hsteps := Path.components_of_isAbsolute (isAbsolute_pathOf base)
    rw [components_pathOf hbase] at hsteps
    rw [components_pathOf h, Path.components_of_isAbsolute
      ((Path.isAbsolute_join _ hq).trans (isAbsolute_pathOf base)), Path.steps_join _ hq,
      ← (List.cons.inj hsteps).2] at hcomponents
    exact (List.cons.inj hcomponents).2
  obtain ⟨init, names, rfl, hinit, -⟩ := List.map_eq_append_iff.mp hnames
  obtain rfl : init = base := componentsOf_injective (congrArg (Component.root :: ·) hinit)
  have hplain : ∀ s ∈ names, Path.IsPlain s := fun s hs => h s (List.mem_append_right _ hs)
  have hnames : names ≠ [] := by
    rintro rfl
    -- joining writes a separator at least
    rw [List.append_nil] at heq hne
    have hlength : (pathOf init).text.length = ((pathOf init).join q).text.length := by rw [← heq]
    rw [Path.text_join _ hq, separator_pathOf hbase hne, String.length_append,
      String.length_append, show "/".length = 1 from rfl] at hlength
    omega
  refine ⟨names, hnames, rfl, ?_⟩
  rw [← pathOf_join hbase hplain hnames] at heq
  exact (Path.eq_of_join_eq_join (isAbsolute_intercalate_names hplain) hq heq).symm

/-- A place is read back from its path. -/
private theorem placeOf_pathOf (h : ∀ s ∈ place, Path.IsPlain s) :
    placeOf (pathOf place) = place := by
  rw [Path.placeOf_eq_descent (isAbsolute_pathOf place), components_pathOf h]
  exact Path.descent_normal 0 place

end FileTree

namespace Path

open FileTree (pathOf text_pathOf components_pathOf)

/-! ### Normal forms -/

variable {p : Path}

/-- An absolute path is normalized to the path of its place. -/
theorem normalize_eq_pathOf (h : p.isAbsolute = true) : p.normalize = pathOf (placeOf p) :=
  congrArg ofComponents (normalComponents_eq_componentsOf h)

/-- The names of a place are plain. -/
theorem isPlain_of_mem_placeOf {s : String} (hs : s ∈ placeOf p) : IsPlain s := by
  obtain ⟨c, hc, hcs⟩ := List.mem_filterMap.mp hs
  cases c with
  | name s' =>
    obtain rfl : s' = s := Option.some.inj hcs
    exact (isWritten_components p.normalize).isPlain hc
  | _ => cases hcs

/-- A normalized absolute path is the path of its place. -/
theorem eq_pathOf_placeOf (h : p.isAbsolute = true) (hnormal : p.normalize = p) :
    p = pathOf (placeOf p) := by
  rw [← normalize_eq_pathOf h, hnormal]

/-- The path of a place is normalized. -/
theorem normalize_pathOf {place : Place} (h : ∀ s ∈ place, IsPlain s) :
    (pathOf place).normalize = pathOf place := by
  rw [normalize_eq_pathOf (FileTree.isAbsolute_pathOf place), FileTree.placeOf_pathOf h]

/-! ### The part below a directory -/

/-- A name in a path, with the component it stands for. -/
def label (s : String) : String × Option Component := (s, some (.name s))

/-- The segments of the path of a place are its names, behind the root. -/
theorem segments_pathOf {place : Place} (h : ∀ s ∈ place, IsPlain s) (hne : place ≠ []) :
    (pathOf place).segments = "" :: place := by
  have hpieces : splitSlash (['/'].intercalate (place.map String.toList)) =
      place.map String.toList :=
    splitSlash_intercalate (by simpa using hne) (by simpa using fun s hs => (h s hs).noSlash)
  simp [segments, text_pathOf, splitSlash, hpieces, Function.comp_def]

private theorem labelled_pathOf {place : Place} (h : ∀ s ∈ place, IsPlain s) (hne : place ≠ []) :
    (pathOf place).labelled = ("", some .root) :: place.map label := by
  have hlabel : place.map (fun s => (s, component? s)) = place.map label :=
    List.map_congr_left fun s hs => by rw [(h s hs).component, label]
  rw [labelled, segments_pathOf h hne, FileTree.isAbsolute_pathOf place, ← hlabel]
  rfl

private theorem dropBase_label (base place : Place) :
    dropBase (base.map .name) (place.map label) =
      if base <+: place then some ((place.drop base.length).map label) else none := by
  induction base generalizing place with
  | nil => simp [dropBase]
  | cons s base ih =>
    cases place with
    | nil => simp [dropBase]
    | cons s' place =>
      by_cases hs : s = s'
      · simp [dropBase, label, hs, ih]
      · simp [dropBase, label, hs]

/-- The part of a place below a directory, if it lies there. -/
theorem relativeTo?_pathOf {base place : Place} (hbase : ∀ s ∈ base, IsPlain s)
    (hplace : ∀ s ∈ place, IsPlain s) : (pathOf place).relativeTo? (pathOf base) =
      if base <+: place then some ⟨"/".intercalate (place.drop base.length)⟩ else none := by
  by_cases hne : place = []
  · subst hne
    have hlabelled : (pathOf []).labelled = [("", some .root), ("", none)] := by decide
    rw [relativeTo?, components_pathOf hbase, hlabelled]
    cases base with
    | nil => rfl
    | cons s base => simp [dropBase, componentsOf]
  · have hdrop : dropBase (pathOf base).components (pathOf place).labelled =
        dropBase (base.map .name) (place.map label) := by
      rw [components_pathOf hbase, labelled_pathOf hplace hne]
      simp [dropBase, componentsOf]
    have hkeep (names : List String) :
        (names.map label).dropWhile (fun s => s.2.isNone) = names.map label := by
      cases names <;> simp [label]
    rw [relativeTo?, hdrop, dropBase_label]
    split
    · have hreverse (names : List String) :
          (names.map label).reverse.dropWhile (fun s => s.2.isNone) =
            (names.map label).reverse := by
        rw [← List.map_reverse, hkeep]
      have hfst (names : List String) : (names.map label).map Prod.fst = names := by
        simp [label, Function.comp_def]
      simp only [Option.bind_eq_bind, Option.bind_some, hkeep, hreverse, List.reverse_reverse, hfst]
      rfl
    · rfl

/-- Where there is no root, nothing lies below it. -/
theorem dropBase_root {cs : List Component} {labels : List (String × Option Component)}
    (h : ∀ l ∈ labels, l.2 ≠ some .root) : dropBase (.root :: cs) labels = none := by
  induction labels with
  | nil => rfl
  | cons l labels ih =>
    obtain ⟨s, c⟩ := l
    cases c with
    | none => exact ih fun l hl => h l (List.mem_cons_of_mem _ hl)
    | some c =>
      have hc : Component.root ≠ c := fun hc => h _ List.mem_cons_self (by rw [hc])
      simp [dropBase, hc]

/-- A relative path does not lie below an absolute one. -/
theorem relativeTo?_of_relative {base : Path} (hp : p.isAbsolute = false)
    (hbase : base.isAbsolute = true) : p.relativeTo? base = none := by
  have hlabels : ∀ l ∈ p.labelled, l.2 ≠ some .root := by
    intro l hl hroot
    have hmem : .root ∈ p.components := List.mem_filterMap.mpr ⟨l, hl, hroot⟩
    rw [isAbsolute_iff.mpr hmem] at hp
    cases hp
  rw [relativeTo?, components_of_isAbsolute hbase, dropBase_root hlabels]
  rfl

end Path

end ComponentInsight

import ComponentInsight.Import.Resolver
import ComponentInsight.Proofs.FileTree.LastNames
import ComponentInsight.Proofs.FileTree.Places
import ComponentInsight.Proofs.Import.Aliases

/-!
# The files an import may mean

A relative import without an extension may mean four files: the one it is written for
(`Resolver.fileAt`), the index file of the directory of that name (`Resolver.indexAt`), and the two
files that stand in the same place below the dependency directory, if the import leads below the
project root at all. `Resolver.locate?_relative` says that these are tried, and in which order.

* **Extensions** are put behind a text and taken off again as text, while directories are compared
  by components. Both come to the same, since the last segment of the text is the last name of the
  path (`Resolver.primary_eq_fileAt`).
* **The dependency directory** (`Resolver.dependencyPath?_join`): what is joined to the root is
  joined to the dependency directory instead.
* **The root** is a case of its own. An import can be written for the root itself, if the name of
  the root ends with the extension that is put behind imports. Nothing of the path is left below the
  root then, and it is the index file of the dependency directory that is tried.
-/

namespace ComponentInsight

namespace Resolver

open ComponentInsight.Path (IsPlain)
open FileTree (pathOf placeOf)

variable {r : Resolver} {importer : Path} {s name : String} {kind : ModuleKind}

/-! ### Files written without their extension -/

/-- The file that a path without an extension is written for. -/
def fileAt (p : Path) (kind : ModuleKind) : Path := ⟨p.text ++ kind.extension⟩

@[simp]
theorem text_fileAt (p : Path) (kind : ModuleKind) :
    (fileAt p kind).text = p.text ++ kind.extension := rfl

/-- The index file of a directory. -/
def indexAt (p : Path) (kind : ModuleKind) : Path := p.join ⟨"index" ++ kind.extension⟩

/-- The path that a relative import is written for, before any extension is put behind it. -/
def writtenFor (importer : Path) (specifier : String) : Path :=
  (importer.parent.join ⟨specifier⟩).normalize

/-- The directory of dependencies. -/
def dependencies (r : Resolver) : Path := r.root.join ⟨r.dependencyDir⟩

/-- The extension is dropped that was added. -/
theorem dropExtension_fileAt (p : Path) (kind : ModuleKind) :
    dropExtension (fileAt p kind) kind = p := by
  simp [dropExtension, fileAt]

/-- A path without the extension is left as it is. -/
theorem dropExtension_of_not_isSuffix {p : Path}
    (h : ¬ kind.extension.toList <:+ p.text.toList) : dropExtension p kind = p :=
  if_neg (by simpa [List.isSuffixOf_iff_suffix] using h)

private theorem indexFile_fileAt (p : Path) (kind : ModuleKind) :
    indexFile (fileAt p kind) kind = indexAt p kind := by
  rw [indexFile, dropExtension_fileAt, indexAt]

theorem isAbsolute_index (kind : ModuleKind) :
    (Path.mk ("index" ++ kind.extension)).isAbsolute = false := by
  cases kind <;> decide

private theorem isAbsolute_fileAt (p : Path) (kind : ModuleKind) :
    (fileAt p kind).isAbsolute = p.isAbsolute := by
  cases htext : p.text.toList with
  | nil => cases kind <;> simp [fileAt, Path.isAbsolute, htext, ModuleKind.extension]
  | cons c cs => simp [fileAt, Path.isAbsolute, htext]

/-- The extension may be added before joining or behind it. -/
theorem join_fileAt (p : Path) {q : Path} (hq : q.isAbsolute = false) (kind : ModuleKind) :
    p.join (fileAt q kind) = fileAt (p.join q) kind := by
  have htext : (p.join (fileAt q kind)).text = (fileAt (p.join q) kind).text := by
    rw [Path.text_join p ((isAbsolute_fileAt q kind).trans hq), text_fileAt, text_fileAt,
      Path.text_join p hq, String.append_assoc, String.append_assoc, String.append_assoc]
  exact congrArg Path.mk htext

/-- The extension is put behind the last name. -/
private theorem fileAt_intercalate (names : List String) (name : String) (kind : ModuleKind) :
    fileAt ⟨"/".intercalate (names ++ [name])⟩ kind =
      ⟨"/".intercalate (names ++ [name ++ kind.extension])⟩ := by
  obtain ⟨front, hfront⟩ := Path.exists_intercalate_concat names
  rw [fileAt, hfront, hfront, String.append_assoc]

private theorem fileAt_pathOf (place : Place) (name : String) (kind : ModuleKind) :
    fileAt (pathOf (place ++ [name])) kind = pathOf (place ++ [name ++ kind.extension]) := by
  have hnames : "/".intercalate (place ++ [name]) ++ kind.extension =
      "/".intercalate (place ++ [name ++ kind.extension]) :=
    congrArg Path.text (fileAt_intercalate place name kind)
  have htext : (fileAt (pathOf (place ++ [name])) kind).text =
      (pathOf (place ++ [name ++ kind.extension])).text := by
    rw [text_fileAt, FileTree.text_pathOf, FileTree.text_pathOf, String.append_assoc, hnames]
  exact congrArg Path.mk htext

/-- A plain name stays plain with an extension. -/
theorem isPlain_append_extension (h : IsPlain name) (kind : ModuleKind) :
    IsPlain (name ++ kind.extension) := by
  have hextension : 3 ≤ kind.extension.length := by cases kind <;> decide
  have hlength : 3 ≤ (name ++ kind.extension).length := by
    rw [String.length_append]
    omega
  -- it is too long to be one of the exceptions
  refine Path.isPlain_iff.mpr ⟨?_, ?_, ?_, ?_⟩
  · exact fun hname => absurd (hname ▸ hlength) (by decide)
  · exact fun hname => absurd (hname ▸ hlength) (by decide)
  · exact fun hname => absurd (hname ▸ hlength) (by decide)
  · cases kind <;> simp [h.noSlash, ModuleKind.extension]

/-! ### Relative imports -/

/-- A specifier is relative if it is one of the two dots, or begins with one and a slash. -/
theorem isRelative_iff : isRelative s = true ↔ s.toList = ['.'] ∨ s.toList = ['.', '.'] ∨
    ['.', '/'] <+: s.toList ∨ ['.', '.', '/'] <+: s.toList := by
  simp only [isRelative, Bool.or_eq_true, beq_iff_eq, List.isPrefixOf_iff_prefix, or_assoc,
    ← String.toList_inj]
  rfl

private theorem head?_of_isRelative (h : isRelative s = true) : s.toList.head? = some '.' := by
  rcases isRelative_iff.mp h with hs | hs | ⟨rest, hs⟩ | ⟨rest, hs⟩
  · simp [hs]
  · simp [hs]
  · simp [← hs]
  · simp [← hs]

/-- A relative specifier is no absolute path, whatever is put behind it. -/
theorem isAbsolute_of_isRelative (h : isRelative s = true) (e : String) :
    (Path.mk (s ++ e)).isAbsolute = false := by
  obtain ⟨rest, hs⟩ := List.head?_eq_some_iff.mp (head?_of_isRelative h)
  simp [Path.isAbsolute, hs]

/-- A specifier whose last name has no known extension is completed by one. -/
private theorem completed_of_getLast?_segments (hlast : (Path.mk s).segments.getLast? = some name)
    (hname : IsPlain name) (hext : hasKnownExtension s = false) :
    completed s kind = s ++ kind.extension := by
  have hdots : ¬ (s = "." ∨ s = "..") := by
    rintro (rfl | rfl)
    · obtain rfl := Option.some.inj hlast
      exact (Path.isPlain_iff.mp hname).2.1 rfl
    · obtain rfl := Option.some.inj hlast
      exact (Path.isPlain_iff.mp hname).2.2.1 rfl
  rw [completed, if_neg hdots, withExtension, hext, if_neg Bool.false_ne_true]

/-- A relative import without an alias is taken from the importer's directory. -/
theorem primary_of_isRelative (hrel : isRelative s = true)
    (halias : r.aliases.lookup? (completed s kind) = none)
    (hcompleted : (Path.mk (completed s kind)).isAbsolute = false) :
    r.primary importer.home s kind = (importer.parent.join ⟨completed s kind⟩).normalize := by
  rw [primary, resolveFrom, halias, if_pos hrel, Path.normalize_parent_join _ hcompleted]

/-- A relative import without an alias and without an extension is one of the file it is written
for. -/
theorem primary_eq_fileAt (hrel : isRelative s = true) (hext : hasKnownExtension s = false)
    (hlast : (Path.mk s).segments.getLast? = some name) (hname : IsPlain name)
    (halias : r.aliases.lookup? (s ++ kind.extension) = none) :
    r.primary importer.home s kind = fileAt (writtenFor importer s) kind := by
  have hcompleted : completed s kind = s ++ kind.extension :=
    completed_of_getLast?_segments hlast hname hext
  have hprimary : r.primary importer.home s kind =
      (importer.parent.join ⟨s ++ kind.extension⟩).normalize := by
    rw [← hcompleted] at halias ⊢
    exact primary_of_isRelative hrel halias (hcompleted ▸ isAbsolute_of_isRelative hrel _)
  obtain ⟨cs, hcs⟩ := Path.exists_normalComponents_join importer.parent hlast
  obtain ⟨front, hfront⟩ := Path.exists_text_ofComponents_concat cs
  have hwritten := hcs "" (isAbsolute_of_isRelative hrel "") (by rwa [String.append_empty])
  have hfile := hcs kind.extension (isAbsolute_of_isRelative hrel _)
    (isPlain_append_extension hname kind)
  rw [String.append_empty, String.append_empty] at hwritten
  rw [hprimary, fileAt, writtenFor, Path.normalize, Path.normalize, hwritten, hfile, hfront name,
    String.append_assoc, ← hfront]

/-- What a relative import is written for has its last name, and its extension belongs to this. -/
private theorem exists_writtenFor_eq_pathOf (hrel : isRelative s = true)
    (hlast : (Path.mk s).segments.getLast? = some name) (hname : IsPlain name)
    (habs : (writtenFor importer s).isAbsolute = true) (kind : ModuleKind) :
    ∃ place, (∀ x ∈ place, IsPlain x) ∧ writtenFor importer s = pathOf (place ++ [name]) ∧
      fileAt (writtenFor importer s) kind = pathOf (place ++ [name ++ kind.extension]) := by
  rw [writtenFor, Path.isAbsolute_normalize] at habs
  obtain ⟨cs, hcs⟩ := Path.exists_normalComponents_join importer.parent hlast
  have hwritten := hcs "" (isAbsolute_of_isRelative hrel "") (by rwa [String.append_empty])
  rw [String.append_empty, String.append_empty, Path.normalComponents_eq_componentsOf habs]
    at hwritten
  rcases List.eq_nil_or_concat (placeOf (importer.parent.join ⟨s⟩)) with hnil | ⟨init, x, hplace⟩
  · have hlast := congrArg List.getLast? hwritten
    simp [hnil, FileTree.componentsOf] at hlast
  · obtain rfl : x = name := by
      have hlast := congrArg List.getLast? hwritten
      simpa [hplace, FileTree.componentsOf, List.getLast?_cons] using hlast
    rw [List.concat_eq_append] at hplace
    have hpath : writtenFor importer s = pathOf (init ++ [x]) := by
      rw [writtenFor, Path.normalize_eq_pathOf habs, hplace]
    refine ⟨init, fun y hy => ?_, hpath, ?_⟩
    · exact Path.isPlain_of_mem_placeOf (hplace ▸ List.mem_append_left _ hy)
    · rw [hpath, fileAt_pathOf]

/-! ### Below the dependency directory -/

/-- A path starts with a name if that is its first component. -/
private theorem startsWith_iff {q : Path} {dir : String} (h : IsPlain dir) :
    q.startsWith ⟨dir⟩ = true ↔ q.components.head? = some (.name dir) := by
  have hdir : (Path.mk dir).components = [.name dir] := by
    have hwritten : Path.IsWritten [Component.name dir] := .relative (by simpa using .name h)
    have hpath : Path.ofComponents [.name dir] = ⟨dir⟩ := by
      simp [Path.ofComponents, Component.text]
    rw [← hpath, hwritten.components_ofComponents]
  rw [Path.startsWith, hdir]
  cases q.components with
  | nil => simp
  | cons c cs => simpa [List.isPrefixOf] using eq_comm

variable {base place : Place}

/-- The path below the dependency directory that stands for one below the root. -/
theorem dependencyPath?_append (hroot : r.root = pathOf base) (hbase : ∀ x ∈ base, IsPlain x)
    {names : List String} (hnames : ∀ x ∈ names, IsPlain x) :
    r.dependencyPath? (pathOf (base ++ names)) =
      if (Path.mk ("/".intercalate names)).startsWith ⟨r.dependencyDir⟩ then none
      else some (r.dependencies.join ⟨"/".intercalate names⟩) := by
  have hplain : ∀ x ∈ base ++ names, IsPlain x := List.forall_mem_append.mpr ⟨hbase, hnames⟩
  have hbelow := Path.relativeTo?_pathOf hbase hplain
  rw [if_pos (List.prefix_append _ _), List.drop_left] at hbelow
  rw [dependencyPath?, dependencies, hroot, hbelow]
  rfl

/-- A path outside the root has no dependency path. -/
theorem dependencyPath?_of_not_isPrefix (hroot : r.root = pathOf base)
    (hbase : ∀ x ∈ base, IsPlain x) (hplace : ∀ x ∈ place, IsPlain x) (h : ¬ base <+: place) :
    r.dependencyPath? (pathOf place) = none := by
  rw [dependencyPath?, hroot, Path.relativeTo?_pathOf hbase hplace, if_neg h]
  rfl

/-- A relative path has no dependency path under an absolute root. -/
theorem dependencyPath?_of_relative (hroot : r.root.isAbsolute = true) {q : Path}
    (hq : q.isAbsolute = false) : r.dependencyPath? q = none := by
  rw [dependencyPath?, Path.relativeTo?_of_relative hq hroot]
  rfl

/-- A file that is joined to the root has its counterpart below the dependency directory. -/
theorem dependencyPath?_join (hroot : r.root = pathOf base) (hbase : ∀ x ∈ base, IsPlain x)
    (hplace : ∀ x ∈ place, IsPlain x) (hne : place ≠ []) {q : Path} (hq : q.isAbsolute = false)
    (hjoin : pathOf place = r.root.join q) :
    r.dependencyPath? (pathOf place) =
      if q.startsWith ⟨r.dependencyDir⟩ then none else some (r.dependencies.join q) := by
  rw [hroot] at hjoin
  obtain ⟨names, -, rfl, rfl⟩ :=
    FileTree.exists_names_of_pathOf_eq_join hbase hplace hne hq hjoin
  exact dependencyPath?_append hroot hbase fun x hx => hplace x (List.mem_append_right _ hx)

/-- The root itself has the dependency directory as its counterpart. -/
private theorem dependencyPath?_root (hroot : r.root = pathOf base) (hbase : ∀ x ∈ base, IsPlain x)
    (hdep : IsPlain r.dependencyDir) :
    r.dependencyPath? r.root = some (r.dependencies.join ⟨""⟩) := by
  have hempty : ¬ (Path.mk "").startsWith ⟨r.dependencyDir⟩ = true := by
    rw [startsWith_iff hdep, show (Path.mk "").components = [] from rfl]
    simp
  have hnames := dependencyPath?_append hroot hbase (List.forall_mem_nil IsPlain)
  rw [List.append_nil, ← hroot] at hnames
  exact hnames.trans (if_neg hempty)

private theorem dependencies_eq_pathOf (hroot : r.root = pathOf base)
    (hbase : ∀ x ∈ base, IsPlain x)
    (hdep : IsPlain r.dependencyDir) : r.dependencies = pathOf (base ++ [r.dependencyDir]) := by
  rw [dependencies, hroot, FileTree.pathOf_join_name hbase hdep]

/-- A separator at the end of a directory makes no difference for its index file. -/
private theorem indexFile_join_empty {p : Path} (h : p.separator = "/") (kind : ModuleKind) :
    indexFile (p.join ⟨""⟩) kind = indexAt p kind := by
  have htext : (p.join ⟨""⟩).text = p.text ++ "/" := by
    rw [Path.text_join p rfl, h, String.append_empty]
  have hsuffix : ¬ kind.extension.toList <:+ (p.join ⟨""⟩).text.toList := by
    rw [htext]
    rintro ⟨front, hfront⟩
    have hlast := congrArg List.getLast? hfront
    cases kind <;> simp [ModuleKind.extension] at hlast
  rw [indexFile, dropExtension_of_not_isSuffix hsuffix,
    Path.join_empty_join p (isAbsolute_index kind), indexAt]

/-! ### What is tried -/

/-- Without a known extension every file is tried together with the index file beside it. -/
private theorem locate?_eq_find? {specifier : String} (hs : Path.dropSlashes specifier = s)
    (hext : hasKnownExtension s = false) (t : FileTree) :
    r.locate? t specifier importer kind =
      ((r.primary importer.home s kind ::
          (r.dependencyPath? (r.primary importer.home s kind)).toList).flatMap fun p =>
        [p, indexFile p kind]).find? t.isFile := by
  simp [locate?, candidates, hs, hext]

section Fallback

variable (hroot : r.root = pathOf base) (hbase : ∀ x ∈ base, IsPlain x)
  (hdep : IsPlain r.dependencyDir) (hrel : isRelative s = true)
  (hlast : (Path.mk s).segments.getLast? = some name) (hname : IsPlain name)

include hroot hbase hdep hrel hlast hname

/-- A file below the root is tried below the dependency directory too, unless it lies there. -/
private theorem dependencyPath?_fileAt_of_join {below : Path} (hbelow : below.isAbsolute = false)
    (hjoin : writtenFor importer s = r.root.join below)
    (hhead : (fileAt below kind).components.head? ≠ some (.name r.dependencyDir)) :
    r.dependencyPath? (fileAt (writtenFor importer s) kind) =
      some (fileAt (r.dependencies.join below) kind) := by
  have habs : (writtenFor importer s).isAbsolute = true := by
    rw [hjoin, Path.isAbsolute_join _ hbelow, hroot, FileTree.isAbsolute_pathOf]
  obtain ⟨place, hplace, -, hfile⟩ := exists_writtenFor_eq_pathOf hrel hlast hname habs kind
  have hplain : ∀ x ∈ place ++ [name ++ kind.extension], IsPlain x :=
    Path.forall_isPlain_concat hplace (isPlain_append_extension hname kind)
  have hjoinFile : pathOf (place ++ [name ++ kind.extension]) =
      r.root.join (fileAt below kind) := by
    rw [join_fileAt _ hbelow, ← hjoin, hfile]
  rw [hfile, dependencyPath?_join hroot hbase hplain (by simp)
    ((isAbsolute_fileAt below kind).trans hbelow) hjoinFile, if_neg, join_fileAt _ hbelow]
  rwa [startsWith_iff hdep]

/-- A file that is not below the root is tried in its own place alone, and so is one that lies below
the dependency directory. -/
private theorem dependencyPath?_fileAt_eq_none
    (hhead : ∀ below : Path, below.isAbsolute = false → writtenFor importer s = r.root.join below →
      (fileAt below kind).components.head? = some (.name r.dependencyDir))
    (hne : fileAt (writtenFor importer s) kind ≠ r.root) :
    r.dependencyPath? (fileAt (writtenFor importer s) kind) = none := by
  cases habs : (writtenFor importer s).isAbsolute with
  | false =>
    exact dependencyPath?_of_relative (hroot ▸ FileTree.isAbsolute_pathOf base)
      ((isAbsolute_fileAt _ kind).trans habs)
  | true =>
    obtain ⟨place, hplace, hwritten, hfile⟩ :=
      exists_writtenFor_eq_pathOf hrel hlast hname habs kind
    have hplain : ∀ x ∈ place ++ [name ++ kind.extension], IsPlain x :=
      Path.forall_isPlain_concat hplace (isPlain_append_extension hname kind)
    by_cases hprefix : base <+: place ++ [name ++ kind.extension]
    · obtain ⟨names, hnames⟩ := hprefix
      rcases List.eq_nil_or_concat names with rfl | ⟨init, x, rfl⟩
      · rw [hfile, ← hnames, List.append_nil, ← hroot] at hne
        exact absurd rfl hne
      · rw [List.concat_eq_append] at hnames
        obtain ⟨rfl, hx⟩ := List.append_inj' ((List.append_assoc _ _ _).trans hnames) rfl
        obtain rfl : x = name ++ kind.extension := List.singleton_inj.mp hx
        -- without the extension this is the path that `hhead` is about
        have hinit : ∀ y ∈ init ++ [name], IsPlain y :=
          Path.forall_isPlain_concat (fun y hy => hplace y (List.mem_append_right _ hy)) hname
        have hjoin : writtenFor importer s = r.root.join ⟨"/".intercalate (init ++ [name])⟩ := by
          rw [hwritten, hroot, FileTree.pathOf_join hbase hinit (by simp), List.append_assoc]
        have hnames' : ∀ y ∈ init ++ [name ++ kind.extension], IsPlain y := fun y hy =>
          hplain y (hnames ▸ List.mem_append_right _ hy)
        rw [hfile, ← hnames, dependencyPath?_append hroot hbase hnames', if_pos]
        rw [startsWith_iff hdep, ← fileAt_intercalate]
        exact hhead _ (FileTree.isAbsolute_intercalate_names hinit) hjoin
    · rw [hfile, dependencyPath?_of_not_isPrefix hroot hbase hplain hprefix]

end Fallback

/-- **Relative imports without an extension.** The file an import is written for is tried, the index
file of that directory, and then both below the dependency directory, if they are below the root and
not there already. If the import is written for the root, the dependency directory and its index
file are tried in the end.

Separators behind the import do not count. -/
theorem locate?_relative (hroot : r.root.isAbsolute = true) (hnormal : r.root.normalize = r.root)
    (hdep : IsPlain r.dependencyDir) (hrel : isRelative s = true)
    (hext : hasKnownExtension s = false) (hlast : (Path.mk s).segments.getLast? = some name)
    (hname : IsPlain name)
    (halias : ∀ e ∈ r.aliases.entries, ¬ e.1.toList <+: (s ++ kind.extension).toList)
    (slashes : Nat) (t : FileTree) :
    (∀ below : Path, below.isAbsolute = false → writtenFor importer s = r.root.join below →
      (fileAt below kind).components.head? ≠ some (.name r.dependencyDir) →
      r.locate? t (s ++ String.ofList (List.replicate slashes '/')) importer kind =
        [fileAt (writtenFor importer s) kind, indexAt (writtenFor importer s) kind,
          fileAt (r.dependencies.join below) kind,
          indexAt (r.dependencies.join below) kind].find? t.isFile) ∧
    (fileAt (writtenFor importer s) kind = r.root →
      r.locate? t (s ++ String.ofList (List.replicate slashes '/')) importer kind =
        [fileAt (writtenFor importer s) kind, indexAt (writtenFor importer s) kind,
          r.dependencies.join ⟨""⟩, indexAt r.dependencies kind].find? t.isFile) ∧
    ((∀ below : Path, below.isAbsolute = false → writtenFor importer s = r.root.join below →
        (fileAt below kind).components.head? = some (.name r.dependencyDir)) →
      fileAt (writtenFor importer s) kind ≠ r.root →
      r.locate? t (s ++ String.ofList (List.replicate slashes '/')) importer kind =
        [fileAt (writtenFor importer s) kind, indexAt (writtenFor importer s) kind].find?
          t.isFile) := by
  have hbase : ∀ x ∈ placeOf r.root, IsPlain x := fun x hx => Path.isPlain_of_mem_placeOf hx
  have hrootPath : r.root = pathOf (placeOf r.root) := Path.eq_pathOf_placeOf hroot hnormal
  rw [locate?_eq_find?
      (Path.dropSlashes_append (Path.getLast?_ne_of_getLast?_segments hlast hname) slashes) hext t,
    primary_eq_fileAt hrel hext hlast hname (AliasTable.lookup?_eq_none_iff.mpr halias),
    List.flatMap_cons, indexFile_fileAt]
  refine ⟨fun below hbelow hjoin hhead => ?_, fun hfile => ?_, fun hhead hne => ?_⟩
  · rw [dependencyPath?_fileAt_of_join hrootPath hbase hdep hrel hlast hname hbelow hjoin hhead]
    simp [indexFile_fileAt]
  · have hdeps := dependencies_eq_pathOf hrootPath hbase hdep
    have hseparator : r.dependencies.separator = "/" := by
      rw [hdeps, FileTree.separator_pathOf (Path.forall_isPlain_concat hbase hdep) (by simp)]
    rw [hfile, dependencyPath?_root hrootPath hbase hdep, Option.toList_some,
      List.flatMap_singleton, indexFile_join_empty hseparator]
    rfl
  · rw [dependencyPath?_fileAt_eq_none hrootPath hbase hdep hrel hlast hname hhead hne]
    rfl

/-- The importer is two directories below the root, the name begins with a dot and holds another
one, and only the last of the four files exists. -/
theorem locate?_relative_card :
    (Resolver.mk ⟨"/project"⟩ ⟨[("@/", "src/")]⟩ "node_modules").locate?
        (FileTree.empty.write ⟨"/project/node_modules/src/ui/.card.view/index.vue"⟩ ⟨some "", 1⟩)
        ("../ui/.card.view" ++ String.ofList (List.replicate 2 '/'))
        ⟨"/project/src/pages/home.vue"⟩ .component =
      some ⟨"/project/node_modules/src/ui/.card.view/index.vue"⟩ := by
  have htried := (@locate?_relative
    (Resolver.mk ⟨"/project"⟩ ⟨[("@/", "src/")]⟩ "node_modules") ⟨"/project/src/pages/home.vue"⟩
    "../ui/.card.view" ".card.view" .component (by decide) (by decide) ⟨by decide, by decide⟩
    (by decide) (by decide) (by decide) ⟨by decide, by decide⟩ (by decide) 2
    (FileTree.empty.write ⟨"/project/node_modules/src/ui/.card.view/index.vue"⟩ ⟨some "", 1⟩)).1
    ⟨"src/ui/.card.view"⟩ (by decide) (by decide) (by decide)
  exact htried.trans (by decide +kernel)

/-- In a directory `next.js` the import `../next` is written for the project root. Neither the root
nor the index file beside it is a file, and there is no path of the import below the root; but a
file is found below the dependency directory. -/
theorem locate?_next :
    fileAt (writtenFor ⟨"/next.js/app.js"⟩ "../next") .mixin = ⟨"/next.js"⟩ ∧
    [fileAt (writtenFor ⟨"/next.js/app.js"⟩ "../next") .mixin,
      indexAt (writtenFor ⟨"/next.js/app.js"⟩ "../next") .mixin].find?
        (FileTree.empty.write ⟨"/next.js/node_modules/index.js"⟩ ⟨some "", 1⟩).isFile = none ∧
    (Resolver.mk ⟨"/next.js"⟩ ⟨[]⟩ "node_modules").locate?
        (FileTree.empty.write ⟨"/next.js/node_modules/index.js"⟩ ⟨some "", 1⟩)
        "../next" ⟨"/next.js/app.js"⟩ .mixin = some ⟨"/next.js/node_modules/index.js"⟩ := by
  decide +kernel

end Resolver

end ComponentInsight

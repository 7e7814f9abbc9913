import ComponentInsight.Proofs.Import.Candidates

/-!
# Which located paths are normalized

The path a relative or aliased import is resolved to is normalized, but two more are derived from it
as text: the path below the dependency directory and the index files of both. Deriving the first
keeps it normalized (`Resolver.exists_join_of_mem_bases`). Taking away the extension does not
always: what is left of `...vue` is `..`, and this is what an import of `../..` is resolved to. So a
located path is normalized unless it is the index file of a directory whose text ends in dots
(`Resolver.normalize_eq_iff_of_locate?`).
-/

namespace ComponentInsight

/-! ### Files and directories -/

namespace FileTree

/-- No directory of the tree is a file. -/
def IsSound (t : FileTree) : Prop := ∀ d ∈ [] :: t.directories, t.files.find? d = none

instance (t : FileTree) : Decidable t.IsSound := inferInstanceAs (Decidable (∀ _ ∈ _, _))

variable {t : FileTree} {p : Path}

private theorem IsSound.find?_eq_none (h : t.IsSound) {place : Place}
    (hplace : t.isDirectoryAt place = true) : t.files.find? place = none := by
  refine h place ?_
  simpa [isDirectoryAt] using hplace

private theorem follow_append (t : FileTree) (a b : List String) (place : Place) :
    t.follow (a ++ b) place = (t.follow a place).bind (t.follow b) := by
  induction a generalizing place with
  | nil => rfl
  | cons s a ih =>
    simp only [List.cons_append, follow, ih]
    split_ifs <;> rfl

/-- What ends with a separator is a directory, and so it is no file. -/
private theorem isFile_eq_false_of_slash (h : t.IsSound)
    (hslash : p.text.toList.getLast? = some '/') : t.isFile p = false := by
  obtain ⟨cs, hcs⟩ := List.getLast?_eq_some_iff.mp hslash
  have hsegments : p.segments = (Path.splitSlash cs).map String.ofList ++ [""] := by
    simp [Path.segments, hcs, Path.splitSlash_append_slash, Path.splitSlash]
  have hnone (place : Place) (hplace : t.locate? p = some place) : t.files.find? place = none := by
    refine h.find?_eq_none ?_
    unfold locate? at hplace
    split_ifs at hplace
    rw [hsegments, follow_append] at hplace
    obtain ⟨q, -, hq⟩ := Option.bind_eq_some_iff.mp hplace
    obtain ⟨hdir, rfl⟩ : t.isDirectoryAt q = true ∧ q = place := by simpa [follow] using hq
    exact hdir
  cases hplace : t.locate? p with
  | none => simp [isFile, file?, hplace]
  | some place => simp [isFile, file?, hplace, hnone place hplace]

/-- Only absolute paths are files. -/
private theorem isAbsolute_of_isFile (h : t.isFile p = true) : p.isAbsolute = true := by
  by_contra habs
  simp [isFile, file?, locate?, habs] at h

end FileTree

namespace Path

open FileTree (pathOf placeOf)

/-! ### Dots at the end -/

/-- The text of a path ends in a `.` or a `..`. -/
def EndsInDots (p : Path) : Prop :=
  p.segments.getLast? = some "." ∨ p.segments.getLast? = some ".."

instance (p : Path) : Decidable p.EndsInDots := inferInstanceAs (Decidable (_ ∨ _))

/-- Nothing but names and empty texts stands between the separators of a normalized path. -/
theorem isPlain_of_mem_segments {p : Path} (habs : p.isAbsolute = true) (hnormal : p.normalize = p)
    {s : String} (hs : s ∈ p.segments) : s = "" ∨ IsPlain s := by
  have hplain : ∀ x ∈ placeOf p, IsPlain x := fun x hx => isPlain_of_mem_placeOf hx
  rw [eq_pathOf_placeOf habs hnormal] at hs
  by_cases hplace : placeOf p = []
  · rw [hplace, show (pathOf []).segments = ["", ""] by decide] at hs
    exact .inl (by simpa using hs)
  · rw [segments_pathOf hplain hplace] at hs
    exact (List.mem_cons.mp hs).imp_right (hplain s)

private theorem slash_notMem_of_or {s : String} (h : s = "" ∨ IsPlain s) : '/' ∉ s.toList := by
  rcases h with rfl | h
  · decide
  · exact h.noSlash

private theorem isAbsolute_of_notMem {s : String} (h : '/' ∉ s.toList) :
    (Path.mk s).isAbsolute = false := by
  rw [isAbsolute, beq_eq_false_iff_ne]
  exact fun hhead => h (List.mem_of_head? hhead)

/-- A segment is joined to a place behind a separator. -/
private theorem exists_text_pathOf_join (place : Place) :
    ∃ front, ∀ s : String, '/' ∉ s.toList →
      ((pathOf place).join ⟨s⟩).text.toList = front ++ '/' :: s.toList := by
  have hjoin {s : String} (hs : '/' ∉ s.toList) : ((pathOf place).join ⟨s⟩).text =
      (pathOf place).text ++ (pathOf place).separator ++ s := text_join _ (isAbsolute_of_notMem hs)
  have hempty : (pathOf place).text ≠ "" := by simp [FileTree.text_pathOf]
  by_cases hlast : (pathOf place).text.toList.getLast? = some '/'
  · obtain ⟨front, hfront⟩ := List.getLast?_eq_some_iff.mp hlast
    refine ⟨front, fun s hs => ?_⟩
    rw [hjoin hs, show (pathOf place).separator = "" from if_pos (.inr hlast)]
    simp [hfront]
  · refine ⟨(pathOf place).text.toList, fun s hs => ?_⟩
    rw [hjoin hs, separator_eq_slash hempty hlast]
    simp

/-- A path that ends with a separator is the path of no file. -/
private theorem isFile_join_empty {t : FileTree} (h : t.IsSound) (place : Place) :
    t.isFile ((pathOf place).join ⟨""⟩) = false := by
  obtain ⟨front, hfront⟩ := exists_text_pathOf_join place
  have htext : ((pathOf place).join ⟨""⟩).text.toList = front ++ ['/'] := hfront "" (by decide)
  exact FileTree.isFile_eq_false_of_slash h (by simp [htext])

/-- A segment that is joined to a place is the last one. -/
private theorem getLast?_segments_join (place : Place) {s : String} (hs : '/' ∉ s.toList) :
    ((pathOf place).join ⟨s⟩).segments.getLast? = some s := by
  obtain ⟨front, hfront⟩ := exists_text_pathOf_join place
  simp [segments, hfront s hs, splitSlash_append_slash, splitSlash_of_notMem hs]

/-- A segment that is joined to a place stays one when more is joined. -/
private theorem mem_segments_join_join (place : Place) {s : String} (hs : '/' ∉ s.toList)
    (hne : s ≠ "") {q : Path} (hq : q.isAbsolute = false) :
    s ∈ (((pathOf place).join ⟨s⟩).join q).segments := by
  obtain ⟨front, hfront⟩ := exists_text_pathOf_join place
  have hs' : s.toList ≠ [] := by simpa using hne
  have hlast : ((pathOf place).join ⟨s⟩).text.toList.getLast? ≠ some '/' := by
    rw [hfront s hs, List.append_cons, List.getLast?_append_of_ne_nil _ hs']
    exact fun hlast => hs (List.mem_of_getLast? hlast)
  have hempty : ((pathOf place).join ⟨s⟩).text ≠ "" := by
    intro hempty
    simpa [hempty] using hfront s hs
  have htext : (((pathOf place).join ⟨s⟩).join q).text.toList =
      front ++ '/' :: (s.toList ++ '/' :: q.text.toList) := by
    rw [text_join _ hq, separator_eq_slash hempty hlast, String.toList_append,
      String.toList_append, hfront s hs]
    simp
  simp [segments, htext, splitSlash_append_slash, splitSlash_of_notMem hs]

/-- The path of a place is one segment below that of another one, or below itself. -/
private theorem exists_pathOf_eq_join {place : Place} (h : ∀ x ∈ place, IsPlain x) :
    ∃ init s, (∀ x ∈ init, IsPlain x) ∧ (s = "" ∨ IsPlain s) ∧
      pathOf place = (pathOf init).join ⟨s⟩ := by
  rcases List.eq_nil_or_concat place with rfl | ⟨init, s, rfl⟩
  · exact ⟨[], "", by simp, .inl rfl, by decide⟩
  · rw [List.concat_eq_append] at h ⊢
    have hinit : ∀ x ∈ init, IsPlain x := fun x hx => h x (List.mem_append_left _ hx)
    have hs : IsPlain s := h s (by simp)
    exact ⟨init, s, hinit, .inr hs, (FileTree.pathOf_join_name hinit hs).symm⟩

end Path

namespace Resolver

open ComponentInsight.Path (IsPlain)
open FileTree (pathOf placeOf)

variable {r : Resolver} {importer : Path} {s : String} {kind : ModuleKind} {place : Place}

/-! ### Index files -/

private theorem dropExtension_isPrefix (p : Path) (kind : ModuleKind) :
    (dropExtension p kind).text.toList <+: p.text.toList := by
  unfold dropExtension
  dsimp only
  split
  · simpa using List.take_prefix _ _
  · exact List.prefix_refl _

/-- What ends a text and holds no separator ends its last segment. -/
private theorem isSuffix_of_isSuffix_append_slash {e front cs : List Char} (he : '/' ∉ e)
    (h : e <:+ front ++ '/' :: cs) : e <:+ cs := by
  have hcs : cs <:+ front ++ '/' :: cs := ⟨front ++ ['/'], by simp⟩
  rcases List.suffix_or_suffix_of_suffix h hcs with hsuffix | ⟨x, rfl⟩
  · exact hsuffix
  · obtain ⟨before, hbefore⟩ := h
    rw [← List.append_assoc, List.append_cons front] at hbefore
    have hx : before ++ x = front ++ ['/'] := List.append_cancel_right hbefore
    rcases List.eq_nil_or_concat x with rfl | ⟨y, c, rfl⟩
    · exact List.suffix_refl _
    · rw [List.concat_eq_append, ← List.append_assoc] at hx
      obtain rfl : c = '/' := List.singleton_inj.mp (List.append_inj' hx rfl).2
      simp at he

/-- The extension is taken away from the last segment. -/
private theorem dropExtension_join (place : Place) (hs : '/' ∉ s.toList) (kind : ModuleKind) :
    dropExtension ((pathOf place).join ⟨s⟩) kind =
      (pathOf place).join (dropExtension ⟨s⟩ kind) := by
  by_cases hsuffix : kind.extension.toList <:+ s.toList
  · obtain ⟨cs, hcs⟩ := hsuffix
    have hstem : '/' ∉ (String.ofList cs).toList := by
      rw [String.toList_ofList]
      exact fun hmem => hs (hcs ▸ List.mem_append_left _ hmem)
    have hfile : Path.mk s = fileAt ⟨String.ofList cs⟩ kind := by
      refine congrArg Path.mk (String.toList_inj.mp ?_)
      simp [← hcs]
    rw [hfile, dropExtension_fileAt, join_fileAt _ (Path.isAbsolute_of_notMem hstem),
      dropExtension_fileAt]
  · have hextension : '/' ∉ kind.extension.toList := by cases kind <;> decide
    obtain ⟨front, hfront⟩ := Path.exists_text_pathOf_join place
    rw [dropExtension_of_not_isSuffix hsuffix, dropExtension_of_not_isSuffix]
    rw [hfront s hs]
    exact fun h => hsuffix (isSuffix_of_isSuffix_append_slash hextension h)

/-- The index file of a segment is normalized unless dots are left of the segment. -/
private theorem normalize_indexFile_join_iff (hplace : ∀ x ∈ place, IsPlain x)
    (h : s = "" ∨ IsPlain s) (kind : ModuleKind) :
    (indexFile ((pathOf place).join ⟨s⟩) kind).normalize =
        indexFile ((pathOf place).join ⟨s⟩) kind ↔
      ¬ (dropExtension ((pathOf place).join ⟨s⟩) kind).EndsInDots := by
  have hs : '/' ∉ s.toList := Path.slash_notMem_of_or h
  obtain ⟨m, hm⟩ : ∃ m, dropExtension ⟨s⟩ kind = ⟨m⟩ := ⟨_, rfl⟩
  have hslash : '/' ∉ m.toList := fun hmem => hs <| by
    have hprefix := dropExtension_isPrefix ⟨s⟩ kind
    rw [hm] at hprefix
    exact hprefix.subset hmem
  have hdots : (dropExtension ((pathOf place).join ⟨s⟩) kind).EndsInDots ↔ m = "." ∨ m = ".." := by
    rw [dropExtension_join place hs, hm, Path.EndsInDots, Path.getLast?_segments_join place hslash]
    simp
  have hindex : IsPlain ("index" ++ kind.extension) :=
    isPlain_append_extension (Path.isPlain_iff.mpr (by decide)) kind
  have hnormal {place : Place} (h : ∀ x ∈ place, IsPlain x) :
      ((pathOf place).join ⟨"index" ++ kind.extension⟩).normalize =
        (pathOf place).join ⟨"index" ++ kind.extension⟩ := by
    rw [FileTree.pathOf_join_name h hindex,
      Path.normalize_pathOf (Path.forall_isPlain_concat h hindex)]
  rw [hdots, indexFile, dropExtension_join place hs, hm]
  rcases Path.isPlain_or_of_notMem hslash with rfl | hplain | hmdots
  · rw [Path.join_empty_join _ (isAbsolute_index kind)]
    exact iff_of_true (hnormal hplace) (by decide)
  · obtain ⟨-, hhere, hup, -⟩ := Path.isPlain_iff.mp hplain
    rw [FileTree.pathOf_join_name hplace hplain]
    exact iff_of_true (hnormal (Path.forall_isPlain_concat hplace hplain))
      (not_or.mpr ⟨hhere, hup⟩)
  · -- the dots stay between two separators
    refine iff_of_false (fun hself => ?_) (not_not.mpr hmdots)
    have hne : m ≠ "" := by rcases hmdots with rfl | rfl <;> decide
    have habs : (((pathOf place).join ⟨m⟩).join ⟨"index" ++ kind.extension⟩).isAbsolute = true := by
      rw [Path.isAbsolute_join _ (isAbsolute_index kind),
        Path.isAbsolute_join _ (Path.isAbsolute_of_notMem hslash), FileTree.isAbsolute_pathOf]
    rcases Path.isPlain_of_mem_segments habs hself
      (Path.mem_segments_join_join place hslash hne (isAbsolute_index kind)) with hempty | hplain
    · exact hne hempty
    · obtain ⟨-, hhere, hup, -⟩ := Path.isPlain_iff.mp hplain
      exact hmdots.elim hhere hup

/-- The index file of a relative path is relative. -/
private theorem isAbsolute_of_isAbsolute_indexFile {p : Path}
    (h : (indexFile p kind).isAbsolute = true) : p.isAbsolute = true := by
  rw [indexFile, Path.isAbsolute_join _ (isAbsolute_index kind), Path.isAbsolute, beq_iff_eq] at h
  obtain ⟨rest, hrest⟩ := List.head?_eq_some_iff.mp h
  obtain ⟨more, hmore⟩ := dropExtension_isPrefix p kind
  rw [Path.isAbsolute, ← hmore, hrest]
  rfl

/-! ### What is tried -/

/-- Completing a specifier appends to it. -/
theorem exists_completed_eq_append (s : String) (kind : ModuleKind) :
    ∃ more, completed s kind = s ++ more := by
  unfold completed withExtension
  split_ifs
  · exact ⟨_, rfl⟩
  · exact ⟨_, String.append_assoc⟩
  · exact ⟨"", String.append_empty.symm⟩
  · exact ⟨_, rfl⟩

/-- The path of a relative or aliased import is normalized. -/
private theorem normalize_primary (hspec : isRelative s = true ∨
      (r.aliases.lookup? (completed s kind)).isSome = true) :
    (r.primary importer.home s kind).normalize = r.primary importer.home s kind := by
  cases halias : r.aliases.lookup? (completed s kind) with
  | none =>
    have hrel : isRelative s = true := hspec.resolve_right (by simp [halias])
    obtain ⟨more, hmore⟩ := exists_completed_eq_append s kind
    rw [primary_of_isRelative hrel halias (hmore ▸ isAbsolute_of_isRelative hrel more),
      Path.normalize_normalize]
  | some found =>
    obtain ⟨key, root⟩ := found
    rw [primary, resolveFrom, halias]
    exact Path.normalize_normalize _

/-- What is tried below the dependency directory is joined to it from names. -/
private theorem exists_names_of_dependencyPath? (hroot : r.root.isAbsolute = true)
    (hnormal : r.root.normalize = r.root) {p q : Path} (hp : p.normalize = p)
    (hq : r.dependencyPath? p = some q) :
    ∃ names, (∀ x ∈ names, IsPlain x) ∧ q = r.dependencies.join ⟨"/".intercalate names⟩ := by
  have hplain (p : Path) : ∀ x ∈ placeOf p, IsPlain x := fun x hx => Path.isPlain_of_mem_placeOf hx
  cases hpabs : p.isAbsolute with
  | false =>
    rw [dependencyPath?_of_relative hroot hpabs] at hq
    cases hq
  | true =>
    have hrootPath := Path.eq_pathOf_placeOf hroot hnormal
    rw [Path.eq_pathOf_placeOf hpabs hp] at hq
    by_cases hprefix : placeOf r.root <+: placeOf p
    · obtain ⟨names, hnames⟩ := hprefix
      have hnamesPlain : ∀ x ∈ names, IsPlain x := fun x hx =>
        hplain p x (hnames ▸ List.mem_append_right _ hx)
      rw [← hnames, dependencyPath?_append hrootPath (hplain _) hnamesPlain] at hq
      split at hq
      · cases hq
      · exact ⟨names, hnamesPlain, (Option.some.inj hq).symm⟩
    · rw [dependencyPath?_of_not_isPrefix hrootPath (hplain _) (hplain _) hprefix] at hq
      cases hq

/-- The files that are tried beside their index files are one segment below the path of a place. -/
theorem exists_join_of_mem_bases (hroot : r.root.isAbsolute = true)
    (hnormal : r.root.normalize = r.root) (hdeps : r.dependencies.normalize = r.dependencies)
    {p q : Path} (hp : p.normalize = p) (hq : q ∈ p :: (r.dependencyPath? p).toList)
    (habs : q.isAbsolute = true) :
    ∃ place s, (∀ x ∈ place, IsPlain x) ∧ (s = "" ∨ IsPlain s) ∧ q = (pathOf place).join ⟨s⟩ := by
  have hplain (p : Path) : ∀ x ∈ placeOf p, IsPlain x := fun x hx => Path.isPlain_of_mem_placeOf hx
  rcases List.mem_cons.mp hq with rfl | hq
  · obtain ⟨init, s, hinit, hs, hjoin⟩ := Path.exists_pathOf_eq_join (hplain q)
    exact ⟨init, s, hinit, hs, (Path.eq_pathOf_placeOf habs hp).trans hjoin⟩
  obtain ⟨names, hnames, rfl⟩ :=
    exists_names_of_dependencyPath? hroot hnormal hp (by simpa using hq)
  have hdepsPath : r.dependencies = pathOf (placeOf r.dependencies) :=
    Path.eq_pathOf_placeOf (Path.isAbsolute_join_of_isAbsolute hroot _) hdeps
  by_cases hne : names = []
  · refine ⟨placeOf r.dependencies, "", hplain _, .inl rfl, ?_⟩
    rw [hne, ← hdepsPath]
    rfl
  · obtain ⟨init, s, hinit, hs, hjoin⟩ :=
      Path.exists_pathOf_eq_join (List.forall_mem_append.mpr ⟨hplain _, hnames⟩)
    refine ⟨init, s, hinit, hs, ?_⟩
    rw [← hjoin, ← FileTree.pathOf_join (hplain _) hnames hne, ← hdepsPath]

/-- A located path is a file, and it is one of those tried or an index file of one. -/
private theorem mem_bases_of_locate? {t : FileTree} {specifier : String} {p : Path}
    (h : r.locate? t specifier importer kind = some p) :
    t.isFile p = true ∧ ∃ q ∈ r.primary importer.home (Path.dropSlashes specifier) kind ::
      (r.dependencyPath? (r.primary importer.home (Path.dropSlashes specifier) kind)).toList,
      p = q ∨ p = indexFile q kind := by
  refine ⟨List.find?_some h, ?_⟩
  obtain ⟨q, hq, hpq⟩ := List.mem_flatMap.mp (List.mem_of_find?_eq_some h)
  refine ⟨q, hq, ?_⟩
  split at hpq
  · exact .inl (List.mem_singleton.mp hpq)
  · simpa using hpq

/-- A relative import stays one without the separators at its end. -/
private theorem isRelative_dropSlashes (h : isRelative s = true) :
    isRelative (Path.dropSlashes s) = true := by
  rw [isRelative_iff] at h ⊢
  rcases h with hs | hs | hs | hs
  · obtain rfl : s = "." := String.toList_inj.mp hs
    exact .inl (by decide)
  · obtain rfl : s = ".." := String.toList_inj.mp hs
    exact .inr (.inl (by decide))
  · exact (Path.dropSlashes_eq_or_isPrefix ['.'] (by decide) hs).elim .inl (.inr ∘ .inr ∘ .inl)
  · exact (Path.dropSlashes_eq_or_isPrefix ['.', '.'] (by decide) hs).elim
      (.inr ∘ .inl) (.inr ∘ .inr ∘ .inr)

/-- **Normalized located paths.** A relative or aliased import is located at a normalized path
unless it is at an index file whose directory is written with dots at the end.

Of the alias table nothing is asked, and of the file tree only that no directory is a file. -/
theorem normalize_eq_iff_of_locate? (hroot : r.root.isAbsolute = true)
    (hnormal : r.root.normalize = r.root) (hdeps : r.dependencies.normalize = r.dependencies)
    {t : FileTree} (ht : t.IsSound) {specifier : String} (hspec : isRelative specifier = true ∨
      (r.aliases.lookup? (completed (Path.dropSlashes specifier) kind)).isSome = true)
    {p : Path} (h : r.locate? t specifier importer kind = some p) :
    p.normalize = p ↔
      ∀ q ∈ r.primary importer.home (Path.dropSlashes specifier) kind ::
        (r.dependencyPath? (r.primary importer.home (Path.dropSlashes specifier) kind)).toList,
      (dropExtension q kind).EndsInDots → p ≠ indexFile q kind := by
  have hprimary : (r.primary importer.home (Path.dropSlashes specifier) kind).normalize =
      r.primary importer.home (Path.dropSlashes specifier) kind :=
    normalize_primary (hspec.imp_left isRelative_dropSlashes)
  obtain ⟨hfile, q, hq, hpq⟩ := mem_bases_of_locate? h
  have habs : p.isAbsolute = true := FileTree.isAbsolute_of_isFile hfile
  constructor
  · rintro hself q hq hdots rfl
    obtain ⟨place, s, hplace, hs, rfl⟩ := exists_join_of_mem_bases hroot hnormal hdeps hprimary hq
      (isAbsolute_of_isAbsolute_indexFile habs)
    exact (normalize_indexFile_join_iff hplace hs kind).mp hself hdots
  · intro hall
    have hqabs : q.isAbsolute = true := by
      rcases hpq with rfl | rfl
      · exact habs
      · exact isAbsolute_of_isAbsolute_indexFile habs
    obtain ⟨place, s, hplace, hs, rfl⟩ := exists_join_of_mem_bases hroot hnormal hdeps hprimary hq
      hqabs
    rcases hpq with rfl | rfl
    · rcases hs with rfl | hs
      · rw [Path.isFile_join_empty ht place] at hfile
        cases hfile
      · rw [FileTree.pathOf_join_name hplace hs,
          Path.normalize_pathOf (Path.forall_isPlain_concat hplace hs)]
    · exact (normalize_indexFile_join_iff hplace hs kind).mpr fun hdots => hall _ hq hdots rfl

/-- A project with an alias that leads out of the root and back into it. -/
def aliasedRoot : Resolver :=
  ⟨⟨"/project"⟩, ⟨[("@/", "./lib/../../project/src/")]⟩, "node_modules"⟩

/-- The index file is the only one of the panel, and it is below the dependency directory. -/
def panelTree : FileTree :=
  FileTree.empty.write ⟨"/project/node_modules/src/panel/index.vue"⟩ ⟨some "", 1⟩

/-- The import is aliased, and it ends with a separator. -/
theorem normalize_eq_iff_of_locate?_panel :
    aliasedRoot.locate? panelTree "@/panel/" ⟨"/project/src/home.vue"⟩ .component =
      some ⟨"/project/node_modules/src/panel/index.vue"⟩ ∧
    (Path.mk "/project/node_modules/src/panel/index.vue").normalize =
      ⟨"/project/node_modules/src/panel/index.vue"⟩ := by
  have hlocate : aliasedRoot.locate? panelTree "@/panel/" ⟨"/project/src/home.vue"⟩ .component =
      some ⟨"/project/node_modules/src/panel/index.vue"⟩ := by decide +kernel
  exact ⟨hlocate, (normalize_eq_iff_of_locate? (by decide) (by decide) (by decide) (by decide)
    (.inr (by decide)) hlocate).mpr (by decide)⟩

/-- A page two directories below the sources, which have an index file. -/
def pagesTree : FileTree :=
  (FileTree.empty.write ⟨"/project/src/index.js"⟩ ⟨some "", 1⟩).write
    ⟨"/project/src/pages/deep/home.vue"⟩ ⟨some "", 1⟩

/-- The page reaches the index file through `../../index` at a normalized path, but through `../..`
at one that is not. -/
theorem normalize_ne_of_locate? :
    aliasedRoot.locate? pagesTree "../../index" ⟨"/project/src/pages/deep/home.vue"⟩ .mixin =
      some ⟨"/project/src/index.js"⟩ ∧
    isRelative "../.." = true ∧
    aliasedRoot.locate? pagesTree "../.." ⟨"/project/src/pages/deep/home.vue"⟩ .mixin =
      some ⟨"/project/src/pages/../index.js"⟩ ∧
    (Path.mk "/project/src/pages/../index.js").normalize ≠ ⟨"/project/src/pages/../index.js"⟩ := by
  decide +kernel

end Resolver

end ComponentInsight

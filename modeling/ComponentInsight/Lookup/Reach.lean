import ComponentInsight.Extraction

/-!
# Reach of mixin imports

Following mixins from file to file visits finitely many paths, although a path may be written in
infinitely many ways. The reason: what a relative import leads to depends on the importer only
through its directory with `..` resolved (`Path.home`), and for an importer that exists this is the
path of one of the finitely many places of the file tree (`FileTree.home_of_file?`). All other
imports do not depend on the importer at all. So `Workspace.reach`, one list of candidates for each
place and each specifier that occurs in a file, holds everything a mixin import can lead to
(`Workspace.mem_reach`).

`Workspace.unseen` counts the paths of the reach that are not on a stack; it falls whenever a mixin
is put on the stack.
-/

namespace ComponentInsight

namespace FileTree

/-! ### Places -/

/-- The ancestors of a place are the beginnings of its path. -/
theorem mem_ancestors {p q : Place} : q ∈ ancestors p ↔ q <+: p := by
  induction p generalizing q with
  | nil => simp [ancestors]
  | cons s rest ih =>
    cases q with
    | nil => simp [ancestors]
    | cons s' q => grind [ancestors]

/-- The places of files and directories and all places on the way to them. -/
def places (t : FileTree) : List Place := [] :: (t.files.keys ++ t.directories).flatMap ancestors

theorem nil_mem_places (t : FileTree) : [] ∈ t.places := List.mem_cons_self

/-- The places of a tree are closed under going up. -/
theorem dropLast_mem_places {t : FileTree} {p : Place} (h : p ∈ t.places) :
    p.dropLast ∈ t.places := by
  simp only [places, List.mem_cons, List.mem_flatMap] at h ⊢
  rcases h with rfl | ⟨q, hq, hp⟩
  · simp
  · exact .inr ⟨q, hq, mem_ancestors.2 ((List.dropLast_prefix p).trans (mem_ancestors.1 hp))⟩

/-- Everything that exists in a tree stands at one of its places. -/
theorem mem_places_of_existsAt {t : FileTree} {p : Place} (h : t.existsAt p = true) :
    p ∈ t.places := by
  simp only [existsAt, isDirectoryAt, Bool.or_eq_true, List.isEmpty_iff, List.contains_iff_mem,
    Option.isSome_iff_exists] at h
  have own : p ∈ ancestors p := mem_ancestors.2 (List.prefix_refl p)
  rcases h with (rfl | h) | ⟨f, h⟩
  · exact t.nil_mem_places
  · exact List.mem_cons_of_mem _
      (List.mem_flatMap.2 ⟨p, List.mem_append_right _ h, own⟩)
  · exact List.mem_cons_of_mem _
      (List.mem_flatMap.2 ⟨p, List.mem_append_left _
        (List.mem_map.2 ⟨(p, f), Table.mem_of_find?_eq_some h, rfl⟩), own⟩)

/-! ### Importers that exist -/

/-- The components of the path of a place. -/
def componentsOf (p : Place) : List Component := .root :: p.map .name

/-- Going on by a name leads to the place of that name. -/
theorem push_name_componentsOf (p : Place) (s : String) :
    Path.push (componentsOf p).reverse (.name s) = (componentsOf (p ++ [s])).reverse := by
  simp [componentsOf, Path.push]

/-- Going up leads to the place above, and from the root to itself. -/
theorem push_up_componentsOf (p : Place) :
    Path.push (componentsOf p).reverse .up = (componentsOf p.dropLast).reverse := by
  rcases List.eq_nil_or_concat p with rfl | ⟨q, s, rfl⟩
  · rfl
  · cases q.reverse <;> simp_all [componentsOf, Path.push]

/-- Wherever the way along some segments is interrupted, it has come to a place of the tree. -/
theorem exists_place_of_follow {t : FileTree} {segments : List String} {p final : Place}
    (h : t.follow segments p = some final) (hp : p ∈ t.places) (n : Nat) :
    ∃ q ∈ t.places, ((segments.filterMap Path.component?).take n).foldl Path.push
      (componentsOf p).reverse = (componentsOf q).reverse := by
  induction segments generalizing p n with
  | nil => exact ⟨p, hp, by simp⟩
  | cons s rest ih =>
    cases n with
    | zero => exact ⟨p, hp, by simp⟩
    | succ n =>
      unfold follow at h
      split at h
      · simp at h
      split at h
      · next hs =>
        have hc : Path.component? s = none := by simp [Path.component?, hs]
        rw [List.filterMap_cons_none hc]
        exact ih h hp (n + 1)
      next hs =>
      split at h
      · next hup =>
        have hc : Path.component? s = some .up := by simp [Path.component?, hup]
        rw [List.filterMap_cons_some hc, List.take_succ_cons, List.foldl_cons, push_up_componentsOf]
        exact ih h (dropLast_mem_places hp) n
      next hup =>
      split at h
      · next hexists =>
        have hc : Path.component? s = some (.name s) := by simp [Path.component?, hs, hup]
        rw [List.filterMap_cons_some hc, List.take_succ_cons, List.foldl_cons,
          push_name_componentsOf]
        exact ih h (mem_places_of_existsAt hexists) n
      · simp at h

/-- The directories imports can start from: those of the tree, and none at all. -/
def homes (t : FileTree) : List (List Component) := [] :: t.places.map componentsOf

/-- A file that exists lies in one of the tree's directories, however its path is written. -/
theorem home_of_file? {t : FileTree} {path : Path} {f : File} (h : t.file? path = some f) :
    path.home ∈ t.homes := by
  simp only [file?, locate?, Option.bind_eq_some_iff] at h
  obtain ⟨place, h, -⟩ := h
  split at h
  case isFalse => simp at h
  case isTrue habs =>
  obtain ⟨rest, hseg⟩ : ∃ rest, path.segments = "" :: rest := by
    unfold Path.isAbsolute at habs
    unfold Path.segments
    cases hc : path.text.toList with
    | nil => simp [hc] at habs
    | cons c cs =>
      have hslash : c = '/' := by simpa [hc] using habs
      exact ⟨(Path.splitSlash cs).map String.ofList, by simp [Path.splitSlash, hslash]⟩
  have hcomp : path.components = .root :: rest.filterMap Path.component? := by
    simp only [Path.components, Path.labelled, hseg, habs, if_true, List.filterMap_cons,
      List.filterMap_map]
    rfl
  have hrest : t.follow rest [] = some place := by
    rw [hseg] at h
    simpa [follow, isDirectoryAt] using h
  obtain ⟨q, hq, hfold⟩ :=
    exists_place_of_follow hrest t.nil_mem_places ((rest.filterMap Path.component?).length - 1)
  unfold Path.home Path.directory homes
  rw [hcomp]
  cases hcs : rest.filterMap Path.component? with
  | nil => simp [Path.normalComponents, Path.extend]
  | cons c cs =>
    refine List.mem_cons_of_mem _ (List.mem_map.2 ⟨q, hq, ?_⟩)
    rw [hcs] at hfold
    have htake : (c :: cs).dropLast = (c :: cs).take ((c :: cs).length - 1) :=
      List.dropLast_eq_take
    simp only [Path.normalComponents, Path.extend, List.cons.injEq, reduceCtorEq, and_false,
      if_false, List.dropLast_cons_of_ne_nil (List.cons_ne_nil c cs), List.reverse_nil,
      List.foldl_cons, htake]
    have hroot : Path.push [] .root = (componentsOf []).reverse := rfl
    rw [hroot, hfold, List.reverse_reverse]

end FileTree

namespace Workspace

/-! ### The reach -/

/-- The specifiers of the mixins a text declares when it is read in some way. -/
def specifiersOf (text : String) : List String :=
  DocumentKind.all.flatMap fun kind => Script.Dialect.all.flatMap fun dialect =>
    match Declarations.read kind dialect text with
    | .ok d => d.mixins
    | .error _ => []

/-- The specifiers of mixins in the files of a tree. -/
def specifiers (t : FileTree) : List String :=
  (t.files.filterMap fun e => e.2.text).flatMap specifiersOf

/-- Every path a mixin import of some file can lead to. -/
def reach (w : Workspace) : List Path :=
  w.tree.homes.flatMap fun dir => (specifiers w.tree).flatMap fun specifier =>
    w.resolver.candidates dir specifier .mixin

/-- What a text declares at some path names only specifiers of that text. -/
theorem mem_specifiersOf {text specifier : String} {kind : DocumentKind} {path : Path}
    {d : Declarations} (hd : Declarations.ofDocument kind path text = .ok d)
    (hs : specifier ∈ d.mixins) : specifier ∈ specifiersOf text := by
  refine List.mem_flatMap.2 ⟨kind, kind.mem_all, List.mem_flatMap.2
    ⟨.ofFileName (Declarations.scriptFileName path), Script.Dialect.mem_all _, ?_⟩⟩
  rw [Declarations.ofDocument] at hd
  rw [hd]
  exact hs

/-- What a file declares names only specifiers of the tree. -/
theorem mem_specifiers {t : FileTree} {path : Path} {f : File} {specifier : String}
    {kind : DocumentKind} {d : Declarations} (hf : t.file? path = some f)
    (hd : f.declarations? kind path = some d) (hs : specifier ∈ d.mixins) :
    specifier ∈ specifiers t := by
  obtain ⟨place, -, hplace⟩ := Option.bind_eq_some_iff.1 hf
  obtain ⟨text, ht, hd⟩ := Option.bind_eq_some_iff.1 hd
  have hread : Declarations.ofDocument kind path text = .ok d := by
    cases h : Declarations.ofDocument kind path text <;> simp_all [Except.toOption]
  exact List.mem_flatMap.2
    ⟨text, List.mem_filterMap.2 ⟨_, Table.mem_of_find?_eq_some hplace, ht⟩,
      mem_specifiersOf hread hs⟩

/-- The mixins of a file of the tree are within the reach. -/
theorem mem_reach {w : Workspace} {path p : Path} {f : File} {kind : DocumentKind}
    {d : Declarations} (hf : w.tree.file? path = some f) (hd : f.declarations? kind path = some d)
    (hp : p ∈ w.mixinPaths path d) : p ∈ w.reach := by
  obtain ⟨specifier, hs, hlocate⟩ := List.mem_filterMap.1 hp
  have hspec : specifier ∈ specifiers w.tree := mem_specifiers hf hd hs
  have hcand : p ∈ w.resolver.candidates path.home specifier .mixin := by
    unfold locate? Resolver.locate? at hlocate
    exact List.mem_of_find?_eq_some hlocate
  unfold reach
  exact List.mem_flatMap.2
    ⟨path.home, FileTree.home_of_file? hf, List.mem_flatMap.2 ⟨specifier, hspec, hcand⟩⟩

/-! ### Paths not on a stack -/

/-- Whether a path is on a stack, however it is written. -/
def onStack (stack : List Path) (p : Path) : Bool := stack.any fun q => q.same p

/-- How many paths of the reach are not on the stack. -/
def unseen (w : Workspace) (stack : List Path) : Nat :=
  w.reach.countP fun p => !onStack stack p

/-- Putting a new path of the reach on the stack leaves fewer unseen. -/
theorem unseen_concat_lt {w : Workspace} {stack : List Path} {p : Path} (hp : p ∈ w.reach)
    (hnew : onStack stack p = false) : w.unseen (stack ++ [p]) < w.unseen stack := by
  have hsplit : w.unseen (stack ++ [p]) =
      ((w.reach.filter fun q => !onStack stack q).filter fun q => !p.same q).length := by
    simp [unseen, onStack, List.countP_eq_length_filter, List.filter_filter, Bool.and_comm]
  rw [hsplit, unseen, List.countP_eq_length_filter, List.length_filter_lt_length_iff_exists]
  exact ⟨p, List.mem_filter.2 ⟨hp, by simp [hnew]⟩, by simp [Path.same]⟩

end Workspace

end ComponentInsight

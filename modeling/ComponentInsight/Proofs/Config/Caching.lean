import ComponentInsight.Config.Project
import ComponentInsight.Proofs.FileTree.History

/-!
# The configuration that is remembered

One slot holds the configuration that was read last, for all projects and both names of a
configuration file. It is used again when the file found has the path of the file read and the time
that one was modified at. `ProjectConfig.cached_transparent` says that nobody can tell: whichever
projects are asked for, and whatever files are written and removed in between, the configuration is
the one that is loaded anew.

* **Reading** (`ProjectConfig.load_cases`): the aliases are told by the file alone, without the path
  it is found at.
* **The slot** (`ProjectConfig.Slot.IsRead`): what is remembered was read from a file of this or an
  earlier tree, and stays so whatever happens to the file.
* **One use** (`ProjectConfig.isRight_cached`): the file found is the one that was read, since files
  in one place differ in their times.
-/

namespace ComponentInsight

/-- Texts of one path name one place. -/
private theorem FileTree.placeOf_eq_of_same {p q : Path} (h : p.same q = true) :
    placeOf p = placeOf q := by
  simp only [placeOf, Path.normalize, Path.same_iff.mp h]

namespace ProjectConfig

/-! ### Reading -/

/-- The aliases a file declares; a file that cannot be used declares none. -/
def aliasesIn (f : File) : Aliases :=
  (f.text.bind fun text => Config.Json.parse? text >>= ofJson?).getD []

section

variable {t : FileTree} {root path : Path} {f : File}

/-- The settings file that is found is a file of the tree. -/
private theorem exists_file_of_find? (h : find? t root = some path) :
    ∃ f, t.file? path = some f := by
  have hfile : t.isFile path = true := List.find?_some h
  exact Option.isSome_iff_exists.mp hfile

/-- What is loaded are the aliases in the file that is found, and an error means that it has
none. -/
theorem load_cases (hfind : find? t root = some path) (hfile : t.file? path = some f) :
    load t root = .ok ⟨some path, aliasesIn f⟩ ∨
      (∃ e, load t root = .error e) ∧ aliasesIn f = [] := by
  unfold load aliasesIn
  simp only [hfind, hfile, Option.bind_some]
  cases f.text with
  | none => exact .inr ⟨⟨_, rfl⟩, rfl⟩
  | some text =>
    rw [Option.bind_some]
    simp only [parse]
    cases Config.Json.parse? text >>= ofJson? with
    | none => exact .inr ⟨⟨_, rfl⟩, rfl⟩
    | some aliases => exact .inl rfl

/-! ### The slot -/

/-- What a slot remembers was read from a file of one of the trees. -/
def Slot.IsRead (trees : List FileTree) (s : Slot) : Prop :=
  ∃ u ∈ trees, ∃ f, u.file? s.path = some f ∧ s.modified = f.modified ∧
    s.config = ⟨some s.path, aliasesIn f⟩

/-- A slot that was read in the past stays one when the past grows. -/
private theorem Slot.IsRead.cons {trees : List FileTree} {s : Slot} (h : s.IsRead trees)
    (u : FileTree) : s.IsRead (u :: trees) := by
  obtain ⟨v, hv, hread⟩ := h
  exact ⟨v, List.mem_cons_of_mem _ hv, hread⟩

/-- With an empty slot the file is read. -/
private theorem cached_none (hfind : find? t root = some path) (hfile : t.file? path = some f) :
    cached t root none = (⟨some path, aliasesIn f⟩,
      some ⟨path, f.modified, ⟨some path, aliasesIn f⟩⟩) := by
  rcases load_cases hfind hfile with hload | ⟨⟨e, hload⟩, hnone⟩
  · unfold cached
    simp only [hfind, hfile, hload, Option.map_some, Option.getD_some]
  · unfold cached
    simp only [hfind, hfile, hload, hnone, Option.map_some, Option.getD_some]

/-- A slot is used if it has the file that is found, and otherwise it counts as an empty one. -/
private theorem cached_some (hfind : find? t root = some path) (hfile : t.file? path = some f)
    (s : Slot) : cached t root (some s) =
      if s.path.same path ∧ s.modified = f.modified then (s.config, some s)
      else cached t root none := by
  unfold cached
  simp only [hfind, hfile, Option.map_some, Option.getD_some]

/-! ### One use -/

/-- Configurations with the same aliases, from files of one path. -/
structure Same (c c' : ProjectConfig) : Prop where
  aliases : c.aliases = c'.aliases
  path : Option.Rel (fun p q => p.same q = true) c.path c'.path

private theorem Same.refl (c : ProjectConfig) : c.Same c where
  aliases := rfl
  path := by
    cases c.path with
    | none => exact .none
    | some p => exact .some p.same_refl

/-- The configuration of a project is what is loaded. A file that cannot be used counts as one
without aliases. -/
structure IsRight (t : FileTree) (root : Path) (c : ProjectConfig) : Prop where
  loaded : ∀ c', load t root = .ok c' → c.Same c'
  failed : ∀ e, load t root = .error e → ∃ path, find? t root = some path ∧ c.Same ⟨some path, []⟩

/-- The aliases of the file that is found are the right ones. -/
private theorem isRight_of_find? (hfind : find? t root = some path) (hfile : t.file? path = some f)
    {c : ProjectConfig} (h : c.Same ⟨some path, aliasesIn f⟩) : IsRight t root c := by
  rcases load_cases hfind hfile with hload | ⟨⟨e, hload⟩, hnone⟩
  · refine ⟨fun c' hc' => ?_, fun e he => ?_⟩
    · exact Except.ok.inj (hload.symm.trans hc') ▸ h
    · cases hload.symm.trans he
  · refine ⟨fun c' hc' => ?_, fun _ _ => ⟨path, hfind, hnone ▸ h⟩⟩
    cases hload.symm.trans hc'

/-- Whatever the slot has read in this or an earlier tree, the configuration is right, and so is
what the slot has read afterwards. -/
theorem isRight_cached (root : Path) {past : List FileTree}
    (hpast : ∀ u ∈ t :: past, u.Consistent t) {slot : Option Slot}
    (hslot : ∀ s, slot = some s → s.IsRead (t :: past)) :
    IsRight t root (cached t root slot).1 ∧
      ∀ s, (cached t root slot).2 = some s → s.IsRead (t :: past) := by
  cases hfind : find? t root with
  | none =>
    have hload : load t root = .ok empty := by unfold load; rw [hfind]
    have hcached : cached t root slot = (empty, none) := by unfold cached; rw [hfind]
    rw [hcached]
    refine ⟨⟨fun c' hc' => ?_, fun e he => ?_⟩, fun s hs => ?_⟩
    · exact Except.ok.inj (hload.symm.trans hc') ▸ .refl _
    · cases hload.symm.trans he
    · cases hs
  | some path =>
    obtain ⟨f, hfile⟩ := exists_file_of_find? hfind
    have hfresh : IsRight t root (cached t root none).1 ∧
        ∀ s, (cached t root none).2 = some s → s.IsRead (t :: past) := by
      rw [cached_none hfind hfile]
      refine ⟨isRight_of_find? hfind hfile (.refl _), fun s hs => ?_⟩
      obtain rfl := Option.some.inj hs
      exact ⟨t, List.mem_cons_self, f, hfile, rfl, rfl⟩
    cases slot with
    | none => exact hfresh
    | some s =>
      rw [cached_some hfind hfile]
      split
      · next hused =>
        obtain ⟨u, hu, g, hg, htime, hconfig⟩ := hslot s rfl
        -- the file that was read stood in the place of the one that is found
        have hplace := FileTree.find?_placeOf hg
        rw [FileTree.placeOf_eq_of_same hused.1] at hplace
        obtain rfl : g = f :=
          hpast u hu _ g f hplace (FileTree.find?_placeOf hfile) (htime.symm.trans hused.2)
        exact ⟨isRight_of_find? hfind hfile (hconfig ▸ ⟨rfl, .some hused.1⟩), hslot⟩
      · exact hfresh

end

/-! ### Runs -/

/-- A step of a run: the configuration of a project is asked for, a file is written, new or in place
of another one, or a file or directory is removed. -/
inductive Step where
  | get (root : Path)
  | write (path : Path) (file : File)
  | remove (path : Path)

/-- A project whose configuration is asked for: its root, the files at that time and the slot. -/
structure Use where
  tree : FileTree
  root : Path
  slot : Option Slot

/-- The configuration that is answered. -/
def Use.answer (u : Use) : ProjectConfig := (cached u.tree u.root u.slot).1

/-- The uses of a run that begins with a file tree and a slot. -/
def uses : FileTree → Option Slot → List Step → List Use
  | _, _, [] => []
  | t, slot, .get root :: rest => ⟨t, root, slot⟩ :: uses t (cached t root slot).2 rest
  | t, slot, .write path file :: rest => uses (t.write path file) slot rest
  | t, slot, .remove path :: rest => uses (t.remove path) slot rest

/-- Files are written at times at which no file was modified at the same place before, given the
trees of the past. -/
def FreshSteps : List FileTree → FileTree → List Step → Prop
  | _, _, [] => True
  | past, t, .get _ :: rest => FreshSteps past t rest
  | past, t, .write path file :: rest =>
    (∀ u ∈ t :: past, ∀ old, u.files.find? (FileTree.placeOf path) = some old →
        old.modified ≠ file.modified) ∧
      FreshSteps (t :: past) (t.write path file) rest
  | past, t, .remove path :: rest => FreshSteps (t :: past) (t.remove path) rest

instance FreshSteps.decidable : (past : List FileTree) → (t : FileTree) → (steps : List Step) →
    Decidable (FreshSteps past t steps)
  | _, _, [] => isTrue trivial
  | past, t, .get _ :: rest => decidable past t rest
  | past, t, .write path file :: rest =>
    have := decidable (t :: past) (t.write path file) rest
    inferInstanceAs (Decidable (_ ∧ _))
  | past, t, .remove path :: rest => decidable (t :: past) (t.remove path) rest

/-- All uses of a run are answered right, if the slot has read what was there in the past. -/
private theorem FreshSteps.isRight {past : List FileTree} {t : FileTree} {slot : Option Slot}
    {steps : List Step} (h : FreshSteps past t steps) (hpast : ∀ u ∈ past, u.Consistent t)
    (hslot : ∀ s, slot = some s → s.IsRead (t :: past)) :
    ∀ u ∈ uses t slot steps, IsRight u.tree u.root u.answer := by
  -- the past grows with every change of the files, and the slot is from the past at each step
  induction steps generalizing past t slot with
  | nil => simp [uses]
  | cons step rest ih =>
    have hnow := FileTree.consistent_of_mem_cons hpast
    cases step with
    | get root =>
      obtain ⟨hright, hread⟩ := isRight_cached root hnow hslot
      intro u hu
      rcases List.mem_cons.mp hu with rfl | hu
      · exact hright
      · exact ih h hpast hread u hu
    | write path file =>
      exact ih h.2 (fun u hu => (hnow u hu).write (h.1 u hu)) fun s hs => (hslot s hs).cons _
    | remove path =>
      exact ih h (fun u hu => (hnow u hu).remove path) fun s hs => (hslot s hs).cons _

/-- **Transparency.** However the projects change whose configuration is asked for, and whatever
files are written and removed in between, the configuration is the one that is loaded. If loading
fails there are no aliases, and the path is that of the file found. -/
theorem cached_transparent {t : FileTree} {steps : List Step} (h : FreshSteps [] t steps) :
    ∀ u ∈ uses t none steps,
      (∀ c, load u.tree u.root = .ok c → u.answer.Same c) ∧
      ∀ e, load u.tree u.root = .error e →
        ∃ path, find? u.tree u.root = some path ∧ u.answer.Same ⟨some path, []⟩ := by
  intro u hu
  have hright := h.isRight (by simp) (by simp) u hu
  exact ⟨hright.loaded, hright.failed⟩

namespace Sample

/-- The text of a configuration with an alias for the sources. -/
def sourcesText (root : String) : String :=
  "\x7b\"compilerOptions\":\x7b\"paths\":\x7b\"@/*\":[\"" ++ root ++ "*\"]\x7d\x7d\x7d"

/-- Two projects are asked for, one of which gets a second configuration file that is broken,
repaired and removed again. -/
def switching : List Step :=
  [.write ⟨"/app/tsconfig.json"⟩ ⟨some (sourcesText "src/"), 1⟩, .get ⟨"/app"⟩, .get ⟨"/lib"⟩,
    .write ⟨"/app/jsconfig.json"⟩ ⟨some "", 1⟩, .get ⟨"/app/"⟩,
    .write ⟨"/app/jsconfig.json"⟩ ⟨some (sourcesText "ui/"), 2⟩, .get ⟨"/app"⟩,
    .remove ⟨"/app/jsconfig.json"⟩, .get ⟨"/app"⟩]

end Sample

/-- The aliases of one project come from its two files in turn, and the other project has none. -/
theorem cached_transparent_switching :
    FreshSteps [] .empty Sample.switching ∧
      (∀ u ∈ uses .empty none Sample.switching,
        (∀ c, load u.tree u.root = .ok c → u.answer.Same c) ∧
        ∀ e, load u.tree u.root = .error e →
          ∃ path, find? u.tree u.root = some path ∧ u.answer.Same ⟨some path, []⟩) ∧
      (uses .empty none Sample.switching).map (fun u => u.answer.aliases) =
        [[("@/", "src/")], [], [], [("@/", "ui/")], [("@/", "src/")]] :=
  ⟨by decide, cached_transparent (by decide), by decide +kernel⟩

end ProjectConfig

end ComponentInsight

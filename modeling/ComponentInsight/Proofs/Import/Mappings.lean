import ComponentInsight.Config.Project
import ComponentInsight.Import.Resolver
import ComponentInsight.Proofs.FileTree.Joining
import ComponentInsight.Proofs.Import.Aliases

/-!
# Path mappings

A mapping `P*` to `T*` of a project configuration lets imports that begin with `P` be written for
paths that begin with `T`, below the base URL of the configuration if there is one.
`Resolver.resolve_mapping` says so without aliases: what stands for the star in an import stands for
it in the path, and the path is taken from the directory that the base URL names, whichever way it
is written.

* **Choice** (`ProjectConfig.find?_aliasesOf`): a mapping is an alias of the project, and so the one
  that fits if no longer one does, whatever the settings of the editor hold.
* **Base URLs** (`ProjectConfig.normalize_join_rootOf`): a base URL is put in front of a target as
  text, without the `./` and the separators around it. Joining the three as paths comes to the same,
  since neither leaves a trace in the steps of a path.
-/

namespace ComponentInsight

/-! ### Base URLs -/

namespace ProjectConfig

open ComponentInsight.Path (steps)

/-- The directory that targets are taken from. -/
def targetDirectory (root : Path) : Option String → Path
  | some url => root.join ⟨url⟩
  | none => root

private theorem dropStar_append_star {s : String} (h : '*' ∉ s.toList) :
    dropStar (s ++ "*") = s := by
  have herase : (s.toList ++ ['*']).erase '*' = s.toList := by
    rw [List.erase_append_right _ h, List.erase_cons_head, List.append_nil]
  rw [dropStar, String.toList_append, show "*".toList = ['*'] from rfl, herase,
    String.ofList_toList]

/-- Dropping `./` leaves no trace in the steps of a text. -/
private theorem steps_dropHere (cs : List Char) : steps (dropHere cs) = steps cs := by
  fun_induction dropHere cs with
  | case1 rest ih => rw [ih, Path.steps_here_cons]
  | case2 => rfl

/-- What is absolute without the `./` in front is so with them, unless a separator is repeated. -/
private theorem head?_dropHere {cs : List Char} (h : ¬ ['/', '/'] <:+: cs) :
    (dropHere cs).head? = some '/' ↔ cs.head? = some '/' := by
  fun_induction dropHere cs with
  | case1 rest ih =>
    have hrest : ¬ ['/', '/'] <:+: rest := fun hbetween =>
      h (hbetween.trans ⟨['.', '/'], [], by simp⟩)
    have hhead : rest.head? ≠ some '/' := by
      intro hslash
      obtain ⟨more, rfl⟩ := List.head?_eq_some_iff.mp hslash
      exact h ⟨['.'], more, rfl⟩
    rw [ih hrest]
    simpa using hhead
  | case2 => rfl

/-- A base URL does not count if it names the project root. -/
private theorem baseOf?_eq_none_iff {url : String} :
    baseOf? url = none ↔ dropHere url.toList = [] ∨ dropHere url.toList = ['.'] := by
  simp [baseOf?, or_iff_not_imp_left]

/-- A base URL that does not count leads nowhere. -/
private theorem steps_of_baseOf?_eq_none {url : String} (h : baseOf? url = none) :
    steps url.toList = [] := by
  rw [← steps_dropHere]
  rcases baseOf?_eq_none_iff.mp h with hempty | hhere
  · rw [hempty]
    rfl
  · rw [hhere]
    rfl

/-- A base URL that does not count is relative. -/
private theorem head?_of_baseOf?_eq_none {url : String} (hurl : ¬ ['/', '/'] <:+: url.toList)
    (h : baseOf? url = none) : url.toList.head? ≠ some '/' := by
  rw [Ne, ← head?_dropHere hurl]
  rcases baseOf?_eq_none_iff.mp h with hempty | hhere
  · simp [hempty]
  · simp [hhere]

/-- The base URL that counts is not empty, and it is the given one up to `./` in front. -/
private theorem baseOf?_eq_some {url base : String} (h : baseOf? url = some base) :
    base ≠ "" ∧ base.toList = dropHere url.toList := by
  unfold baseOf? at h
  dsimp only at h
  split at h
  · cases h
  · next hroot =>
    obtain rfl := Option.some.inj h
    refine ⟨fun hempty => hroot (.inl ?_), String.toList_ofList⟩
    simpa using hempty

/-- The root of the alias for a target, below a base URL if there is one. -/
def rootOf (base : Option String) (target : String) : String :=
  match base with
  | some base => Path.dropSlashes base ++ "/" ++ target
  | none => target

/-- A mapping whose key and first target end with a star makes an alias of what stands before the
stars. -/
private theorem alias?_stars {base : Option String} {key target : String} {more : List String}
    (hkey : '*' ∉ key.toList) (htarget : '*' ∉ target.toList) :
    alias? base (key ++ "*", (target ++ "*") :: more) = some (key, rootOf base target) := by
  rw [alias?, List.head?_cons, Option.map_some, dropStar_append_star hkey,
    dropStar_append_star htarget]
  rfl

/-- A target below a base URL leads where the base URL and the target do, one after the other. -/
private theorem foldl_push_join_rootOf (root : Path) {url base target rest : String}
    (hurl : ¬ ['/', '/'] <:+: url.toList) (h : baseOf? url = some base) :
    (root.join ⟨rootOf (some base) target ++ rest⟩).components.foldl Path.push [] =
      (steps (target ++ rest).toList).foldl Path.push
        ((root.join ⟨url⟩).components.foldl Path.push []) := by
  obtain ⟨hne, hbase⟩ := baseOf?_eq_some h
  have htext : (rootOf (some base) target ++ rest).toList =
      (Path.dropSlashes base).toList ++ '/' :: (target ++ rest).toList := by
    simp [rootOf]
  have hsteps : steps (rootOf (some base) target ++ rest).toList =
      steps url.toList ++ steps (target ++ rest).toList := by
    rw [htext, Path.steps_append, Path.steps_dropSlashes, hbase, steps_dropHere]
  have hhead : (rootOf (some base) target ++ rest).toList.head? = some '/' ↔
      url.toList.head? = some '/' := by
    rw [htext, Path.head?_dropSlashes_append hne, hbase, head?_dropHere hurl]
  have habs : (Path.mk (rootOf (some base) target ++ rest)).isAbsolute =
      (Path.mk url).isAbsolute := by
    rw [Bool.eq_iff_iff]
    simpa [Path.isAbsolute] using hhead
  cases hurlAbs : (Path.mk url).isAbsolute with
  | true =>
    -- an absolute base URL replaces the root, and so does what begins with it
    rw [hurlAbs] at habs
    rw [Path.join, if_pos habs, Path.join, if_pos hurlAbs, Path.foldl_push_components,
      Path.foldl_push_components, habs, hurlAbs, hsteps, List.foldl_append]
  | false =>
    rw [hurlAbs] at habs
    rw [Path.foldl_push_join root habs, Path.foldl_push_join root hurlAbs, hsteps,
      List.foldl_append]

/-- The path an alias stands for is the target taken from the directory of targets. -/
theorem normalize_join_rootOf (root : Path) {baseUrl : Option String} {target rest : String}
    (hbase : ∀ url ∈ baseUrl, ¬ ['/', '/'] <:+: url.toList)
    (hrelative : (target ++ rest).toList.head? ≠ some '/') :
    (root.join ⟨rootOf (baseUrl >>= baseOf?) target ++ rest⟩).normalize =
      ((targetDirectory root baseUrl).join ⟨target ++ rest⟩).normalize := by
  have htail : (Path.mk (target ++ rest)).isAbsolute = false := by
    simpa [Path.isAbsolute] using hrelative
  apply Path.normalize_eq_of_foldl_push_eq
  rw [Path.foldl_push_join (targetDirectory root baseUrl) htail]
  cases baseUrl with
  | none => exact Path.foldl_push_join root htail
  | some url =>
    have hurl : ¬ ['/', '/'] <:+: url.toList := hbase url rfl
    have hbind : (some url >>= baseOf?) = baseOf? url := rfl
    rw [hbind]
    cases h : baseOf? url with
    | some base => exact foldl_push_join_rootOf root hurl h
    | none =>
      have hurlRelative : (Path.mk url).isAbsolute = false := by
        simpa [Path.isAbsolute] using head?_of_baseOf?_eq_none hurl h
      rw [targetDirectory, Path.foldl_push_join root hurlRelative, steps_of_baseOf?_eq_none h]
      exact Path.foldl_push_join root htail

/-! ### The alias of a mapping -/

/-- The alias of a mapping is in the table if no other pattern leaves its prefix. -/
theorem find?_aliasesOf {baseUrl : Option String} {entries : List (String × List String)}
    {key target : String} {more : List String} (hkey : '*' ∉ key.toList)
    (htarget : '*' ∉ target.toList)
    (hmapping : (Table.ofEntries entries).find? (key ++ "*") = some ((target ++ "*") :: more))
    (honly : ∀ pattern ∈ (Table.ofEntries entries).keys, dropStar pattern = key →
      pattern = key ++ "*") :
    (aliasesOf baseUrl (Table.ofEntries entries)).find? key =
      some (rootOf (baseUrl >>= baseOf?) target) := by
  have halias : alias? (baseUrl >>= baseOf?) (key ++ "*", (target ++ "*") :: more) =
      some (key, rootOf (baseUrl >>= baseOf?) target) := alias?_stars hkey htarget
  refine Table.find?_ofEntries_of_forall
    (List.mem_filterMap.mpr ⟨_, Table.mem_of_find?_eq_some hmapping, halias⟩) fun e he hek => ?_
  obtain ⟨⟨pattern, targets⟩, hmem, he⟩ := List.mem_filterMap.mp he
  obtain ⟨_, -, rfl⟩ := Option.map_eq_some_iff.mp he
  obtain rfl : pattern = key ++ "*" := honly pattern (List.mem_map.mpr ⟨_, hmem, rfl⟩) hek
  have hfound := Table.find?_eq_some_of_mem (Table.nodup_keys_ofEntries entries) hmem
  obtain rfl : targets = (target ++ "*") :: more := Option.some.inj (hfound.symm.trans hmapping)
  exact congrArg Prod.snd (Option.some.inj (he.symm.trans halias))

private theorem nodup_keys_aliasesOf (baseUrl : Option String)
    (paths : Table String (List String)) : (Table.keys (aliasesOf baseUrl paths)).Nodup :=
  Table.nodup_keys_ofEntries _

end ProjectConfig

/-! ### Imports under a mapping -/

namespace Resolver

open ProjectConfig

/-- What is put behind a specifier. -/
def addedExtension (specifier : String) (kind : ModuleKind) : String :=
  if hasKnownExtension specifier then "" else kind.extension

/-- The extension of a specifier is appended to it. -/
private theorem withExtension_eq (specifier : String) (kind : ModuleKind) :
    withExtension specifier kind = specifier ++ addedExtension specifier kind := by
  unfold withExtension addedExtension
  split <;> simp

/-- The key of an alias is replaced by its root. -/
private theorem replacePrefix_append (root key rest : String) :
    replacePrefix root key (key ++ rest) = root ++ rest := by
  rw [replacePrefix, String.toList_append, ← String.length_toList, List.drop_left,
    String.ofList_toList]

/-- What is put behind a specifier begins with no separator. -/
private theorem head?_append_addedExtension {text : String} (h : text.toList.head? ≠ some '/')
    (specifier : String) (kind : ModuleKind) :
    (text ++ addedExtension specifier kind).toList.head? ≠ some '/' := by
  rw [String.toList_append]
  cases htext : text.toList with
  | nil =>
    unfold addedExtension
    split
    · simp
    · cases kind <;> simp [ModuleKind.extension]
  | cons c cs => simpa [htext] using h

/-- **Wildcard mappings.** An import under a mapping `key*` to `target*` is the path in which the
target stands in place of the prefix, taken from the directory of targets, with the extension that
the import lacks. -/
theorem resolve_mapping {settings : Settings} {baseUrl : Option String}
    {entries : List (String × List String)} {key target rest : String} {more : List String}
    {kind : ModuleKind} (hkey : key ≠ "") (hkeyStar : '*' ∉ key.toList)
    (htargetStar : '*' ∉ target.toList)
    (hbase : ∀ url ∈ baseUrl, ¬ ['/', '/'] <:+: url.toList)
    (hmapping : (Table.ofEntries entries).find? (key ++ "*") = some ((target ++ "*") :: more))
    (honly : ∀ pattern ∈ (Table.ofEntries entries).keys, dropStar pattern = key →
      pattern = key ++ "*")
    (hrelative : (target ++ rest).toList.head? ≠ some '/')
    (hdots : key ++ rest ≠ "." ∧ key ++ rest ≠ "..")
    (hlongest : ∀ a ∈ settings.aliases ++ aliasesOf baseUrl (Table.ofEntries entries),
      key.length < a.1.length →
        ¬ a.1.toList <+: (key ++ rest ++ addedExtension (key ++ rest) kind).toList)
    (root importer : Path) (dependencyDir : String) :
    (Resolver.mk root (.merged settings.aliases (aliasesOf baseUrl (Table.ofEntries entries)))
        dependencyDir).resolve (key ++ rest) importer kind =
      .path ((targetDirectory root baseUrl).join
        ⟨target ++ rest ++ addedExtension (key ++ rest) kind⟩).normalize := by
  have hcompleted : completed (key ++ rest) kind =
      key ++ (rest ++ addedExtension (key ++ rest) kind) := by
    rw [completed, if_neg (not_or.mpr hdots), withExtension_eq, String.append_assoc]
  have hfits : key.toList <+: (completed (key ++ rest) kind).toList := by
    rw [hcompleted, String.toList_append]
    exact List.prefix_append _ _
  have hlookup := AliasTable.lookup?_merged (nodup_keys_aliasesOf _ _) hkey
    (find?_aliasesOf hkeyStar htargetStar hmapping honly) hfits
    (by rwa [hcompleted, ← String.append_assoc])
  have hpath : (target ++ (rest ++ addedExtension (key ++ rest) kind)).toList.head? ≠ some '/' := by
    rw [← String.append_assoc]
    exact head?_append_addedExtension hrelative _ kind
  rw [resolve, resolveFrom]
  dsimp only
  rw [hlookup]
  dsimp only
  rw [hcompleted, replacePrefix_append, normalize_join_rootOf root hbase hpath, String.append_assoc]

/-- The settings map `@/` elsewhere, another mapping has a longer prefix, and the base URL is
written with a `./` in front and a separator at its end. -/
theorem resolve_mapping_card :
    (Resolver.mk ⟨"/project"⟩
        (.merged [("@/", "old/")] (aliasesOf (some "./src/") (Table.ofEntries
          [("@/*", ["lib/*", "vendor/*"]), ("@/icons/*", ["icons/*"])])))
        "node_modules").resolve "@/ui/../Card" ⟨"/project/app.vue"⟩ .component =
      .path ⟨"/project/src/lib/Card.vue"⟩ := by
  have hpath := @resolve_mapping ⟨[("@/", "old/")], none⟩ (some "./src/")
    [("@/*", ["lib/*", "vendor/*"]), ("@/icons/*", ["icons/*"])] "@/" "lib/" "ui/../Card"
    ["vendor/*"] .component (by decide) (by decide) (by decide) (by decide) (by decide) (by decide)
    (by decide) (by decide) (by decide) ⟨"/project"⟩ ⟨"/project/app.vue"⟩ "node_modules"
  exact hpath.trans (by decide)

end Resolver

end ComponentInsight

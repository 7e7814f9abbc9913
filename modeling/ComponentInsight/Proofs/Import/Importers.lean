import ComponentInsight.Proofs.Import.Normalized

/-!
# The importer of an import

Two files import the same if they lie in the same directory, however the directory is written. What
counts is where it leads when `.` and `..` are resolved lexically; of the name of the importer
nothing is seen.

* **Reading a stack as a path** (`Path.foldl_push_normalize`): the components of a normalized path
  rebuild the stack it was written from, so that nothing is lost when a path is normalized before
  more is joined to it (`Path.normalize_normalize_join`).
* **Directories** (`Path.home_eq`): the home of a path is its normalized directory.
* **Resolving** (`Resolver.resolve_eq`): what a specifier stands for is a path below the root, a
  path that is joined to the directory of the importer, or a bare name.
-/

namespace ComponentInsight

namespace Path

/-! ### Normalizing in steps -/

/-- Following a normalized path leads to the stack it was written from. -/
theorem foldl_push_normalize (p : Path) :
    p.normalize.components.foldl push [] = p.components.foldl push [] :=
  normalize_eq_iff.mp p.normalize_normalize

/-- What a path is joined to may be normalized before. -/
theorem normalize_normalize_join (p q : Path) :
    (p.normalize.join q).normalize = (p.join q).normalize := by
  cases hq : q.isAbsolute with
  | true => simp only [join, hq, if_true]
  | false =>
    rw [normalize_eq_iff, foldl_push_join _ hq, foldl_push_join _ hq, foldl_push_normalize]

/-- No dots stand between the separators of an absolute path that is normalized. -/
private theorem ne_dots_of_mem_segments {p : Path} (habs : p.isAbsolute = true) {s : String}
    (hs : s ∈ p.normalize.segments) : s ≠ "." ∧ s ≠ ".." := by
  have habs' : p.normalize.isAbsolute = true := p.isAbsolute_normalize.trans habs
  rcases isPlain_of_mem_segments habs' p.normalize_normalize hs with rfl | hplain
  · decide
  · exact ⟨(isPlain_iff.mp hplain).2.1, (isPlain_iff.mp hplain).2.2.1⟩

/-- The home of a path is the directory it lies in, normalized. -/
theorem home_eq (p : Path) : p.home = p.parent.normalize.components := by
  rw [components_normalize, components_parent, home]

end Path

namespace Resolver

/-! ### Directories of importers -/

/-- A relative import is relative with its extension too. -/
private theorem isAbsolute_completed {s : String} (h : isRelative s = true) (kind : ModuleKind) :
    (Path.mk (completed s kind)).isAbsolute = false := by
  obtain ⟨e, he⟩ := exists_completed_eq_append s kind
  rw [he]
  exact isAbsolute_of_isRelative h e

/-- What a specifier stands for: an alias is taken from the root, a relative specifier from the
directory of the importer, and anything else is bare. -/
theorem resolve_eq (r : Resolver) (s : String) (importer : Path) (kind : ModuleKind) :
    r.resolve s importer kind =
      match r.aliases.lookup? (completed s kind) with
      | some (key, root) =>
        .path (r.root.join ⟨replacePrefix root key (completed s kind)⟩).normalize
      | none =>
        if isRelative s then .path (importer.parent.join ⟨completed s kind⟩).normalize
        else .bare (completed s kind) := by
  rw [resolve, resolveFrom]
  cases r.aliases.lookup? (completed s kind) with
  | some found => rfl
  | none =>
    dsimp only
    cases hrel : isRelative s with
    | false => rw [if_neg Bool.false_ne_true, if_neg Bool.false_ne_true]
    | true =>
      rw [if_pos rfl, if_pos rfl, Path.normalize_parent_join _ (isAbsolute_completed hrel kind)]

/-- **Importers.** Importers whose directories are the same path when they are normalized import the
same, and a relative import without an alias may be joined to the normalized directory.

This rests on three laws of normalizing. Doing it twice changes nothing; a path may be normalized
before another one is joined to it; and an absolute path stays absolute and loses every `.` and
every `..`. -/
theorem resolve_eq_of_same_parent (r : Resolver) (s : String) (kind : ModuleKind)
    {importer importer' : Path}
    (h : importer.parent.normalize.same importer'.parent.normalize = true) :
    r.resolve s importer kind = r.resolve s importer' kind ∧
    (isRelative s = true → r.aliases.lookup? (completed s kind) = none →
      r.resolve s importer kind =
        .path (importer'.parent.normalize.join ⟨completed s kind⟩).normalize) ∧
    (∀ p : Path, p.normalize.normalize = p.normalize) ∧
    (∀ p q : Path, (p.join q).normalize = (p.normalize.join q).normalize) ∧
    ∀ p : Path, p.isAbsolute = true →
      p.normalize.isAbsolute = true ∧ ∀ x ∈ p.normalize.segments, x ≠ "." ∧ x ≠ ".." := by
  -- the importer counts by its home only
  have hhome : importer.home = importer'.home := by
    rw [Path.home_eq, Path.home_eq]
    exact Path.same_iff.mp h
  have hresolve : r.resolve s importer kind = r.resolve s importer' kind := by
    rw [resolve, hhome, resolve]
  refine ⟨hresolve, fun hrel halias => ?_, Path.normalize_normalize,
    fun p q => (Path.normalize_normalize_join p q).symm,
    fun p habs => ⟨p.isAbsolute_normalize.trans habs, fun x => Path.ne_dots_of_mem_segments habs⟩⟩
  rw [hresolve, resolve_eq, halias, if_pos hrel, Path.normalize_normalize_join]

/-- The directories of both importers are `/src/pages`, though one is written with a way through
another directory, and the import climbs from there. -/
theorem resolve_eq_of_same_parent_card :
    (Path.mk "/src/./pages/home.vue").parent.normalize.same
        (Path.mk "/src/ui/../pages//list.vue").parent.normalize = true ∧
      (Resolver.mk ⟨"/"⟩ ⟨[("@/", "src/")]⟩ "node_modules").resolve "../ui/card"
          ⟨"/src/./pages/home.vue"⟩ .component = .path ⟨"/src/ui/card.vue"⟩ ∧
      (Path.mk "/src/ui/../pages").normalize.isAbsolute = true := by
  have himporters := @resolve_eq_of_same_parent
    (Resolver.mk ⟨"/"⟩ ⟨[("@/", "src/")]⟩ "node_modules") "../ui/card" .component
    ⟨"/src/./pages/home.vue"⟩ ⟨"/src/ui/../pages//list.vue"⟩ (by decide)
  exact ⟨by decide, himporters.1.trans (by decide), (himporters.2.2.2.2 _ (by decide)).1⟩

end Resolver

end ComponentInsight

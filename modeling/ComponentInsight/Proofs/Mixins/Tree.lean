import ComponentInsight.Proofs.Mixins.Chains

/-!
# Mixin trees

A document without cycles unfolds into a finite tree: its mixins below it, theirs below them and so
on, one file possibly at several places. The tree is a relation (`MixinTree.Unfolds`) and not a
function, so that nothing has to be said about documents with cycles, which have none.

The metadata of the tree merges it from the leaves to the root (`MixinTree.merged`). Its meaning in
closed form is a **linearization**: with the documents of the tree in preorder, each one before its
mixins and the mixins in order,

* a prop is the one that the first document declaring it declares (`find?_props_merged`), and
* a name belongs to the result if any document declares it (`mem_names_merged`).
-/

namespace ComponentInsight

/-- Lists with the same image are equal if the function tells their elements apart. -/
theorem eq_of_map_eq {α β : Type} {f : α → β} {l m : List α} (h : l.map f = m.map f)
    (heq : ∀ a ∈ l, ∀ b ∈ m, f a = f b → a = b) : l = m := by
  induction l generalizing m with
  | nil => simpa using h
  | cons a l ih =>
    cases m with
    | nil => simp at h
    | cons b m =>
      obtain ⟨hhead, htail⟩ : f a = f b ∧ l.map f = m.map f := by simpa using h
      rw [heq a List.mem_cons_self b List.mem_cons_self hhead,
        ih htail fun x hx y hy => heq x (List.mem_cons_of_mem _ hx) y (List.mem_cons_of_mem _ hy)]

/-- A document with its mixins below it, theirs below them and so on. -/
inductive MixinTree where
  | node (source : Source) (mixins : List MixinTree)

namespace MixinTree

/-- The document at the root. -/
def source : MixinTree → Source
  | node s _ => s

/-- The documents of the tree, each one before its mixins. -/
def preorder : MixinTree → List Source
  | node s trees => s :: trees.flatMap preorder

/-- The metadata of the tree, merged from the leaves to the root. -/
def merged (w : Workspace) : MixinTree → Metadata
  | node s trees =>
    match s.declarations with
    | none => .empty
    | some d => w.merge s.kind s.path d (trees.map fun t => t.merged w)

/-- Below every document stand the files that `next` gives for it, in order. -/
inductive Unfolds (w : Workspace) (next : Source → List Path) : MixinTree → Prop where
  | node {s : Source} {trees : List MixinTree}
    (roots : trees.map source = (next s).map (w.source .mixin))
    (below : ∀ t ∈ trees, t.Unfolds w next) : Unfolds w next (node s trees)

variable {w : Workspace} {next : Source → List Path}

/-- The documents below another one are files read as scripts. -/
theorem exists_source_eq {s : Source} {trees : List MixinTree} {t : MixinTree}
    (roots : trees.map source = (next s).map (w.source .mixin)) (ht : t ∈ trees) :
    ∃ p ∈ next s, t.source = w.source .mixin p := by
  have hmem : t.source ∈ (next s).map (w.source .mixin) := roots ▸ List.mem_map_of_mem ht
  obtain ⟨p, hp, heq⟩ := List.mem_map.mp hmem
  exact ⟨p, hp, heq.symm⟩

/-- A document has at most one tree. -/
theorem Unfolds.unique {t u : MixinTree} (ht : t.Unfolds w next) (hu : u.Unfolds w next)
    (h : t.source = u.source) : t = u := by
  induction ht generalizing u with
  | @node s trees roots below ih =>
    cases hu with
    | @node s' trees' roots' below' =>
      obtain rfl : s = s' := h
      have htrees : trees = trees' :=
        eq_of_map_eq (roots.trans roots'.symm) fun a ha b hb hab =>
          ih a ha (below' b hb) hab
      rw [htrees]

/-- A tree of one workspace is one of another if the files in it are the same. -/
theorem Unfolds.transfer {w' : Workspace} {next' : Source → List Path} {t : MixinTree}
    (h : t.Unfolds w next) (Visited : Source → Prop) (hroot : Visited t.source)
    (hvisited : ∀ s, Visited s → next s = next' s ∧
      ∀ p ∈ next s, w.source .mixin p = w'.source .mixin p ∧ Visited (w.source .mixin p)) :
    t.Unfolds w' next' := by
  induction h with
  | @node s trees roots below ih =>
    obtain ⟨hnext, hbelow⟩ := hvisited s hroot
    refine .node ?_ fun t ht => ?_
    · rw [roots, ← hnext]
      exact List.map_congr_left fun p hp => (hbelow p hp).1
    · obtain ⟨p, hp, hsource⟩ := exists_source_eq roots ht
      exact ih t ht (hsource ▸ (hbelow p hp).2)

/-- Without cycles, no mixin is left out of the tree. -/
theorem Unfolds.of_acyclic {t : MixinTree} (h : t.Unfolds w w.otherMixins)
    (hacyclic : w.Acyclic t.source) : t.Unfolds w w.mixinsOf := by
  refine h.transfer w.Acyclic hacyclic fun s hs => ⟨hs.otherMixins_eq, fun p hp => ⟨rfl, ?_⟩⟩
  exact hs.of_mem (w.otherMixins_subset s hp)

/-- The metadata of a tree depends on the workspace only by way of merging. -/
theorem Unfolds.merged_eq {w' : Workspace} {t : MixinTree} (h : t.Unfolds w next)
    (hmerge : w.merge = w'.merge) : t.merged w = t.merged w' := by
  induction h with
  | @node s trees _ _ ih =>
    rw [merged, merged, hmerge, List.map_congr_left ih]

/-! ### The linearization -/

/-- A search through parts, each part searched on its own. -/
private theorem findSome?_map_eq_findSome?_flatMap {α β γ δ : Type} {l : List α} {f : α → β}
    {g : β → Option δ} {parts : α → List γ} {k : γ → Option δ}
    (h : ∀ a ∈ l, g (f a) = (parts a).findSome? k) :
    (l.map f).findSome? g = (l.flatMap parts).findSome? k := by
  induction l with
  | nil => rfl
  | cons a l ih =>
    rw [List.map_cons, List.findSome?_cons, List.flatMap_cons, List.findSome?_append,
      h a List.mem_cons_self, ih fun b hb => h b (List.mem_cons_of_mem _ hb)]
    cases (parts a).findSome? k <;> rfl

/-- A document that declares nothing stands alone. -/
private theorem trees_eq_nil (hnext : ∀ s, next s ⊆ w.mixinsOf s) {s : Source}
    {trees : List MixinTree} (roots : trees.map source = (next s).map (w.source .mixin))
    (hd : s.declarations = none) : trees = [] := by
  have hsub : next s ⊆ [] := by simpa [Workspace.mixinsOf, hd] using hnext s
  simpa [List.subset_nil.mp hsub] using roots

/-- A prop is the one declared by the first document that declares it. -/
theorem find?_props_merged (hnext : ∀ s, next s ⊆ w.mixinsOf s) {t : MixinTree}
    (h : t.Unfolds w next) (hkind : t.source.kind.readsProps = true) (x : String) :
    (t.merged w).props.find? x = t.preorder.findSome? fun s => (w.own s).props.find? x := by
  induction h with
  | @node s trees roots below ih =>
    replace hkind : s.kind.readsProps = true := hkind
    -- only the root may be read otherwise than as a script
    have hbelow : ∀ t ∈ trees, (t.merged w).props.find? x =
        t.preorder.findSome? fun s => (w.own s).props.find? x := by
      intro t ht
      obtain ⟨p, -, hp⟩ := exists_source_eq roots ht
      exact ih t ht (hp ▸ rfl)
    rw [merged, preorder, List.findSome?_cons]
    cases hd : s.declarations with
    | none =>
      simp [trees_eq_nil hnext roots hd, Workspace.own, hd, Metadata.empty, Table.find?]
    | some d =>
      have hown : w.own s = w.merge s.kind s.path d [] := by simp [Workspace.own, hd]
      have hmixins : (trees.map fun t => t.merged w).findSome? (fun m => m.props.find? x) =
          (trees.flatMap preorder).findSome? fun s => (w.own s).props.find? x :=
        findSome?_map_eq_findSome?_flatMap hbelow
      rw [hown]
      dsimp only
      rw [Workspace.find?_props_merge w hkind, hmixins]
      cases (w.merge s.kind s.path d []).props.find? x <;> rfl

/-- A name belongs to the result exactly if some document declares it. -/
theorem mem_names_merged (hnext : ∀ s, next s ⊆ w.mixinsOf s) {t : MixinTree}
    (h : t.Unfolds w next) {f : Facet} (hkind : t.source.kind.reads f = true) {x : String} :
    x ∈ (t.merged w).names f ↔ ∃ s ∈ t.preorder, x ∈ (w.own s).names f := by
  induction h with
  | @node s trees roots below ih =>
    replace hkind : s.kind.reads f = true := hkind
    have hbelow : ∀ t ∈ trees,
        (x ∈ (t.merged w).names f ↔ ∃ s ∈ t.preorder, x ∈ (w.own s).names f) := by
      intro t ht
      obtain ⟨p, -, hp⟩ := exists_source_eq roots ht
      exact ih t ht (by simp [hp])
    rw [merged, preorder]
    cases hd : s.declarations with
    | none => simp [trees_eq_nil hnext roots hd, Workspace.own, hd]
    | some d =>
      have hown : w.own s = w.merge s.kind s.path d [] := by simp [Workspace.own, hd]
      have hmixins : (∃ m ∈ trees.map fun t => t.merged w, x ∈ m.names f) ↔
          ∃ s ∈ trees.flatMap preorder, x ∈ (w.own s).names f := by
        constructor
        · rintro ⟨m, hm, hx⟩
          obtain ⟨t, ht, rfl⟩ := List.mem_map.mp hm
          obtain ⟨s', hs', hx'⟩ := (hbelow t ht).mp hx
          exact ⟨s', List.mem_flatMap.mpr ⟨t, ht, hs'⟩, hx'⟩
        · rintro ⟨s', hs', hx⟩
          obtain ⟨t, ht, hs'⟩ := List.mem_flatMap.mp hs'
          exact ⟨_, List.mem_map_of_mem ht, (hbelow t ht).mpr ⟨s', hs', hx⟩⟩
      simp only [List.mem_cons, exists_eq_or_imp, hown]
      rw [← hmixins, Workspace.mem_names_merge]
      simp only [hkind, true_and]
      exact or_comm

end MixinTree

end ComponentInsight

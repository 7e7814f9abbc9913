import ComponentInsight.Proofs.FileTree.Rewriting
import Mathlib.Data.Set.Basic

/-!
# Chains of mixins

A document names mixins, the files of which name mixins in turn. A **chain** is a list of files each
of which is a mixin of the one before it, the first one a mixin of the document; a document
**reaches** a file when a chain ends there. A script and the files it reaches are its **family**.

The document itself is a `Source`: a file read in some way, or a buffer. Only the first step of a
chain depends on how the document is read, since every mixin is read as a script.

* `Acyclic`: no chain from the document visits one path twice.
* `LoopFree`: no chain comes back to a path it has left. Files that name themselves as a mixin are
  allowed, and such steps (to no *other* mixin) are disregarded.

Two texts of one path have the same mixins (`mixinsOf_eq_of_same`), so a chain from a script that
comes back to its path can be cut short there (`exists_chain_avoiding`).
-/

namespace ComponentInsight

/-- A document as it is read: in which way, at which path, and what it declares. -/
structure Source where
  kind : DocumentKind
  path : Path
  declarations : Option Declarations

/-- The source a buffer is; only its registered components are read. -/
def bufferSource (text : String) (path : Path) : Source :=
  ⟨.componentsOnly, path, (Declarations.ofDocument .componentsOnly path text).toOption⟩

namespace Workspace

/-- The source a file is when it is read in some way. -/
def source (w : Workspace) (kind : DocumentKind) (path : Path) : Source :=
  ⟨kind, path, (w.tree.file? path).bind fun f => f.declarations? kind path⟩

@[simp]
theorem path_source (w : Workspace) (kind : DocumentKind) (path : Path) :
    (w.source kind path).path = path := rfl

@[simp]
theorem kind_source (w : Workspace) (kind : DocumentKind) (path : Path) :
    (w.source kind path).kind = kind := rfl

/-- The source a file is declares what the file does. -/
theorem declarations_source {w : Workspace} {path : Path} {f : File}
    (hf : w.tree.file? path = some f) (kind : DocumentKind) :
    (w.source kind path).declarations = f.declarations? kind path := by
  rw [source, hf, Option.bind_some]

/-- The files of the mixins a document names, in order. -/
def mixinsOf (w : Workspace) (s : Source) : List Path :=
  match s.declarations with
  | none => []
  | some d => w.mixinPaths s.path d

/-- A document that declares no mixins has none. -/
theorem mixinsOf_eq_nil {w : Workspace} {s : Source}
    (h : s.declarations.map Declarations.mixins = some []) : w.mixinsOf s = [] := by
  obtain ⟨d, hd, hmixins⟩ := Option.map_eq_some_iff.mp h
  simp [mixinsOf, hd, mixinPaths, hmixins]

/-- The metadata of a document without any mixin. -/
def own (w : Workspace) (s : Source) : Metadata :=
  match s.declarations with
  | none => .empty
  | some d => w.merge s.kind s.path d []

/-- A module that is located is a file. -/
theorem isFile_of_locate? {w : Workspace} {specifier : String} {importer p : Path}
    {kind : ModuleKind} (h : w.locate? specifier importer kind = some p) :
    w.tree.isFile p = true := by
  unfold locate? Resolver.locate? at h
  exact List.find?_some h

/-- Mixins are files. -/
theorem isFile_of_mem_mixinPaths {w : Workspace} {importer p : Path} {d : Declarations}
    (h : p ∈ w.mixinPaths importer d) : w.tree.isFile p = true := by
  obtain ⟨specifier, -, hlocate⟩ := List.mem_filterMap.mp h
  exact isFile_of_locate? hlocate

private theorem isFile_of_mem_mixinsOf {w : Workspace} {s : Source} {p : Path}
    (h : p ∈ w.mixinsOf s) : w.tree.isFile p = true := by
  unfold mixinsOf at h
  split at h
  · simp at h
  · exact isFile_of_mem_mixinPaths h

/-- A file that has mixins exists. -/
theorem isFile_of_mixinsOf_source {w : Workspace} {kind : DocumentKind} {path p : Path}
    (h : p ∈ w.mixinsOf (w.source kind path)) : w.tree.isFile path = true := by
  unfold FileTree.isFile
  cases hf : w.tree.file? path with
  | none => simp [mixinsOf, source, hf] at h
  | some f => rfl

/-! ### Texts of one path -/

private theorem locate?_eq_of_same (w : Workspace) {p q : Path} (h : p.same q = true)
    (specifier : String)
    (kind : ModuleKind) : w.locate? specifier p kind = w.locate? specifier q kind := by
  simp [locate?, Resolver.locate?, Path.home_eq_of_same h]

private theorem source_declarations_eq_of_same {w : Workspace} {p q : Path} (h : p.same q = true)
    (hp : w.tree.isFile p = true) (hq : w.tree.isFile q = true) (kind : DocumentKind) :
    (w.source kind p).declarations = (w.source kind q).declarations := by
  have hname : Declarations.scriptFileName p = Declarations.scriptFileName q := by
    simp [Declarations.scriptFileName, Path.fileName?_eq_of_same h]
  simp only [source, FileTree.file?_eq_of_same h hp hq, File.declarations?,
    Declarations.ofDocument, hname]

/-- Texts of one path have the same mixins. -/
theorem mixinsOf_eq_of_same {w : Workspace} {p q : Path} (h : p.same q = true)
    (hp : w.tree.isFile p = true) (hq : w.tree.isFile q = true) (kind : DocumentKind) :
    w.mixinsOf (w.source kind p) = w.mixinsOf (w.source kind q) := by
  unfold mixinsOf
  rw [source_declarations_eq_of_same h hp hq]
  cases (w.source kind q).declarations with
  | none => rfl
  | some d => simp [mixinPaths, locate?_eq_of_same w h]

/-- Texts of one path declare the same. -/
theorem own_eq_of_same {w : Workspace} {p q : Path} (h : p.same q = true)
    (hp : w.tree.isFile p = true) (hq : w.tree.isFile q = true) (kind : DocumentKind) :
    w.own (w.source kind p) = w.own (w.source kind q) := by
  unfold own
  rw [source_declarations_eq_of_same h hp hq]
  cases (w.source kind q).declarations with
  | none => rfl
  | some d => simp [merge, componentPaths, locate?_eq_of_same w h]

/-! ### Chains -/

/-- Each file of the list is one that `next` gives for the one before it, the first one for the
document. -/
def IsChain (w : Workspace) (next : Source → List Path) : Source → List Path → Prop
  | _, [] => True
  | s, p :: rest => p ∈ next s ∧ w.IsChain next (w.source .mixin p) rest

/-- Each file of the list is a mixin of the one before it, the first one of the document. -/
abbrev IsMixinChain (w : Workspace) (s : Source) (c : List Path) : Prop := w.IsChain w.mixinsOf s c

/-- A file is among the mixins of a document, their mixins and so on. -/
inductive Reaches (w : Workspace) (s : Source) : Path → Prop where
  | direct {p : Path} (h : p ∈ w.mixinsOf s) : w.Reaches s p
  | step {p q : Path} (hp : w.Reaches s p) (h : q ∈ w.mixinsOf (w.source .mixin p)) :
    w.Reaches s q

/-- A chain is cut in two at any of its documents. -/
theorem isChain_append {w : Workspace} {next : Source → List Path} {s : Source} {a b : List Path}
    {p : Path} :
    w.IsChain next s (a ++ p :: b) ↔
      w.IsChain next s (a ++ [p]) ∧ w.IsChain next (w.source .mixin p) b := by
  induction a generalizing s with
  | nil => simp [IsChain]
  | cons x a ih => simp [IsChain, ih, and_assoc]

/-- A chain is longer by one if the last document has the new one for a mixin. -/
theorem isChain_append_pair {w : Workspace} {next : Source → List Path} {s : Source} {a : List Path}
    {p q : Path} :
    w.IsChain next s (a ++ [p] ++ [q]) ↔
      w.IsChain next s (a ++ [p]) ∧ q ∈ next (w.source .mixin p) := by
  rw [List.append_assoc, List.singleton_append, isChain_append]
  simp [IsChain]

/-- A chain stays one when documents have more mixins. -/
theorem IsChain.mono {w : Workspace} {next next' : Source → List Path} {s : Source} {c : List Path}
    (h : w.IsChain next s c) (hnext : ∀ s, next s ⊆ next' s) : w.IsChain next' s c := by
  induction c generalizing s with
  | nil => trivial
  | cons p c ih => exact ⟨hnext s h.1, ih h.2⟩

/-- A chain of one workspace is one of another if each of its steps is. -/
theorem IsChain.transfer {u w : Workspace} {next next' : Source → List Path} {s : Source}
    {c : List Path} (hc : u.IsChain next s c) (hroot : next s ⊆ next' s)
    (hstep : ∀ a p, a ++ [p] <+: c → u.IsChain next s (a ++ [p]) →
      w.IsChain next' s (a ++ [p]) → next (u.source .mixin p) ⊆ next' (w.source .mixin p)) :
    w.IsChain next' s c := by
  -- from the document on, so that what `hstep` says of the files before is there at each step
  induction c using List.reverseRecOn with
  | nil => trivial
  | append_singleton c q ih =>
    rcases List.eq_nil_or_concat c with rfl | ⟨a, p, rfl⟩
    · exact ⟨hroot hc.1, trivial⟩
    · rw [List.concat_eq_append] at *
      obtain ⟨hfront, hq⟩ := isChain_append_pair.mp hc
      have hfront' : w.IsChain next' s (a ++ [p]) :=
        ih hfront fun b x hb => hstep b x (hb.trans (List.prefix_append _ _))
      exact isChain_append_pair.mpr
        ⟨hfront', hstep a p (List.prefix_append _ _) hfront hfront' hq⟩

/-- A chain leads to documents that are reached. -/
theorem IsChain.reaches {w : Workspace} {s : Source} {c : List Path} {p : Path}
    (h : w.IsMixinChain s (c ++ [p])) : w.Reaches s p := by
  -- the chain is followed from its end, where `Reaches` grows
  induction c using List.reverseRecOn generalizing p with
  | nil => exact .direct h.1
  | append_singleton c x ih =>
    obtain ⟨hfront, hp⟩ := isChain_append_pair.mp h
    exact .step (ih hfront) hp

/-- A document that is reached is reached along a chain. -/
theorem Reaches.exists_chain {w : Workspace} {s : Source} {p : Path} (h : w.Reaches s p) :
    ∃ c, w.IsMixinChain s (c ++ [p]) := by
  induction h with
  | direct h => exact ⟨[], h, trivial⟩
  | @step p q _ h ih =>
    obtain ⟨c, hc⟩ := ih
    exact ⟨c ++ [p], isChain_append_pair.mpr ⟨hc, h⟩⟩

/-- Reached documents are files. -/
theorem Reaches.isFile {w : Workspace} {s : Source} {p : Path} (h : w.Reaches s p) :
    w.tree.isFile p = true := by
  cases h with
  | direct h => exact isFile_of_mem_mixinsOf h
  | step _ h => exact isFile_of_mem_mixinsOf h

/-- A file that reaches another one exists. -/
theorem Reaches.isFile_source {w : Workspace} {kind : DocumentKind} {p q : Path}
    (h : w.Reaches (w.source kind p) q) : w.tree.isFile p = true := by
  induction h with
  | direct h => exact isFile_of_mixinsOf_source h
  | step _ _ ih => exact ih

/-- A document that reaches a file declares something. -/
theorem Reaches.exists_declarations {w : Workspace} {s : Source} {q : Path} (h : w.Reaches s q) :
    ∃ d, s.declarations = some d := by
  induction h with
  | direct h =>
    unfold mixinsOf at h
    split at h
    · simp at h
    · next d hd => exact ⟨d, hd⟩
  | step _ _ ih => exact ih

/-- What a document reaches lies in every list that has its mixins and, with a file, the mixins of
that file. -/
theorem Reaches.mem_of_closed {w : Workspace} {s : Source} {l : List Path} {p : Path}
    (h : w.Reaches s p) (hroot : w.mixinsOf s ⊆ l)
    (hclosed : ∀ q ∈ l, w.mixinsOf (w.source .mixin q) ⊆ l) : p ∈ l := by
  induction h with
  | direct h => exact hroot h
  | step _ h ih => exact hclosed _ ih h

/-- A path is reached at once or from one of the mixins. -/
theorem Reaches.cases_head {w : Workspace} {s : Source} {p : Path} (h : w.Reaches s p) :
    p ∈ w.mixinsOf s ∨ ∃ q ∈ w.mixinsOf s, w.Reaches (w.source .mixin q) p := by
  induction h with
  | direct h => exact .inl h
  | @step p _ _ h ih =>
    rcases ih with hp | ⟨q, hq, hreaches⟩
    · exact .inr ⟨p, hp, .direct h⟩
    · exact .inr ⟨q, hq, .step hreaches h⟩

theorem not_reaches_of_mixinsOf_eq_nil {w : Workspace} {s : Source} {p : Path}
    (h : w.mixinsOf s = []) : ¬ w.Reaches s p := by
  intro hp
  rcases hp.cases_head with hp | ⟨q, hq, -⟩
  · simp [h] at hp
  · simp [h] at hq

/-- What is reached from a reached document is reached. -/
theorem Reaches.trans {w : Workspace} {s : Source} {p q : Path} (hp : w.Reaches s p)
    (hq : w.Reaches (w.source .mixin p) q) : w.Reaches s q := by
  induction hq with
  | direct h => exact .step hp h
  | step _ h ih => exact .step ih h

/-- A script and the files it reaches. -/
def family (w : Workspace) (p : Path) : Set Path :=
  { q | q = p ∨ w.Reaches (w.source .mixin p) q }

theorem self_mem_family (w : Workspace) (p : Path) : p ∈ w.family p := .inl rfl

/-- A family has all that its members reach. -/
theorem mem_family_of_reaches {w : Workspace} {p q r : Path} (hq : q ∈ w.family p)
    (h : w.Reaches (w.source .mixin q) r) : r ∈ w.family p := by
  rcases hq with rfl | hq
  · exact .inr h
  · exact .inr (hq.trans h)

/-- A chain may begin at any text of a path. -/
theorem IsChain.of_same {w : Workspace} {p q : Path} {c : List Path} (h : p.same q = true)
    (hp : w.tree.isFile p = true) (hq : w.tree.isFile q = true)
    (hc : w.IsMixinChain (w.source .mixin q) c) : w.IsMixinChain (w.source .mixin p) c := by
  cases c with
  | nil => trivial
  | cons x c => exact ⟨mixinsOf_eq_of_same h hp hq .mixin ▸ hc.1, hc.2⟩

/-- A chain from a script that comes back to the path of the script can be cut short there. -/
theorem exists_chain_avoiding {w : Workspace} {p q : Path} {c : List Path}
    (h : w.IsMixinChain (w.source .mixin p) (c ++ [q])) :
    p.same q = true ∨ ∃ b, w.IsMixinChain (w.source .mixin p) (b ++ [q]) ∧
      (∀ x ∈ b ++ [q], p.same x = false) ∧ b ⊆ c := by
  have hp : w.tree.isFile p = true := by
    cases c with
    | nil => exact isFile_of_mixinsOf_source h.1
    | cons x c => exact isFile_of_mixinsOf_source h.1
  by_cases hq : p.same q = true
  · exact .inl hq
  refine .inr ?_
  -- what follows a visit to the path is a shorter chain from it
  induction hn : c.length using Nat.strongRecOn generalizing c with
  | _ n ih =>
    by_cases hvisit : ∃ x ∈ c, p.same x = true
    · obtain ⟨x, hx, hsame⟩ := hvisit
      obtain ⟨a, b, rfl⟩ := List.append_of_mem hx
      rw [List.append_assoc, List.cons_append] at h
      obtain ⟨hx, hrest⟩ := isChain_append.mp h
      have hb : w.IsMixinChain (w.source .mixin p) (b ++ [q]) :=
        IsChain.of_same hsame hp hx.reaches.isFile hrest
      obtain ⟨b', hchain, havoid, hsub⟩ := ih b.length (by simp at hn; omega) hb rfl
      exact ⟨b', hchain, havoid, fun y hy => by simp [hsub hy]⟩
    · refine ⟨c, h, fun x hx => ?_, fun x hx => hx⟩
      rcases List.mem_append.mp hx with hx | hx
      · exact Bool.eq_false_iff.mpr fun hs => hvisit ⟨x, hx, hs⟩
      · exact List.mem_singleton.mp hx ▸ Bool.eq_false_iff.mpr hq

/-! ### Documents without cycles -/

/-- No chain from the document visits one path twice. -/
def Acyclic (w : Workspace) (s : Source) : Prop :=
  ∀ c, w.IsMixinChain s c → (s.path :: c).Pairwise fun p q => p.same q = false

/-- The mixins of a document other than the document itself. -/
def otherMixins (w : Workspace) (s : Source) : List Path :=
  (w.mixinsOf s).filter fun p => !s.path.same p

theorem mem_otherMixins {w : Workspace} {s : Source} {p : Path} :
    p ∈ w.otherMixins s ↔ p ∈ w.mixinsOf s ∧ s.path.same p = false := by
  simp [otherMixins]

/-- A chain in which every step leads to another path. -/
abbrev IsProperChain (w : Workspace) (s : Source) (c : List Path) : Prop :=
  w.IsChain w.otherMixins s c

/-- No chain from the document comes back to a path it has left. -/
def LoopFree (w : Workspace) (s : Source) : Prop :=
  ∀ c, w.IsProperChain s c → (s.path :: c).Pairwise fun p q => p.same q = false

theorem otherMixins_subset (w : Workspace) (s : Source) : w.otherMixins s ⊆ w.mixinsOf s :=
  List.filter_subset_self _

/-- A document without cycles is free of loops. -/
theorem Acyclic.loopFree {w : Workspace} {s : Source} (h : w.Acyclic s) : w.LoopFree s :=
  fun c hc => h c (hc.mono w.otherMixins_subset)

/-- The mixins of a document without cycles have none. -/
theorem Acyclic.of_mem {w : Workspace} {s : Source} {p : Path} (h : w.Acyclic s)
    (hp : p ∈ w.mixinsOf s) : w.Acyclic (w.source .mixin p) :=
  fun c hc => (List.pairwise_cons.mp (h (p :: c) ⟨hp, hc⟩)).2

theorem Acyclic.of_reaches {w : Workspace} {s : Source} {p : Path} (h : w.Acyclic s)
    (hp : w.Reaches s p) : w.Acyclic (w.source .mixin p) := by
  induction hp with
  | direct hp => exact h.of_mem hp
  | step _ hq ih => exact ih.of_mem hq

/-- A document is without cycles if its mixins are and nothing that it reaches is the document
itself. -/
theorem Acyclic.of_closed {w : Workspace} {s : Source} {l : List Path} (hroot : w.mixinsOf s ⊆ l)
    (hclosed : ∀ q ∈ l, w.mixinsOf (w.source .mixin q) ⊆ l)
    (hne : ∀ q ∈ l, s.path.same q = false)
    (hbelow : ∀ p ∈ w.mixinsOf s, w.Acyclic (w.source .mixin p)) : w.Acyclic s := by
  intro c hc
  cases c with
  | nil => simp
  | cons p c =>
    refine List.pairwise_cons.mpr ⟨fun q hq => ?_, hbelow p hc.1 c hc.2⟩
    obtain ⟨a, b, heq⟩ := List.append_of_mem hq
    rw [heq] at hc
    exact hne q ((isChain_append.mp hc).1.reaches.mem_of_closed hroot hclosed)

/-- In a document without cycles no mixin is the document itself. -/
theorem Acyclic.otherMixins_eq {w : Workspace} {s : Source} (h : w.Acyclic s) :
    w.otherMixins s = w.mixinsOf s := by
  refine List.filter_eq_self.mpr fun p hp => ?_
  have hne : s.path.same p = false :=
    (List.pairwise_cons.mp (h [p] ⟨hp, trivial⟩)).1 p List.mem_cons_self
  simp [hne]

/-- The other mixins of a document that is free of loops are free of them, too. -/
theorem LoopFree.of_mem {w : Workspace} {s : Source} {p : Path} (h : w.LoopFree s)
    (hp : p ∈ w.otherMixins s) : w.LoopFree (w.source .mixin p) :=
  fun c hc => (List.pairwise_cons.mp (h (p :: c) ⟨hp, hc⟩)).2

/-- A proper chain never visits the document's own path. -/
theorem LoopFree.same_eq_false {w : Workspace} {s : Source} {c : List Path} {x : Path}
    (h : w.LoopFree s) (hc : w.IsProperChain s c) (hx : x ∈ c) : s.path.same x = false :=
  (List.pairwise_cons.mp (h c hc)).1 x hx

end Workspace

end ComponentInsight

import ComponentInsight.Proofs.Lookup.Induction
import ComponentInsight.Proofs.Mixins.Tree

/-!
# What a reading tells of a document

A reading is made below the files of a stack, some of which may be mixins that it has to leave out.
`Reading.Faithful` says what it is worth nevertheless:

* its **dependencies** are current, are all reached from the document, and cover every chain of
  mixins that no cut interrupts (`Reading.Interrupted`);
* its **names** are those the document and its dependencies declare;
* its **metadata** is that of the tree of mixins, for a document without loops and unless a cut
  interrupts a chain.

A reading put together from faithful readings is faithful (`Workspace.faithful_assemble`). When
nothing below its own position was left out, no chain is interrupted: its record is faithful by
itself (`Reading.Faithful.whole`), whatever the stack, and may be cached.
-/

namespace ComponentInsight

namespace Reading

/-- A file of a list was left out since it is on the stack. -/
def Interrupted (r : Reading) (stack c : List Path) : Prop :=
  ∃ x ∈ c, ∃ (j : Nat) (y : Path), stack[j]? = some y ∧ y.same x = true ∧ r.CutsAt j

/-- What a reading below the files of a stack tells of a document. -/
structure Faithful (w : Workspace) (stack : List Path) (s : Source) (r : Reading) : Prop where
  current : ∀ x ∈ r.record.mixins, x.isCurrent w.tree = true
  /-- Dependencies are reached by way of dependencies. -/
  reached : ∀ x ∈ r.record.mixins, ∃ c, w.IsMixinChain s (c ++ [x.path]) ∧
    ∀ y ∈ c, ∃ z ∈ r.record.mixins, z.path = y
  covered {c p} (hchain : w.IsMixinChain s (c ++ [p]))
    (havoid : ∀ x ∈ c ++ [p], s.path.same x = false) :
    (∃ x ∈ r.record.mixins, x.path.same p = true) ∨ r.Interrupted stack (c ++ [p])
  names {f name} : name ∈ r.record.metadata.names f ↔ name ∈ (w.own s).names f ∨
    s.kind.reads f = true ∧
      ∃ x ∈ r.record.mixins, name ∈ (w.own (w.source .mixin x.path)).names f
  unfolds (h : w.LoopFree s) :
    (∃ t : MixinTree, t.Unfolds w w.otherMixins ∧ t.source = s ∧
      t.merged w = r.record.metadata) ∨
    ∃ c, w.IsProperChain s c ∧ r.Interrupted stack c

/-- No file is left out by a reading that is not partial. -/
theorem not_interrupted {r : Reading} {stack c : List Path}
    (h : r.isPartial stack.length = false) : ¬ r.Interrupted stack c := by
  rintro ⟨x, -, j, y, hj, -, hcut⟩
  have hle : stack.length ≤ j := le_of_cutsAt h hcut
  have hlt : j < stack.length := (List.getElem?_eq_some_iff.mp hj).1
  omega

end Reading

/-- What a record tells of a document, whatever was being read at the time. -/
def Record.Faithful (w : Workspace) (s : Source) (record : Record) : Prop :=
  Reading.Faithful w [] s ⟨record, none⟩

namespace Reading.Faithful

variable {w : Workspace} {stack : List Path} {s : Source} {r : Reading}

/-- The record of a reading that is not partial is faithful by itself. -/
theorem whole (h : r.Faithful w stack s) (hwhole : r.isPartial stack.length = false) :
    r.record.Faithful w s where
  current := h.current
  reached := h.reached
  covered hchain havoid :=
    .inl ((h.covered hchain havoid).resolve_right (not_interrupted hwhole))
  names := h.names
  unfolds hloop :=
    .inl ((h.unfolds hloop).resolve_right fun ⟨_, _, hc⟩ => not_interrupted hwhole hc)

end Reading.Faithful

namespace Record.Faithful

variable {w : Workspace} {s : Source} {record : Record}

/-- A faithful record is a faithful reading below any stack. -/
theorem reading (h : record.Faithful w s) (stack : List Path) (cut : Option Nat) :
    Reading.Faithful w stack s ⟨record, cut⟩ where
  current := h.current
  reached := h.reached
  covered hchain havoid :=
    .inl ((Reading.Faithful.covered h hchain havoid).resolve_right (Reading.not_interrupted rfl))
  names := Reading.Faithful.names h
  unfolds hloop := .inl ((Reading.Faithful.unfolds h hloop).resolve_right
    fun ⟨_, _, hc⟩ => Reading.not_interrupted rfl hc)

/-- Every chain that avoids the document is covered by dependencies. -/
theorem exists_dependency (h : record.Faithful w s) {c : List Path} {p : Path}
    (hchain : w.IsMixinChain s (c ++ [p])) (havoid : ∀ x ∈ c ++ [p], s.path.same x = false) :
    ∃ x ∈ record.mixins, x.path.same p = true :=
  (Reading.Faithful.covered h hchain havoid).resolve_right (Reading.not_interrupted rfl)

/-- The names a script is recorded with are those that its family declares, also if some of the
files it reaches reach it in turn. -/
theorem mem_names_iff {p : Path} (h : record.Faithful w (w.source .mixin p)) {f : Facet}
    {name : String} :
    name ∈ record.metadata.names f ↔
      ∃ q ∈ w.family p, name ∈ (w.own (w.source .mixin q)).names f := by
  constructor
  · intro hname
    rcases (Reading.Faithful.names h).mp hname with hname | ⟨-, x, hx, hname⟩
    · exact ⟨p, .inl rfl, hname⟩
    · obtain ⟨c, hc, -⟩ := h.reached x hx
      exact ⟨x.path, .inr hc.reaches, hname⟩
  · rintro ⟨q, rfl | hq, hname⟩
    · exact (Reading.Faithful.names h).mpr (.inl hname)
    · have hfile : w.tree.isFile p = true := hq.isFile_source
      obtain ⟨c, hc⟩ := hq.exists_chain
      rcases Workspace.exists_chain_avoiding hc with hsame | ⟨b, hb, havoid, -⟩
      · -- the script itself under another text
        rw [← Workspace.own_eq_of_same hsame hfile hq.isFile] at hname
        exact (Reading.Faithful.names h).mpr (.inl hname)
      · obtain ⟨x, hx, hsame⟩ := h.exists_dependency hb havoid
        obtain ⟨c, hc, -⟩ := h.reached x hx
        rw [← Workspace.own_eq_of_same hsame hc.reaches.isFile hq.isFile] at hname
        exact (Reading.Faithful.names h).mpr (.inr ⟨by simp, x, hx, hname⟩)

/-- Without loops, the metadata is that of the tree of mixins. -/
theorem exists_tree (h : record.Faithful w s) (hloop : w.LoopFree s) :
    ∃ t : MixinTree, t.Unfolds w w.otherMixins ∧ t.source = s ∧ t.merged w = record.metadata :=
  (Reading.Faithful.unfolds h hloop).resolve_right fun ⟨_, _, hc⟩ => Reading.not_interrupted rfl hc

end Record.Faithful

namespace Workspace

/-- The empty reading of a document that declares nothing is faithful. -/
theorem faithful_empty {w : Workspace} {stack : List Path} {s : Source}
    (hd : s.declarations = none) : Reading.Faithful w stack s .empty where
  current := by simp [Reading.empty, Record.empty]
  reached := by simp [Reading.empty, Record.empty]
  covered {c p} hchain _ := by
    have hnone : w.mixinsOf s = [] := by simp [mixinsOf, hd]
    cases c with
    | nil => simpa [hnone] using hchain.1
    | cons x c => simpa [hnone] using hchain.1
  names := by simp [Reading.empty, Record.empty, own, hd]
  unfolds _ := by
    refine .inl ⟨.node s [], .node ?_ (by simp), rfl, ?_⟩
    · simp [otherMixins, mixinsOf, hd]
    · simp [MixinTree.merged, hd, Reading.empty, Record.empty]

/-! ### Readings put together -/

section Assemble

variable {w : Workspace} {stack : List Path} {s : Source} {d : Declarations}
  {found : List (Path × Found)}

/-- What interrupts a chain from a mixin interrupts the chain from the document, if that does not
come back to the document. -/
theorem interrupted_assemble_of_mem {e : Path × Found} (he : e ∈ found) {c : List Path}
    (hc : e.2.reading.Interrupted (stack ++ [s.path]) c)
    (havoid : ∀ x ∈ c, s.path.same x = false) :
    (w.assemble (stack ++ [s.path]) s.kind s.path d found).Interrupted stack c := by
  obtain ⟨x, hx, j, y, hj, hsame, hcut⟩ := hc
  -- the last position of the longer stack is that of the document
  have hlt : j < stack.length := by
    by_contra hge
    have hle : j ≤ stack.length := by
      have := (List.getElem?_eq_some_iff.mp hj).1
      simp at this
      omega
    obtain rfl : j = stack.length := by omega
    obtain rfl : s.path = y := by simpa using hj
    simp [havoid x hx] at hsame
  rw [List.getElem?_append_left hlt] at hj
  exact ⟨x, hx, j, y, hj, hsame, cutsAt_assemble_of_mem he hcut⟩

/-- The mixins of a document were found, each with a faithful reading. -/
structure FoundAll (w : Workspace) (stack : List Path) (s : Source) (d : Declarations)
    (found : List (Path × Found)) : Prop where
  declared : s.declarations = some d
  paths : found.map Prod.fst = w.freshMixins (stack ++ [s.path]) s.path d
  key : ∀ e ∈ found, w.tree.key? e.1 .mixin = some e.2.key
  faithful : ∀ e ∈ found,
    Reading.Faithful w (stack ++ [s.path]) (w.source .mixin e.1) e.2.reading

namespace FoundAll

private theorem mixinsOf_eq (h : FoundAll w stack s d found) :
    w.mixinsOf s = w.mixinPaths s.path d := by
  simp [mixinsOf, h.declared]

private theorem mem_mixinsOf (h : FoundAll w stack s d found) {e : Path × Found} (he : e ∈ found) :
    e.1 ∈ w.mixinsOf s := by
  have hmem : e.1 ∈ w.freshMixins (stack ++ [s.path]) s.path d := h.paths ▸ List.mem_map_of_mem he
  exact h.mixinsOf_eq ▸ (List.mem_filter.mp hmem).1

/-- A mixin other than the document was found, or is on the stack and cuts the reading. -/
theorem found_or_interrupted (h : FoundAll w stack s d found) {p : Path} (hp : p ∈ w.mixinsOf s)
    (hne : s.path.same p = false) :
    (∃ e ∈ found, e.1 = p) ∨
      (w.assemble (stack ++ [s.path]) s.kind s.path d found).Interrupted stack [p] := by
  rw [h.mixinsOf_eq] at hp
  cases hon : onStack (stack ++ [s.path]) p with
  | false =>
    have hmem : p ∈ found.map Prod.fst := by
      rw [h.paths]
      exact List.mem_filter.mpr ⟨hp, by simp [hon]⟩
    exact .inl (List.mem_map.mp hmem)
  | true =>
    obtain ⟨y, hy, hsame⟩ := List.any_eq_true.mp hon
    -- the document is on top of the stack, and the mixin is another file
    rcases List.mem_append.mp hy with hy | hy
    · obtain ⟨j, hj⟩ := List.mem_iff_getElem?.mp hy
      have hlt : j < stack.length := (List.getElem?_eq_some_iff.mp hj).1
      refine .inr ⟨p, List.mem_cons_self, j, y, hj, hsame, ?_⟩
      exact cutsAt_assemble_of_onStack hp (by rw [List.getElem?_append_left hlt, hj]) hsame
    · rw [List.mem_singleton.mp hy, hne] at hsame
      cases hsame

/-- Every recorded dependency is current. -/
private theorem current (h : FoundAll w stack s d found) :
    ∀ x ∈ (w.assemble (stack ++ [s.path]) s.kind s.path d found).record.mixins,
      x.isCurrent w.tree = true := by
  intro x hx
  obtain ⟨e, he, rfl | hx⟩ := mem_mixins_assemble.mp hx
  · exact Dependency.isCurrent_iff.mpr (h.key e he)
  · exact (h.faithful e he).current x hx

private theorem reached (h : FoundAll w stack s d found) :
    ∀ x ∈ (w.assemble (stack ++ [s.path]) s.kind s.path d found).record.mixins,
      ∃ c, w.IsMixinChain s (c ++ [x.path]) ∧ ∀ y ∈ c,
        ∃ z ∈ (w.assemble (stack ++ [s.path]) s.kind s.path d found).record.mixins,
          z.path = y := by
  intro x hx
  obtain ⟨e, he, rfl | hx⟩ := mem_mixins_assemble.mp hx
  · exact ⟨[], ⟨h.mem_mixinsOf he, trivial⟩, by simp⟩
  · obtain ⟨c, hchain, hc⟩ := (h.faithful e he).reached x hx
    refine ⟨e.1 :: c, ⟨h.mem_mixinsOf he, hchain⟩, fun y hy => ?_⟩
    rcases List.mem_cons.mp hy with rfl | hy
    · exact ⟨⟨e.1, e.2.key⟩, mem_mixins_assemble.mpr ⟨e, he, .inl rfl⟩, rfl⟩
    · obtain ⟨z, hz, heq⟩ := hc y hy
      exact ⟨z, mem_mixins_assemble.mpr ⟨e, he, .inr hz⟩, heq⟩

/-- Every document on a chain of mixins is recorded, unless the reading was interrupted on that
chain. -/
theorem covered (h : FoundAll w stack s d found) {c : List Path} {p : Path}
    (hchain : w.IsMixinChain s (c ++ [p])) (havoid : ∀ x ∈ c ++ [p], s.path.same x = false) :
    (∃ x ∈ (w.assemble (stack ++ [s.path]) s.kind s.path d found).record.mixins,
      x.path.same p = true) ∨
    (w.assemble (stack ++ [s.path]) s.kind s.path d found).Interrupted stack (c ++ [p]) := by
  have hown : ∀ e ∈ found, e.1.same p = true →
      ∃ x ∈ (w.assemble (stack ++ [s.path]) s.kind s.path d found).record.mixins,
        x.path.same p = true :=
    fun e he hsame => ⟨⟨e.1, e.2.key⟩, mem_mixins_assemble.mpr ⟨e, he, .inl rfl⟩, hsame⟩
  cases c with
  | nil =>
    rcases h.found_or_interrupted hchain.1 (havoid p (by simp)) with ⟨e, he, rfl⟩ | hcut
    · exact .inl (hown e he (Path.same_refl _))
    · exact .inr hcut
  | cons q c =>
    rcases h.found_or_interrupted hchain.1 (havoid q (by simp)) with ⟨e, he, rfl⟩ | hcut
    · -- below the mixin the chain need not come back to it
      rcases exists_chain_avoiding hchain.2 with hsame | ⟨b, hb, hbavoid, hsub⟩
      · exact .inl (hown e he hsame)
      have hsub' : ∀ x ∈ b ++ [p], x ∈ e.1 :: c ++ [p] := by
        intro x hx
        rcases List.mem_append.mp hx with hx | hx
        · simp [hsub hx]
        · simp [List.mem_singleton.mp hx]
      rcases (h.faithful e he).covered hb hbavoid with ⟨x, hx, hsame⟩ | hcut
      · exact .inl ⟨x, mem_mixins_assemble.mpr ⟨e, he, .inr hx⟩, hsame⟩
      · obtain ⟨x, hx, hrest⟩ :=
          interrupted_assemble_of_mem he hcut fun x hx => havoid x (hsub' x hx)
        exact .inr ⟨x, hsub' x hx, hrest⟩
    · obtain ⟨x, hx, hrest⟩ := hcut
      exact .inr ⟨x, by simp [List.mem_singleton.mp hx], hrest⟩

/-- The names in a record are those of the document itself and of the recorded mixins. -/
private theorem names (h : FoundAll w stack s d found) {f : Facet} {name : String} :
    name ∈ (w.assemble (stack ++ [s.path]) s.kind s.path d found).record.metadata.names f ↔
      name ∈ (w.own s).names f ∨ s.kind.reads f = true ∧
        ∃ x ∈ (w.assemble (stack ++ [s.path]) s.kind s.path d found).record.mixins,
          name ∈ (w.own (w.source .mixin x.path)).names f := by
  have hown : w.own s = w.merge s.kind s.path d [] := by simp [own, h.declared]
  have hmixins : (∃ m ∈ found.map fun e => e.2.reading.record.metadata, name ∈ m.names f) ↔
      ∃ x ∈ (w.assemble (stack ++ [s.path]) s.kind s.path d found).record.mixins,
        name ∈ (w.own (w.source .mixin x.path)).names f := by
    constructor
    · rintro ⟨m, hm, hname⟩
      obtain ⟨e, he, rfl⟩ := List.mem_map.mp hm
      rcases (h.faithful e he).names.mp hname with hname | ⟨-, x, hx, hname⟩
      · exact ⟨⟨e.1, e.2.key⟩, mem_mixins_assemble.mpr ⟨e, he, .inl rfl⟩, hname⟩
      · exact ⟨x, mem_mixins_assemble.mpr ⟨e, he, .inr hx⟩, hname⟩
    · rintro ⟨x, hx, hname⟩
      obtain ⟨e, he, hx⟩ := mem_mixins_assemble.mp hx
      refine ⟨_, List.mem_map_of_mem he, (h.faithful e he).names.mpr ?_⟩
      rcases hx with rfl | hx
      · exact .inl hname
      · exact .inr ⟨by simp, x, hx, hname⟩
  rw [← hmixins, hown]
  exact mem_names_merge.trans or_comm

/-- The mixins that were found are all the other mixins of the document, unless one of them is on
the stack. -/
theorem paths_eq (h : FoundAll w stack s d found) :
    found.map Prod.fst = w.otherMixins s ∨
      ∃ p ∈ w.otherMixins s,
        (w.assemble (stack ++ [s.path]) s.kind s.path d found).Interrupted stack [p] := by
  by_cases hcut : ∃ p ∈ w.otherMixins s,
      (w.assemble (stack ++ [s.path]) s.kind s.path d found).Interrupted stack [p]
  · exact .inr hcut
  refine .inl ?_
  rw [h.paths, otherMixins, h.mixinsOf_eq]
  refine List.filter_congr fun p hp => ?_
  cases hsame : s.path.same p with
  | true => simp [onStack, hsame]
  | false =>
    have hother : p ∈ w.otherMixins s := mem_otherMixins.mpr ⟨h.mixinsOf_eq ▸ hp, hsame⟩
    rcases h.found_or_interrupted (h.mixinsOf_eq ▸ hp) hsame with ⟨e, he, rfl⟩ | hin
    · have hmem : e.1 ∈ w.freshMixins (stack ++ [s.path]) s.path d :=
        h.paths ▸ List.mem_map_of_mem he
      simpa using (List.mem_filter.mp hmem).2
    · exact absurd ⟨p, hother, hin⟩ hcut

private theorem unfolds (h : FoundAll w stack s d found) (hloop : w.LoopFree s) :
    (∃ t : MixinTree, t.Unfolds w w.otherMixins ∧ t.source = s ∧ t.merged w =
      (w.assemble (stack ++ [s.path]) s.kind s.path d found).record.metadata) ∨
    ∃ c, w.IsProperChain s c ∧
      (w.assemble (stack ++ [s.path]) s.kind s.path d found).Interrupted stack c := by
  rcases h.paths_eq with hpaths | ⟨p, hp, hcut⟩
  swap
  · exact .inr ⟨[p], ⟨hp, trivial⟩, hcut⟩
  have hother : ∀ e ∈ found, e.1 ∈ w.otherMixins s := fun e he =>
    hpaths ▸ List.mem_map_of_mem he
  by_cases hcut : ∃ e ∈ found, ∃ c, w.IsProperChain (w.source .mixin e.1) c ∧
      e.2.reading.Interrupted (stack ++ [s.path]) c
  · obtain ⟨e, he, c, hc, hin⟩ := hcut
    have hchain : w.IsProperChain s (e.1 :: c) := ⟨hother e he, hc⟩
    obtain ⟨x, hx, hrest⟩ := interrupted_assemble_of_mem he hin fun x hx =>
      hloop.same_eq_false hchain (List.mem_cons_of_mem _ hx)
    exact .inr ⟨e.1 :: c, hchain, x, List.mem_cons_of_mem _ hx, hrest⟩
  · -- otherwise every mixin has a tree, and the document stands above them
    have htree : ∀ e ∈ found, ∃ t : MixinTree, t.Unfolds w w.otherMixins ∧
        t.source = w.source .mixin e.1 ∧ t.merged w = e.2.reading.record.metadata := by
      intro e he
      rcases (h.faithful e he).unfolds (hloop.of_mem (hother e he)) with ht | ⟨c, hc, hin⟩
      · exact ht
      · exact absurd ⟨e, he, c, hc, hin⟩ hcut
    have : Nonempty MixinTree := ⟨.node s []⟩
    choose! tree hunfolds hsource hmerged using htree
    refine .inl ⟨.node s (found.map tree), .node ?_ ?_, rfl, ?_⟩
    · rw [← hpaths, List.map_map, List.map_map]
      exact List.map_congr_left hsource
    · intro t ht
      obtain ⟨e, he, rfl⟩ := List.mem_map.mp ht
      exact hunfolds e he
    · have hmetadata : (found.map tree).map (fun t => t.merged w) =
          found.map fun e => e.2.reading.record.metadata := by
        rw [List.map_map]
        exact List.map_congr_left hmerged
      simp only [MixinTree.merged, h.declared, hmetadata]
      rfl

end FoundAll

/-- A reading put together from faithful readings is faithful. -/
theorem faithful_assemble (h : FoundAll w stack s d found) :
    (w.assemble (stack ++ [s.path]) s.kind s.path d found).Faithful w stack s where
  current := h.current
  reached := h.reached
  covered := h.covered
  names := h.names
  unfolds := h.unfolds

end Assemble

end Workspace

end ComponentInsight

import ComponentInsight.Proofs.Metadata.Extraction

/-!
# Registered components and those of mixins

A document that registers a component under a name means its own: what mixins register under the
name should not show. `Workspace.find?_components_merge` tells what the merge makes of it: the last
entry of the name that leads to a file counts, and the mixins come in when no entry does.

So the entries of a document **shadow** the components of its mixins exactly when one of them leads
to a file, or when there is nothing to shadow (`shadows_iff`). An entry that leads to no file leaves
the name to the mixins: one whose value is an object in place, one that names no import, and one
whose import leads nowhere.
-/

namespace ComponentInsight

/-! ### The entries of a document -/

namespace OptionsObject

/-- The entries of the `components` option that have static keys. -/
def registeredEntries (o : OptionsObject) : List OptionEntry :=
  match (o.value? "components").map Script.Expr.unwrap with
  | some (.object _ entries) => entries.filterMap asStatic?
  | _ => []

/-- The PascalCase names of the entries of the `components` option. -/
def registeredNames (o : OptionsObject) : List String :=
  o.registeredEntries.map fun e => Name.pascal e.key

/-- Entries are registered in order, under their names in Pascal case. -/
private theorem registrations_eq (o : OptionsObject) :
    o.registrations?.getD [] = o.registeredEntries.filterMap fun e =>
      (ComponentTarget.ofExpr? e.value).map (Registration.mk (Name.pascal e.key)) := by
  have hentry : registration? = fun e => (asStatic? e).bind fun s =>
      (ComponentTarget.ofExpr? s.value).map (Registration.mk (Name.pascal s.key)) := by
    funext e
    cases h : asStatic? e with
    | none => simp [registration?, h]
    | some s => cases h' : ComponentTarget.ofExpr? s.value <;> simp [registration?, h, h']
  unfold registrations? registeredEntries registrationsOf
  cases o.value? "components" with
  | none => rfl
  | some e => cases h : e.unwrap <;> simp [h, hentry, List.filterMap_filterMap]

end OptionsObject

namespace Workspace

/-- The file an entry of the `components` option leads to. -/
def registeredFile? (w : Workspace) (importer : Path) (o : OptionsObject) (e : OptionEntry) :
    Option Path :=
  ((ComponentTarget.ofExpr? e.value).bind o.specifierOf?).bind fun specifier =>
    w.locate? specifier importer .component

/-- The files that the entries of a name lead to. -/
def registeredFiles (w : Workspace) (importer : Path) (o : OptionsObject) (name : String) :
    List Path :=
  o.registeredEntries.filterMap fun e =>
    if Name.pascal e.key = name then w.registeredFile? importer o e else none

private theorem componentPaths_ofOptions (w : Workspace) (importer : Path) (kind : DocumentKind)
    (text : String) (o : OptionsObject) :
    w.componentPaths importer (.ofOptions kind text o) = o.registeredEntries.filterMap fun e =>
      (w.registeredFile? importer o e).map (Prod.mk (Name.pascal e.key)) := by
  rw [componentPaths, Declarations.ofOptions, OptionsObject.componentSpecifiers,
    OptionsObject.registrations_eq, List.filterMap_filterMap, List.filterMap_filterMap]
  congr 1
  funext e
  unfold registeredFile?
  cases ComponentTarget.ofExpr? e.value with
  | none => rfl
  | some target => cases h : o.specifierOf? target <;> simp [h]

/-! ### Shadowing -/

/-- A name stands for the last file its entries lead to, and otherwise for what the first mixin
that has it says. -/
theorem find?_components_merge (w : Workspace) (kind : DocumentKind) (importer : Path)
    (text : String) (o : OptionsObject) (mixins : List Metadata) (name : String) :
    (w.merge kind importer (.ofOptions kind text o) mixins).components.find? name =
      (w.registeredFiles importer o name).getLast?.or
        (mixins.findSome? fun m => m.components.find? name) := by
  have hfiles : (w.componentPaths importer (.ofOptions kind text o)).filterMap
      (fun e => if e.1 = name then some e.2 else none) = w.registeredFiles importer o name := by
    rw [componentPaths_ofOptions, List.filterMap_filterMap, registeredFiles]
    congr 1
    funext e
    cases w.registeredFile? importer o e <;> simp
  rw [merge, Table.find?_putAll, Table.find?_ofEntries, hfiles, find?_components_inherited]

/-- A name stands for nothing that no entry of the name leads to, if and only if some entry of the
name leads to a file or no mixin has the name. -/
private theorem shadows_merge_iff (w : Workspace) (kind : DocumentKind) (importer : Path)
    (text : String) (o : OptionsObject) (mixins : List Metadata) (name : String) :
    (∀ p, (w.merge kind importer (.ofOptions kind text o) mixins).components.find? name = some p →
        p ∈ w.registeredFiles importer o name) ↔
      w.registeredFiles importer o name ≠ [] ∨ ∀ m ∈ mixins, m.components.find? name = none := by
  rw [find?_components_merge]
  cases hlast : (w.registeredFiles importer o name).getLast? with
  | none =>
    have hnil : w.registeredFiles importer o name = [] := List.getLast?_eq_none_iff.mp hlast
    simp only [hnil, Option.none_or, List.not_mem_nil, ne_eq, not_true_eq_false, false_or,
      imp_false, ← List.findSome?_eq_none_iff]
    exact Option.eq_none_iff_forall_ne_some.symm
  | some p =>
    have hmem : p ∈ w.registeredFiles importer o name := List.mem_of_getLast? hlast
    refine iff_of_true ?_ (.inl (List.ne_nil_of_mem hmem))
    intro q hq
    rw [Option.some_or] at hq
    exact Option.some.inj hq ▸ hmem

variable {σ : Type} {ask : Provider σ} {kind : DocumentKind} {path : Path} {text : String}
  {s s' : σ} {m : Metadata}

/-- **When registered components shadow those of mixins**: under a name a result has only what the
document registers itself, if and only if an entry of the name leads to a file or no answer has the
name. -/
theorem shadows_iff (w : Workspace) (ask : Provider σ)
    (h : w.extractBy ask kind path text s = .ok (m, s')) :
    ∃ o, OptionsObject.ofDocument? kind path text = some o ∧ ∀ name,
      (∀ p, m.components.find? name = some p → p ∈ w.registeredFiles path o name) ↔
        w.registeredFiles path o name ≠ [] ∨
          ∀ a ∈ (answers ask (w.mixinFiles path o) s).1, a.components.find? name = none := by
  obtain ⟨o, ho, rfl, -⟩ := extractBy_eq_ok_iff.mp h
  exact ⟨o, ho, fun name => w.shadows_merge_iff kind path text o _ name⟩

end Workspace

namespace Sample

/-- The path of a page. -/
def cardPage : Path := ⟨"/page.vue"⟩

/-- The page registers a card in place and takes another one over from a mixin. -/
def cardText : String :=
  "<script>\nimport cards from './cards'\nexport default \x7b mixins: [cards], " ++
    "components: \x7b Card: \x7b name: 'card' \x7d \x7d \x7d\n</script>"

/-- The project of the page. -/
def cardWorkspace : Workspace where
  tree := ⟨[(["cards.js"], ⟨some "", 1⟩), (["Card.vue"], ⟨some "", 1⟩)], []⟩
  resolver := ⟨⟨"/"⟩, ⟨[]⟩, "node_modules"⟩

/-- The mixin registers a card that has a file. -/
def cardMixins : Provider Unit := forgetful fun p =>
  if p = ⟨"/cards.js"⟩ then some ⟨[], [("Card", ⟨"/Card.vue"⟩)], []⟩ else none

private theorem exists_options_cardPage :
    ∃ o, OptionsObject.ofDocument? .component cardPage cardText = some o ∧
      o.registeredNames = ["Card"] ∧ cardWorkspace.registeredFiles cardPage o "Card" = [] ∧
        cardWorkspace.mixinFiles cardPage o = [⟨"/cards.js"⟩] := by
  have h : ∃ o ∈ OptionsObject.ofDocument? .component cardPage cardText,
      o.registeredNames = ["Card"] ∧ cardWorkspace.registeredFiles cardPage o "Card" = [] ∧
        cardWorkspace.mixinFiles cardPage o = [⟨"/cards.js"⟩] := by
    decide +kernel
  exact h

/-- A page whose own `Card` has no file, with a mixin that registers one. -/
theorem shadows_iff_cardPage :
    ∃ m, cardWorkspace.extractBy cardMixins .component cardPage cardText () = .ok (m, ()) ∧
      ∃ o, OptionsObject.ofDocument? .component cardPage cardText = some o ∧ ∀ name,
        (∀ p, m.components.find? name = some p →
            p ∈ cardWorkspace.registeredFiles cardPage o name) ↔
          cardWorkspace.registeredFiles cardPage o name ≠ [] ∨
            ∀ a ∈ (answers cardMixins (cardWorkspace.mixinFiles cardPage o) ()).1,
              a.components.find? name = none := by
  obtain ⟨o, ho, -⟩ := exists_options_cardPage
  have h := cardWorkspace.extractBy_of_options cardMixins () ho
  exact ⟨_, h, Workspace.shadows_iff cardWorkspace cardMixins h⟩

/-- A component registered in place does not shadow the one of a mixin: under its name the page has
the file that the mixin registers. -/
theorem not_shadows_cardPage :
    ∃ o m, OptionsObject.ofDocument? .component cardPage cardText = some o ∧
      cardWorkspace.extractBy cardMixins .component cardPage cardText () = .ok (m, ()) ∧
      "Card" ∈ o.registeredNames ∧ cardWorkspace.registeredFiles cardPage o "Card" = [] ∧
      m.components.find? "Card" = some ⟨"/Card.vue"⟩ := by
  obtain ⟨o, ho, hnames, hfiles, hmixins⟩ := exists_options_cardPage
  refine ⟨o, _, ho, cardWorkspace.extractBy_of_options cardMixins () ho, by simp [hnames], hfiles,
    ?_⟩
  rw [Workspace.find?_components_merge, hfiles, hmixins]
  decide

end Sample

end ComponentInsight

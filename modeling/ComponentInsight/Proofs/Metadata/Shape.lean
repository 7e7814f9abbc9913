import ComponentInsight.Proofs.Metadata.Merging
import Mathlib

/-!
# The shape of metadata

Whatever documents say, metadata that is put together from what they declare is well formed
(`Metadata.WellFormed`): no name is there twice, props are spelled in camelCase and components in
PascalCase, and a union has at least two alternatives. Names that are spelled differently in
documents may be the same in metadata, so it counts that they are rewritten before they are
compared.

* **Spelling**: `Name.camel` leaves no hyphen, and `Name.pascal` changes nothing when it is applied
  a second time (`Name.pascal_pascal`).
* **Declarations**: names are rewritten and types evaluated when a document is read, so what it
  declares has the shape by itself (`Declarations.wellFormed_of_ofDocument`).
* **Merging** (`Workspace.wellFormed_merge`): every entry of a merge is one of a mixin or one that
  the document declares, and names are collected without repetitions.

Mathlib is imported as a whole because only the whole of it brings along the library's lemmas on
upper and lower case (`Char.isUpper_toUpper_eq_isAlpha` and those beside it).
-/

namespace ComponentInsight

/-! ### Spelling -/

namespace Name

/-- A sign that is no capital letter is the upper case of itself alone. -/
private theorem eq_of_toUpper_eq {c d : Char} (hd : d.isUpper = false) (h : c.toUpper = d) :
    c = d := by
  by_cases hlower : c.isLower
  · have hcapital : c.toUpper.isUpper = true := by
      rw [Char.isUpper_toUpper_eq_isAlpha]
      simp [Char.isAlpha, hlower]
    rw [h, hd] at hcapital
    cases hcapital
  · rwa [Char.toUpper_eq_of_not_isLower hlower] at h

/-- No hyphen is left in a name in camel case. -/
private theorem hyphen_notMem_camelChars (capital : Bool) (cs : List Char) :
    '-' ∉ camelChars capital cs := by
  induction cs generalizing capital with
  | nil => simp [camelChars]
  | cons c cs ih =>
    unfold camelChars
    split
    · exact ih true
    · next hc =>
      have hupper : c.toUpper ≠ '-' := fun h => hc (eq_of_toUpper_eq (by decide) h)
      cases capital <;> simp [Ne.symm hc, Ne.symm hupper, ih]

/-- A camelCase name has no hyphen. -/
private theorem hyphen_notMem_camel (s : String) : '-' ∉ (camel s).toList := by
  rw [camel, String.toList_ofList]
  exact hyphen_notMem_camelChars false s.toList

/-- Characters that separate the words of a name. -/
def IsSeparator (c : Char) : Prop := c = '-' ∨ c = '_'

private theorem not_isSeparator_toUpper {c : Char} (h : ¬ IsSeparator c) :
    ¬ IsSeparator c.toUpper := by
  rintro (hc | hc)
  · exact h (.inl (eq_of_toUpper_eq (by decide) hc))
  · exact h (.inr (eq_of_toUpper_eq (by decide) hc))

/-- Separators are dropped. -/
private theorem not_isSeparator_of_mem_pascalChars {capital : Bool} {cs : List Char} {c : Char}
    (h : c ∈ pascalChars capital cs) : ¬ IsSeparator c := by
  induction cs generalizing capital with
  | nil => simp [pascalChars] at h
  | cons a cs ih =>
    unfold pascalChars at h
    split at h
    · exact ih h
    · next ha =>
      rcases List.mem_cons.mp h with rfl | h
      · cases capital
        · exact ha
        · exact not_isSeparator_toUpper ha
      · exact ih h

/-- Where a capital is due, the first character is one. -/
private theorem toUpper_head_pascalChars {cs rest : List Char} {c : Char}
    (h : pascalChars true cs = c :: rest) : c.toUpper = c := by
  induction cs with
  | nil => simp [pascalChars] at h
  | cons a cs ih =>
    unfold pascalChars at h
    split at h
    · exact ih h
    · obtain ⟨rfl, -⟩ := List.cons.inj h
      exact Char.toUpper_toUpper_eq_toUpper a

/-- Without separators nothing but the first character changes. -/
private theorem pascalChars_of_notSeparator {cs : List Char} (h : ∀ c ∈ cs, ¬ IsSeparator c) :
    pascalChars false cs = cs := by
  induction cs with
  | nil => rfl
  | cons c cs ih =>
    have hc : ¬ (c = '-' ∨ c = '_') := h c List.mem_cons_self
    rw [pascalChars, if_neg hc, ih fun a ha => h a (List.mem_cons_of_mem _ ha)]
    rfl

/-- A PascalCase name is its own PascalCase spelling. -/
theorem pascal_pascal (s : String) : pascal (pascal s) = pascal s := by
  have hplain : ∀ c ∈ pascalChars true s.toList, ¬ IsSeparator c :=
    fun c hc => not_isSeparator_of_mem_pascalChars hc
  rw [pascal, pascal, String.toList_ofList]
  cases hcs : pascalChars true s.toList with
  | nil => rfl
  | cons c rest =>
    rw [hcs] at hplain
    -- without separators only the first character is capitalised, and it is a capital already
    have hc : ¬ (c = '-' ∨ c = '_') := hplain c List.mem_cons_self
    rw [pascalChars, if_neg hc, if_pos rfl, toUpper_head_pascalChars hcs,
      pascalChars_of_notSeparator fun a ha => hplain a (List.mem_cons_of_mem _ ha)]

end Name

/-! ### What documents declare -/

/-- A prop under its camelCase name. If its type is a union, there is a choice. -/
structure IsPropEntry (e : String × PropSpec) : Prop where
  hyphen_notMem : '-' ∉ e.1.toList
  two_le_length {names} (h : e.2.type? = some (.union names)) : 2 ≤ names.length

private theorem TypeTag.two_le_length_of_ofLiteral? {v : Literal} {names : List String}
    (h : TypeTag.ofLiteral? v = some (.union names)) : 2 ≤ names.length := by
  unfold TypeTag.ofLiteral? at h
  split at h
  · cases h
  · split at h
    · cases h
    · cases h
    · next hnone hone =>
      rw [union.inj (Option.some.inj h)] at hnone hone
      -- no reference and a single one are told apart from unions
      match names with
      | [] => exact absurd rfl hnone
      | [name] => exact absurd rfl (hone name)
      | _ :: _ :: _ => simp
  · cases h

private theorem PropSpec.two_le_length_of_ofLiteral {v : Literal} {names : List String}
    (h : (PropSpec.ofLiteral v).type? = some (.union names)) : 2 ≤ names.length := by
  unfold PropSpec.ofLiteral at h
  split at h
  · obtain ⟨_, -, htype⟩ := Option.bind_eq_some_iff.mp h
    exact TypeTag.two_le_length_of_ofLiteral? htype
  · exact TypeTag.two_le_length_of_ofLiteral? h

private theorem PropTable.isPropEntry_of_mem_ofLiteral {v : Literal} {e : String × PropSpec}
    (h : e ∈ PropTable.ofLiteral v) : IsPropEntry e := by
  unfold PropTable.ofLiteral at h
  split at h
  · rcases Table.mem_of_mem_putAll h with h | h
    · cases h
    · obtain ⟨name, -, rfl⟩ := List.mem_map.mp h
      exact ⟨Name.hyphen_notMem_camel name, nofun⟩
  · rcases Table.mem_of_mem_putAll h with h | h
    · cases h
    · obtain ⟨a, -, rfl⟩ := List.mem_map.mp h
      exact ⟨Name.hyphen_notMem_camel a.1, PropSpec.two_le_length_of_ofLiteral⟩
  · cases h

/-- Components are registered under their PascalCase names. -/
private theorem OptionsObject.pascal_name_of_mem_registrationsOf {e : Script.Expr}
    {r : Registration} (h : r ∈ registrationsOf e) : Name.pascal r.name = r.name := by
  unfold registrationsOf at h
  split at h
  · obtain ⟨entry, -, hr⟩ := List.mem_filterMap.mp h
    obtain ⟨s, -, hr⟩ := Option.bind_eq_some_iff.mp hr
    obtain ⟨target, -, hr⟩ := Option.bind_eq_some_iff.mp hr
    obtain rfl := Option.some.inj hr
    exact Name.pascal_pascal s.key
  · cases h

namespace Declarations

/-- Props and components have the names and types they should. -/
structure WellFormed (d : Declarations) : Prop where
  props : ∀ e ∈ d.props, IsPropEntry e
  components : ∀ c ∈ d.components, Name.pascal c.1 = c.1

/-- The declarations of an options object are well formed. -/
private theorem wellFormed_ofOptions (kind : DocumentKind) (text : String) (o : OptionsObject) :
    (ofOptions kind text o).WellFormed where
  props e he := by
    simp only [ofOptions, OptionsObject.props?] at he
    split at he
    · cases hvalue : o.value? "props" with
      | none => simp [hvalue] at he
      | some v =>
        rw [hvalue] at he
        exact PropTable.isPropEntry_of_mem_ofLiteral he
    · cases he
  components c hc := by
    obtain ⟨r, hr, hspecifier⟩ := List.mem_filterMap.mp hc
    obtain ⟨_, -, rfl⟩ := Option.map_eq_some_iff.mp hspecifier
    unfold OptionsObject.registrations? at hr
    cases hvalue : o.value? "components" with
    | none => simp [hvalue] at hr
    | some v =>
      rw [hvalue] at hr
      exact OptionsObject.pascal_name_of_mem_registrationsOf hr

private theorem wellFormed_of_read {kind : DocumentKind} {dialect : Script.Dialect} {text : String}
    {d : Declarations} (h : read kind dialect text = .ok d) : d.WellFormed := by
  unfold read at h
  cases hscript : script kind dialect text with
  | error e => simp [hscript, bind, Except.bind] at h
  | ok source =>
    rw [hscript] at h
    simp only [bind, Except.bind] at h
    split at h
    · cases h
    · split at h
      · cases h
      · obtain rfl := Except.ok.inj h
        exact wellFormed_ofOptions kind text _

/-- What any document declares is well formed. -/
theorem wellFormed_of_ofDocument {kind : DocumentKind} {path : Path} {text : String}
    {d : Declarations} (h : (ofDocument kind path text).toOption = some d) : d.WellFormed := by
  cases hread : ofDocument kind path text with
  | error e => simp [hread, Except.toOption] at h
  | ok d' =>
    rw [hread] at h
    obtain rfl := Option.some.inj h
    exact wellFormed_of_read hread

end Declarations

/-- What a file declares is well formed. -/
theorem File.wellFormed_of_declarations? {f : File} {kind : DocumentKind} {path : Path}
    {d : Declarations} (h : f.declarations? kind path = some d) : d.WellFormed := by
  obtain ⟨_, -, hd⟩ := Option.bind_eq_some_iff.mp h
  exact Declarations.wellFormed_of_ofDocument hd

/-! ### Well-formed metadata -/

namespace Metadata

/-- No name is there twice, and props and components have the names and types they should. -/
structure WellFormed (m : Metadata) : Prop where
  nodup : ∀ f, (m.names f).Nodup
  props : ∀ e ∈ m.props, IsPropEntry e
  components : ∀ c ∈ m.components, Name.pascal c.1 = c.1

theorem wellFormed_empty : Metadata.empty.WellFormed where
  nodup f := by simp
  props e he := by cases he
  components c hc := by cases hc

variable {m mixin : Metadata} {kind : DocumentKind}

private theorem mem_props_inherit {e : String × PropSpec} (he : e ∈ (m.inherit kind mixin).props) :
    e ∈ m.props ∨ e ∈ mixin.props := by
  simp only [inherit] at he
  split at he
  · exact Table.mem_of_mem_putAllNew he
  · exact .inl he

/-- An inherited component was there or is the mixin's. -/
theorem mem_components_inherit {c : String × Path} (hc : c ∈ (m.inherit kind mixin).components) :
    c ∈ m.components ∨ c ∈ mixin.components :=
  Table.mem_of_mem_putAllNew hc

/-- Inheriting keeps metadata well formed. -/
theorem WellFormed.inherit (h : m.WellFormed) (hmixin : mixin.WellFormed) (kind : DocumentKind) :
    (m.inherit kind mixin).WellFormed where
  nodup f := by
    rw [names_inherit]
    split
    · exact Distinct.nodup_addAll (h.nodup f) _
    · exact h.nodup f
  props e he := (mem_props_inherit he).elim (h.props e) (hmixin.props e)
  components c hc := (mem_components_inherit hc).elim (h.components c) (hmixin.components c)

end Metadata

namespace Workspace

variable {w : Workspace} {kind : DocumentKind} {path : Path} {d : Declarations}
  {mixins : List Metadata}

/-- What holds of empty metadata and is kept when mixins are folded in holds of the fold. -/
theorem inherited_induction {P : Metadata → Prop} (hempty : P .empty)
    (hinherit : ∀ m mixin, P m → P mixin → P (m.inherit kind mixin)) (h : ∀ m ∈ mixins, P m) :
    P (inherited kind mixins) := by
  suffices hfold : ∀ base, P base →
      P (mixins.foldl (fun m mixin => m.inherit kind mixin) base) from hfold .empty hempty
  induction mixins with
  | nil => exact fun base hbase => hbase
  | cons m rest ih =>
    intro base hbase
    -- the metadata of the first mixin goes into the base of the others
    exact ih (fun m hm => h m (List.mem_cons_of_mem _ hm)) _
      (hinherit base m hbase (h m List.mem_cons_self))

/-- The metadata of a document is well formed if that of its mixins is. -/
theorem wellFormed_merge (hd : d.WellFormed) (hmixins : ∀ m ∈ mixins, m.WellFormed) :
    (w.merge kind path d mixins).WellFormed := by
  have hbase : (inherited kind mixins).WellFormed :=
    inherited_induction Metadata.wellFormed_empty (fun _ _ h hmixin => h.inherit hmixin kind)
      hmixins
  constructor
  case nodup =>
    intro f
    rw [names_merge]
    exact Distinct.nodup_addAll (hbase.nodup f) _
  case props =>
    exact fun e he => (Table.mem_of_mem_putAll he).elim (hbase.props e) (hd.props e)
  case components =>
    intro c hc
    rcases Table.mem_of_mem_putAll hc with hc | hc
    · exact hbase.components c hc
    · obtain ⟨declared, hdeclared, hlocate⟩ := List.mem_filterMap.mp hc
      obtain ⟨_, -, rfl⟩ := Option.map_eq_some_iff.mp hlocate
      exact hd.components declared hdeclared

end Workspace

end ComponentInsight

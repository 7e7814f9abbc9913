import ComponentInsight.Description
import ComponentInsight.Proofs.Metadata.Extraction
import ComponentInsight.Proofs.Service.Tags

/-!
# Attributes of props

The attribute that is written for a prop, in a completion or in the snippet of a new element, is the
name of the prop in kebab-case. A template reads attributes in camelCase. So an attribute binds the
prop it is written for if this way there and back leads to the name again.

* **Spelling** (`Name.camel_kebab`): a name without hyphens comes back with its first letter in
  lower case, whatever other signs it has and wherever its capitals stand. The kebab-case spelling
  has no hyphen in front of a first capital, as is right for components.
* **Attributes** (`Metadata.isAttribute_iff`): every prop has exactly one attribute, the same in
  completions and in snippets.
* **Metadata** (`Metadata.Produced.wellFormed`): names of props have no hyphens, in all metadata
  that documents are read to.

Nothing keeps a document from declaring a prop whose name begins with a capital.
`Metadata.Produced.readBack_iff` says that such props, and no others, have attributes that do not
bind them, and that two props get one attribute if their names differ in the case of the first
letter.
-/

namespace ComponentInsight

/-! ### Kebab-case and camelCase -/

namespace Name

/-- A name with its first letter in lower case. -/
def uncapitalizedChars : List Char → List Char
  | [] => []
  | c :: cs => c.toLower :: cs

/-- A name with its first letter in lower case. -/
def uncapitalized (s : String) : String := String.ofList (uncapitalizedChars s.toList)

/-- The first character of a name is a capital. -/
def BeginsWithCapital (s : String) : Prop := s.toList.head?.any Char.isUpper = true

instance (s : String) : Decidable (BeginsWithCapital s) := inferInstanceAs (Decidable (_ = true))

private theorem toLower_eq_iff {c : Char} : c.toLower = c ↔ ¬ c.isUpper = true := by
  refine ⟨fun h hcapital => ?_, Char.toLower_eq_of_not_isUpper⟩
  have hlower : c.toLower.isLower = true := by simp [Char.isAlpha, hcapital]
  rw [h] at hlower
  exact Char.not_isLower_of_isUpper hcapital hlower

private theorem uncapitalized_eq_iff {s : String} :
    uncapitalized s = s ↔ ¬ BeginsWithCapital s := by
  rw [← String.toList_inj, uncapitalized, String.toList_ofList, BeginsWithCapital]
  cases s.toList with
  | nil => simp [uncapitalizedChars]
  | cons c cs => simp [uncapitalizedChars, toLower_eq_iff]

variable {capital : Bool} {c : Char} {cs : List Char} {s t : String}

private theorem camelChars_hyphen_cons : camelChars capital ('-' :: cs) = camelChars true cs :=
  if_pos rfl

private theorem camelChars_cons_of_ne (h : c ≠ '-') :
    camelChars capital (c :: cs) = (if capital then c.toUpper else c) :: camelChars false cs :=
  if_neg h

private theorem toLower_ne_hyphen (h : c ≠ '-') : c.toLower ≠ '-' := by
  by_cases hcapital : c.isUpper = true
  · have hletter : c.toLower.isAlpha = true := by simp [Char.isAlpha, hcapital]
    exact fun heq => not_isSeparator_of_isAlpha hletter (.inl heq)
  · rwa [Char.toLower_eq_of_not_isUpper hcapital]

/-- A capital that is written in lower case behind a hyphen is read as the capital, and no other
sign changes. -/
theorem camelChars_flatMap_kebabChar (h : '-' ∉ cs) :
    camelChars false (cs.flatMap kebabChar) = cs := by
  induction cs with
  | nil => rfl
  | cons c cs ih =>
    obtain ⟨hc, hrest⟩ := not_or.mp (List.mem_cons.not.mp h)
    rw [List.flatMap_cons, kebabChar]
    split
    · next hcapital =>
      -- the hyphen in front tells that it was a capital
      rw [List.cons_append, List.singleton_append, camelChars_hyphen_cons,
        camelChars_cons_of_ne (toLower_ne_hyphen (Ne.symm hc)), ih hrest, if_pos rfl,
        Char.toUpper_toLower_eq_toUpper, toUpper_of_isUpper hcapital]
    · rw [List.singleton_append, camelChars_cons_of_ne (Ne.symm hc), ih hrest]
      rfl

/-- Read back from kebab-case, a name has its first letter in lower case. -/
theorem camel_kebab (h : '-' ∉ s.toList) : camel (kebab s) = uncapitalized s := by
  rw [camel, kebab, String.toList_ofList, uncapitalized]
  congr 1
  cases hs : s.toList with
  | nil => rfl
  | cons c cs =>
    rw [hs] at h
    obtain ⟨hc, hrest⟩ := not_or.mp (List.mem_cons.not.mp h)
    -- no hyphen is put in front of the first letter, so nothing tells its case
    rw [kebabChars, camelChars_cons_of_ne (toLower_ne_hyphen (Ne.symm hc)),
      camelChars_flatMap_kebabChar hrest]
    rfl

/-- A capital at the beginning makes no difference to an attribute. -/
private theorem kebab_uncapitalized (s : String) : kebab (uncapitalized s) = kebab s := by
  rw [kebab, uncapitalized, String.toList_ofList, kebab]
  cases s.toList with
  | nil => rfl
  | cons c cs => rw [uncapitalizedChars, kebabChars, kebabChars, Char.toLower_toLower_eq_toLower]

/-- Names without hyphens share an attribute exactly if they differ by a capital at the beginning at
most. -/
private theorem kebab_eq_kebab_iff (hs : '-' ∉ s.toList) (ht : '-' ∉ t.toList) :
    kebab s = kebab t ↔ uncapitalized s = uncapitalized t := by
  refine ⟨fun h => ?_, fun h => ?_⟩
  · rw [← camel_kebab hs, h, camel_kebab ht]
  · rw [← kebab_uncapitalized s, h, kebab_uncapitalized]

end Name

/-! ### Attributes -/

namespace Metadata

variable {m : Metadata} {prop attr : String}

/-- The text that binds an attribute to a value. -/
def bindingText (attr value : String) : String := ":" ++ attr ++ "=\"" ++ value ++ "\""

private theorem bindingText_inj {attr attr' value : String} :
    bindingText attr value = bindingText attr' value ↔ attr = attr' := by
  rw [bindingText, bindingText, String.append_left_inj, String.append_left_inj,
    String.append_left_inj, String.append_right_inj]

/-- An attribute is written for a prop: in the completion with its label, or in a snippet, where
there is one for every required prop in turn. -/
inductive IsAttribute (m : Metadata) (prop attr : String) : Prop where
  | completion (h : ⟨.prop, "p-" ++ prop, bindingText attr "$0"⟩ ∈ m.completions)
  | snippet (name : String) (before after : List String)
      (hrequired : m.requiredProps = before ++ prop :: after)
      (h : m.snippet name = "<" ++ Name.pascal name ++ tabStops 1 before ++
        " " ++ bindingText attr ("$" ++ toString (before.length + 1)) ++
        tabStops (before.length + 2) after ++ ">$0</" ++ Name.pascal name ++ ">")

/-- Tab stops are numbered through. -/
private theorem tabStops_append (n : Nat) (props more : List String) :
    tabStops n (props ++ more) = tabStops n props ++ tabStops (n + props.length) more := by
  induction props generalizing n with
  | nil => simp [tabStops]
  | cons prop rest ih =>
    have hnext : n + 1 + rest.length = n + (rest.length + 1) := by omega
    rw [List.cons_append, tabStops, ih, tabStops, List.length_cons, hnext]
    simp only [String.append_assoc]

/-- In a snippet every required prop has its tab stop. -/
theorem snippet_eq {before after : List String} (h : m.requiredProps = before ++ prop :: after)
    (name : String) :
    m.snippet name = "<" ++ Name.pascal name ++ tabStops 1 before ++
      " " ++ bindingText (Name.kebab prop) ("$" ++ toString (before.length + 1)) ++
      tabStops (before.length + 2) after ++ ">$0</" ++ Name.pascal name ++ ">" := by
  have hstops : tabStops 1 m.requiredProps = tabStops 1 before ++
      (" " ++ bindingText (Name.kebab prop) ("$" ++ toString (before.length + 1)) ++
        tabStops (before.length + 2) after) := by
    rw [h, tabStops_append, Nat.add_comm 1]
    rfl
  simp only [snippet, hstops, String.append_assoc]

private theorem mem_keys_of_mem_requiredProps (h : prop ∈ m.requiredProps) :
    prop ∈ m.props.keys := by
  obtain ⟨e, he, rfl⟩ := List.mem_map.mp h
  exact List.mem_map_of_mem (List.mem_of_mem_filter he)

/-- Every prop has one attribute, its name in kebab-case. -/
theorem isAttribute_iff :
    m.IsAttribute prop attr ↔ prop ∈ m.props.keys ∧ attr = Name.kebab prop := by
  constructor
  · rintro (h | ⟨name, before, after, hrequired, h⟩)
    · rcases List.mem_append.mp h with h | h
      · obtain ⟨e, he, heq⟩ := List.mem_map.mp h
        obtain ⟨-, hlabel, htext⟩ := Completion.mk.inj heq
        obtain rfl : e.1 = prop := String.append_right_inj _ |>.mp hlabel
        exact ⟨List.mem_map_of_mem he, (bindingText_inj.mp htext).symm⟩
      · obtain ⟨event, -, heq⟩ := List.mem_map.mp h
        cases heq
    · refine ⟨mem_keys_of_mem_requiredProps (by simp [hrequired]), ?_⟩
      -- the snippet is the same up to the attribute and from behind it
      rw [snippet_eq hrequired name, String.append_left_inj, String.append_left_inj,
        String.append_left_inj, String.append_left_inj, String.append_right_inj,
        bindingText_inj] at h
      exact h.symm
  · rintro ⟨hprop, rfl⟩
    obtain ⟨e, he, rfl⟩ := List.mem_map.mp hprop
    exact .completion (List.mem_append_left _ (List.mem_map_of_mem he))

/-! ### Metadata of documents -/

/-- Metadata that a document is read to, with mixins that were read before, or that a run
answers. -/
inductive Produced : Metadata → Prop where
  | extracted {w : Workspace} {mixin? : Path → Option Metadata} {kind : DocumentKind} {path : Path}
      {text : String} {m : Metadata} (h : w.extract mixin? kind path text = .ok m)
      (hmixins : ∀ p mixin, mixin? p = some mixin → Produced mixin) : Produced m
  | answered {options : ServiceOptions} {queries : List Query} {e : Encounter} {m : Metadata}
      (he : e ∈ encounters (.start options) queries) (hm : m ∈ e.answer.metadata?) : Produced m

/-- Produced metadata is well formed. -/
theorem Produced.wellFormed (h : m.Produced) : m.WellFormed := by
  induction h with
  | @extracted w mixin? kind path text m h _ ih =>
    unfold Workspace.extract at h
    cases hd : Declarations.ofDocument kind path text with
    | error e => simp [hd, bind, Except.bind] at h
    | ok d =>
      rw [hd] at h
      obtain rfl := Except.ok.inj h
      have hwell : d.WellFormed := Declarations.wellFormed_of_ofDocument (by rw [hd]; rfl)
      refine Workspace.wellFormed_merge hwell fun mixin hmixin => ?_
      obtain ⟨p, -, hp⟩ := List.mem_filterMap.mp hmixin
      exact ih p mixin hp
  | @answered options queries e m he hm =>
    refine metadataLaw_wellFormed.of_mem_encounters ?_ e he m hm
    exact List.pairwise_of_forall fun _ _ _ h => h

/-- An attribute is read back as the prop with its first letter in lower case. -/
theorem WellFormed.camel_of_isAttribute (hm : m.WellFormed) (h : m.IsAttribute prop attr) :
    Name.camel attr = Name.uncapitalized prop := by
  obtain ⟨hprop, rfl⟩ := isAttribute_iff.mp h
  obtain ⟨e, he, rfl⟩ := List.mem_map.mp hprop
  exact Name.camel_kebab (hm.props e he).hyphen_notMem

/-- A prop with an attribute has no hyphen. -/
private theorem WellFormed.hyphen_notMem_of_isAttribute (hm : m.WellFormed)
    (h : m.IsAttribute prop attr) : '-' ∉ prop.toList := by
  obtain ⟨e, he, rfl⟩ := List.mem_map.mp (isAttribute_iff.mp h).1
  exact (hm.props e he).hyphen_notMem

/-- **Attributes.** In all metadata that documents are read to, the attributes that are written for
props bind these props if and only if no name of a prop begins with a capital. The attribute of a
prop whose name does is read back with the first letter in lower case, and two props have one
attribute exactly if their names differ in the case of the first letter at most. -/
theorem Produced.readBack_iff (hm : m.Produced) :
    ((∀ prop attr, m.IsAttribute prop attr → Name.camel attr = prop) ↔
      ∀ prop ∈ m.props.keys, ¬ Name.BeginsWithCapital prop) ∧
    (∀ prop attr, m.IsAttribute prop attr → Name.camel attr = Name.uncapitalized prop ∧
      (Name.camel attr = prop ↔ ¬ Name.BeginsWithCapital prop)) ∧
    ∀ prop prop' attr attr', m.IsAttribute prop attr → m.IsAttribute prop' attr' →
      (attr = attr' ↔ Name.uncapitalized prop = Name.uncapitalized prop') := by
  have hread : ∀ prop attr, m.IsAttribute prop attr → Name.camel attr = Name.uncapitalized prop ∧
      (Name.camel attr = prop ↔ ¬ Name.BeginsWithCapital prop) := by
    intro prop attr h
    have hcamel := hm.wellFormed.camel_of_isAttribute h
    exact ⟨hcamel, hcamel ▸ Name.uncapitalized_eq_iff⟩
  refine ⟨⟨fun h prop hprop => ?_, fun h prop attr hattr => ?_⟩, hread, ?_⟩
  · have hattr : m.IsAttribute prop (Name.kebab prop) := isAttribute_iff.mpr ⟨hprop, rfl⟩
    exact (hread prop _ hattr).2.mp (h prop _ hattr)
  · exact (hread prop attr hattr).2.mpr (h prop (isAttribute_iff.mp hattr).1)
  · intro prop prop' attr attr' h h'
    rw [(isAttribute_iff.mp h).2, (isAttribute_iff.mp h').2]
    exact Name.kebab_eq_kebab_iff (hm.wellFormed.hyphen_notMem_of_isAttribute h)
      (hm.wellFormed.hyphen_notMem_of_isAttribute h')

end Metadata

/-! ### Props of two documents -/

namespace Sample

/-- What a script without mixins is read to. -/
private theorem produced_of_script {text : String} {m : Metadata}
    (h : (options.workspace .empty .empty).extract (fun _ => none) .mixin ⟨"/card.js"⟩ text =
      .ok m) : m.Produced :=
  .extracted h (by simp)

def shelfText : String :=
  exporting "" "props: \x7b 'max-size': \x7b required: true \x7d, aBC_9: null, ÉcolE: null \x7d"

/-- The shelf has props with capitals, digits, underscores and other letters, but no capital of
ASCII in front. -/
def shelf : Metadata :=
  ⟨[("maxSize", ⟨true, none, none⟩), ("aBC_9", .unconstrained), ("ÉcolE", .unconstrained)], [], []⟩

private theorem produced_shelf : shelf.Produced := by
  have h : (options.workspace .empty .empty).extract (fun _ => none) .mixin ⟨"/card.js"⟩
      shelfText = .ok shelf := by
    decide +kernel
  exact produced_of_script h

def titlesText : String :=
  exporting "" ("props: \x7b Title: \x7b required: true \x7d, " ++
    "title: \x7b required: true \x7d \x7d")

/-- A card with two titles, both of them required. -/
def titles : Metadata := ⟨[("Title", ⟨true, none, none⟩), ("title", ⟨true, none, none⟩)], [], []⟩

private theorem produced_titles : titles.Produced := by
  have h : (options.workspace .empty .empty).extract (fun _ => none) .mixin ⟨"/card.js"⟩
      titlesText = .ok titles := by
    decide +kernel
  exact produced_of_script h

end Sample

/-- All attributes of the shelf bind its props. -/
theorem Metadata.readBack_shelf :
    Sample.shelf.Produced ∧
      ∀ prop attr, Sample.shelf.IsAttribute prop attr → Name.camel attr = prop :=
  ⟨Sample.produced_shelf, Sample.produced_shelf.readBack_iff.1.mpr (by decide)⟩

/-- In the snippet of a card both titles get one attribute, which binds the second. -/
theorem Metadata.not_readBack_titles :
    Sample.titles.Produced ∧
      Sample.titles.snippet "the-thing" =
        "<TheThing :title=\"$1\" :title=\"$2\">$0</TheThing>" ∧
      Sample.titles.IsAttribute "Title" "title" ∧ Sample.titles.IsAttribute "title" "title" ∧
      Name.camel "title" ≠ "Title" :=
  ⟨Sample.produced_titles, by decide, .completion (by decide), .completion (by decide), by decide⟩

end ComponentInsight

import ComponentInsight.Proofs.Document.Rendering

/-!
# Splitting undoes rendering

A document is split into a template, a script, a setup script, styles and blocks with other tags.
`Outline.Shows` says what splitting must find of a list of elements, `Written.Valid` which documents
can be split: each of the first three occurs at most once.

Blocks are added one by one, so the argument goes by the elements added so far. `Outline.Shows.add`
puts one more element in its role, `Outline.exists_foldlM_add` all of them, and with
`Written.forall₂_blocks` splitting finds exactly what was written (`exists_ofText_eq`).
-/

namespace ComponentInsight.Document

namespace Element

/-- Whether the element is a template. -/
def isTemplate (e : Element) : Bool := e.kind == "template"

/-- Whether the element is a script that is no setup script. -/
def isPlainScript (e : Element) : Bool := e.kind == "script" && !e.hasSetup

/-- Whether the element is a setup script. -/
def isSetupScript (e : Element) : Bool := e.kind == "script" && e.hasSetup

/-- Whether the element is a style. -/
def isStyle (e : Element) : Bool := e.kind == "style"

/-- Whether the element has a tag of its own. -/
def isCustom (e : Element) : Bool :=
  e.kind != "template" && e.kind != "script" && e.kind != "style"

end Element

/-- A document that can be written: its elements can be, and there is at most one of each that
should not be repeated. -/
@[mk_iff]
structure Written.Valid (d : Written) : Prop where
  elements : ∀ e ∈ d.elements, e.Valid
  after : '<' ∉ d.after.toList
  template : d.elements.countP Element.isTemplate ≤ 1
  script : d.elements.countP Element.isPlainScript ≤ 1
  setup : d.elements.countP Element.isSetupScript ≤ 1

instance : DecidablePred Written.Valid := fun d => decidable_of_iff _ (Written.valid_iff d).symm

/-- What is found of a document: the elements by their roles, styles and tags of other elements in
order. -/
structure Outline.Shows (o : Outline) (es : List Element) : Prop where
  template : Option.Rel Block.Shows o.template (es.find? Element.isTemplate)
  script : Option.Rel Block.Shows o.script (es.find? Element.isPlainScript)
  setup : Option.Rel Block.Shows o.setup (es.find? Element.isSetupScript)
  styles : List.Forall₂ Block.Shows o.styles (es.filter Element.isStyle)
  custom : o.custom = (es.filter Element.isCustom).map Element.tag

/-! ### One more element -/

section Roles

variable {p : Element → Bool} {es : List Element} {e : Element} {b : Block} {found : Option Block}

/-- What is found in a role stays if another element follows. -/
private theorem rel_concat_of_neg (h : Option.Rel Block.Shows found (es.find? p))
    (he : p e = false) : Option.Rel Block.Shows found ((es ++ [e]).find? p) := by
  rw [List.find?_append]
  simpa [he] using h

/-- An element in a role that must not be repeated finds the role free and fills it. -/
private theorem rel_concat_of_pos (h : Option.Rel Block.Shows found (es.find? p)) (hb : b.Shows e)
    (hcount : (es ++ [e]).countP p ≤ 1) (he : p e = true) :
    found = none ∧ Option.Rel Block.Shows (some b) ((es ++ [e]).find? p) := by
  have hnone : es.find? p = none := by
    rw [List.countP_append, List.countP_singleton, if_pos he] at hcount
    exact List.find?_eq_none.mpr (List.countP_eq_zero.mp (by omega))
  rw [hnone] at h
  rw [List.find?_append, hnone]
  refine ⟨?_, ?_⟩
  · cases h
    rfl
  · have hfound : [e].find? p = some e := by simp [he]
    rw [hfound]
    exact .some hb

private theorem filter_concat_of_neg (he : p e = false) : (es ++ [e]).filter p = es.filter p := by
  simp [he]

end Roles

private theorem Block.Shows.kind_eq {b : Block} {e : Element} (h : b.Shows e) :
    b.kind = e.kind := by
  rw [Block.kind, Element.kind, h.tag]

namespace Outline

variable {o : Outline} {b : Block} {e : Element} {es : List Element}

private theorem add_of_custom (ht : b.kind ≠ "template") (hs : b.kind ≠ "script")
    (hst : b.kind ≠ "style") : o.add b = .ok { o with custom := o.custom ++ [b.tag.text] } := by
  unfold add
  split
  · next h => exact absurd h ht
  · next h => exact absurd h hs
  · next h => exact absurd h hst
  · rfl

namespace Shows

/-- A template is put in its place, which is free. -/
private theorem add_template (h : o.Shows es) (hb : b.Shows e) (ht : e.kind = "template")
    (hcount : (es ++ [e]).countP Element.isTemplate ≤ 1) :
    ∃ o', o.add b = .ok o' ∧ o'.Shows (es ++ [e]) := by
  obtain ⟨hfree, hrel⟩ := rel_concat_of_pos h.template hb hcount (by simp [Element.isTemplate, ht])
  refine ⟨{ o with template := some b }, ?_, hrel,
    rel_concat_of_neg h.script (by simp [Element.isPlainScript, ht]),
    rel_concat_of_neg h.setup (by simp [Element.isSetupScript, ht]), ?_, ?_⟩
  · simp only [Outline.add, hb.kind_eq, ht, hfree]
    rfl
  · rw [filter_concat_of_neg (by simp [Element.isStyle, ht])]
    exact h.styles
  · rw [filter_concat_of_neg (by simp [Element.isCustom, ht])]
    exact h.custom

/-- A script is put in one of two places, as it is a setup script or not, and this one is free. -/
private theorem add_script (h : o.Shows es) (hb : b.Shows e) (hs : e.kind = "script")
    (hscript : (es ++ [e]).countP Element.isPlainScript ≤ 1)
    (hsetup : (es ++ [e]).countP Element.isSetupScript ≤ 1) :
    ∃ o', o.add b = .ok o' ∧ o'.Shows (es ++ [e]) := by
  have hkept : Option.Rel Block.Shows o.template ((es ++ [e]).find? Element.isTemplate) :=
    rel_concat_of_neg h.template (by simp [Element.isTemplate, hs])
  have hstyles : (es ++ [e]).filter Element.isStyle = es.filter Element.isStyle :=
    filter_concat_of_neg (by simp [Element.isStyle, hs])
  have hcustom : (es ++ [e]).filter Element.isCustom = es.filter Element.isCustom :=
    filter_concat_of_neg (by simp [Element.isCustom, hs])
  cases hattribute : e.hasSetup with
  | true =>
    obtain ⟨hfree, hrel⟩ := rel_concat_of_pos h.setup hb hsetup
      (by simp [Element.isSetupScript, hs, hattribute])
    refine ⟨{ o with setup := some b }, ?_, hkept,
      rel_concat_of_neg h.script (by simp [Element.isPlainScript, hattribute]), hrel,
      hstyles ▸ h.styles, hcustom ▸ h.custom⟩
    simp only [Outline.add, hb.kind_eq, hs, hb.setup, hattribute, hfree]
    rfl
  | false =>
    obtain ⟨hfree, hrel⟩ := rel_concat_of_pos h.script hb hscript
      (by simp [Element.isPlainScript, hs, hattribute])
    refine ⟨{ o with script := some b }, ?_, hkept, hrel,
      rel_concat_of_neg h.setup (by simp [Element.isSetupScript, hattribute]),
      hstyles ▸ h.styles, hcustom ▸ h.custom⟩
    simp only [Outline.add, hb.kind_eq, hs, hb.setup, hattribute, hfree]
    rfl

/-- Styles and blocks with tags of their own leave the three places alone that are filled once, so
that only the lists count for them. -/
private theorem concat_of_repeatable (h : o.Shows es) (ht : e.kind ≠ "template")
    (hs : e.kind ≠ "script") {styles : List Block} {custom : List String}
    (hstyles : List.Forall₂ Block.Shows styles ((es ++ [e]).filter Element.isStyle))
    (hcustom : custom = ((es ++ [e]).filter Element.isCustom).map Element.tag) :
    Outline.Shows { o with styles, custom } (es ++ [e]) where
  template := rel_concat_of_neg h.template (by simp [Element.isTemplate, ht])
  script := rel_concat_of_neg h.script (by simp [Element.isPlainScript, hs])
  setup := rel_concat_of_neg h.setup (by simp [Element.isSetupScript, hs])
  styles := hstyles
  custom := hcustom

/-- A style is put behind the others. -/
private theorem add_style (h : o.Shows es) (hb : b.Shows e) (hst : e.kind = "style") :
    ∃ o', o.add b = .ok o' ∧ o'.Shows (es ++ [e]) := by
  have hstyles : (es ++ [e]).filter Element.isStyle = es.filter Element.isStyle ++ [e] := by
    simp [Element.isStyle, hst]
  have hcustom : (es ++ [e]).filter Element.isCustom = es.filter Element.isCustom :=
    filter_concat_of_neg (by simp [Element.isCustom, hst])
  refine ⟨{ o with styles := o.styles ++ [b] }, ?_,
    h.concat_of_repeatable (by simp [hst]) (by simp [hst]) ?_ (hcustom ▸ h.custom)⟩
  · simp only [Outline.add, hb.kind_eq, hst]
  · rw [hstyles]
    exact List.rel_append h.styles (.cons hb .nil)

/-- Of a block with a tag of its own the tag is put behind the others. -/
private theorem add_custom (h : o.Shows es) (hb : b.Shows e) (ht : e.kind ≠ "template")
    (hs : e.kind ≠ "script") (hst : e.kind ≠ "style") :
    ∃ o', o.add b = .ok o' ∧ o'.Shows (es ++ [e]) := by
  have hstyles : (es ++ [e]).filter Element.isStyle = es.filter Element.isStyle :=
    filter_concat_of_neg (by simp [Element.isStyle, hst])
  have hcustom : (es ++ [e]).filter Element.isCustom = es.filter Element.isCustom ++ [e] := by
    simp [Element.isCustom, ht, hs, hst]
  have hkind := hb.kind_eq
  refine ⟨_, add_of_custom (hkind ▸ ht) (hkind ▸ hs) (hkind ▸ hst),
    h.concat_of_repeatable ht hs (hstyles ▸ h.styles) ?_⟩
  rw [hcustom, List.map_append, ← h.custom, hb.tag]
  rfl

/-- One more element is put in its role. -/
theorem add (h : o.Shows es) (hb : b.Shows e)
    (htemplate : (es ++ [e]).countP Element.isTemplate ≤ 1)
    (hscript : (es ++ [e]).countP Element.isPlainScript ≤ 1)
    (hsetup : (es ++ [e]).countP Element.isSetupScript ≤ 1) :
    ∃ o', o.add b = .ok o' ∧ o'.Shows (es ++ [e]) := by
  by_cases ht : e.kind = "template"
  · exact h.add_template hb ht htemplate
  by_cases hs : e.kind = "script"
  · exact h.add_script hb hs hscript hsetup
  by_cases hst : e.kind = "style"
  · exact h.add_style hb hst
  · exact h.add_custom hb ht hs hst

end Shows

/-- All elements are put in their roles. -/
theorem exists_foldlM_add {bs : List Block} {rest : List Element}
    (hbs : List.Forall₂ Block.Shows bs rest) (h : o.Shows es)
    (htemplate : (es ++ rest).countP Element.isTemplate ≤ 1)
    (hscript : (es ++ rest).countP Element.isPlainScript ≤ 1)
    (hsetup : (es ++ rest).countP Element.isSetupScript ≤ 1) :
    ∃ o', bs.foldlM Outline.add o = .ok o' ∧ o'.Shows (es ++ rest) := by
  induction hbs generalizing o es with
  | nil => exact ⟨o, rfl, by simpa using h⟩
  | @cons b e bs rest hb _ ih =>
    have hsplit : es ++ e :: rest = es ++ [e] ++ rest := by simp
    have hsub : (es ++ [e]).Sublist (es ++ e :: rest) := hsplit ▸ List.sublist_append_left _ _
    obtain ⟨o', hadd, ho'⟩ := h.add hb ((hsub.countP_le).trans htemplate)
      ((hsub.countP_le).trans hscript) ((hsub.countP_le).trans hsetup)
    rw [hsplit] at htemplate hscript hsetup ⊢
    rw [List.foldlM_cons, hadd]
    exact ih ho' htemplate hscript hsetup

/-- An outline without blocks shows a document without elements. -/
private theorem shows_empty : Outline.empty.Shows [] := ⟨.none, .none, .none, .nil, rfl⟩

end Outline

/-- **Splitting undoes rendering.** A document written from elements that can be told apart is
split without an error, and what is found is what was written: contents and tags as they are, all
attributes and no other, each element in its role and those of one role in order. -/
theorem exists_ofText_eq (d : Written) (h : d.Valid) :
    ∃ o, Outline.ofText d.text = .ok o ∧ o.Shows d.elements :=
  Outline.exists_foldlM_add (Written.forall₂_blocks h.elements h.after) Outline.shows_empty
    h.template h.script h.setup

/-- A page whose contents look like other parts of a document. -/
def samplePage : Written where
  elements := [
    ⟨"", "Docs", [], "<template> and </docs in the text, <!-- é", "dOCS"⟩,
    ⟨"\n", "TEMPLATE", [("lang", some "a > b/"), ("functional", none)],
      "<p :a=\"b > c\">文 </templat></p> <script>", "template"⟩,
    ⟨" > ", "script", [("lang", some "ts"), ("src", some "")], "if (a </b/.c) d(`<script>`)",
      "Script"⟩,
    ⟨"=\"", "script", [("setup", none), ("lang", some "tsx")], "", "script"⟩,
    ⟨"\n", "style", [("scoped", none), ("SRC", some "./a.css")], "a > b \x7b\x7d", "STYLE"⟩,
    ⟨"", "style", [], "</style", "style"⟩,
    ⟨"-->", "i18n", [("@on", none)], "\x7b \x7d", "I18N"⟩]
  after := "-->\n"

/-- The sample is valid, and it is split as the theorem says. -/
theorem exists_ofText_samplePage : samplePage.Valid ∧
    ∃ o, Outline.ofText samplePage.text = .ok o ∧ o.Shows samplePage.elements :=
  ⟨by decide +kernel, exists_ofText_eq samplePage (by decide +kernel)⟩

end ComponentInsight.Document

import ComponentInsight.Proofs.Service.Shape

/-!
# Tags of child components

A template may write the tag of a child component as it is registered, in PascalCase or in
kebab-case, and the look-up tries the tag as it is before it tries its PascalCase spelling
(`Metadata.component?`). In well-formed metadata the first attempt never finds anything that the
second one does not, since names are in PascalCase there. So a tag stands for the component of its
PascalCase spelling (`Metadata.WellFormed.component?_eq`), and every spelling with the same words
stands for the same component.

In kebab-case no word of a name is lost, wherever its capitals stand (`Name.pascal_kebab`).
`component?_answers` puts both together for all metadata that a run answers.
-/

namespace ComponentInsight

/-! ### Kebab-case and PascalCase -/

namespace Name

/-- A letter separates nothing. -/
theorem not_isSeparator_of_isAlpha {c : Char} (h : c.isAlpha = true) : ¬ IsSeparator c := by
  rintro (rfl | rfl) <;> exact absurd h (by decide)

/-- The upper case of a capital is the capital. -/
theorem toUpper_of_isUpper {c : Char} (h : c.isUpper = true) : c.toUpper = c :=
  Char.toUpper_eq_of_not_isLower (Char.not_isLower_of_isUpper h)

variable {capital : Bool} {c : Char} {cs : List Char}

private theorem pascalChars_cons_of_isSeparator (h : IsSeparator c) :
    pascalChars capital (c :: cs) = pascalChars true cs :=
  if_pos h

private theorem pascalChars_cons_of_notSeparator (h : ¬ IsSeparator c) :
    pascalChars capital (c :: cs) = (if capital then c.toUpper else c) :: pascalChars false cs :=
  if_neg h

/-- A capital that is written in lower case behind a hyphen is read as the capital. -/
theorem pascalChars_flatMap_kebabChar (capital : Bool) (cs : List Char) :
    pascalChars capital (cs.flatMap kebabChar) = pascalChars capital cs := by
  induction cs generalizing capital with
  | nil => rfl
  | cons c cs ih =>
    rw [List.flatMap_cons, kebabChar]
    by_cases hcapital : c.isUpper = true
    · have hletter : c.isAlpha = true := by simp [Char.isAlpha, hcapital]
      have hlower : ¬ IsSeparator c.toLower := not_isSeparator_of_isAlpha (by simpa using hletter)
      rw [if_pos hcapital, List.cons_append, List.singleton_append,
        pascalChars_cons_of_isSeparator (.inl rfl), pascalChars_cons_of_notSeparator hlower,
        pascalChars_cons_of_notSeparator (not_isSeparator_of_isAlpha hletter), ih]
      cases capital <;> simp [toUpper_of_isUpper hcapital]
    · rw [if_neg hcapital, List.singleton_append]
      by_cases hseparator : IsSeparator c
      · rw [pascalChars_cons_of_isSeparator hseparator, pascalChars_cons_of_isSeparator hseparator,
          ih]
      · rw [pascalChars_cons_of_notSeparator hseparator,
          pascalChars_cons_of_notSeparator hseparator, ih]

/-- The first character of a PascalCase name is a capital, whether or not it is written as one. -/
theorem pascalChars_true_toLower_cons (c : Char) (cs : List Char) :
    pascalChars true (c.toLower :: cs) = pascalChars true (c :: cs) := by
  by_cases hcapital : c.isUpper = true
  · have hletter : c.isAlpha = true := by simp [Char.isAlpha, hcapital]
    have hlower : ¬ IsSeparator c.toLower := not_isSeparator_of_isAlpha (by simpa using hletter)
    rw [pascalChars_cons_of_notSeparator hlower,
      pascalChars_cons_of_notSeparator (not_isSeparator_of_isAlpha hletter),
      if_pos rfl, if_pos rfl, Char.toUpper_toLower_eq_toUpper]
  · rw [Char.toLower_eq_of_not_isUpper hcapital]

/-- A name and its kebab-case spelling have the same PascalCase spelling. -/
theorem pascal_kebab (s : String) : pascal (kebab s) = pascal s := by
  rw [pascal, kebab, String.toList_ofList, pascal]
  congr 1
  cases s.toList with
  | nil => rfl
  | cons c cs =>
    rw [kebabChars, pascalChars_true_toLower_cons]
    by_cases hseparator : IsSeparator c
    · rw [pascalChars_cons_of_isSeparator hseparator, pascalChars_cons_of_isSeparator hseparator,
        pascalChars_flatMap_kebabChar]
    · rw [pascalChars_cons_of_notSeparator hseparator,
        pascalChars_cons_of_notSeparator hseparator, pascalChars_flatMap_kebabChar]

end Name

/-! ### Tags and names -/

namespace Metadata.WellFormed

variable {m : Metadata} (hm : m.WellFormed)
include hm

/-- A tag stands for the component of its PascalCase spelling: what is found under the tag itself
is that component. -/
theorem component?_eq (tag : String) : m.component? tag = m.components.find? (Name.pascal tag) := by
  unfold component?
  cases hraw : m.components.find? tag with
  | none => rfl
  | some path =>
    have hpascal : Name.pascal tag = tag := hm.components _ (Table.mem_of_find?_eq_some hraw)
    rw [hpascal, hraw]
    rfl

/-- A tag stands for a registered component if its PascalCase spelling is the name. -/
theorem component?_of_mem {name : String} {path : Path} (h : (name, path) ∈ m.components)
    {tag : String} (htag : Name.pascal tag = name) : m.component? tag = some path := by
  rw [hm.component?_eq, htag]
  exact Table.find?_eq_some_of_mem (hm.nodup .components) h

end Metadata.WellFormed

/-! ### Answers -/

namespace Sample

/-- A gallery that registers a component under a name in kebab-case, while it is edited. -/
def gallery : Subject :=
  .buffer ("<script>" ++ exporting "import UserCard from './UserCard.vue'\n"
    "components: \x7b 'user-card': UserCard \x7d" ++ "</script>") ⟨"/gallery.vue"⟩

def galleryTree : FileTree := ⟨[(["UserCard.vue"], ⟨some "", 1⟩)], []⟩

/-- The first query of the gallery. -/
def galleryQuery : Query := ⟨galleryTree, .empty, gallery.request⟩

def galleryMetadata : Metadata := ⟨[], [("UserCard", ⟨"/UserCard.vue"⟩)], []⟩

private theorem answer_gallery : options.answer galleryQuery = .metadata galleryMetadata := by
  have hrecord : (Service.start options).record?
      ((Service.start options).workspace galleryTree .empty).1 gallery =
        some ⟨galleryMetadata, []⟩ := by
    decide +kernel
  have hfirst : options.answer galleryQuery =
      ((Service.start options).ask galleryTree .empty gallery.request).1 := rfl
  rw [hfirst, Service.ask_request_fst, hrecord]
  rfl

end Sample

/-- **Tags.** In all metadata that a run answers, whatever happens to files and settings, a tag
stands for the component of its PascalCase spelling, and a component for the tags that are its name,
the name in kebab-case and all others of which it is the PascalCase spelling. -/
theorem component?_answers (options : ServiceOptions) (queries : List Query) :
    ∀ e ∈ encounters (.start options) queries, ∀ m ∈ e.answer.metadata?,
      (∀ tag, m.component? tag = m.components.find? (Name.pascal tag)) ∧
        ∀ c ∈ m.components, m.component? c.1 = some c.2 ∧
          m.component? (Name.kebab c.1) = some c.2 ∧
            ∀ key, Name.pascal key = c.1 → m.component? key = some c.2 := by
  intro e he m hanswer
  have hm : m.WellFormed := by
    refine metadataLaw_wellFormed.of_mem_encounters ?_ e he m hanswer
    exact List.pairwise_of_forall fun _ _ _ h => h
  refine ⟨hm.component?_eq, fun c hc => ?_⟩
  have hname : Name.pascal c.1 = c.1 := hm.components c hc
  exact ⟨hm.component?_of_mem hc hname, hm.component?_of_mem hc (by rw [Name.pascal_kebab, hname]),
    fun key hkey => hm.component?_of_mem hc hkey⟩

/-- The card of the gallery has three tags, of which one is not what the document wrote. -/
theorem component?_answers_gallery :
    ∃ e ∈ encounters (.start Sample.options) [Sample.galleryQuery],
      Sample.galleryMetadata ∈ e.answer.metadata? ∧
        ("UserCard", ⟨"/UserCard.vue"⟩) ∈ Sample.galleryMetadata.components ∧
          Sample.galleryMetadata.component? "UserCard" = some ⟨"/UserCard.vue"⟩ ∧
            Sample.galleryMetadata.component? (Name.kebab "UserCard") = some ⟨"/UserCard.vue"⟩ ∧
              Sample.galleryMetadata.component? "user_card" = some ⟨"/UserCard.vue"⟩ := by
  have hanswer :
      Sample.galleryMetadata ∈ (Sample.options.answer Sample.galleryQuery).metadata? := by
    rw [Sample.answer_gallery]
    rfl
  have hcard : ("UserCard", ⟨"/UserCard.vue"⟩) ∈ Sample.galleryMetadata.components := by decide
  obtain ⟨hname, hkebab, hkeys⟩ := (component?_answers Sample.options [Sample.galleryQuery]
    ⟨Sample.galleryQuery, .start Sample.options⟩ List.mem_cons_self _ hanswer).2 _ hcard
  exact ⟨_, List.mem_cons_self, hanswer, hcard, hname, hkebab, hkeys "user_card" (by decide)⟩

end ComponentInsight

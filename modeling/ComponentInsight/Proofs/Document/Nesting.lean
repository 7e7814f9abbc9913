import ComponentInsight.Proofs.Document.Contents
import Mathlib.Data.List.TakeWhile

/-!
# Nested templates

The content of a template may hold templates. `IsTemplateContent` is its grammar: texts without
template tags, nested templates with contents of their own, and templates that close themselves.

The depth that `templateIndex?` counts follows the grammar: behind a content it is what it was in
front of it (`IsTemplateContent.templateIndex?_append`), and where the count ends, it ends behind a
content (`isOpenContent_take`). So a text is found again as the content of a template if and
only if the grammar derives it (`templateIndex?_eq_length_iff`).

The cases of `templateIndex?` are stated once, by the tag at the head of the text
(`templateIndex?_induction`); all facts about it go by this induction.
-/

namespace ComponentInsight.Document

/-! ### The grammar of contents -/

/-- A closing tag of a template, in any letter case. -/
def IsTemplateEnd (s : List Char) : Prop := folded s = "</template>".toList

/-- A tag of a template that opens. What stands behind the name, if anything, begins with a blank,
is free of `>` and does not end with a slash. -/
inductive IsTemplateStart : List Char → Prop
  | bare {name : List Char} : folded name = "template".toList →
      IsTemplateStart ('<' :: (name ++ ['>']))
  | attributes {name attrs : List Char} {blank : Char} : folded name = "template".toList →
      blank ∈ [' ', '\t', '\r', '\n'] → '>' ∉ attrs → attrs.getLast? ≠ some '/' →
      IsTemplateStart ('<' :: (name ++ blank :: (attrs ++ ['>'])))

/-- A tag of a template that closes itself. -/
inductive IsTemplateSingle : List Char → Prop
  | intro {name attrs : List Char} {blank : Char} : folded name = "template".toList →
      blank ∈ [' ', '\t', '\r', '\n'] → '>' ∉ attrs →
      IsTemplateSingle ('<' :: (name ++ blank :: (attrs ++ ['/', '>'])))

/-- A text that holds no closing tag of a template and no tag that opens one, in any letter case. -/
structure IsTemplateText (s : List Char) : Prop where
  stop : ¬ "</template>".toList <:+: folded s
  start : ∀ x ∈ [' ', '\t', '\r', '\n', '>'], ¬ "<template".toList ++ [x] <:+: folded s

instance : DecidablePred IsTemplateText := fun s =>
  @decidable_of_iff (IsTemplateText s) (¬ "</template>".toList <:+: folded s ∧
      ∀ x ∈ [' ', '\t', '\r', '\n', '>'], ¬ "<template".toList ++ [x] <:+: folded s)
    ⟨fun h => ⟨h.1, h.2⟩, fun h => ⟨h.stop, h.start⟩⟩
    (@instDecidableAnd _ _ inferInstance (List.decidableBAll _ _))

/-- What a template may hold: texts, templates with contents of their own and templates that close
themselves, where no text follows a text. The flag tells whether a text stands in front. -/
inductive IsTemplateContent : Bool → List Char → Prop
  | nil {b : Bool} : IsTemplateContent b []
  | text {t more : List Char} : IsTemplateText t → IsTemplateContent true more →
      IsTemplateContent false (t ++ more)
  | nested {b : Bool} {start inner stop more : List Char} : IsTemplateStart start →
      IsTemplateContent false inner → IsTemplateEnd stop → IsTemplateContent false more →
      IsTemplateContent b (start ++ (inner ++ (stop ++ more)))
  | single {b : Bool} {tag more : List Char} : IsTemplateSingle tag →
      IsTemplateContent false more → IsTemplateContent b (tag ++ more)

/-! ### Tags at the head of a text -/

/-- A tag of a template with what stands behind its name. -/
structure IsTemplateTag (inner s : List Char) : Prop where
  eq : ∃ name, folded name = templateTag ∧ s = '<' :: (name ++ (inner ++ ['>']))
  head : ∀ x ∈ inner.head?, isTagSpace x = true
  gt : '>' ∉ inner

private theorem isTagSpace_iff {c : Char} : isTagSpace c = true ↔ c ∈ [' ', '\t', '\r', '\n'] := by
  simp only [isTagSpace, Bool.or_eq_true, beq_iff_eq, List.mem_cons, List.not_mem_nil, or_false]
  tauto

/-- An opening tag has an inside that does not end with a slash. -/
theorem IsTemplateStart.exists_inner {s : List Char} (h : IsTemplateStart s) :
    ∃ inner, IsTemplateTag inner s ∧ inner.getLast? ≠ some '/' := by
  cases h with
  | bare hname => exact ⟨[], ⟨⟨_, hname, rfl⟩, by simp, by simp⟩, by simp⟩
  | @attributes name attrs blank hname hblank hgt hlast =>
    refine ⟨blank :: attrs,
      ⟨⟨name, hname, by simp⟩, by simpa [isTagSpace_iff] using hblank, ?_⟩, ?_⟩
    · rintro (_ | ⟨_, hmem⟩)
      · simp at hblank
      · exact hgt hmem
    · cases attrs with
      | nil =>
        rintro heq
        obtain rfl : blank = '/' := by simpa using heq
        simp at hblank
      | cons a attrs => rwa [List.getLast?_cons_cons]

/-- A tag that closes itself has an inside that ends with a slash. -/
theorem IsTemplateSingle.exists_inner {s : List Char} (h : IsTemplateSingle s) :
    ∃ inner, IsTemplateTag inner s ∧ inner.getLast? = some '/' := by
  obtain @⟨name, attrs, blank, hname, hblank, hgt⟩ := h
  refine ⟨blank :: (attrs ++ ['/']), ⟨⟨name, hname, by simp⟩,
    by simpa [isTagSpace_iff] using hblank, ?_⟩, ?_⟩
  · simp only [List.mem_cons, List.mem_append, List.not_mem_nil, or_false, not_or]
    refine ⟨?_, hgt, by decide⟩
    rintro rfl
    simp at hblank
  · rw [← List.cons_append, List.getLast?_concat]

namespace IsTemplateTag

variable {inner s : List Char}

theorem length_pos (h : IsTemplateTag inner s) : 0 < s.length := by
  obtain ⟨⟨name, -, rfl⟩, -, -⟩ := h
  simp

/-- A tag with a slash at its end closes itself. -/
private theorem isTemplateSingle (h : IsTemplateTag inner s) (hlast : inner.getLast? = some '/') :
    IsTemplateSingle s := by
  obtain ⟨⟨name, hname, rfl⟩, hhead, hgt⟩ := h
  obtain ⟨front, rfl⟩ := List.getLast?_eq_some_iff.mp hlast
  cases front with
  | nil => simp [isTagSpace] at hhead
  | cons blank attrs =>
    have hblank : isTagSpace blank = true := hhead blank rfl
    have := IsTemplateSingle.intro hname (isTagSpace_iff.mp hblank)
      (fun hmem => hgt (by simp [hmem]) : '>' ∉ attrs)
    simpa using this

/-- A tag without one opens a template. -/
private theorem isTemplateStart (h : IsTemplateTag inner s) (hlast : inner.getLast? ≠ some '/') :
    IsTemplateStart s := by
  obtain ⟨⟨name, hname, rfl⟩, hhead, hgt⟩ := h
  cases inner with
  | nil => exact .bare hname
  | cons blank attrs =>
    have hblank : isTagSpace blank = true := hhead blank rfl
    refine (@IsTemplateStart.attributes name attrs blank hname
      (isTagSpace_iff.mp hblank) (fun hmem => hgt (by simp [hmem])) ?_ :)
    cases attrs with
    | nil => simp
    | cons a attrs => rwa [List.getLast?_cons_cons] at hlast

end IsTemplateTag

/-! ### The cases of the count -/

/-- A text that begins with another in any letter case has that beginning. -/
theorem exists_append_of_startsFolded {cs p : List Char} (h : startsFolded cs p = true) :
    ∃ tag more, cs = tag ++ more ∧ folded tag = folded p := by
  obtain ⟨rest, hrest⟩ := startsFolded_iff.mp h
  obtain ⟨tag, more, rfl, htag, -⟩ := List.map_eq_append_iff.mp hrest.symm
  exact ⟨tag, more, rfl, htag⟩

theorem startsFolded_append {s p : List Char} (h : folded s = folded p) (more : List Char) :
    startsFolded (s ++ more) p = true := by
  rw [startsFolded_iff, folded_append, h]
  exact List.prefix_append _ _

/-- A character that begins no tag is counted and left behind. -/
theorem templateIndex?_cons {depth : Nat} {c : Char} {cs : List Char}
    (hstop : startsFolded (c :: cs) (closingTag templateTag) = false)
    (hstart : opensTemplate (c :: cs) = false) :
    templateIndex? depth (c :: cs) = (templateIndex? depth cs).map (· + 1) := by
  rw [templateIndex?, hstop, hstart]
  rfl

/-- A closing tag starts with the name of a closing tag. -/
theorem IsTemplateEnd.startsFolded {tag : List Char} (h : IsTemplateEnd tag) (more : List Char) :
    startsFolded (tag ++ more) (closingTag templateTag) = true := by
  refine startsFolded_append ?_ more
  rw [h]
  decide

/-- A closing tag ends the outer template or leaves an inner one. -/
theorem IsTemplateEnd.templateIndex? {tag : List Char} (h : IsTemplateEnd tag) (depth : Nat)
    (more : List Char) : templateIndex? depth (tag ++ more) =
      if depth ≤ 1 then some 0
      else (templateIndex? (depth - 1) more).map (· + tag.length) := by
  have hlength : tag.length = 11 := by rw [← length_folded, h]; decide
  have hstarts := h.startsFolded more
  obtain ⟨c, cs, rfl⟩ := List.exists_cons_of_length_pos (by omega : 0 < tag.length)
  have hdrop : (cs ++ more).drop 10 = more := by
    have : cs.length = 10 := by simpa using hlength
    rw [← this, List.drop_left]
  rw [List.cons_append] at hstarts ⊢
  rw [Document.templateIndex?, if_pos hstarts, hdrop, hlength]

/-- The name of a template does not begin with a slash. -/
theorem startsFolded_name_eq_false {name : List Char} (h : folded name = templateTag)
    (rest : List Char) : startsFolded ('<' :: (name ++ rest)) (closingTag templateTag) = false := by
  obtain ⟨c, cs, rfl⟩ : ∃ c cs, name = c :: cs := by
    cases name with
    | nil => simp [templateTag] at h
    | cons c cs => exact ⟨c, cs, rfl⟩
  obtain ⟨hc, -⟩ := List.cons.inj h
  rw [startsFolded_eq_false_iff]
  simp [closingTag, hc]

/-- A tag of a template goes one level deeper unless it closes itself. -/
theorem IsTemplateTag.templateIndex? {inner tag : List Char} (h : IsTemplateTag inner tag)
    (depth : Nat) (more : List Char) : templateIndex? depth (tag ++ more) =
      (templateIndex? (if inner.getLast? = some '/' then depth else depth + 1) more).map
        (· + tag.length) := by
  obtain ⟨⟨name, hname, rfl⟩, hhead, hgt⟩ := h
  have hlength : name.length = 8 := by rw [← length_folded, hname]; rfl
  have hstop := startsFolded_name_eq_false hname (inner ++ '>' :: more)
  have hstarts : startsFolded ('<' :: (name ++ (inner ++ '>' :: more))) ('<' :: templateTag) =
      true := by
    refine startsFolded_append (s := '<' :: name) ?_ _
    rw [folded_cons, hname]
    decide
  have hdrop : ('<' :: (name ++ (inner ++ '>' :: more))).drop 9 = inner ++ '>' :: more := by
    rw [List.drop_succ_cons, ← hlength, List.drop_left]
  have hopen : opensTemplate ('<' :: (name ++ (inner ++ '>' :: more))) = true := by
    rw [opensTemplate, hstarts, hdrop]
    cases inner with
    | nil => rfl
    | cons x inner => simp [hhead x rfl]
  have hinner : (inner ++ '>' :: more).takeWhile (· != '>') = inner := by
    rw [List.takeWhile_append_of_pos fun x hx => by
      simpa using fun heq : x = '>' => hgt (heq ▸ hx)]
    simp
  have hgtStop : startsFolded ('>' :: more) (closingTag templateTag) = false := by
    rw [startsFolded_eq_false_iff]
    simp [closingTag]
  have hgtStart : opensTemplate ('>' :: more) = false := by
    rw [opensTemplate, startsFolded]
    rfl
  have happend : '<' :: (name ++ (inner ++ ['>'])) ++ more =
      '<' :: (name ++ (inner ++ '>' :: more)) := by simp
  have hrest : (name ++ (inner ++ '>' :: more)).drop 8 = inner ++ '>' :: more := by
    rw [← hlength, List.drop_left]
  rw [happend, Document.templateIndex?, hstop, if_neg Bool.false_ne_true, hopen, if_pos rfl]
  dsimp only
  rw [← List.drop_drop, hrest, hinner, List.drop_left, if_neg (by simp),
    templateIndex?_cons hgtStop hgtStart, Option.map_map]
  congr 1
  funext n
  simp [hlength]
  omega

/-- Where a template opens, its name is followed by a blank or by the end of the tag. -/
theorem exists_of_opensTemplate {cs : List Char} (h : opensTemplate cs = true) :
    ∃ name x more, cs = '<' :: (name ++ x :: more) ∧ folded name = templateTag ∧
      (isTagSpace x = true ∨ x = '>') := by
  rw [opensTemplate, Bool.and_eq_true] at h
  obtain ⟨hstarts, hnext⟩ := h
  obtain ⟨tag, more, rfl, htag⟩ := exists_append_of_startsFolded hstarts
  obtain ⟨c, name, rfl⟩ : ∃ c name, tag = c :: name := by
    cases tag with
    | nil => simp at htag
    | cons c name => exact ⟨c, name, rfl⟩
  obtain ⟨hc, hname⟩ := List.cons.inj htag
  obtain rfl := eq_lt_of_toLower hc
  replace hname : folded name = templateTag := hname.trans (by decide)
  have hdrop : ('<' :: name ++ more).drop 9 = more := by
    have hlength : ('<' :: name).length = 9 := by
      rw [List.length_cons, ← length_folded, hname]
      rfl
    rw [← hlength, List.drop_left]
  rw [hdrop] at hnext
  cases more with
  | nil => simp at hnext
  | cons x more =>
    refine ⟨name, x, more, rfl, hname, ?_⟩
    simpa using hnext

/-- Where a template opens and the tag ends, there is a tag of a template. -/
private theorem exists_tag_of_opensTemplate {cs : List Char} (h : opensTemplate cs = true)
    (hgt : '>' ∈ cs) : ∃ inner tag more, cs = tag ++ more ∧ IsTemplateTag inner tag := by
  obtain ⟨name, x, rest, rfl, hname, hx⟩ := exists_of_opensTemplate h
  have hmem : '>' ∈ x :: rest := by
    have hnot : '>' ∉ folded name := by
      rw [hname]
      decide
    have hnotName : '>' ∉ name := fun hmem => hnot (List.mem_map.mpr ⟨'>', hmem, rfl⟩)
    simpa [hnotName] using hgt
  obtain ⟨inner, more, hsplit, hinner⟩ := List.eq_append_cons_of_mem hmem
  refine ⟨inner, '<' :: (name ++ (inner ++ ['>'])), more, by simp [hsplit],
    ⟨name, hname, rfl⟩, fun y hy => ?_, hinner⟩
  obtain ⟨inner', rfl⟩ := List.head?_eq_some_iff.mp hy
  obtain ⟨rfl, -⟩ := List.cons.inj hsplit
  rcases hx with hx | rfl
  · exact hx
  · simp at hinner

/-- A tag of a template that does not end is the end of the search. -/
private theorem templateIndex?_eq_none {depth : Nat} {cs : List Char} (h : opensTemplate cs = true)
    (hgt : '>' ∉ cs) : templateIndex? depth cs = none := by
  obtain ⟨name, x, more, rfl, hname, -⟩ := exists_of_opensTemplate h
  have hstop := startsFolded_name_eq_false hname (x :: more)
  have hrest : (name ++ x :: more).drop 8 = x :: more := by
    have hlength : name.length = 8 := by rw [← length_folded, hname]; rfl
    rw [← hlength, List.drop_left]
  have hinner : (x :: more).takeWhile (· != '>') = x :: more := by
    rw [List.takeWhile_eq_self_iff]
    intro y hy
    simpa using fun heq : y = '>' => hgt (heq ▸ by simp [hy])
  rw [templateIndex?, hstop, if_neg Bool.false_ne_true, h, if_pos rfl]
  dsimp only
  rw [hrest, hinner, if_pos (Nat.le_refl _)]

/-- The cases of the count: nothing is left, a closing tag, a tag that opens a template or closes
itself, one that does not end, any other character. -/
@[elab_as_elim]
theorem templateIndex?_induction {motive : Nat → List Char → Option Nat → Prop}
    (nil : ∀ depth, motive depth [] none)
    (last : ∀ depth tag more, IsTemplateEnd tag → depth ≤ 1 → motive depth (tag ++ more) (some 0))
    (stop : ∀ depth tag more, IsTemplateEnd tag →
      motive (depth + 1) more (templateIndex? (depth + 1) more) →
      motive (depth + 2) (tag ++ more) ((templateIndex? (depth + 1) more).map (· + tag.length)))
    (start : ∀ depth tag more, IsTemplateStart tag →
      motive (depth + 1) more (templateIndex? (depth + 1) more) →
      motive depth (tag ++ more) ((templateIndex? (depth + 1) more).map (· + tag.length)))
    (single : ∀ depth tag more, IsTemplateSingle tag →
      motive depth more (templateIndex? depth more) →
      motive depth (tag ++ more) ((templateIndex? depth more).map (· + tag.length)))
    (cut : ∀ depth cs, opensTemplate cs = true → '>' ∉ cs → motive depth cs none)
    (char : ∀ depth c cs, startsFolded (c :: cs) (closingTag templateTag) = false →
      opensTemplate (c :: cs) = false → motive depth cs (templateIndex? depth cs) →
      motive depth (c :: cs) ((templateIndex? depth cs).map (· + 1)))
    (depth : Nat) (cs : List Char) : motive depth cs (templateIndex? depth cs) := by
  induction hn : cs.length using Nat.strong_induction_on generalizing depth cs with
  | _ n ih =>
    subst hn
    cases cs with
    | nil =>
      rw [templateIndex?]
      exact nil depth
    | cons c cs =>
      cases hstop : startsFolded (c :: cs) (closingTag templateTag) with
      | true =>
        obtain ⟨tag, more, hcs, htag⟩ := exists_append_of_startsFolded hstop
        replace htag : IsTemplateEnd tag := htag.trans (by decide)
        have hlength := congrArg List.length hcs
        have hpos : tag.length = 11 := by rw [← length_folded, htag]; decide
        rw [List.length_append] at hlength
        rw [hcs, htag.templateIndex?]
        split
        · next hdepth => exact last depth tag more htag hdepth
        · next hdepth =>
          obtain ⟨d, rfl⟩ : ∃ d, depth = d + 2 := ⟨depth - 2, by omega⟩
          exact stop d tag more htag (ih _ (by omega) (d + 1) more rfl)
      | false =>
        cases hstart : opensTemplate (c :: cs) with
        | false =>
          rw [templateIndex?_cons hstop hstart]
          exact char depth c cs hstop hstart (ih _ (by simp) depth cs rfl)
        | true =>
          by_cases hgt : '>' ∈ c :: cs
          · obtain ⟨inner, tag, more, hcs, htag⟩ := exists_tag_of_opensTemplate hstart hgt
            have hlength := congrArg List.length hcs
            have hpos := htag.length_pos
            rw [List.length_append] at hlength
            rw [hcs, htag.templateIndex?]
            split
            · next hlast =>
              exact single depth tag more (htag.isTemplateSingle hlast)
                (ih _ (by omega) depth more rfl)
            · next hlast =>
              exact start depth tag more (htag.isTemplateStart hlast)
                (ih _ (by omega) (depth + 1) more rfl)
          · rw [templateIndex?_eq_none hstart hgt]
            exact cut depth _ hstart hgt

/-! ### The count follows the grammar -/

/-- An opening tag makes the template deeper by one. -/
theorem IsTemplateStart.templateIndex? {tag : List Char} (h : IsTemplateStart tag) (depth : Nat)
    (more : List Char) : templateIndex? depth (tag ++ more) =
      (templateIndex? (depth + 1) more).map (· + tag.length) := by
  obtain ⟨inner, htag, hlast⟩ := h.exists_inner
  rw [htag.templateIndex?, if_neg hlast]

/-- A tag that closes itself leaves the depth. -/
theorem IsTemplateSingle.templateIndex? {tag : List Char} (h : IsTemplateSingle tag) (depth : Nat)
    (more : List Char) : templateIndex? depth (tag ++ more) =
      (templateIndex? depth more).map (· + tag.length) := by
  obtain ⟨inner, htag, hlast⟩ := h.exists_inner
  rw [htag.templateIndex?, if_pos hlast]

theorem IsTemplateEnd.exists_cons {tag : List Char} (h : IsTemplateEnd tag) :
    ∃ cs, tag = '<' :: cs := by
  cases tag with
  | nil => simp [IsTemplateEnd] at h
  | cons c cs =>
    obtain ⟨hc, -⟩ := List.cons.inj h
    exact ⟨cs, by rw [eq_lt_of_toLower hc]⟩

/-- Behind a text, the next tag begins or nothing is left. -/
private theorem IsTemplateContent.exists_append_eq_cons {more : List Char}
    (h : IsTemplateContent true more)
    (rest : List Char) : ∃ cs, more ++ '<' :: rest = '<' :: cs := by
  cases h with
  | nil => exact ⟨rest, rfl⟩
  | nested hstart =>
    obtain ⟨inner, ⟨⟨name, -, rfl⟩, -, -⟩, -⟩ := hstart.exists_inner
    exact ⟨_, rfl⟩
  | single htag =>
    obtain ⟨inner, ⟨⟨name, -, rfl⟩, -, -⟩, -⟩ := htag.exists_inner
    exact ⟨_, rfl⟩

namespace IsTemplateText

variable {t : List Char}

private theorem of_cons {c : Char} (h : IsTemplateText (c :: t)) : IsTemplateText t where
  stop hin := h.stop (hin.trans (List.suffix_cons _ _).isInfix)
  start x hx hin := h.start x hx (hin.trans (List.suffix_cons _ _).isInfix)

/-- Blanks and `>` have no other case. -/
private theorem folded_singleton_of_end {x : Char} (h : isTagSpace x = true ∨ x = '>') :
    folded [x] = [x] ∧ x ∈ [' ', '\t', '\r', '\n', '>'] := by
  have hmem : x ∈ [' ', '\t', '\r', '\n', '>'] := by
    simp only [isTagSpace, Bool.or_eq_true, beq_iff_eq] at h
    simp only [List.mem_cons, List.not_mem_nil, or_false]
    tauto
  refine ⟨?_, hmem⟩
  revert hmem
  simp only [List.mem_cons, List.not_mem_nil, or_false]
  rintro (rfl | rfl | rfl | rfl | rfl) <;> rfl

/-- No tag of a template that opens begins inside a text. -/
private theorem opensTemplate_eq_false (h : IsTemplateText t) (hne : t ≠ []) (rest : List Char) :
    opensTemplate (t ++ '<' :: rest) = false := by
  rw [← Bool.not_eq_true]
  intro hopen
  obtain ⟨name, x, more, hsplit, hname, hx⟩ := exists_of_opensTemplate hopen
  obtain ⟨hfold, hmem⟩ := folded_singleton_of_end hx
  have hlt : '<' ∉ name ++ [x] := by
    have hnotFolded : '<' ∉ folded (name ++ [x]) := by
      rw [folded_append, hname, hfold]
      simp only [List.mem_cons, List.not_mem_nil, or_false] at hmem
      rcases hmem with rfl | rfl | rfl | rfl | rfl <;> decide
    exact fun hin => hnotFolded (List.mem_map.mpr ⟨'<', hin, rfl⟩)
  have hpre : '<' :: (name ++ [x]) <+: t := by
    refine prefix_of_prefix_append_lt hlt hne (⟨more, ?_⟩ : _ <+: t ++ '<' :: rest)
    rw [hsplit]
    simp
  refine h.start x hmem ?_
  obtain ⟨r, rfl⟩ := hpre
  refine ⟨[], folded r, ?_⟩
  rw [folded_append, folded_cons, folded_append, hname, hfold]
  rfl

/-- A text is passed over. -/
theorem templateIndex?_append (h : IsTemplateText t) (depth : Nat) (rest : List Char) :
    templateIndex? depth (t ++ '<' :: rest) =
      (templateIndex? depth ('<' :: rest)).map (· + t.length) := by
  induction t with
  | nil => simp
  | cons c t ih =>
    have hstop : startsFolded (c :: (t ++ '<' :: rest)) (closingTag templateTag) = false :=
      startsFolded_closingTag_eq_false (by decide) (List.cons_ne_nil c t) h.stop
    have hstart : opensTemplate (c :: (t ++ '<' :: rest)) = false :=
      h.opensTemplate_eq_false (List.cons_ne_nil c t) rest
    rw [List.cons_append, templateIndex?_cons hstop hstart, ih h.of_cons, Option.map_map]
    rfl

end IsTemplateText

theorem map_add_map_add (r : Option Nat) (m n : Nat) :
    (r.map (· + m)).map (· + n) = r.map (· + (n + m)) := by
  rw [Option.map_map]
  congr 1
  funext k
  simp only [Function.comp_apply]
  omega

/-- Behind a content, the depth is what it was in front of it. -/
theorem IsTemplateContent.templateIndex?_append {b : Bool} {content : List Char}
    (h : IsTemplateContent b content) (depth : Nat) (rest : List Char) :
    templateIndex? (depth + 1) (content ++ '<' :: rest) =
      (templateIndex? (depth + 1) ('<' :: rest)).map (· + content.length) := by
  induction h generalizing depth rest with
  | nil => simp
  | @text t more ht hmore ih =>
    obtain ⟨cs, hcs⟩ := hmore.exists_append_eq_cons rest
    rw [List.append_assoc, hcs, ht.templateIndex?_append, ← hcs, ih, map_add_map_add,
      List.length_append]
  | @nested b start inner stop more hstart _ hstop _ ihInner ihMore =>
    obtain ⟨cs, hcs⟩ := hstop.exists_cons
    rw [List.append_assoc, hstart.templateIndex?, List.append_assoc, List.append_assoc, hcs,
      List.cons_append, ihInner, ← List.cons_append, ← hcs, hstop.templateIndex?,
      if_neg (by omega), Nat.add_sub_cancel, ihMore]
    simp only [map_add_map_add, List.length_append]
  | @single b tag more htag _ ih =>
    rw [List.append_assoc, htag.templateIndex?, ih, map_add_map_add, List.length_append]

/-! ### What the count takes up -/

/-- A name followed by a blank or by `>` opens a template. -/
theorem opensTemplate_of_isPrefix {cs : List Char} {x : Char}
    (hx : x ∈ [' ', '\t', '\r', '\n', '>'])
    (h : "<template".toList ++ [x] <+: folded cs) : opensTemplate cs = true := by
  obtain ⟨rest, hrest⟩ := h
  obtain ⟨tag, more, rfl, htag, -⟩ := List.map_eq_append_iff.mp hrest.symm
  obtain ⟨name, end', rfl, hname, hend⟩ := List.map_eq_append_iff.mp htag
  obtain ⟨y, rfl, hy⟩ : ∃ y, end' = [y] ∧ y.toLower = x := by
    obtain ⟨y, rfl⟩ := List.length_eq_one_iff.mp (by simpa using congrArg List.length hend)
    exact ⟨y, rfl, by simpa using hend⟩
  have hlength : name.length = 9 := by rw [← length_folded, folded, hname]; decide
  have hstarts : startsFolded (name ++ ([y] ++ more)) ('<' :: templateTag) = true := by
    refine startsFolded_append ?_ _
    rw [folded, hname]
    decide
  have hyx : y = x := by
    refine eq_of_toLower ?_ hy
    simp only [List.mem_cons, List.not_mem_nil, or_false] at hx
    rcases hx with rfl | rfl | rfl | rfl | rfl <;> decide
  rw [opensTemplate, List.append_assoc, hstarts, ← hlength, List.drop_left, hyx]
  simp only [List.mem_cons, List.not_mem_nil, or_false] at hx
  rcases hx with rfl | rfl | rfl | rfl | rfl <;> rfl

/-- Contents with a closing tag behind each but the last: what is left inside open templates. -/
inductive IsOpenContent : Nat → List Char → Prop
  | last {s : List Char} : IsTemplateContent false s → IsOpenContent 1 s
  | stop {depth : Nat} {first tag s : List Char} : IsTemplateContent false first →
      IsTemplateEnd tag → IsOpenContent (depth + 1) s →
      IsOpenContent (depth + 2) (first ++ (tag ++ s))

/-- Content that is open twice closes once on its way. -/
private theorem IsOpenContent.exists_stop {depth : Nat} {s : List Char}
    (h : IsOpenContent (depth + 2) s) :
    ∃ first tag rest, s = first ++ (tag ++ rest) ∧ IsTemplateContent false first ∧
      IsTemplateEnd tag ∧ IsOpenContent (depth + 1) rest := by
  cases h with
  | stop hfirst htag hs => exact ⟨_, _, _, rfl, hfirst, htag, hs⟩

/-- What can be put in front of the first content can be put in front of all of them. -/
private theorem IsOpenContent.append {depth : Nat} {s : List Char} (h : IsOpenContent depth s)
    (front : List Char) (hfront : ∀ first, first <+: s → IsTemplateContent false first →
      IsTemplateContent false (front ++ first)) : IsOpenContent depth (front ++ s) := by
  cases h with
  | last hs => exact .last (hfront _ (List.prefix_refl _) hs)
  | stop hfirst htag hs =>
    rw [← List.append_assoc]
    exact .stop (hfront _ (List.prefix_append _ _) hfirst) htag hs

private theorem isTemplateText_nil : IsTemplateText [] where
  stop h := by simpa using h.length_le
  start x _ h := by simpa using h.length_le

/-- A content begins with a text, which may be empty. -/
private theorem IsTemplateContent.exists_text {s : List Char} (h : IsTemplateContent false s) :
    ∃ t more, s = t ++ more ∧ IsTemplateText t ∧ IsTemplateContent true more := by
  cases h with
  | nil => exact ⟨[], [], rfl, isTemplateText_nil, .nil⟩
  | text ht hmore => exact ⟨_, _, rfl, ht, hmore⟩
  | nested hstart hinner hstop hmore =>
    exact ⟨[], _, rfl, isTemplateText_nil, .nested hstart hinner hstop hmore⟩
  | single htag hmore => exact ⟨[], _, rfl, isTemplateText_nil, .single htag hmore⟩

/-- A character at which no tag begins can be put in front of a content. -/
private theorem IsTemplateContent.cons {c : Char} {s : List Char} (h : IsTemplateContent false s)
    (hstop : startsFolded (c :: s) (closingTag templateTag) = false)
    (hstart : opensTemplate (c :: s) = false) : IsTemplateContent false (c :: s) := by
  obtain ⟨t, more, rfl, ht, hmore⟩ := h.exists_text
  have hfront : folded (c :: t) <+: folded (c :: (t ++ more)) := by
    rw [← List.cons_append, folded_append]
    exact List.prefix_append _ _
  refine .text (t := c :: t) ⟨fun hin => ?_, fun x hx hin => ?_⟩ hmore
  · rcases List.infix_cons_iff.mp hin with hpre | hin
    · refine startsFolded_eq_false_iff.mp hstop (List.IsPrefix.trans ?_ hfront)
      have hclosing : folded (closingTag templateTag) = "</template>".toList := by decide
      rw [hclosing]
      exact hpre
    · exact ht.stop hin
  · rcases List.infix_cons_iff.mp hin with hpre | hin
    · rw [opensTemplate_of_isPrefix hx (List.IsPrefix.trans hpre hfront)] at hstart
      cases hstart
    · exact ht.start x hx hin

theorem folded_isPrefix {s cs : List Char} (h : s <+: cs) : folded s <+: folded cs := h.map _

/-- Fewer characters hold no other tag at their head. -/
private theorem startsFolded_eq_false_of_isPrefix {s cs p : List Char} (h : s <+: cs)
    (hcs : startsFolded cs p = false) : startsFolded s p = false := by
  rw [startsFolded_eq_false_iff] at hcs ⊢
  exact fun hp => hcs (hp.trans (folded_isPrefix h))

/-- Where a template opens, a name followed by a blank or by `>` stands. -/
theorem exists_prefix_of_opensTemplate {cs : List Char} (h : opensTemplate cs = true) :
    ∃ x ∈ [' ', '\t', '\r', '\n', '>'], "<template".toList ++ [x] <+: folded cs := by
  obtain ⟨name, x, more, rfl, hname, hx⟩ := exists_of_opensTemplate h
  obtain ⟨hfold, hmem⟩ := IsTemplateText.folded_singleton_of_end hx
  have hlow : x.toLower = x := by simpa using hfold
  exact ⟨x, hmem, folded more, by simp [hname, hlow, templateTag]⟩

private theorem opensTemplate_eq_false_of_isPrefix {s cs : List Char} (h : s <+: cs)
    (hcs : opensTemplate cs = false) : opensTemplate s = false := by
  rw [← Bool.not_eq_true] at hcs ⊢
  intro hs
  obtain ⟨x, hx, hpre⟩ := exists_prefix_of_opensTemplate hs
  exact hcs (opensTemplate_of_isPrefix hx (hpre.trans (folded_isPrefix h)))

/-- Where the count ends, contents end, one for each open template. -/
theorem isOpenContent_take {depth : Nat} {cs : List Char} :
    ∀ n, templateIndex? depth cs = some n → 0 < depth → IsOpenContent depth (cs.take n) := by
  induction depth, cs using templateIndex?_induction with
  | nil depth => simp
  | cut depth cs => simp
  | last depth tag more htag hdepth =>
    rintro n hn hpos
    obtain rfl : depth = 1 := by omega
    obtain rfl : 0 = n := by simpa using hn
    exact .last .nil
  | stop depth tag more htag ih =>
    rintro n hn -
    obtain ⟨m, hm, rfl⟩ := Option.map_eq_some_iff.mp hn
    rw [Nat.add_comm m, List.take_length_add_append]
    exact .stop .nil htag (ih m hm (Nat.succ_pos _))
  | start depth tag more htag ih =>
    rintro n hn hpos
    obtain ⟨m, hm, rfl⟩ := Option.map_eq_some_iff.mp hn
    rw [Nat.add_comm m, List.take_length_add_append]
    obtain ⟨d, rfl⟩ := Nat.exists_eq_succ_of_ne_zero hpos.ne'
    -- the content the tag opens goes up to the first closing tag, the rest to the outer content
    obtain ⟨first, tag', s, hs, hfirst, htag', hopen⟩ := (ih m hm (Nat.succ_pos _)).exists_stop
    have := hopen.append (tag ++ (first ++ tag')) fun next _ hnext => by
      simpa using IsTemplateContent.nested htag hfirst htag' hnext
    simpa [hs] using this
  | single depth tag more htag ih =>
    rintro n hn hpos
    obtain ⟨m, hm, rfl⟩ := Option.map_eq_some_iff.mp hn
    rw [Nat.add_comm m, List.take_length_add_append]
    exact (ih m hm hpos).append tag fun first _ hfirst => .single htag hfirst
  | char depth c cs hstop hstart ih =>
    rintro n hn hpos
    obtain ⟨m, hm, rfl⟩ := Option.map_eq_some_iff.mp hn
    rw [List.take_succ_cons]
    refine (ih m hm hpos).append [c] fun first hpre hfirst => ?_
    have hfront : c :: first <+: c :: cs :=
      List.cons_prefix_cons.mpr ⟨rfl, hpre.trans (List.take_prefix m cs)⟩
    exact hfirst.cons (startsFolded_eq_false_of_isPrefix hfront hstop)
      (opensTemplate_eq_false_of_isPrefix hfront hstart)

/-- A text is found again as the content of a template if and only if the grammar derives it. -/
theorem templateIndex?_eq_length_iff {content stop : List Char} (hstop : IsTemplateEnd stop)
    (more : List Char) : templateIndex? 1 (content ++ (stop ++ more)) = some content.length ↔
      IsTemplateContent false content := by
  constructor
  · intro h
    have := isOpenContent_take _ h Nat.one_pos
    rw [List.take_left] at this
    cases this with
    | last hcontent => exact hcontent
  · intro h
    obtain ⟨cs, rfl⟩ := hstop.exists_cons
    rw [List.cons_append, h.templateIndex?_append, ← List.cons_append, hstop.templateIndex?]
    simp

end ComponentInsight.Document

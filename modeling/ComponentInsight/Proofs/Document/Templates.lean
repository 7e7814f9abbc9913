import ComponentInsight.Proofs.Document.Rendering
import ComponentInsight.Proofs.Document.Scanning

/-!
# Templates in documents

A template may hold templates, and its block ends where its own closing tag stands. This carries the
grammar of contents over to documents: wherever the scanner comes to the opening tag of a template
with a derived content behind it, the block it finds has exactly this content, and the scan goes on
behind the closing tag (`matched_templates`).
-/

namespace ComponentInsight.Document

/-- Behind a `<` and a tag, no comment begins. -/
private theorem isPrefixOf_commentOpening_of_run {c : Cursor}
    (h : (c.advance 1).run isTagChar ≠ 0) : commentOpening.isPrefixOf c.rest = false := by
  rw [← Bool.not_eq_true]
  intro hcomment
  obtain ⟨rest, hrest⟩ := List.isPrefixOf_iff_prefix.mp hcomment
  refine h ?_
  rw [Cursor.run, Cursor.rest_advance, ← hrest]
  rfl

/-- A block where the scanner comes to is one of the document's. -/
theorem blocks_eq_of_block? {text : String} {found : List Block} {c d : Cursor} {b : Block}
    (hscans : (Cursor.ofText text).Scans found c) (hsign : c.rest.head? = some '<')
    (hblock : block? c = some (b, d)) : blocks text = found ++ b :: d.scan := by
  have hcomment : commentOpening.isPrefixOf c.rest = false :=
    isPrefixOf_commentOpening_of_run (block?_eq_some_iff.mp hblock).1
  have hlook := Cursor.look_of_block hsign hcomment hblock
  rw [blocks_eq_scan, hscans.scan_eq, Cursor.scan_eq (Cursor.ne_nil_of_look (by rw [hlook])), hlook]
  rfl

/-- A template is found with the content the grammar derives. -/
private theorem block?_of_templateContent {c body : Cursor} {as : List Attribute}
    {content closing after : List Char}
    (htag : folded ((c.advance 1).rest.takeWhile isTagChar) = "template".toList)
    (hopen : attributes ((c.advance 1).skip isTagChar) = (as, .opened body))
    (hbody : body.rest = content ++ (closing ++ after)) (hclosing : IsTemplateEnd closing)
    (hcontent : IsTemplateContent false content) :
    ∃ b rest, block? c = some (b, rest) ∧ b.kind = "template" ∧ b.attributes = as ∧
      b.content = ⟨String.ofList content, body.offset⟩ ∧ b.stop = rest.offset ∧
      rest.rest = after := by
  have hname : (c.advance 1).run isTagChar = 8 := by
    rw [Cursor.run, ← length_folded, htag]
    decide
  have hlength : closing.length = 8 + 3 := by
    rw [← length_folded, hclosing]
    decide
  have hindex : contentLength? ((c.advance 1).rest.takeWhile isTagChar) body.rest =
      some content.length := by
    have hequal : equalFolded ((c.advance 1).rest.takeWhile isTagChar) templateTag = true := by
      refine beq_iff_eq.mpr (htag.trans ?_)
      decide
    rw [contentLength?, if_pos hequal, hbody]
    exact (templateIndex?_eq_length_iff hclosing after).mpr hcontent
  refine ⟨_, _,
    block?_eq_some_iff.mpr ⟨by omega, .inr ⟨body, content.length, ?_, hindex, rfl, rfl⟩⟩,
    ?_, ?_, ?_, rfl, ?_⟩
  · rw [hopen]
  · rw [← String.toList_inj, Block.toList_kind, Cursor.toList_text_slice, Cursor.take_run, htag]
  · rw [hopen]
  · change body.slice content.length = _
    rw [Cursor.slice, hbody, List.take_left]
  · rw [Cursor.rest_advance, hbody, hname, ← hlength, ← List.drop_drop, List.drop_left,
      List.drop_left]

/-- **Nested templates are matched.** The search for the end of a template finds a content again if
and only if the grammar derives it. Then, wherever the scanner comes to the opening tag of a
template with the content behind it, the block has exactly this content, and the scan goes on behind
the closing tag. -/
theorem matched_templates {content closing : List Char} (hclosing : IsTemplateEnd closing)
    (after : List Char) :
    (templateIndex? 1 (content ++ (closing ++ after)) = some content.length ↔
        IsTemplateContent false content) ∧
      (IsTemplateContent false content →
        ∀ {text : String} {found : List Block} {c body : Cursor} {as : List Attribute},
          (Cursor.ofText text).Scans found c → c.rest.head? = some '<' →
          folded ((c.advance 1).rest.takeWhile isTagChar) = "template".toList →
          attributes ((c.advance 1).skip isTagChar) = (as, .opened body) →
          body.rest = content ++ (closing ++ after) →
          ∃ (b : Block) (rest : Cursor), blocks text = found ++ b :: rest.scan ∧
            b.kind = "template" ∧ b.attributes = as ∧
            b.content = ⟨String.ofList content, body.offset⟩ ∧ b.stop = rest.offset ∧
            rest.rest = after) := by
  refine ⟨templateIndex?_eq_length_iff hclosing after, ?_⟩
  intro hcontent text found c body as hscan hlt htag hopen hbody
  obtain ⟨b, rest, hblock, hkind, has, hb, hstop, hrest⟩ :=
    block?_of_templateContent htag hopen hbody hclosing hcontent
  exact ⟨b, rest, blocks_eq_of_block? hscan hlt hblock, hkind, has, hb, hstop, hrest⟩

/-- A content with a nested template, one that closes itself and tags that only look like them. -/
def rowsContent : List Char :=
  "<template-row>é".toList ++ ("<TEMPLATE\n#row='x'>".toList ++
    (("<templates/></template".toList ++ ("<template #head />".toList ++ [])) ++
      ("</Template>".toList ++ [])))

private theorem isTemplateContent_rowsContent : IsTemplateContent false rowsContent := by
  have hstart : IsTemplateStart "<TEMPLATE\n#row='x'>".toList :=
    @IsTemplateStart.attributes "TEMPLATE".toList "#row='x'".toList '\n'
      (by decide) (by decide) (by decide) (by decide)
  have hsingle : IsTemplateSingle "<template #head />".toList :=
    @IsTemplateSingle.intro "template".toList "#head ".toList ' '
      (by decide) (by decide) (by decide)
  exact .text (by decide) (.nested hstart
    (.text (by decide) (.single hsingle .nil)) rfl .nil)

/-- A template with this content, and what stands in front of it and behind it. -/
def rowsChars : List Char :=
  "<i18n>é</i18n>".toList ++ '<' :: ("Template".toList ++
    ([("lang", some "html")].flatMap attributeChars ++ '>' ::
      (rowsContent ++ ("</TEMPLATE>".toList ++ "<p></template>".toList))))

/-- A template in mixed case with another one inside, and a closing tag left over behind it. -/
theorem matched_templates_rows : IsTemplateEnd "</TEMPLATE>".toList ∧
    IsTemplateContent false rowsContent ∧ ∃ (a b : Block) (rest : Cursor),
      blocks (String.ofList rowsChars) = a :: b :: rest.scan ∧ b.kind = "template" ∧
        b.content.text = String.ofList rowsContent ∧ rest.rest = "<p></template>".toList := by
  refine ⟨rfl, isTemplateContent_rowsContent, ?_⟩
  have htext : Cursor.ofText (String.ofList rowsChars) = ⟨rowsChars, 0, 1⟩ := by
    rw [Cursor.ofText, String.toList_ofList]
  set c := (Cursor.mk rowsChars 0 1).look.2
  have hscan : (Cursor.ofText (String.ofList rowsChars)).Scans
      ((Cursor.mk rowsChars 0 1).look.1.toList ++ []) c := by
    rw [htext]
    exact .look (List.cons_ne_nil _ _) (.refl c)
  have hsome : (Cursor.mk rowsChars 0 1).look.1.isSome = true := by decide +kernel
  obtain ⟨a, ha⟩ := Option.isSome_iff_exists.mp hsome
  have hrest : c.rest = '<' :: ("Template".toList ++ ([("lang", some "html")].flatMap attributeChars
      ++ '>' :: (rowsContent ++ ("</TEMPLATE>".toList ++ "<p></template>".toList)))) := by
    decide +kernel
  have hrun : (c.advance 1).rest.takeWhile isTagChar = "Template".toList := by
    rw [Cursor.rest_advance, hrest]
    decide
  have hattrs : ((c.advance 1).skip isTagChar).rest.dropWhile isTagSpace =
      ([("lang", some "html")].flatMap attributeChars ++ '>' ::
        (rowsContent ++ ("</TEMPLATE>".toList ++ "<p></template>".toList))).dropWhile
          isTagSpace := by
    rw [Cursor.rest_skip, Cursor.rest_advance, hrest]
    decide
  obtain ⟨found, body, hopen, -, hbody⟩ := exists_attributes_eq (by decide) hattrs
  obtain ⟨b, rest, hblocks, hkind, -, hcontent, -, hafter⟩ :=
    (@matched_templates _ "</TEMPLATE>".toList rfl "<p></template>".toList).2
      isTemplateContent_rowsContent hscan (by rw [hrest]; rfl) (by rw [hrun]; decide) hopen hbody
  rw [ha] at hblocks
  exact ⟨a, b, rest, hblocks, hkind, by rw [hcontent], hafter⟩

end ComponentInsight.Document

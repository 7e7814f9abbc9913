import ComponentInsight.Proofs.Document.Locality
import ComponentInsight.Proofs.Document.Locations
import ComponentInsight.Proofs.Document.Templates

/-!
# Comments in templates

At the top level a comment hides the tags in it. In a template it does not: the count of open
templates goes on inside of it. So a comment put in front of the content of a template may end the
template, or swallow its end, and then its elements are read as blocks.

`keepsSplit_comment_iff` says when it does not: the comment has to be a content by itself, and no
tag in front of the template that has no end may find one in the comment. The one condition comes
from the count, which behind a `>` goes on with one depth whatever follows (`counts_of_getLast?`);
the other is what reading up to the template needs to be local (`Cursor.Scans.alike`). That both are
necessary rests on the places of blocks: where the template begins, no other block stands.
-/

namespace ComponentInsight.Document

/-! ### The count behind a `>` -/

/-- What holds a `>` at its end at most and begins in front of a `>` ends there at the latest. -/
private theorem prefix_of_prefix_append_gt {q s y : List Char} {x : Char} (hq : '>' ∉ q)
    (h : q ++ [x] <+: s ++ '>' :: y) : q ++ [x] <+: s ++ ['>'] := by
  have hs : s ++ ['>'] <+: s ++ '>' :: y := ⟨y, by simp⟩
  rcases List.prefix_or_prefix_of_prefix h hs with h | h
  · exact h
  · rcases List.prefix_concat_iff.mp h with heq | hpre
    · exact heq ▸ List.prefix_refl _
    · exact absurd (hpre.subset (by simp)) hq

private theorem folded_concat_gt (s : List Char) : folded (s ++ ['>']) = folded s ++ ['>'] :=
  folded_append s ['>']

/-- No tag of a template begins in front of a `>` and ends behind it. -/
private theorem startsFolded_append_gt {s y : List Char}
    (h : startsFolded (s ++ ['>']) (closingTag templateTag) = false) :
    startsFolded (s ++ '>' :: y) (closingTag templateTag) = false := by
  rw [startsFolded_eq_false_iff] at h ⊢
  rw [folded_append, folded_cons]
  have htag : folded (closingTag templateTag) = "</template".toList ++ ['>'] := by decide
  rw [htag] at h ⊢
  intro hpre
  rw [folded_concat_gt] at h
  exact h (prefix_of_prefix_append_gt (by decide) hpre)

private theorem opensTemplate_append_gt {s y : List Char} (h : opensTemplate (s ++ ['>']) = false) :
    opensTemplate (s ++ '>' :: y) = false := by
  rw [← Bool.not_eq_true] at h ⊢
  intro hopen
  obtain ⟨x, hx, hpre⟩ := exists_prefix_of_opensTemplate hopen
  rw [folded_append, folded_cons] at hpre
  refine h (opensTemplate_of_isPrefix hx ?_)
  rw [folded_concat_gt]
  exact prefix_of_prefix_append_gt (by decide) hpre

/-- Whatever follows some characters, the count ends inside of them or goes on behind them. -/
def Counts (depth : Nat) (s : List Char) : Prop :=
  (∃ n < s.length, ∀ y, templateIndex? depth (s ++ y) = some n) ∨
    ∃ d, 0 < d ∧ ∀ y, templateIndex? depth (s ++ y) = (templateIndex? d y).map (· + s.length)

private theorem Counts.append {depth d : Nat} {t more : List Char} (h : Counts d more)
    (htag : ∀ y, templateIndex? depth (t ++ (more ++ y)) =
      (templateIndex? d (more ++ y)).map (· + t.length)) : Counts depth (t ++ more) := by
  rcases h with ⟨n, hn, hmore⟩ | ⟨d', hd', hmore⟩
  · refine .inl ⟨n + t.length, by rw [List.length_append]; omega, fun y => ?_⟩
    rw [List.append_assoc, htag, hmore]
    rfl
  · refine .inr ⟨d', hd', fun y => ?_⟩
    rw [List.append_assoc, htag, hmore, map_add_map_add, List.length_append]

private theorem exists_eq_concat_gt {s : List Char} (hne : s ≠ [])
    (hlast : ∀ x ∈ s.getLast?, x = '>') : ∃ front, s = front ++ ['>'] := by
  have hx := List.getLast?_eq_some_getLast hne
  obtain ⟨front, hfront⟩ := List.getLast?_eq_some_iff.mp hx
  exact ⟨front, by rw [hfront, hlast _ hx]⟩

/-- Where a `>` comes last, no tag goes on behind it. -/
theorem counts_of_getLast? {depth : Nat} {s : List Char} (hlast : ∀ x ∈ s.getLast?, x = '>')
    (hpos : 0 < depth) : Counts depth s := by
  have hmore {t more : List Char} (h : ∀ x ∈ (t ++ more).getLast?, x = '>') :
      ∀ x ∈ more.getLast?, x = '>' := by
    intro x hx
    refine h x ?_
    rw [Option.mem_def] at hx ⊢
    rw [List.getLast?_append, hx, Option.some_or]
  induction depth, s using templateIndex?_induction with
  | nil depth => exact .inr ⟨depth, hpos, by simp⟩
  | last depth tag more htag hdepth =>
    obtain ⟨cs, rfl⟩ := htag.exists_cons
    refine .inl ⟨0, by simp, fun y => ?_⟩
    rw [List.append_assoc, htag.templateIndex?, if_pos hdepth]
  | stop depth tag more htag ih =>
    refine (ih (hmore hlast) (Nat.succ_pos _)).append fun y => ?_
    rw [htag.templateIndex?, if_neg (by omega), Nat.add_sub_cancel (n := depth + 1) (m := 1)]
  | start depth tag more htag ih =>
    exact (ih (hmore hlast) (Nat.succ_pos _)).append fun y => htag.templateIndex? depth _
  | single depth tag more htag ih =>
    exact (ih (hmore hlast) hpos).append fun y => htag.templateIndex? depth _
  | cut depth cs hopen hgt =>
    have hne : cs ≠ [] := by
      obtain ⟨name, x, more, rfl, -⟩ := exists_of_opensTemplate hopen
      exact List.cons_ne_nil _ _
    obtain ⟨front, rfl⟩ := exists_eq_concat_gt hne hlast
    exact absurd (by simp) hgt
  | char depth c cs hstop hstart ih =>
    refine Counts.append (t := [c]) (ih (hmore (t := [c]) hlast) hpos) fun y => ?_
    obtain ⟨front, hfront⟩ := exists_eq_concat_gt (List.cons_ne_nil c cs) hlast
    rw [hfront] at hstop hstart
    have happend : [c] ++ (cs ++ y) = front ++ '>' :: y := by
      rw [← List.append_assoc, List.singleton_append, hfront, List.append_assoc]
      rfl
    refine templateIndex?_cons ?_ ?_
    · exact (congrArg (startsFolded · _) happend).trans (startsFolded_append_gt hstop)
    · exact (congrArg opensTemplate happend).trans (opensTemplate_append_gt hstart)

/-- The closing tag of a template. -/
private theorem isTemplateEnd_closingTag : IsTemplateEnd (closingTag templateTag) := by
  unfold IsTemplateEnd
  decide

/-- The count at a closing tag alone ends if one template is open. -/
private theorem templateIndex?_closingTag {depth : Nat} (hpos : 0 < depth) :
    templateIndex? depth (closingTag templateTag) = if depth = 1 then some 0 else none := by
  have h := isTemplateEnd_closingTag.templateIndex? depth []
  rw [List.append_nil] at h
  rw [h]
  split
  · next hle => rw [if_pos (by omega)]
  · next hlt => rw [if_neg (by omega), templateIndex?, Option.map_none]

section Front

variable {front content : List Char} (hlast : ∀ x ∈ front.getLast?, x = '>')

include hlast

/-- Some characters with a `>` at their end are a content if and only if the count is the same
behind them. -/
private theorem isTemplateContent_iff_templateIndex? : IsTemplateContent false front ↔
    ∀ y, templateIndex? 1 (front ++ y) = (templateIndex? 1 y).map (· + front.length) := by
  have hend := @templateIndex?_eq_length_iff front _ isTemplateEnd_closingTag []
  rw [List.append_nil] at hend
  constructor
  · intro hfront
    rcases counts_of_getLast? hlast Nat.one_pos with ⟨n, hn, hcount⟩ | ⟨d, hd, hcount⟩
    · have hsame := (hcount _).symm.trans (hend.mpr hfront)
      exact absurd (Option.some.inj hsame) hn.ne
    · have hsame := (hcount _).symm.trans (hend.mpr hfront)
      rw [templateIndex?_closingTag hd] at hsame
      obtain rfl : d = 1 := by
        by_contra hne
        rw [if_neg hne] at hsame
        cases hsame
      exact hcount
  · intro hcount
    refine hend.mp ?_
    rw [hcount, templateIndex?_closingTag Nat.one_pos]
    simp

/-- What can be put in front of a content is a content. -/
private theorem isTemplateContent_of_append (h : IsTemplateContent false (front ++ content))
    (hcontent : IsTemplateContent false content) : IsTemplateContent false front := by
  have hend := (templateIndex?_eq_length_iff isTemplateEnd_closingTag []).mpr h
  rw [List.append_nil, List.append_assoc] at hend
  rcases counts_of_getLast? hlast Nat.one_pos with ⟨n, hn, hcount⟩ | ⟨d, hd, hcount⟩
  · have hsame := (hcount _).symm.trans hend
    rw [Option.some.injEq, List.length_append] at hsame
    omega
  · obtain ⟨k, rfl⟩ := Nat.exists_eq_succ_of_ne_zero hd.ne'
    have hsame := (hcount _).symm.trans hend
    have hbehind := hcontent.templateIndex?_append k ('/' :: (templateTag ++ ['>']))
    rw [← closingTag, templateIndex?_closingTag hd] at hbehind
    rw [hbehind] at hsame
    obtain rfl : k = 0 := by
      by_contra hne
      rw [if_neg (by omega)] at hsame
      cases hsame
    exact (isTemplateContent_iff_templateIndex? hlast).mpr hcount

end Front

/-! ### The template -/

/-- The content of a template is one of the grammar. -/
private theorem isTemplateContent_of_block? {c d : Cursor} {b : Block} (h : block? c = some (b, d))
    (hkind : b.kind = "template") : IsTemplateContent false b.content.text.toList := by
  rcases content_of_block? h with ⟨hempty, -⟩ | ⟨body, n, hn, hcontent⟩
  · rw [hempty]
    exact .nil
  · rw [contentLength?, if_pos (Block.kind_eq_template_iff.mp hkind)] at hn
    rw [hcontent]
    cases isOpenContent_take n hn Nat.one_pos with
    | last h => exact h

/-- A block with a closing tag has an opening one. -/
private theorem exists_opened_of_block? {c d : Cursor} {b : Block} (h : block? c = some (b, d))
    (hpair : b.content.stop < b.stop) :
    ∃ body n, (attributes ((c.advance 1).skip isTagChar)).2 = .opened body ∧
      contentLength? ((c.advance 1).rest.takeWhile isTagChar) body.rest = some n ∧
      d = body.advance (n + ((c.advance 1).run isTagChar + 3)) ∧
      b = ⟨(c.advance 1).slice ((c.advance 1).run isTagChar),
        (attributes ((c.advance 1).skip isTagChar)).1, body.slice n, c.offset, d.offset, c.line,
        d.line⟩ := by
  obtain ⟨-, ⟨-, rfl⟩ | ⟨body, n, hopened, hn, hd, hb⟩⟩ := block?_eq_some_iff.mp h
  · simp [Slice.stop, Cursor.slice, byteLength] at hpair
  · exact ⟨body, n, hopened, hn, hd, hb⟩

/-- A tag that opens is read from its first character on. -/
private theorem exists_reads_opened {c body : Cursor} (hsign : c.rest.head? = some '<')
    (hopened : (attributes ((c.advance 1).skip isTagChar)).2 = .opened body) :
    ∃ s, c.Reads s body := by
  obtain ⟨cs, hc⟩ := List.head?_eq_some_iff.mp hsign
  have hreads := attributes_reads ((c.advance 1).skip isTagChar)
  rw [hopened] at hreads
  obtain ⟨s, hs, -⟩ := hreads
  exact ⟨_, ((Cursor.reads_advance_append (s := ['<']) hc).trans (Cursor.reads_skip _ _)).trans hs⟩

/-- A content put in front of the content of a template becomes part of it. -/
private theorem exists_block?_of_insert {c c' d body : Cursor} {b : Block} {front : List Char}
    (hblock : block? c = some (b, d)) (hkind : b.kind = "template")
    (hpair : b.content.stop < b.stop)
    (hopened : (attributes ((c.advance 1).skip isTagChar)).2 = .opened body)
    (h : c.Alike body.rest (front ++ body.rest) c') (hlast : ∀ x ∈ front.getLast?, x = '>')
    (hfront : IsTemplateContent false front) :
    ∃ b' d' body', block? c' = some (b', d') ∧ b.Gains front b' ∧ d.rest = d'.rest ∧
      (attributes ((c'.advance 1).skip isTagChar)).2 = .opened body' ∧
      body'.rest = front ++ body.rest ∧ b'.content.start = body'.offset := by
  obtain ⟨hname, -⟩ := block?_eq_some_iff.mp hblock
  obtain ⟨body₀, n, hopened₀, hn, rfl, rfl⟩ := exists_opened_of_block? hblock hpair
  obtain rfl : body₀ = body := TagEnd.opened.inj (hopened₀.symm.trans hopened)
  obtain ⟨hchars, hentries, halike⟩ := h.opening (hopened ▸ .opened (Nat.le_refl _))
  rw [hopened] at halike
  obtain ⟨body', hopened', ahead, hahead, hbody'⟩ := halike.exists_opened
  obtain rfl : ahead = [] := List.eq_nil_of_length_eq_zero (by
    have := congrArg List.length hahead
    rw [List.length_append] at this
    omega)
  have hrun : (c'.advance 1).run isTagChar = (c.advance 1).run isTagChar :=
    congrArg List.length hchars
  have htemplate : equalFolded ((c.advance 1).rest.takeWhile isTagChar) templateTag = true := by
    have := Block.kind_eq_template_iff.mp hkind
    rwa [Cursor.toList_text_slice, Cursor.take_run] at this
  have hn' : contentLength? ((c'.advance 1).rest.takeWhile isTagChar) body'.rest =
      some (front.length + n) := by
    rw [contentLength?, if_pos htemplate] at hn
    rw [hchars, contentLength?, if_pos htemplate, hbody', List.nil_append,
      (isTemplateContent_iff_templateIndex? hlast).mp hfront, hn, Option.map_some, Nat.add_comm]
  refine ⟨_, _, body', block?_eq_some_iff.mpr ⟨hrun ▸ hname,
    .inr ⟨body', front.length + n, hopened', hn', rfl, rfl⟩⟩, ⟨?_, hentries, ?_⟩, ?_, hopened',
    hbody', rfl⟩
  · change ((c'.advance 1).slice _).text = ((c.advance 1).slice _).text
    rw [Cursor.slice, Cursor.slice, Cursor.take_run, Cursor.take_run, hchars]
  · change (body'.slice _).text.toList = front ++ (body₀.slice n).text.toList
    rw [Cursor.toList_text_slice, Cursor.toList_text_slice, hbody', List.nil_append,
      List.take_length_add_append]
  · rw [Cursor.rest_advance, Cursor.rest_advance, hrun, hbody', List.nil_append, Nat.add_assoc,
      List.drop_length_add_append]

/-! ### Outlines -/

/-- An outline is like another one, with some characters put in front of the content of its
template. -/
structure Outline.Gains (front : List Char) (o o' : Outline) : Prop where
  template : Option.Rel (Block.Gains front) o.template o'.template
  script : Option.Rel (Block.Gains []) o.script o'.script
  setup : Option.Rel (Block.Gains []) o.setup o'.setup
  styles : List.Forall₂ (Block.Gains []) o.styles o'.styles
  custom : o'.custom = o.custom

/-- Two blocks are alike, but a template has some characters in front of its content. -/
def Block.TemplateGains (front : List Char) (b b' : Block) : Prop :=
  b.Gains (if b.kind = "template" then front else []) b'

private theorem forall₂_templateGains {front : List Char} {bs bs' : List Block}
    (h : List.Forall₂ (Block.Gains []) bs bs') (hkind : ∀ b ∈ bs, b.kind ≠ "template") :
    List.Forall₂ (Block.TemplateGains front) bs bs' := by
  induction h with
  | nil => exact .nil
  | cons hb _ ih =>
    obtain ⟨hne, hmore⟩ := List.forall_mem_cons.mp hkind
    refine .cons ?_ (ih hmore)
    rwa [Block.TemplateGains, if_neg hne]

private theorem Block.Gains.kind_eq {front : List Char} {b b' : Block} (h : b.Gains front b') :
    b'.kind = b.kind := by
  rw [Block.kind, Block.kind, h.tag]

private theorem Block.Gains.isSetup_eq {front : List Char} {b b' : Block} (h : b.Gains front b') :
    b'.isSetup = b.isSetup := by
  have htable : b'.attributeTable = b.attributeTable := congrArg Table.ofEntries h.attributes
  rw [Block.isSetup, Block.isSetup, Block.attribute?, Block.attribute?, htable]

namespace Outline

variable {o o' r : Outline} {b b' : Block} {bs bs' : List Block} {front : List Char}

/-- What adding a block does: it fills a role that is free, or it is added at the end. -/
private theorem add_eq_ok_iff : o.add b = .ok r ↔
    (b.kind = "template" ∧ o.template = none ∧ r = { o with template := some b }) ∨
    (b.kind = "script" ∧ b.isSetup = true ∧ o.setup = none ∧ r = { o with setup := some b }) ∨
    (b.kind = "script" ∧ b.isSetup = false ∧ o.script = none ∧ r = { o with script := some b }) ∨
    (b.kind = "style" ∧ r = { o with styles := o.styles ++ [b] }) ∨
    (b.kind ≠ "template" ∧ b.kind ≠ "script" ∧ b.kind ≠ "style" ∧
      r = { o with custom := o.custom ++ [b.tag.text] }) := by
  unfold add
  split
  · next hkind => cases htemplate : o.template <;> simp [hkind, @eq_comm _ r]
  · next hkind =>
    cases hsetup : b.isSetup with
    | true => cases hfree : o.setup <;> simp [hkind, @eq_comm _ r]
    | false => cases hfree : o.script <;> simp [hkind, @eq_comm _ r]
  · next hkind => simp [hkind, @eq_comm _ r]
  · next htemplate hscript hstyle =>
    change b.kind ≠ _ at htemplate hscript hstyle
    simp [htemplate, hscript, hstyle, @eq_comm _ r]

/-- The blocks with the tag of templates are the template of the outline. -/
private theorem toList_template_of_foldlM (h : bs.foldlM add o = .ok r) :
    r.template.toList = o.template.toList ++ bs.filter (fun b => b.kind == "template") := by
  induction bs generalizing o with
  | nil =>
    cases h
    simp
  | cons b bs ih =>
    rw [List.foldlM_cons] at h
    cases hadd : o.add b with
    | error e =>
      rw [hadd] at h
      cases h
    | ok o₁ =>
      rw [hadd] at h
      rw [ih h]
      rcases add_eq_ok_iff.mp hadd with ⟨hkind, hfree, rfl⟩ | ⟨hkind, -, -, rfl⟩ |
        ⟨hkind, -, -, rfl⟩ | ⟨hkind, rfl⟩ | ⟨hkind, -, -, rfl⟩
      · simp [hkind, hfree]
      all_goals simp [hkind]

/-- An outline that gains content keeps its template, with the content gained. -/
private theorem Gains.exists_template (h : o.Gains front o') (hb : o.template = some b) :
    ∃ b', o'.template = some b' ∧ b.Gains front b' := by
  obtain ⟨htemplate, -, -, -, -⟩ := h
  rw [hb] at htemplate
  generalize o'.template = x at htemplate
  cases htemplate with
  | some hgains => exact ⟨_, rfl, hgains⟩

/-- Blocks are put in the same roles if only the content of templates differs. -/
private theorem Gains.exists_add (ho : o.Gains front o')
    (hb : b.TemplateGains front b') (h : o.add b = .ok r) :
    ∃ r', o'.add b' = .ok r' ∧ r.Gains front r' := by
  have hkind' := Block.Gains.kind_eq hb
  have hsetup' := Block.Gains.isSetup_eq hb
  rw [Block.TemplateGains] at hb
  have hfree {front : List Char} {x x' : Option Block} (hrel : Option.Rel (Block.Gains front) x x')
      (hx : x = none) : x' = none := by
    subst hx
    cases hrel
    rfl
  rcases add_eq_ok_iff.mp h with ⟨hkind, hnone, rfl⟩ | ⟨hkind, hsetup, hnone, rfl⟩ |
    ⟨hkind, hsetup, hnone, rfl⟩ | ⟨hkind, rfl⟩ | ⟨htemplate, hscript, hstyle, rfl⟩
  · rw [if_pos hkind] at hb
    exact ⟨_, add_eq_ok_iff.mpr (.inl ⟨hkind'.trans hkind, hfree ho.template hnone, rfl⟩),
      .some hb, ho.script, ho.setup, ho.styles, ho.custom⟩
  · rw [if_neg (by simp [hkind])] at hb
    exact ⟨_, add_eq_ok_iff.mpr (.inr (.inl ⟨hkind'.trans hkind, hsetup'.trans hsetup,
      hfree ho.setup hnone, rfl⟩)), ho.template, ho.script, .some hb, ho.styles, ho.custom⟩
  · rw [if_neg (by simp [hkind])] at hb
    exact ⟨_, add_eq_ok_iff.mpr (.inr (.inr (.inl ⟨hkind'.trans hkind, hsetup'.trans hsetup,
      hfree ho.script hnone, rfl⟩))), ho.template, .some hb, ho.setup, ho.styles, ho.custom⟩
  · rw [if_neg (by simp [hkind])] at hb
    exact ⟨_, add_eq_ok_iff.mpr (.inr (.inr (.inr (.inl ⟨hkind'.trans hkind, rfl⟩)))), ho.template,
      ho.script, ho.setup, List.rel_append ho.styles (.cons hb .nil), ho.custom⟩
  · refine ⟨_, add_eq_ok_iff.mpr (.inr (.inr (.inr (.inr ⟨hkind'.trans_ne htemplate,
      hkind'.trans_ne hscript, hkind'.trans_ne hstyle, rfl⟩)))), ho.template, ho.script, ho.setup,
      ho.styles, ?_⟩
    rw [ho.custom, hb.tag]

/-- Blocks that gain content are added up to an outline that gains it. -/
private theorem Gains.exists_foldlM_add (hbs : List.Forall₂ (Block.TemplateGains front) bs bs')
    (ho : o.Gains front o') (h : bs.foldlM add o = .ok r) :
    ∃ r', bs'.foldlM add o' = .ok r' ∧ r.Gains front r' := by
  induction hbs generalizing o o' with
  | nil =>
    cases h
    exact ⟨o', rfl, ho⟩
  | @cons b b' bs bs' hb _ ih =>
    rw [List.foldlM_cons] at h ⊢
    cases hadd : o.add b with
    | error e =>
      rw [hadd] at h
      cases h
    | ok o₁ =>
      rw [hadd] at h
      obtain ⟨o₁', hadd', ho₁⟩ := ho.exists_add hb hadd
      rw [hadd']
      exact ih ho₁ h

end Outline

/-! ### Documents -/

/-- A comment with some text. -/
def comment (text : String) : String := "<!--" ++ text ++ "-->"

private theorem getLast?_comment (text : String) :
    ∀ x ∈ (comment text).toList.getLast?, x = '>' := by
  have hclosing : "-->".toList = ['-', '-'] ++ ['>'] := rfl
  rw [comment, String.toList_append, hclosing, ← List.append_assoc, List.getLast?_concat]
  simp

/-- Something put in front of the content of its template leaves the split of a document as it is:
the same blocks are found in the same roles, and only the content of the template is longer. -/
def KeepsSplit (o : Outline) (front inserted body : String) (o' : Outline) : Prop :=
  Outline.ofText (front ++ (inserted ++ body)) = .ok o' ∧ o.Gains inserted.toList o'

/-- Where the scanner finds no block at a `<` in front of the template, it finds none either if
something is inserted behind the opening tag of the template. -/
def StaysOpen (b : Block) (front inserted body : String) : Prop :=
  ∀ found c c', (Cursor.ofText (front ++ body)).Scans found c → c.offset < b.start →
    c.rest.head? = some '<' → c.Alike body.toList (inserted ++ body).toList c' →
    block? c = none → block? c' = none

/-- How the scanner comes to the template of a document: the blocks it finds before and the cursor
at its `<`. -/
structure FindsTemplate (text : String) (b : Block) (found : List Block) (c : Cursor) : Prop where
  blocks_eq : blocks text = found ++ b :: c.look.2.scan
  kind : b.kind = "template"
  before : ∀ a ∈ found, a.kind ≠ "template"
  behind : ∀ a ∈ c.look.2.scan, a.kind ≠ "template"
  scans : (Cursor.ofText text).Scans found c
  sign : c.rest.head? = some '<'
  block : block? c = some (b, c.look.2)

/-- The template of an outline is found by the scan. -/
private theorem exists_findsTemplate {text : String} {o : Outline} {b : Block}
    (ho : Outline.ofText text = .ok o) (hb : o.template = some b) :
    ∃ found c, FindsTemplate text b found c := by
  have hfilter := Outline.toList_template_of_foldlM ho
  rw [hb] at hfilter
  obtain ⟨found, after, hblocks, hfound, hkind, hafter⟩ :=
    List.filter_eq_cons_iff.mp hfilter.symm
  obtain ⟨c, hscans, hlook, rfl⟩ := Cursor.exists_scans (hblocks : (Cursor.ofText text).scan = _)
  obtain ⟨hsign, hblock⟩ := Cursor.look_eq_some hlook
  exact ⟨found, c, hblocks, by simpa using hkind, by simpa using hfound,
    by simpa [List.filter_eq_nil_iff] using hafter, hscans, hsign, hblock⟩

namespace FindsTemplate

variable {text : String} {b : Block} {found : List Block} {c : Cursor}

private theorem start_eq (h : FindsTemplate text b found c) : b.start = c.offset := by
  obtain ⟨opening, closing, hspans⟩ := block?_spans h.block h.sign
  exact hspans.start

/-- The opening tag is long enough to be told from a comment, and behind it the content begins. -/
private theorem exists_inner {front body : String} (h : FindsTemplate (front ++ body) b found c)
    (hpair : b.content.stop < b.stop) (hfront : b.content.start = front.utf8ByteSize) :
    ∃ inner n, (attributes ((c.advance 1).skip isTagChar)).2 = .opened inner ∧
      inner.rest = body.toList ∧ body.toList.length + 4 ≤ c.rest.length ∧
      templateIndex? 1 body.toList = some n := by
  obtain ⟨inner, n, hopened, hn, -, hb⟩ := exists_opened_of_block? h.block hpair
  have htag := Block.kind_eq_template_iff.mp h.kind
  rw [hb, Cursor.toList_text_slice, Cursor.take_run] at htag
  obtain ⟨s, hs⟩ := h.scans.exists_reads
  obtain ⟨t, ht⟩ := exists_reads_opened h.sign hopened
  have hrest : inner.rest = body.toList := by
    refine (hs.trans ht).rest_eq (u := front.toList) String.toList_append ?_
    rw [byteLength_toList, ← hfront, hb, Cursor.ofText, Nat.zero_add]
    rfl
  have hbefore : (attributes ((c.advance 1).skip isTagChar)).2.Before inner.rest := by
    rw [hopened]
    exact .opened (Nat.le_refl _)
  have hlt := Cursor.add_lt_of_lt_skip (hbefore.length_lt (attributes_reads _))
  have hrun : (c.advance 1).run isTagChar = 8 := by
    rw [Cursor.run, ← length_folded]
    exact congrArg List.length (beq_iff_eq.mp htag)
  rw [hrun, Cursor.rest_advance, List.length_drop, hrest] at hlt
  rw [contentLength?, if_pos htag, hrest] at hn
  exact ⟨inner, n, hopened, hrest, by omega, hn⟩

end FindsTemplate

/-- The place behind the front of a document. -/
private theorem exists_reads_front (front more : String) :
    ∃ d, (Cursor.ofText (front ++ more)).Reads front.toList d ∧ d.offset = front.utf8ByteSize ∧
      d.rest = more.toList := by
  have htext : (Cursor.ofText (front ++ more)).rest = front.toList ++ more.toList :=
    String.toList_append
  refine ⟨_, Cursor.reads_advance_append htext, ?_, ?_⟩
  · rw [(Cursor.reads_advance_append htext).offset, byteLength_toList, Cursor.ofText, Nat.zero_add]
  · exact Cursor.rest_advance_append htext

private theorem alike_ofText (front body inserted : String) :
    (Cursor.ofText (front ++ body)).Alike body.toList (inserted ++ body).toList
      (Cursor.ofText (front ++ (inserted ++ body))) :=
  ⟨front.toList, String.toList_append, String.toList_append⟩

/-- The blocks of a document with a content put in front of the content of its template. -/
private theorem FindsTemplate.exists_blocks {front inserted body : String} {b : Block}
    {found : List Block}
    {c : Cursor} (h : FindsTemplate (front ++ body) b found c) (hpair : b.content.stop < b.stop)
    (hfront : b.content.start = front.utf8ByteSize)
    (hlast : ∀ x ∈ inserted.toList.getLast?, x = '>')
    (hcontent : IsTemplateContent false inserted.toList)
    (hstays : StaysOpen b front inserted body) :
    ∃ found' b' after', blocks (front ++ (inserted ++ body)) = found' ++ b' :: after' ∧
      List.Forall₂ (Block.Gains []) found found' ∧ b.Gains inserted.toList b' ∧
      List.Forall₂ (Block.Gains []) c.look.2.scan after' ∧
      b'.content.start = front.utf8ByteSize := by
  obtain ⟨inner, n, hopened, hinner, hle, -⟩ := h.exists_inner hpair hfront
  obtain ⟨s, hs⟩ := h.scans.exists_reads
  obtain ⟨found', c', hscans', halike, hfound⟩ :=
    h.scans.alike _ (alike_ofText front body inserted) hle fun found e e' he hlt => by
      obtain ⟨t, ht⟩ := he.exists_reads
      exact hstays found e e' he (h.start_eq ▸ (ht.offset_lt_iff hs).mpr hlt)
  have hsign' : c'.rest.head? = some '<' := by
    rw [halike.head?_eq (by omega), h.sign]
  rw [String.toList_append, ← hinner] at halike
  obtain ⟨b', d', inner', hblock', hgains, hrest, hopened', hinner', hstart'⟩ :=
    exists_block?_of_insert h.block h.kind hpair hopened halike hlast hcontent
  refine ⟨found', b', d'.scan, blocks_eq_of_block? hscans' hsign' hblock', hfound, hgains,
    Cursor.forall₂_scan _ hrest, ?_⟩
  obtain ⟨s', hs'⟩ := hscans'.exists_reads
  obtain ⟨t, ht⟩ := exists_reads_opened hsign' hopened'
  rw [hinner, ← String.toList_append] at hinner'
  rw [hstart', (hs'.trans ht).offset_eq (u := front.toList) String.toList_append hinner',
    byteLength_toList, Cursor.ofText, Nat.zero_add]

section

variable {front inserted body : String} {o o' : Outline} {b : Block}
  (ho : Outline.ofText (front ++ body) = .ok o) (hb : o.template = some b)
  (hlast : ∀ x ∈ inserted.toList.getLast?, x = '>')

include ho hb hlast

/-- A content put in front of the content of a template changes nothing else. -/
private theorem exists_keepsSplit (hpair : b.content.stop < b.stop)
    (hfront : b.content.start = front.utf8ByteSize)
    (hcontent : IsTemplateContent false inserted.toList)
    (hstays : StaysOpen b front inserted body) :
    ∃ o', KeepsSplit o front inserted body o' ∧
      ∀ b' ∈ o'.template, b'.content.start = front.utf8ByteSize := by
  obtain ⟨found, c, h⟩ := exists_findsTemplate ho hb
  obtain ⟨found', b', after', hblocks', hfound, hgains, hafter, hplace⟩ :=
    h.exists_blocks hpair hfront hlast hcontent hstays
  have hgains' : b.TemplateGains inserted.toList b' := by
    rwa [Block.TemplateGains, if_pos h.kind]
  have hall : List.Forall₂ (Block.TemplateGains inserted.toList) (found ++ b :: c.look.2.scan)
      (found' ++ b' :: after') :=
    List.rel_append (forall₂_templateGains hfound h.before)
      (.cons hgains' (forall₂_templateGains hafter h.behind))
  rw [Outline.ofText, h.blocks_eq] at ho
  obtain ⟨o', ho', hroles⟩ :=
    Outline.Gains.exists_foldlM_add hall ⟨.none, .none, .none, .nil, rfl⟩ ho
  have hmem : b' ∈ o'.template.toList := by
    rw [Outline.toList_template_of_foldlM ho']
    simp [hgains.kind_eq, h.kind]
  refine ⟨o', ⟨by rw [Outline.ofText, hblocks', ho'], hroles⟩, fun b₁ hb₁ => ?_⟩
  obtain rfl : b' = b₁ := Option.some.inj ((Option.mem_toList.mp hmem).symm.trans hb₁)
  exact hplace

/-- What changes nothing else in front of the content of a template is a content. -/
private theorem isTemplateContent_of_keepsSplit (h : KeepsSplit o front inserted body o') :
    IsTemplateContent false inserted.toList := by
  obtain ⟨ho', hgains⟩ := h
  obtain ⟨b', hb', hcontent⟩ := hgains.exists_template hb
  obtain ⟨found, c, hfinds⟩ := exists_findsTemplate ho hb
  obtain ⟨found', c', hfinds'⟩ := exists_findsTemplate ho' hb'
  have hwhole := isTemplateContent_of_block? hfinds'.block hfinds'.kind
  rw [hcontent.content] at hwhole
  exact isTemplateContent_of_append hlast hwhole
    (isTemplateContent_of_block? hfinds.block hfinds.kind)

end

/-- The opening tag of a template is that of a block if its content ends. -/
private theorem exists_block?_of_opened {y y' : List Char} {c c' inner' : Cursor} {n : Nat}
    (h : c.Alike y y' c') (hname : (c'.advance 1).run isTagChar ≠ 0)
    (htag : equalFolded ((c'.advance 1).rest.takeWhile isTagChar) templateTag = true)
    (hopened : (attributes ((c'.advance 1).skip isTagChar)).2 = .opened inner')
    (hinner : inner'.rest = y') (hcontent : templateIndex? 1 y = some n) :
    ∃ found, block? c = some found := by
  obtain ⟨hchars, -, hend⟩ := h.symm.opening (by
    rw [hopened]
    exact .opened (hinner ▸ Nat.le_refl _))
  rw [hopened] at hend
  obtain ⟨inner, hopened', ahead, hahead, hrest⟩ := hend.exists_opened
  obtain rfl : ahead = [] := List.append_left_eq_self.mp (hahead.symm.trans hinner)
  rw [← hchars] at htag
  have hlength : contentLength? ((c.advance 1).rest.takeWhile isTagChar) inner.rest = some n := by
    rwa [contentLength?, if_pos htag, hrest]
  exact ⟨_, block?_eq_some_iff.mpr ⟨by rwa [Cursor.run, hchars],
    .inr ⟨inner, n, hopened', hlength, rfl, rfl⟩⟩⟩

/-- In front of a template no block begins that goes beyond the opening tag of the template. -/
private theorem block?_eq_none_of_insert {front inserted body : String} {o' : Outline} {b' : Block}
    {found' : List Block} {c c' : Cursor} {n : Nat}
    (ho' : Outline.ofText (front ++ (inserted ++ body)) = .ok o') (hb' : o'.template = some b')
    (hplace : b'.content.start = front.utf8ByteSize)
    (hscans' : (Cursor.ofText (front ++ (inserted ++ body))).Scans found' c')
    (hsign : c'.rest.head? = some '<') (halike : c.Alike body.toList (inserted ++ body).toList c')
    (hlt : c'.offset < front.utf8ByteSize)
    (hcontent : templateIndex? 1 body.toList = some n) (hnone : block? c = none) :
    block? c' = none := by
  by_contra hsome
  obtain ⟨⟨b₂, d₂⟩, hblock⟩ := Option.ne_none_iff_exists'.mp hsome
  obtain ⟨d, hd, hoffset, hd'⟩ := exists_reads_front front (inserted ++ body)
  obtain ⟨s, hs⟩ := hscans'.exists_reads
  obtain ⟨opening, closing, hspans⟩ := block?_spans hblock hsign
  -- a block that ends in front of the insertion would have been found without it
  have hfar : front.utf8ByteSize < d₂.offset := by
    by_contra hle
    have hrest := ((hs.trans hspans.reads).offset_le_iff hd).mp (by omega)
    obtain ⟨b, d, hfound, -⟩ := halike.symm.block? hblock (hd' ▸ hrest)
    exact absurd (hnone.symm.trans hfound) (Option.some_ne_none _).symm
  have hblocks := blocks_eq_of_block? hscans' hsign hblock
  obtain ⟨hlies, hpairwise⟩ :=
    liesIn_scan (Cursor.ofText (front ++ (inserted ++ body))) [] (.refl _)
  rw [← blocks_eq_scan, hblocks] at hlies hpairwise
  obtain ⟨-, hbehind, hbefore⟩ := List.pairwise_append.mp hpairwise
  obtain ⟨found₁, c₁, hfinds⟩ := exists_findsTemplate ho' hb'
  have hmem : b' ∈ found' ++ b₂ :: d₂.scan := by
    rw [← hblocks, hfinds.blocks_eq]
    simp
  obtain ⟨hstart, hstop⟩ := (hlies b' hmem).1.content_le
  rcases List.mem_append.mp hmem with hmem | hmem
  · have := hbefore b' hmem b₂ List.mem_cons_self
    rw [hspans.start] at this
    omega
  rcases List.mem_cons.mp hmem with rfl | hmem
  · -- the template itself would have been found here without the insertion
    obtain ⟨hname, ⟨-, rfl⟩ | ⟨inner', m, hopened', -, -, rfl⟩⟩ := block?_eq_some_iff.mp hblock
    · exact absurd hplace hfar.ne'
    · obtain ⟨t, ht⟩ := exists_reads_opened hsign hopened'
      have hinner' : inner'.rest = (inserted ++ body).toList := by
        refine (hs.trans ht).rest_eq String.toList_append ?_
        rw [byteLength_toList, Cursor.ofText, Nat.zero_add]
        exact hplace
      have htag := Block.kind_eq_template_iff.mp hfinds.kind
      rw [Cursor.toList_text_slice, Cursor.take_run] at htag
      obtain ⟨found, hfound⟩ :=
        exists_block?_of_opened halike hname htag hopened' hinner' hcontent
      exact absurd (hnone.symm.trans hfound) (Option.some_ne_none _).symm
  · have := (List.pairwise_cons.mp hbehind).1 b' hmem
    rw [hspans.stop] at this
    omega

/-- If the template is found where it was, no other block begins in front of it. -/
private theorem staysOpen_of_keepsSplit {front inserted body : String} {o o' : Outline}
    {b b' : Block} (ho : Outline.ofText (front ++ body) = .ok o) (hb : o.template = some b)
    (hpair : b.content.stop < b.stop) (hfront : b.content.start = front.utf8ByteSize)
    (h : KeepsSplit o front inserted body o') (hb' : o'.template = some b')
    (hplace : b'.content.start = front.utf8ByteSize) : StaysOpen b front inserted body := by
  obtain ⟨found, c, hfinds⟩ := exists_findsTemplate ho hb
  obtain ⟨inner, n, -, -, hle, hn⟩ := hfinds.exists_inner hpair hfront
  obtain ⟨s, hs⟩ := hfinds.scans.exists_reads
  intro found₀ e e' hscans hlt hsign halike hnone
  rw [hfinds.start_eq] at hlt
  -- positions further in front come first
  induction hk : (Cursor.ofText (front ++ body)).rest.length - e.rest.length
    using Nat.strong_induction_on generalizing found₀ e e' with
  | _ k ih =>
    have hfar {found₁ : List Block} {e₁ : Cursor}
        (he₁ : (Cursor.ofText (front ++ body)).Scans found₁ e₁) :
        e₁.offset < c.offset ↔ c.rest.length < e₁.rest.length := by
      obtain ⟨t, ht⟩ := he₁.exists_reads
      exact ht.offset_lt_iff hs
    have hlength := (hfar hscans).mp hlt
    obtain ⟨found', e'', hscans', halike', -⟩ :=
      hscans.alike _ (alike_ofText front body inserted) (by omega)
        fun found₁ e₁ e₁' he₁ hlt₁ hsign₁ halike₁ hnone₁ => by
          have := he₁.length_rest_le
          exact ih _ (by omega) found₁ e₁ e₁' he₁
            ((hfar he₁).mpr (hlength.trans hlt₁)) hsign₁ halike₁ hnone₁ rfl
    have hrest : e''.rest = e'.rest := by
      obtain ⟨ahead, he, he'⟩ := halike
      obtain ⟨ahead', he₁, he'₁⟩ := halike'
      rw [he', he'₁, List.append_cancel_right (he.symm.trans he₁)]
    refine Cursor.Alike.block?_eq_none hrest (block?_eq_none_of_insert h.1 hb' hplace hscans'
      ?_ halike' ?_ hn hnone)
    · rwa [halike'.head?_eq (by omega)]
    · obtain ⟨t, ht⟩ := hscans'.exists_reads
      obtain ⟨d, hd, hoffset, hd'⟩ := exists_reads_front front (inserted ++ body)
      rw [← hoffset, ht.offset_lt_iff hd, hd']
      obtain ⟨ahead, he, he'⟩ := halike'
      have := congrArg List.length he
      rw [he', List.length_append]
      rw [List.length_append] at this
      omega

/-- **Comments in templates.** A comment put in front of the content of a template leaves the split
as it is only if it is a content itself, that is if the templates in it are closed again. Then the
template is found where it was with the comment in front of its content, and all other blocks are
found as they were, if and only if no block begins in front of the template that ends in the comment
or behind it. -/
theorem keepsSplit_comment_iff {front body : String} {o : Outline} {b : Block}
    (ho : Outline.ofText (front ++ body) = .ok o) (hb : o.template = some b)
    (hpair : b.content.stop < b.stop) (hfront : b.content.start = front.utf8ByteSize)
    (text : String) :
    (∀ o', KeepsSplit o front (comment text) body o' →
        IsTemplateContent false (comment text).toList) ∧
      ((∃ o', KeepsSplit o front (comment text) body o' ∧
          ∀ b' ∈ o'.template, b'.content.start = b.content.start) ↔
        StaysOpen b front (comment text) body ∧ IsTemplateContent false (comment text).toList) := by
  have hlast := getLast?_comment text
  refine ⟨fun o' h => isTemplateContent_of_keepsSplit ho hb hlast h, fun ⟨o', h, hplace⟩ => ?_,
    fun ⟨hstays, hcontent⟩ => ?_⟩
  · obtain ⟨b', hb', -⟩ := h.2.exists_template hb
    exact ⟨staysOpen_of_keepsSplit ho hb hpair hfront h hb' ((hplace b' hb').trans hfront),
      isTemplateContent_of_keepsSplit ho hb hlast h⟩
  · rw [hfront]
    exact exists_keepsSplit ho hb hlast hpair hfront hcontent hstays

/-- What stands up to the content of a template, with a block in front. -/
def cardFront : String := "<i18n/>\n<template>"

/-- The content of the template and what stands behind it. -/
def cardBody : String := "<p/></template>\n<script>a</script>"

def cardTemplate : Block := ⟨⟨"template", 9⟩, [], ⟨"<p/>", 18⟩, 8, 33, 2, 2⟩

def cardOutline : Outline :=
  ⟨some cardTemplate, some ⟨⟨"script", 35⟩, [], ⟨"a", 42⟩, 34, 52, 3, 3⟩, none, [], ["i18n"]⟩

private theorem ofText_card : Outline.ofText (cardFront ++ cardBody) = .ok cardOutline := by
  decide +kernel

private theorem isTemplateContent_comment :
    IsTemplateContent false (comment " <template>é</template> ").toList :=
  have hstart : IsTemplateStart "<template>".toList :=
    @IsTemplateStart.bare "template".toList (by decide)
  .text (t := "<!-- ".toList) (by decide)
    (@IsTemplateContent.nested _ _ ("é".toList ++ []) "</template>".toList (" -->".toList ++ [])
      hstart (.text (by decide) .nil) rfl (.text (by decide) .nil))

/-- In front of the template the scanner finds a block at the only `<`. -/
private theorem staysOpen_card (inserted : String) :
    StaysOpen cardTemplate cardFront inserted cardBody := by
  intro found c c' hscans hlt hsign _ hnone
  cases hscans with
  | refl =>
    have hsome : (block? (Cursor.ofText (cardFront ++ cardBody))).isSome = true := by
      decide +kernel
    rw [hnone] at hsome
    cases hsome
  | look _ hmore =>
    cases hmore with
    | refl =>
      have hblank : (Cursor.ofText (cardFront ++ cardBody)).look.2.rest.head? = some '\n' := by
        decide +kernel
      rw [hblank] at hsign
      cases hsign
    | look _ hmore =>
      obtain ⟨s, hs⟩ := hmore.exists_reads
      have hplace : (Cursor.ofText (cardFront ++ cardBody)).look.2.look.2.offset =
          cardTemplate.start := by decide +kernel
      rw [hs.offset, hplace] at hlt
      omega

/-- A comment with a whole template in it, put into the template of a card. -/
theorem keepsSplit_comment_card :
    Outline.ofText (cardFront ++ cardBody) = .ok cardOutline ∧
    cardOutline.template = some cardTemplate ∧
    cardTemplate.content.stop < cardTemplate.stop ∧
    cardTemplate.content.start = cardFront.utf8ByteSize ∧
    ∃ o', KeepsSplit cardOutline cardFront (comment " <template>é</template> ") cardBody o' ∧
      ∀ b' ∈ o'.template, b'.content.start = cardTemplate.content.start :=
  ⟨ofText_card, rfl, by decide, by decide,
    (keepsSplit_comment_iff ofText_card rfl (by decide) (by decide)
      " <template>é</template> ").2.mpr
      ⟨staysOpen_card _, isTemplateContent_comment⟩⟩

/-- A comment with a closing tag ends the template: the comment is cut, what follows it is read as
a block of its own. -/
theorem not_keepsSplit_card : ¬ "-->".toList <:+: "</template>".toList ∧
    Outline.ofText (cardFront ++ cardBody) = .ok cardOutline ∧
    cardOutline.template = some cardTemplate ∧
    cardTemplate.content.stop < cardTemplate.stop ∧
    cardTemplate.content.start = cardFront.utf8ByteSize ∧
    (∀ o', ¬ KeepsSplit cardOutline cardFront (comment "</template>") cardBody o') ∧
    ∃ o', Outline.ofText (cardFront ++ (comment "</template>" ++ cardBody)) = .ok o' ∧
      o'.template.map (fun b => b.content.text) = some "<!--" ∧ o'.custom = ["i18n", "p"] := by
  have hsplit : Outline.ofText (cardFront ++ (comment "</template>" ++ cardBody)) =
      .ok ⟨some ⟨⟨"template", 9⟩, [], ⟨"<!--", 18⟩, 8, 33, 2, 2⟩,
        some ⟨⟨"script", 53⟩, [], ⟨"a", 60⟩, 52, 70, 3, 3⟩, none, [], ["i18n", "p"]⟩ := by
    decide +kernel
  refine ⟨by decide, ofText_card, rfl, by decide, by decide, fun o' ⟨ho', hgains⟩ => ?_, _, hsplit,
    rfl, rfl⟩
  rw [hsplit] at ho'
  cases ho'
  have := hgains.custom
  revert this
  decide

end ComponentInsight.Document

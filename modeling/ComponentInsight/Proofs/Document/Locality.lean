import ComponentInsight.Proofs.Document.Rendering
import ComponentInsight.Proofs.Document.Scanning

/-!
# Reading is local

What is read up to a place does not depend on what stands behind it, nor on where it stands.
`Cursor.Alike` relates two cursors that have the same characters ahead of them up to some rest,
which may be another one for each. A reader that comes no further than to this rest at the one
cursor finds the same at the other: attributes (`Cursor.Alike.attributes`), contents
(`contentLength?_append_congr`) and blocks (`Cursor.Alike.block?`).

A block may be found where there was none, though: an opening tag or a content that does not end in
front of the rest may end inside of it. So nothing is said of readers that find nothing, unless all
characters are the same (`Cursor.Alike.block?_eq_none`).
-/

namespace ComponentInsight.Document

/-! ### Cursors -/

namespace Cursor

/-- The same characters are ahead of two cursors, up to what is left. -/
def Alike (y y' : List Char) (c c' : Cursor) : Prop :=
  ∃ ahead, c.rest = ahead ++ y ∧ c'.rest = ahead ++ y'

variable {y y' : List Char} {c c' : Cursor}

private theorem alike_of_rest_eq (h : c.rest = c'.rest) : Alike [] [] c c' :=
  ⟨c.rest, by simp, by simp [h]⟩

theorem Alike.symm (h : Alike y y' c c') : Alike y' y c' c := by
  obtain ⟨ahead, hc, hc'⟩ := h
  exact ⟨ahead, hc', hc⟩

private theorem add_lt_of_lt_advance {m n : Nat} (h : m < (c.advance n).rest.length) :
    n + m < c.rest.length := by
  rw [rest_advance, List.length_drop] at h
  omega

/-- What is left behind a run bounds the length of the run. -/
theorem add_lt_of_lt_skip {m : Nat} {p : Char → Bool} (h : m < (c.skip p).rest.length) :
    c.run p + m < c.rest.length := add_lt_of_lt_advance h

namespace Alike

variable {n : Nat} {p : Char → Bool}

private theorem advance (h : Alike y y' c c') (hn : n + y.length ≤ c.rest.length) :
    Alike y y' (c.advance n) (c'.advance n) := by
  obtain ⟨ahead, hc, hc'⟩ := h
  rw [hc, List.length_append] at hn
  refine ⟨ahead.drop n, ?_, ?_⟩
  · rw [rest_advance, hc, List.drop_append_of_le_length (by omega)]
  · rw [rest_advance, hc', List.drop_append_of_le_length (by omega)]

private theorem take_eq (h : Alike y y' c c') (hn : n + y.length ≤ c.rest.length) :
    c'.rest.take n = c.rest.take n := by
  obtain ⟨ahead, hc, hc'⟩ := h
  rw [hc, List.length_append] at hn
  rw [hc, hc', List.take_append_of_le_length (by omega), List.take_append_of_le_length (by omega)]

/-- Alike cursors cut out the same text, short of what differs. -/
private theorem slice_eq (h : Alike y y' c c') (hn : n + y.length ≤ c.rest.length) :
    (c'.slice n).text = (c.slice n).text := by
  rw [slice, slice, h.take_eq hn]

/-- Alike cursors have the same next character, unless only what differs is ahead. -/
theorem head?_eq (h : Alike y y' c c') (hy : y.length < c.rest.length) :
    c'.rest.head? = c.rest.head? := by
  obtain ⟨ahead, hc, hc'⟩ := h
  cases ahead with
  | nil => simp [hc] at hy
  | cons x ahead =>
    rw [hc, hc', List.cons_append, List.cons_append, List.head?_cons, List.head?_cons]

/-- A run that ends in front of what is left is the same. -/
private theorem run_eq (h : Alike y y' c c') (hy : y.length < (c.skip p).rest.length) :
    c'.run p = c.run p := by
  obtain ⟨ahead, hc, hc'⟩ := h
  have hstop : (ahead.takeWhile p).length ≠ ahead.length := by
    intro hall
    rw [rest_skip, hc, List.dropWhile_append_of_pos fun x hx => List.mem_takeWhile_imp
      ((List.takeWhile_prefix p).eq_of_length hall ▸ hx)] at hy
    exact absurd (List.dropWhile_suffix p).length_le (Nat.not_le.mpr hy)
  rw [run, run, hc, hc', List.takeWhile_append, List.takeWhile_append, if_neg hstop, if_neg hstop]

/-- Alike cursors skip the same, short of what differs. -/
private theorem skip (h : Alike y y' c c') (hy : y.length < (c.skip p).rest.length) :
    Alike y y' (c.skip p) (c'.skip p) := by
  rw [Cursor.skip, Cursor.skip, h.run_eq hy]
  exact h.advance (add_lt_of_lt_skip hy).le

end Alike

end Cursor

/-! ### Opening tags -/

private theorem length_rest_attributeValue_le {c : Cursor}
    (h : (c.skip isInnerSpace).rest.head? = some '=') :
    (attributeValue c).2.rest.length ≤
      (((c.skip isInnerSpace).advance 1).skip isInnerSpace).rest.length := by
  by_cases hquote : ∃ q ∈ (((c.skip isInnerSpace).advance 1).skip isInnerSpace).rest.head?,
      q = '"' ∨ q = '\''
  · obtain ⟨q, hhead, hq⟩ := hquote
    rw [attributeValue_of_quote h hhead hq]
    simp
  · simp only [not_exists, not_and] at hquote
    rw [attributeValue_of_bare h hquote]
    exact Cursor.length_rest_skip_le _ _

namespace Cursor.Alike

variable {y y' : List Char} {c c' : Cursor}

/-- Alike cursors read the same value, short of what differs. -/
private theorem attributeValue (h : Alike y y' c c')
    (hy : y.length < (attributeValue c).2.rest.length) :
    (Document.attributeValue c').1.text = (Document.attributeValue c).1.text ∧
      Alike y y' (Document.attributeValue c).2 (Document.attributeValue c').2 := by
  by_cases hsign : (c.skip isInnerSpace).rest.head? = some '='
  · -- the value begins in front of what is left, and so do the blanks and the sign
    have hvalue := hy.trans_le (length_rest_attributeValue_le hsign)
    have hlt := add_lt_of_lt_advance ((Nat.le_add_left _ _).trans_lt (add_lt_of_lt_skip hvalue))
    have hinner := h.skip ((Nat.le_add_left _ _).trans_lt hlt)
    have hhead := hinner.head?_eq ((Nat.le_add_left _ _).trans_lt hlt)
    have halike := (hinner.advance hlt.le).skip hvalue
    have hhead' := halike.head?_eq hvalue
    by_cases hquote : ∃ q ∈ (((c.skip isInnerSpace).advance 1).skip isInnerSpace).rest.head?,
        q = '"' ∨ q = '\''
    · obtain ⟨q, hq, hquote⟩ := hquote
      rw [attributeValue_of_quote hsign hq hquote] at hy ⊢
      rw [attributeValue_of_quote (hhead.trans hsign) (hhead'.trans hq) hquote]
      dsimp only at hy ⊢
      have hend := add_lt_of_lt_advance hy
      have hbody := halike.advance (n := 1) (add_lt_of_lt_advance (by omega)).le
      rw [hbody.run_eq (by rw [Cursor.skip, rest_advance, List.length_drop]; omega)]
      exact ⟨hbody.slice_eq (by omega), hbody.advance hend.le⟩
    · simp only [not_exists, not_and] at hquote
      rw [attributeValue_of_bare hsign hquote] at hy ⊢
      rw [attributeValue_of_bare (hhead.trans hsign) (hhead' ▸ hquote)]
      dsimp only at hy ⊢
      rw [halike.run_eq hy]
      exact ⟨halike.slice_eq (add_lt_of_lt_skip hy).le, halike.skip hy⟩
  · rw [attributeValue_of_ne hsign] at hy ⊢
    have hinner := h.skip hy
    rw [attributeValue_of_ne ((hinner.head?_eq hy).trans_ne hsign)]
    exact ⟨rfl, hinner⟩

end Cursor.Alike

/-- An opening tag ends in front of what is left. -/
inductive TagEnd.Before (y : List Char) : TagEnd → Prop
  | opened {body : Cursor} : y.length ≤ body.rest.length → Before y (.opened body)
  | closed {rest : Cursor} : y.length ≤ rest.rest.length → Before y (.closed rest)

/-- Two opening tags end alike. -/
inductive TagEnd.Alike (y y' : List Char) : TagEnd → TagEnd → Prop
  | opened {body body' : Cursor} : body.Alike y y' body' → Alike y y' (.opened body) (.opened body')
  | closed {rest rest' : Cursor} : rest.Alike y y' rest' → Alike y y' (.closed rest) (.closed rest')

/-- A tag that is like an opening one opens, and leaves alike cursors. -/
theorem TagEnd.Alike.exists_opened {y y' : List Char} {body : Cursor} {e : TagEnd}
    (h : TagEnd.Alike y y' (.opened body) e) :
    ∃ body', e = .opened body' ∧ body.Alike y y' body' := by
  cases h with
  | opened hbody => exact ⟨_, rfl, hbody⟩

private theorem TagEnd.Alike.exists_closed {y y' : List Char} {rest : Cursor} {e : TagEnd}
    (h : TagEnd.Alike y y' (.closed rest) e) :
    ∃ rest', e = .closed rest' ∧ rest.Alike y y' rest' := by
  cases h with
  | closed hrest => exact ⟨_, rfl, hrest⟩

/-- A tag that ends short of what differs begins short of it. -/
theorem TagEnd.Before.length_lt {y : List Char} {e : TagEnd} {c : Cursor} (h : e.Before y)
    (hreads : e.Reads c) : y.length < c.rest.length := by
  cases h with
  | opened hy =>
    obtain ⟨s, hs, -⟩ := hreads
    rw [hs.rest]
    simp
    omega
  | closed hy =>
    obtain ⟨s, hs⟩ := hreads
    rw [hs.rest]
    simp
    omega

/-- Alike cursors read the same attributes, if the tag ends short of what differs in their texts. -/
theorem Cursor.Alike.attributes {y y' : List Char} {c : Cursor} : ∀ c', Alike y y' c c' →
    (attributes c).2.Before y →
      (Document.attributes c').1.map Attribute.entry =
          (Document.attributes c).1.map Attribute.entry ∧
        (Document.attributes c).2.Alike y y' (Document.attributes c').2 := by
  induction c using attributes_induction with
  | missing c hc =>
    rintro c' - ⟨⟩
  | opened c hc =>
    rintro c' h ⟨hy⟩
    obtain ⟨rest, hrest⟩ := List.head?_eq_some_iff.mp hc
    have hlt : 1 + y.length ≤ (c.skip isTagSpace).rest.length := by
      rw [rest_advance, hrest] at hy
      rw [hrest, List.length_cons, Nat.add_comm]
      exact Nat.succ_le_succ hy
    have hinner := h.skip (p := isTagSpace) (by omega)
    rw [attributes_opened ((hinner.head?_eq (by omega)).trans hc)]
    exact ⟨rfl, .opened (hinner.advance hlt)⟩
  | closed c hc hgt =>
    rintro c' h ⟨hy⟩
    obtain ⟨rest, hrest⟩ := List.head?_eq_some_iff.mp hc
    obtain ⟨more, hmore⟩ := List.head?_eq_some_iff.mp hgt
    have hlt : 2 + y.length ≤ (c.skip isTagSpace).rest.length := by
      rw [rest_advance, hrest] at hmore
      obtain rfl : rest = '>' :: more := hmore
      rename_i hy
      rw [rest_advance, hrest] at hy
      rw [hrest, List.length_cons, List.length_cons]
      have : y.length ≤ more.length := hy
      omega
    have hinner := h.skip (p := isTagSpace) (by omega)
    have hnext := (hinner.advance (n := 1) (by omega)).head?_eq (by
      rw [rest_advance, List.length_drop]
      omega)
    rw [attributes_slash ((hinner.head?_eq (by omega)).trans hc), if_pos (hnext.trans hgt)]
    exact ⟨rfl, .closed (hinner.advance hlt)⟩
  | slash c hc hgt ih =>
    intro c' h hy
    have hlt := add_lt_of_lt_advance (hy.length_lt (attributes_reads _))
    have hinner := h.skip (p := isTagSpace) (by omega)
    have hnext := (hinner.advance hlt.le).head?_eq (hy.length_lt (attributes_reads _))
    rw [attributes_slash ((hinner.head?_eq (by omega)).trans hc), if_neg (hnext.trans_ne hgt)]
    exact ih _ (hinner.advance hlt.le) hy
  | named c x hc hgt hslash inner name found more ih =>
    intro c' h hy
    have hend : more.2.Before y := by split at hy <;> exact hy
    have hfound : y.length < found.2.rest.length := hend.length_lt (attributes_reads _)
    have hvalue := hfound.trans_le (length_attributeValue_le _)
    have hlt := add_lt_of_lt_skip hvalue
    have hpos : y.length < inner.rest.length := (Nat.le_add_left _ _).trans_lt hlt
    have hinner : inner.Alike y y' (c'.skip isTagSpace) := h.skip hpos
    have hname : ((c'.skip isTagSpace).slice ((c'.skip isTagSpace).run isAttributeNameChar)).text =
        name.text := by
      rw [hinner.run_eq hvalue]
      exact hinner.slice_eq hlt.le
    obtain ⟨htext, hfound'⟩ := (hinner.skip hvalue).attributeValue hfound
    obtain ⟨hentries, halike⟩ := ih _ hfound' hend
    rw [attributes_named ((hinner.head?_eq hpos).trans hc) hgt hslash]
    dsimp only
    rw [hname]
    split
    · exact ⟨hentries, halike⟩
    · rw [List.map_cons, List.map_cons, hentries, Attribute.entry, Attribute.entry, hname, htext]
      exact ⟨rfl, halike⟩

/-! ### Contents -/

section Contents

variable {tag s y y' : List Char} {n : Nat}

private theorem startsFolded_append_of_le {p : List Char} (h : p.length ≤ s.length) :
    startsFolded (s ++ y) p = startsFolded s p := by
  rw [Bool.eq_iff_iff, startsFolded_iff, startsFolded_iff, folded_append]
  refine ⟨fun hp => ?_, fun hp => hp.trans (List.prefix_append _ _)⟩
  refine List.prefix_of_prefix_length_le hp (List.prefix_append _ _) ?_
  rwa [length_folded, length_folded]

/-- What begins early enough in a text begins there whatever follows the text. -/
private theorem startsFolded_drop_append {p : List Char} (h : n + p.length ≤ s.length) :
    startsFolded ((s ++ y).drop n) p = startsFolded (s.drop n) p := by
  rw [List.drop_append_of_le_length (by omega)]
  exact startsFolded_append_of_le (by rw [List.length_drop]; omega)

private theorem closingIndex?_append_congr (h : closingIndex? tag (s ++ y) = some n)
    (hn : n + (closingTag tag).length ≤ s.length) : closingIndex? tag (s ++ y') = some n := by
  obtain ⟨hend, hfirst⟩ := closingIndex?_eq_some_iff.mp h
  refine closingIndex?_eq_some_iff.mpr ⟨?_, fun m hm => ?_⟩
  · rw [startsFolded_drop_append hn, ← hend, startsFolded_drop_append hn]
  · rw [startsFolded_drop_append (by omega), ← hfirst m hm, startsFolded_drop_append (by omega)]

private theorem templateIndex?_append_congr (h : templateIndex? 1 (s ++ y) = some n)
    (hn : n + (closingTag templateTag).length ≤ s.length) :
    templateIndex? 1 (s ++ y') = some n := by
  have hcontent := isOpenContent_take n h Nat.one_pos
  rw [List.take_append_of_le_length (by omega)] at hcontent
  have hend := startsFolded_of_templateIndex? n h
  rw [startsFolded_drop_append hn] at hend
  obtain ⟨stop, more, hdrop, hstop⟩ := exists_append_of_startsFolded hend
  replace hstop : IsTemplateEnd stop := hstop.trans (by decide)
  have hsplit : s ++ y' = s.take n ++ (stop ++ (more ++ y')) := by
    conv_lhs => rw [← List.take_append_drop n s, hdrop]
    simp
  have hlength : (s.take n).length = n := by
    rw [List.length_take]
    omega
  cases hcontent with
  | last hcontent =>
    have := (templateIndex?_eq_length_iff hstop (more ++ y')).mpr hcontent
    rwa [← hsplit, hlength] at this

/-- Content that ends short of what differs has the same length. -/
theorem contentLength?_append_congr (h : contentLength? tag (s ++ y) = some n)
    (hn : n + (closingTag tag).length ≤ s.length) : contentLength? tag (s ++ y') = some n := by
  unfold contentLength? at h ⊢
  split at h
  · next heq =>
    rw [if_pos heq]
    refine templateIndex?_append_congr h ?_
    have hlength : tag.length = templateTag.length := by
      rw [← length_folded, ← length_folded templateTag]
      exact congrArg List.length (beq_iff_eq.mp heq)
    simpa [closingTag, hlength] using hn
  · next hne =>
    rw [if_neg hne]
    exact closingIndex?_append_congr h hn

end Contents

/-! ### Blocks -/

/-- A block is like another one, with some characters put in front of its content. Where the two
stand does not count. -/
structure Block.Gains (front : List Char) (b b' : Block) : Prop where
  tag : b'.tag.text = b.tag.text
  attributes : b'.attributes.map Attribute.entry = b.attributes.map Attribute.entry
  content : b'.content.text.toList = front ++ b.content.text.toList

private theorem length_closingTag (tag : List Char) : (closingTag tag).length = tag.length + 3 := by
  simp [closingTag]

/-- A closing tag stands behind the content. -/
private theorem add_length_le_of_contentLength? {tag cs : List Char} {n : Nat}
    (h : contentLength? tag cs = some n) : n + (tag.length + 3) ≤ cs.length := by
  obtain ⟨closing, more, hdrop, hfold⟩ :=
    exists_append_of_startsFolded (startsFolded_of_contentLength? h)
  have hlength := congrArg List.length hdrop
  have hclosing : closing.length = tag.length + 3 := by
    rw [← length_folded, hfold, length_folded, length_closingTag]
  rw [List.length_drop, List.length_append, hclosing] at hlength
  omega

namespace Cursor.Alike

variable {y y' : List Char} {c c' d : Cursor} {b : Block}

/-- An opening tag that ends in front of what is left is the same. -/
theorem opening (h : Alike y y' c c')
    (hy : (Document.attributes ((c.advance 1).skip isTagChar)).2.Before y) :
    (c'.advance 1).rest.takeWhile isTagChar = (c.advance 1).rest.takeWhile isTagChar ∧
      (Document.attributes ((c'.advance 1).skip isTagChar)).1.map Attribute.entry =
        (Document.attributes ((c.advance 1).skip isTagChar)).1.map Attribute.entry ∧
      (Document.attributes ((c.advance 1).skip isTagChar)).2.Alike y y'
        (Document.attributes ((c'.advance 1).skip isTagChar)).2 := by
  have htag := hy.length_lt (attributes_reads _)
  have hlt := add_lt_of_lt_skip htag
  have hinner : (c.advance 1).Alike y y' (c'.advance 1) :=
    h.advance (add_lt_of_lt_advance ((Nat.le_add_left _ _).trans_lt hlt)).le
  refine ⟨?_, (hinner.skip htag).attributes _ hy⟩
  rw [← take_run, ← take_run, hinner.run_eq htag]
  exact hinner.take_eq hlt.le

/-- A block that ends in front of what is left is found wherever the same characters are ahead. -/
theorem block? (h : Alike y y' c c') (hblock : block? c = some (b, d))
    (hy : y.length ≤ d.rest.length) :
    ∃ b' d', Document.block? c' = some (b', d') ∧ d.Alike y y' d' ∧ b.Gains [] b' := by
  obtain ⟨hname, hend⟩ := block?_eq_some_iff.mp hblock
  have hbefore : (Document.attributes ((c.advance 1).skip isTagChar)).2.Before y := by
    rcases hend with ⟨hfound, -⟩ | ⟨body, n, hfound, hn, rfl, -⟩
    · rw [hfound]
      exact .closed hy
    · rw [hfound]
      refine .opened (hy.trans ?_)
      rw [rest_advance, List.length_drop]
      exact Nat.sub_le _ _
  obtain ⟨hchars, hentries, halike⟩ := h.opening hbefore
  have hrun : (c'.advance 1).run isTagChar = (c.advance 1).run isTagChar :=
    congrArg List.length hchars
  have htag : ((c'.advance 1).slice ((c'.advance 1).run isTagChar)).text =
      ((c.advance 1).slice ((c.advance 1).run isTagChar)).text := by
    rw [slice, slice, take_run, take_run, hchars]
  rcases hend with ⟨hfound, rfl⟩ | ⟨body, n, hfound, hn, rfl, rfl⟩
  · rw [hfound] at halike
    obtain ⟨d', hd', hd⟩ := halike.exists_closed
    exact ⟨_, d', block?_eq_some_iff.mpr ⟨hrun ▸ hname, .inl ⟨hd', rfl⟩⟩, hd, htag, hentries, rfl⟩
  · rw [hfound] at halike
    obtain ⟨body', hbody', hbody⟩ := halike.exists_opened
    have hle := add_length_le_of_contentLength? hn
    have hlength : ((c.advance 1).rest.takeWhile isTagChar).length =
        (c.advance 1).run isTagChar := rfl
    rw [rest_advance, List.length_drop] at hy
    have hfit : n + ((c.advance 1).run isTagChar + 3) + y.length ≤ body.rest.length := by omega
    have hn' : contentLength? ((c'.advance 1).rest.takeWhile isTagChar) body'.rest = some n := by
      obtain ⟨ahead, hahead, hahead'⟩ := hbody
      rw [hahead] at hn hfit
      rw [hchars, hahead']
      refine contentLength?_append_congr hn ?_
      rw [length_closingTag, hlength]
      rw [List.length_append] at hfit
      omega
    refine ⟨_, _, block?_eq_some_iff.mpr ⟨hrun ▸ hname, .inr ⟨body', n, hbody', hn', rfl, rfl⟩⟩,
      ?_, htag, hentries, congrArg String.toList (hbody.slice_eq (by omega))⟩
    rw [hrun]
    exact hbody.advance hfit

/-- Nothing is found where nothing is found at the same characters. -/
theorem block?_eq_none (h : c.rest = c'.rest) (hnone : Document.block? c = none) :
    Document.block? c' = none := by
  cases hblock : Document.block? c' with
  | none => rfl
  | some found =>
    obtain ⟨b, d, hsome, -⟩ :=
      (alike_of_rest_eq h).symm.block? (b := found.1) (d := found.2) hblock (Nat.zero_le _)
    rw [hnone] at hsome
    cases hsome

end Cursor.Alike

/-! ### Scans -/

private theorem isPrefixOf_append_of_le {p s y : List Char} (h : p.length ≤ s.length) :
    p.isPrefixOf (s ++ y) = p.isPrefixOf s := by
  rw [Bool.eq_iff_iff, List.isPrefixOf_iff_prefix, List.isPrefixOf_iff_prefix]
  exact ⟨fun hp => List.prefix_of_prefix_length_le hp (List.prefix_append _ _) h,
    fun hp => hp.trans (List.prefix_append _ _)⟩

private theorem indexOf?_append_congr {p s y y' : List Char} {n : Nat}
    (h : indexOf? p (s ++ y) = some n)
    (hn : n + p.length ≤ s.length) : indexOf? p (s ++ y') = some n := by
  induction s generalizing n with
  | nil =>
    obtain ⟨rfl, hp⟩ : n = 0 ∧ p.length = 0 := by simpa using hn
    obtain rfl := List.length_eq_zero_iff.mp hp
    cases y' <;> rfl
  | cons c s ih =>
    have hle : p.length ≤ (c :: s).length := (Nat.le_add_left _ _).trans hn
    have hpre : ∀ z, p.isPrefixOf (c :: (s ++ z)) = p.isPrefixOf (c :: s) :=
      fun z => isPrefixOf_append_of_le hle
    rw [List.cons_append, indexOf?, hpre] at h ⊢
    split at h
    · next hp => rw [if_pos hp, h]
    · next hp =>
      obtain ⟨m, hm, rfl⟩ := Option.map_eq_some_iff.mp h
      rw [List.length_cons] at hn
      rw [if_neg hp, ih hm (by omega)]
      rfl

namespace Cursor

variable {y y' : List Char} {c c' d : Cursor} {bs : List Block}

private theorem Alike.commentOpening (h : Alike y y' c c') (hy : 4 + y.length ≤ c.rest.length) :
    commentOpening.isPrefixOf c'.rest = commentOpening.isPrefixOf c.rest := by
  obtain ⟨ahead, hc, hc'⟩ := h
  rw [hc, List.length_append] at hy
  have hle : Document.commentOpening.length ≤ ahead.length := Nat.le_of_add_le_add_right hy
  rw [hc, hc', isPrefixOf_append_of_le hle, isPrefixOf_append_of_le hle]

/-- A comment that ends short of what differs has the same length. -/
private theorem Alike.commentLength (h : Alike y y' c c')
    (hy : y.length < (c.advance (commentLength c.rest)).rest.length) :
    Document.commentLength c'.rest = Document.commentLength c.rest := by
  have hlt := add_lt_of_lt_advance hy
  unfold Document.commentLength at hlt ⊢
  cases hn : indexOf? commentClosing c.rest with
  | none =>
    rw [hn] at hlt
    exact absurd hlt (by simp)
  | some n =>
    rw [hn] at hlt
    obtain ⟨ahead, hc, hc'⟩ := h
    rw [hc, List.length_append] at hlt
    rw [hc] at hn
    have hle : n + commentClosing.length ≤ ahead.length :=
      (Nat.lt_of_add_lt_add_right hlt).le
    rw [hc', indexOf?_append_congr hn hle]

/-- A look that ends in front of what is left finds the same, if no block is found where none
was. -/
private theorem Alike.look (h : Alike y y' c c') (hne : c.rest ≠ [])
    (hy : y.length + 4 ≤ c.look.2.rest.length)
    (hnone : c.rest.head? = some '<' → Document.block? c = none → Document.block? c' = none) :
    Option.Rel (Block.Gains []) c.look.1 c'.look.1 ∧ Alike y y' c.look.2 c'.look.2 := by
  have hlt := length_rest_look_lt hne
  have hhead := h.head?_eq (by omega)
  have hstep : Alike y y' c.step c'.step := h.advance (n := 1) (by omega)
  have hopening := h.commentOpening (by omega)
  rcases look_cases c with ⟨hfree, hlook⟩ | ⟨hcomment, hlook⟩ |
    ⟨hsign, hcomment, ⟨b, d, hblock, hlook⟩ | ⟨hblock, hlook⟩⟩
  · rw [hlook, look_of_ne (hhead.trans_ne hfree)]
    exact ⟨.none, hstep⟩
  · rw [hlook] at hy ⊢
    rw [look_of_comment (hopening.trans hcomment), h.commentLength (by dsimp only at hy; omega)]
    exact ⟨.none, h.advance (add_lt_of_lt_advance (by dsimp only at hy; omega : y.length < _)).le⟩
  · rw [hlook] at hy ⊢
    obtain ⟨b', d', hblock', hd, hgains⟩ := h.block? hblock (by dsimp only at hy; omega)
    rw [look_of_block (hhead.trans hsign) (hopening.trans hcomment) hblock']
    exact ⟨.some hgains, hd⟩
  · rw [hlook, look_of_none (hhead.trans hsign) (hopening.trans hcomment) (hnone hsign hblock)]
    exact ⟨.none, hstep⟩

/-- What one look finds depends on the characters from there on. -/
private theorem look_congr (h : c.rest = c'.rest) :
    Option.Rel (Block.Gains []) c.look.1 c'.look.1 ∧ c.look.2.rest = c'.look.2.rest := by
  have hstep : c.step.rest = c'.step.rest := by rw [rest_step, rest_step, h]
  rcases look_cases c with ⟨hfree, hlook⟩ | ⟨hcomment, hlook⟩ |
    ⟨hsign, hcomment, ⟨b, d, hblock, hlook⟩ | ⟨hblock, hlook⟩⟩
  · rw [hlook, look_of_ne (h ▸ hfree)]
    exact ⟨.none, hstep⟩
  · rw [hlook, look_of_comment (h ▸ hcomment)]
    exact ⟨.none, by rw [rest_advance, rest_advance, h]⟩
  · obtain ⟨b', d', hblock', ⟨ahead, hd, hd'⟩, hgains⟩ :=
      (alike_of_rest_eq h).block? hblock (Nat.zero_le _)
    rw [hlook, look_of_block (h ▸ hsign) (h ▸ hcomment) hblock']
    exact ⟨.some hgains, hd.trans hd'.symm⟩
  · rw [hlook, look_of_none (h ▸ hsign) (h ▸ hcomment) (Alike.block?_eq_none h hblock)]
    exact ⟨.none, hstep⟩

private theorem forall₂_toList {o o' : Option Block} (h : Option.Rel (Block.Gains []) o o') :
    List.Forall₂ (Block.Gains []) o.toList o'.toList := by
  cases h with
  | none => exact .nil
  | some hgains => exact .cons hgains .nil

/-- The blocks from a position on depend on the characters from there on. -/
theorem forall₂_scan : ∀ c' : Cursor, c.rest = c'.rest →
    List.Forall₂ (Block.Gains []) c.scan c'.scan := by
  induction c using scan_induction with
  | nil c hc =>
    intro c' h
    rw [scan_eq_nil (h ▸ hc)]
    exact .nil
  | pass c hne hlook ih =>
    intro c' h
    obtain ⟨hfound, hrest⟩ := look_congr h
    rw [scan_eq (h ▸ hne : c'.rest ≠ [])]
    rw [hlook] at hfound
    exact List.rel_append (forall₂_toList hfound) (ih _ hrest)
  | block c b hlook ih =>
    intro c' h
    obtain ⟨hfound, hrest⟩ := look_congr h
    rw [scan_eq (h ▸ ne_nil_of_look hlook : c'.rest ≠ [])]
    rw [hlook] at hfound
    exact List.rel_append (forall₂_toList hfound) (ih _ hrest)

/-- Scanning does not go back. -/
theorem Scans.length_rest_le (h : c.Scans bs d) : d.rest.length ≤ c.rest.length := by
  induction h with
  | refl c => exact Nat.le_refl _
  | look hne _ ih => exact ih.trans (length_rest_look_lt hne).le

/-- What the scanner finds on its way to a position, it finds wherever the same characters lie
between, if no block is found on the way where none was. -/
theorem Scans.alike (h : c.Scans bs d) : ∀ c', Alike y y' c c' → y.length + 4 ≤ d.rest.length →
    (∀ found e e', c.Scans found e → d.rest.length < e.rest.length → e.rest.head? = some '<' →
      Alike y y' e e' → Document.block? e = none → Document.block? e' = none) →
    ∃ bs' d', c'.Scans bs' d' ∧ Alike y y' d d' ∧ List.Forall₂ (Block.Gains []) bs bs' := by
  induction h with
  | refl c =>
    intro c' halike _ _
    exact ⟨[], c', .refl c', halike, .nil⟩
  | @look c d bs hne hmore ih =>
    intro c' halike hy hnone
    have hlook := hmore.length_rest_le
    obtain ⟨hfound, halike'⟩ := halike.look hne (hy.trans hlook) fun hsign =>
      hnone [] c c' (.refl c) (hlook.trans_lt (length_rest_look_lt hne)) hsign halike
    obtain ⟨bs', d', hscans, hd, hbs⟩ := ih c'.look.2 halike' hy fun found e e' he =>
      hnone _ e e' (.look hne he)
    have hne' : c'.rest ≠ [] := by
      have hhead := halike.head?_eq (by have := length_rest_look_lt hne; omega)
      rintro hnil
      rw [hnil, List.head?_nil, eq_comm, List.head?_eq_none_iff] at hhead
      exact hne hhead
    exact ⟨_, d', .look hne' hscans, hd, List.rel_append (forall₂_toList hfound) hbs⟩

end Cursor

end ComponentInsight.Document

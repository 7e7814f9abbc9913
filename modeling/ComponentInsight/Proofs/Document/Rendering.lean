import ComponentInsight.Document.Regions
import ComponentInsight.Proofs.Document.Contents
import ComponentInsight.Proofs.Table
import Mathlib.Data.List.Forall2
import Mathlib.Tactic.MkIffOfInductiveProp

/-!
# Reading back what was written

A document is written as a list of elements with text around them. `Element.Valid` says which
elements can be read back: nothing in one may be taken for the beginning or the end of something
else. Contents are free otherwise and may hold `<`, quotes, comments, tags of other elements and
closing tags that are cut short.

Reading follows the order of the writing, with a lemma for each part and a rest that is left:
attributes (`exists_attributes_eq`), one element (`Element.exists_block?_eq`), the text in front of
an element (`blocksFrom_skip`). Together they give `Written.forall₂_blocks`: the blocks of a written
document show its elements, one by one.

Blanks are the one thing that is not read where it was written. Those behind a name without a value
are skipped when a `=` is looked for, so the attributes that follow are stated up to blanks.
-/

namespace ComponentInsight.Document

/-! ### Written documents -/

/-- A block as it is written, with the text in front of it. -/
structure Element where
  before : String
  tag : String
  /-- The names of attributes, with the values of those that have one. -/
  attributes : List (String × Option String)
  content : String
  /-- The tag as it stands in the closing tag. -/
  closing : String

/-- The value of an attribute, if it has one, behind its name. -/
def valueChars : Option String → List Char
  | none => []
  | some v => '=' :: '"' :: (v.toList ++ ['"'])

/-- An attribute with the blank in front of it. -/
def attributeChars (a : String × Option String) : List Char :=
  ' ' :: (a.1.toList ++ valueChars a.2)

/-- An attribute that can be written: its name is not empty and free of what ends names, its value
is free of quotes. -/
@[mk_iff]
structure IsAttribute (a : String × Option String) : Prop where
  name_ne : a.1 ≠ ""
  name : ∀ c ∈ a.1.toList, c ∉ [' ', '\t', '\r', '\n', '=', '>', '/']
  value : ∀ v ∈ a.2, '"' ∉ v.toList

-- characters are checked along the text, not along all characters there are
instance : DecidablePred IsAttribute := fun a =>
  have := List.decidableBAll (· ∉ [' ', '\t', '\r', '\n', '=', '>', '/']) a.1.toList
  decidable_of_iff _ (isAttribute_iff a).symm

namespace Element

/-- The element as it is written. -/
def chars (e : Element) : List Char :=
  e.before.toList ++ '<' :: (e.tag.toList ++ (e.attributes.flatMap attributeChars ++ '>' ::
    (e.content.toList ++ '<' :: '/' :: (e.closing.toList ++ ['>']))))

/-- The tag in lower case. -/
def kind (e : Element) : String := e.tag.toLower

/-- The attributes, those without a value with the empty one. -/
def entries (e : Element) : Table String String := e.attributes.map fun a => (a.1, a.2.getD "")

/-- Whether the element has the attribute of setup scripts. -/
def hasSetup (e : Element) : Bool := e.attributes.any fun a => a.1 == "setup"

/-- An element that can be written: nothing in it can be taken for the beginning or the end of
something else. -/
@[mk_iff]
structure Valid (e : Element) : Prop where
  before : '<' ∉ e.before.toList
  tag_ne : e.tag ≠ ""
  tag : ∀ c ∈ e.tag.toList, c.isAlphanum = true ∨ c = '-' ∨ c = '_'
  attributes : ∀ a ∈ e.attributes, IsAttribute a
  distinct : (e.attributes.map Prod.fst).Nodup
  /-- The closing tag repeats the tag in any letter case. -/
  closing : folded e.closing.toList = folded e.tag.toList
  /-- The content has no closing tag of its own, in any letter case. -/
  content : ¬ '<' :: '/' :: (folded e.tag.toList ++ ['>']) <:+: folded e.content.toList
  /-- A template holds no template. -/
  template : e.kind = "template" → ¬ "<template".toList <:+: folded e.content.toList

instance : DecidablePred Valid := fun e =>
  have := List.decidableBAll (fun c => c.isAlphanum = true ∨ c = '-' ∨ c = '_') e.tag.toList
  decidable_of_iff _ (valid_iff e).symm

end Element

/-- A document as it is written. -/
structure Written where
  elements : List Element
  /-- The text behind the last element. -/
  after : String

/-- The text of a written document. -/
def Written.text (d : Written) : String :=
  String.ofList (d.elements.flatMap Element.chars ++ d.after.toList)

/-- What is found of an element: its tag as written, its content and its attributes, with what these
imply. -/
structure Block.Shows (b : Block) (e : Element) : Prop where
  tag : b.tag.text = e.tag
  content : b.content.text = e.content
  attributes : b.attributeTable = e.entries
  lang : b.lang? = e.entries.find? "lang"
  src : b.attribute? "src" = e.entries.find? "src"
  setup : b.isSetup = e.hasSetup

/-! ### Attributes -/

private theorem isTagSpace_of_isInnerSpace {c : Char} (h : isInnerSpace c = true) :
    isTagSpace c = true := by
  simp only [isInnerSpace, isTagSpace, Bool.or_eq_true, beq_iff_eq] at h ⊢
  tauto

private theorem isAttributeNameChar_of_notMem {c : Char}
    (h : c ∉ [' ', '\t', '\r', '\n', '=', '>', '/']) : isAttributeNameChar c = true := by
  simp only [List.mem_cons, List.not_mem_nil, or_false, not_or] at h
  simp [isAttributeNameChar, isTagSpace, h]

private theorem isTagSpace_eq_false {c : Char} (h : isAttributeNameChar c = true) :
    isTagSpace c = false := by
  simp only [isAttributeNameChar, Bool.and_eq_true] at h
  simpa using h.2

/-- Dropping more characters after fewer drops the more. -/
private theorem dropWhile_dropWhile_of_imp {p q : Char → Bool} (h : ∀ c, p c = true → q c = true)
    (cs : List Char) : (cs.dropWhile p).dropWhile q = cs.dropWhile q := by
  induction cs with
  | nil => rfl
  | cons c cs ih =>
    by_cases hp : p c = true
    · rw [List.dropWhile_cons_of_pos hp, List.dropWhile_cons_of_pos (h c hp), ih]
    · rw [List.dropWhile_cons_of_neg hp]

namespace Cursor

variable {c : Cursor} {p : Char → Bool} {xs ys : List Char}

/-- A run ends where the next character does not belong to it. -/
private theorem run_eq (h : c.rest = xs ++ ys) (hxs : ∀ x ∈ xs, p x = true)
    (hys : ∀ y ∈ ys.head?, p y = false) : c.run p = xs.length := by
  have hstop : ys.takeWhile p = [] := by
    cases ys with
    | nil => rfl
    | cons y ys => exact List.takeWhile_cons_of_neg (by simp [hys y rfl])
  rw [run, h, List.takeWhile_append_of_pos hxs, hstop, List.append_nil]

private theorem text_slice (h : c.rest = xs ++ ys) :
    (c.slice xs.length).text = String.ofList xs := by
  simp [slice, h]

end Cursor

/-- Behind a name without `=`, the value is empty. -/
private theorem attributeValue_of_head?_ne {c : Cursor}
    (h : (c.rest.dropWhile isInnerSpace).head? ≠ some '=') :
    (attributeValue c).1.text = "" ∧
      (attributeValue c).2.rest = c.rest.dropWhile isInnerSpace := by
  unfold attributeValue
  dsimp only
  split
  · next heq =>
    rw [Cursor.rest_skip] at heq
    simp [heq] at h
  · exact ⟨by simp [Cursor.slice], Cursor.rest_skip _ _⟩

/-- A quoted value is read up to its quote. -/
private theorem attributeValue_quoted {c : Cursor} {v more : List Char} (hv : '"' ∉ v)
    (h : c.rest = '=' :: '"' :: (v ++ '"' :: more)) :
    (attributeValue c).1.text = String.ofList v ∧ (attributeValue c).2.rest = more := by
  have hrest : (c.skip isInnerSpace).rest = '=' :: '"' :: (v ++ '"' :: more) := by
    rw [Cursor.rest_skip, h]
    rfl
  have hinner : (((c.skip isInnerSpace).advance 1).skip isInnerSpace).rest =
      '"' :: (v ++ '"' :: more) := by
    rw [Cursor.rest_skip, Cursor.rest_advance, hrest]
    rfl
  have hbody : ((((c.skip isInnerSpace).advance 1).skip isInnerSpace).advance 1).rest =
      v ++ '"' :: more := by
    rw [Cursor.rest_advance, hinner]
    rfl
  have hrun : ((((c.skip isInnerSpace).advance 1).skip isInnerSpace).advance 1).run (· != '"') =
      v.length := by
    refine Cursor.run_eq hbody (fun x hx => ?_) (by simp)
    simpa using fun heq : x = '"' => hv (heq ▸ hx)
  unfold attributeValue
  dsimp only
  rw [hrest]
  rw [hinner]
  dsimp only
  rw [if_pos (.inl rfl), hrun]
  refine ⟨Cursor.text_slice hbody, ?_⟩
  change (Cursor.advance (v.length + 1) _).rest = more
  rw [Cursor.rest_advance, hbody]
  simp

/-! ### Opening tags -/

/-- An opening tag that ends has no more attributes. -/
private theorem attributes_of_gt {c : Cursor} {rest : List Char}
    (h : c.rest.dropWhile isTagSpace = '>' :: rest) :
    attributes c = ([], .opened ((c.skip isTagSpace).advance 1)) := by
  rw [← Cursor.rest_skip] at h
  rw [attributes]
  split
  · next heq => exact absurd (h.symm.trans heq) (List.cons_ne_nil _ _)
  · next x rest' heq =>
    obtain ⟨rfl, -⟩ := List.cons.inj (h.symm.trans heq)
    rfl

/-- A name is followed by its value and by more attributes. -/
private theorem attributes_of_name {c : Cursor} {x : Char} {rest : List Char}
    (h : c.rest.dropWhile isTagSpace = x :: rest) (hx : isAttributeNameChar x = true) :
    attributes c =
      let inner := c.skip isTagSpace
      let found := attributeValue (inner.skip isAttributeNameChar)
      (⟨inner.slice (inner.run isAttributeNameChar), found.1⟩ :: (attributes found.2).1,
        (attributes found.2).2) := by
  rw [← Cursor.rest_skip] at h
  have hgt : x ≠ '>' := by
    rintro rfl
    simp [isAttributeNameChar] at hx
  have hslash : x ≠ '/' := by
    rintro rfl
    simp [isAttributeNameChar] at hx
  have hname : ((c.skip isTagSpace).slice
      ((c.skip isTagSpace).run isAttributeNameChar)).text.isEmpty = false := by
    simp only [Cursor.slice, Cursor.run, h, List.takeWhile_cons_of_pos hx, List.length_cons,
      List.take_succ_cons]
    simp
  rw [attributes]
  split
  · next heq => exact absurd (h.symm.trans heq) (List.cons_ne_nil _ _)
  · next x' rest' heq =>
    obtain ⟨rfl, rfl⟩ := List.cons.inj (h.symm.trans heq)
    simp only [hgt, hslash, dite_false, hname]
    rfl

section

variable {as : List (String × Option String)} {rest : List Char}

/-- The name of an attribute begins with a character of names. -/
private theorem IsAttribute.exists_cons {a : String × Option String} (h : IsAttribute a) :
    ∃ x xs, a.1.toList = x :: xs ∧ isAttributeNameChar x = true := by
  obtain ⟨x, xs, hxs⟩ : ∃ x xs, a.1.toList = x :: xs :=
    List.exists_cons_of_ne_nil fun hnil => h.name_ne (String.toList_eq_nil_iff.mp hnil)
  exact ⟨x, xs, hxs, isAttributeNameChar_of_notMem (h.name x (by simp [hxs]))⟩

/-- Behind the blanks of an attribute its name begins. -/
private theorem dropWhile_attributeChars {p : Char → Bool} {a : String × Option String}
    (h : IsAttribute a) (hblank : p ' ' = true) (hp : ∀ x, p x = true → isTagSpace x = true)
    (tail : List Char) :
    (attributeChars a ++ tail).dropWhile p = a.1.toList ++ (valueChars a.2 ++ tail) := by
  obtain ⟨x, xs, hxs, hx⟩ := h.exists_cons
  have hstop : ¬ p x = true := fun hpx => by simpa [isTagSpace_eq_false hx] using hp x hpx
  rw [attributeChars, List.cons_append, List.dropWhile_cons_of_pos hblank, hxs]
  simp [hstop]

/-- A name ends where its value, the next attribute or the end of the tag begins. -/
private theorem isAttributeNameChar_head?_eq_false (v : Option String) :
    ∀ y ∈ (valueChars v ++ (as.flatMap attributeChars ++ '>' :: rest)).head?,
      isAttributeNameChar y = false := by
  cases v with
  | some v => simp [valueChars, isAttributeNameChar]
  | none => cases as <;> simp [valueChars, attributeChars, isAttributeNameChar, isTagSpace]

/-- Behind an attribute without a value no `=` is found. -/
private theorem head?_dropWhile_ne (has : ∀ a ∈ as, IsAttribute a) :
    ((as.flatMap attributeChars ++ '>' :: rest).dropWhile isInnerSpace).head? ≠ some '=' := by
  cases as with
  | nil => simp [isInnerSpace]
  | cons a as =>
    have ha := has a List.mem_cons_self
    obtain ⟨x, xs, hxs, hx⟩ := ha.exists_cons
    rw [List.flatMap_cons, List.append_assoc, dropWhile_attributeChars ha rfl
      (fun _ => isTagSpace_of_isInnerSpace), hxs]
    rintro heq
    obtain rfl : x = '=' := by simpa using heq
    simp [isAttributeNameChar] at hx

/-- The value of an attribute is read back; blanks behind it do not count. -/
private theorem attributeValue_valueChars (has : ∀ a ∈ as, IsAttribute a) {v : Option String}
    (hv : ∀ s ∈ v, '"' ∉ s.toList) {c : Cursor}
    (hc : c.rest = valueChars v ++ (as.flatMap attributeChars ++ '>' :: rest)) :
    (attributeValue c).1.text = v.getD "" ∧ (attributeValue c).2.rest.dropWhile isTagSpace =
      (as.flatMap attributeChars ++ '>' :: rest).dropWhile isTagSpace := by
  cases v with
  | none =>
    replace hc : c.rest = as.flatMap attributeChars ++ '>' :: rest := hc
    obtain ⟨htext, hrest⟩ := attributeValue_of_head?_ne (hc ▸ head?_dropWhile_ne has)
    rw [hrest, hc, dropWhile_dropWhile_of_imp fun _ => isTagSpace_of_isInnerSpace]
    exact ⟨htext, rfl⟩
  | some v =>
    replace hc : c.rest = '=' :: '"' :: (v.toList ++ '"' ::
        (as.flatMap attributeChars ++ '>' :: rest)) := by simpa [valueChars] using hc
    obtain ⟨htext, hrest⟩ := attributeValue_quoted (hv v rfl) hc
    rw [htext, hrest]
    exact ⟨String.ofList_toList, rfl⟩

/-- What an attribute of an opening tag says. -/
def Attribute.entry (a : Attribute) : String × String := (a.name.text, a.value.text)

/-- Attributes are read back, those without a value with the empty one. -/
theorem exists_attributes_eq (has : ∀ a ∈ as, IsAttribute a) {c : Cursor}
    (hc : c.rest.dropWhile isTagSpace =
      (as.flatMap attributeChars ++ '>' :: rest).dropWhile isTagSpace) :
    ∃ found body, attributes c = (found, .opened body) ∧
      found.map Attribute.entry = (as.map fun a => (a.1, a.2.getD "")) ∧ body.rest = rest := by
  -- blanks in front of the next attribute may have been skipped already
  induction as generalizing c with
  | nil =>
    have hgt : c.rest.dropWhile isTagSpace = '>' :: rest := hc
    refine ⟨[], _, attributes_of_gt hgt, rfl, ?_⟩
    rw [Cursor.rest_advance, Cursor.rest_skip, hgt]
    rfl
  | cons a as ih =>
    have ha := has a List.mem_cons_self
    have has' : ∀ b ∈ as, IsAttribute b := fun b hb => has b (List.mem_cons_of_mem _ hb)
    obtain ⟨x, xs, hxs, hx⟩ := ha.exists_cons
    rw [List.flatMap_cons, List.append_assoc, dropWhile_attributeChars ha rfl fun _ h => h] at hc
    have hinner : (c.skip isTagSpace).rest =
        a.1.toList ++ (valueChars a.2 ++ (as.flatMap attributeChars ++ '>' :: rest)) := by
      rw [Cursor.rest_skip, hc]
    have hrun : (c.skip isTagSpace).run isAttributeNameChar = a.1.toList.length :=
      Cursor.run_eq hinner (fun y hy => isAttributeNameChar_of_notMem (ha.name y hy))
        (isAttributeNameChar_head?_eq_false a.2)
    have hvalue : ((c.skip isTagSpace).skip isAttributeNameChar).rest =
        valueChars a.2 ++ (as.flatMap attributeChars ++ '>' :: rest) := by
      rw [Cursor.skip, hrun]
      exact Cursor.rest_advance_append hinner
    obtain ⟨htext, hmore⟩ := attributeValue_valueChars has' ha.value hvalue
    obtain ⟨found, body, hattributes, hentries, hbody⟩ := ih has' hmore
    rw [hxs, List.cons_append] at hc
    have heq := attributes_of_name hc hx
    dsimp only at heq
    rw [hattributes] at heq
    refine ⟨_, body, heq, ?_, hbody⟩
    rw [List.map_cons, List.map_cons, hentries, hrun, Attribute.entry,
      Cursor.text_slice hinner, htext, String.ofList_toList]

end

/-! ### Elements -/

namespace Element

variable {e : Element} {c : Cursor} {more : List Char}

private theorem isTagChar_of_valid (h : e.Valid) : ∀ x ∈ e.tag.toList, isTagChar x = true := by
  intro x hx
  rcases h.tag x hx with hx | rfl | rfl
  · simp [isTagChar, hx]
  · rfl
  · rfl

private theorem lt_notMem_tag (h : e.Valid) : '<' ∉ e.tag.toList := by
  intro hmem
  have := isTagChar_of_valid h _ hmem
  simp [isTagChar] at this

/-- Setup scripts are told by what is found at the name of the attribute. -/
private theorem isSome_find?_setup (e : Element) :
    (e.entries.find? "setup").isSome = e.hasSetup := by
  unfold entries hasSetup
  induction e.attributes with
  | nil => rfl
  | cons a as ih =>
    rw [List.map_cons, List.any_cons, ← ih, Table.find?]
    split
    · next heq => simp [heq]
    · next hne => simp [hne]

/-- A tag ends where an attribute or the end of the opening tag begins. -/
private theorem isTagChar_head?_eq_false (as : List (String × Option String)) (rest : List Char) :
    ∀ y ∈ (as.flatMap attributeChars ++ '>' :: rest).head?, isTagChar y = false := by
  cases as with
  | nil => simp; decide
  | cons a as => simp [attributeChars]; decide

/-- An element is read back, with all that comes behind it left. -/
theorem exists_block?_eq (h : e.Valid)
    (hc : c.rest = '<' :: (e.tag.toList ++ (e.attributes.flatMap attributeChars ++ '>' ::
      (e.content.toList ++ '<' :: '/' :: (e.closing.toList ++ '>' :: more))))) :
    ∃ b rest, block? c = some (b, rest) ∧ b.Shows e ∧ rest.rest = more := by
  have hinner : (c.advance 1).rest = e.tag.toList ++ (e.attributes.flatMap attributeChars ++ '>' ::
      (e.content.toList ++ '<' :: '/' :: (e.closing.toList ++ '>' :: more))) := by
    rw [Cursor.rest_advance, hc]
    rfl
  have hrun : (c.advance 1).run isTagChar = e.tag.toList.length :=
    Cursor.run_eq hinner (isTagChar_of_valid h) (isTagChar_head?_eq_false _ _)
  have hne : e.tag.toList.length ≠ 0 := by simpa using h.tag_ne
  obtain ⟨found, body, hattributes, hentries, hbody⟩ :=
    exists_attributes_eq (c := (c.advance 1).advance e.tag.toList.length) h.attributes
      (congrArg (List.dropWhile isTagSpace) (Cursor.rest_advance_append hinner))
  have hclosing : startsFolded ('<' :: '/' :: (e.closing.toList ++ '>' :: more))
      (closingTag e.tag.toList) = true := by
    rw [startsFolded_iff, folded_closingTag]
    simp [h.closing]
  have hcontent : contentLength? e.tag.toList body.rest = some e.content.toList.length := by
    rw [hbody]
    refine contentLength?_append (lt_notMem_tag h) ?_ (fun htag => ?_) hclosing
    · rw [folded_closingTag]
      exact h.content
    · refine h.template (String.toList_inj.mp ?_)
      rw [kind, toList_toLower, htag]
      rfl
  have htable : (found.map fun a => (a.name.text, a.value.text)) = e.entries := hentries
  have hkeys : e.entries.keys.Nodup := by
    simpa [entries, Table.keys, Function.comp_def] using h.distinct
  have hlength : e.closing.toList.length = e.tag.toList.length := by
    rw [← length_folded, h.closing, length_folded]
  unfold block?
  dsimp only
  rw [hrun, if_neg hne, hattributes]
  dsimp only
  rw [hinner, List.take_left, hcontent]
  refine ⟨_, _, rfl, ?_, ?_⟩
  · have hattributeTable : Table.ofEntries (found.map fun a => (a.name.text, a.value.text)) =
        e.entries := by rw [htable, Table.ofEntries_of_nodup hkeys]
    refine ⟨?_, ?_, hattributeTable, ?_, ?_, ?_⟩
    · rw [Cursor.text_slice hinner, String.ofList_toList]
    · rw [Cursor.text_slice hbody, String.ofList_toList]
    · rw [← hattributeTable]
      rfl
    · rw [← hattributeTable]
      rfl
    · rw [← isSome_find?_setup, ← hattributeTable]
      rfl
  · rw [Cursor.rest_advance, hbody, ← List.drop_drop, List.drop_left, ← hlength]
    simp

end Element

/-! ### Documents -/

/-- Text without `<` is skipped. -/
theorem blocksFrom_skip {text rest : List Char} (htext : '<' ∉ text) {c : Cursor}
    (hc : c.rest = text ++ rest) (fuel : Nat) :
    blocksFrom (text.length + fuel) c = blocksFrom fuel (c.advance text.length) := by
  induction text generalizing c with
  | nil => simp [Cursor.advance]
  | cons x text ih =>
    simp only [List.mem_cons, not_or] at htext
    have hstep : c.step.rest = text ++ rest := by simp [hc]
    have hfuel : (x :: text).length + fuel = text.length + fuel + 1 := by
      simp only [List.length_cons]
      omega
    rw [hfuel, blocksFrom, hc]
    dsimp only [List.cons_append]
    rw [if_neg (Ne.symm htext.1), ih htext.2 hstep]
    rfl

/-- Nothing is found behind the last element. -/
private theorem blocksFrom_eq_nil {fuel : Nat} {c : Cursor} (h : c.rest = []) :
    blocksFrom fuel c = [] := by
  cases fuel with
  | zero => rfl
  | succ fuel => rw [blocksFrom, h]

/-- An element is no comment. -/
private theorem isPrefixOf_commentOpening_eq_false {e : Element} (h : e.Valid) (rest : List Char) :
    commentOpening.isPrefixOf ('<' :: (e.tag.toList ++ rest)) = false := by
  obtain ⟨x, xs, hxs⟩ : ∃ x xs, e.tag.toList = x :: xs :=
    List.exists_cons_of_ne_nil fun hnil => h.tag_ne (String.toList_eq_nil_iff.mp hnil)
  have hx : '!' ≠ x := by
    rintro rfl
    have := Element.isTagChar_of_valid h '!' (by simp [hxs])
    revert this
    decide
  rw [hxs]
  simp [commentOpening, List.isPrefixOf, hx]

/-- All elements are read back, in order. -/
private theorem forall₂_blocksFrom {es : List Element} (hes : ∀ e ∈ es, e.Valid) {after : List Char}
    (hafter : '<' ∉ after) {fuel : Nat} {c : Cursor} (hfuel : c.rest.length ≤ fuel)
    (hc : c.rest = es.flatMap Element.chars ++ after) :
    List.Forall₂ Block.Shows (blocksFrom fuel c) es := by
  induction es generalizing fuel c with
  | nil =>
    replace hc : c.rest = after ++ [] := by simpa using hc
    obtain ⟨spare, rfl⟩ := Nat.exists_eq_add_of_le hfuel
    have hlength : c.rest.length = after.length := by simp [hc]
    rw [hlength, blocksFrom_skip hafter hc, blocksFrom_eq_nil]
    · exact .nil
    · exact Cursor.rest_advance_append hc
  | cons e es ih =>
    have he := hes e List.mem_cons_self
    have hes' : ∀ e ∈ es, e.Valid := fun e he => hes e (List.mem_cons_of_mem _ he)
    have hbefore : c.rest = e.before.toList ++ '<' :: (e.tag.toList ++
        (e.attributes.flatMap attributeChars ++ '>' :: (e.content.toList ++ '<' :: '/' ::
          (e.closing.toList ++ '>' :: (es.flatMap Element.chars ++ after))))) := by
      simp [hc, Element.chars]
    obtain ⟨spare, rfl, hspare⟩ : ∃ spare, fuel = e.before.toList.length + (spare + 1) ∧
        (es.flatMap Element.chars ++ after).length ≤ spare := by
      rw [hbefore] at hfuel
      simp only [List.length_append, List.length_cons] at hfuel
      refine ⟨fuel - e.before.toList.length - 1, by omega, ?_⟩
      rw [List.length_append]
      omega
    rw [blocksFrom_skip he.before hbefore]
    have hstart := Cursor.rest_advance_append hbefore
    obtain ⟨b, rest, hblock, hshows, hrest⟩ := Element.exists_block?_eq he hstart
    rw [blocksFrom, hstart]
    dsimp only
    rw [if_pos rfl, isPrefixOf_commentOpening_eq_false he, hblock]
    exact .cons hshows (ih hes' (hrest ▸ hspare) hrest)

/-- The blocks of a written document are its elements, in order. -/
theorem Written.forall₂_blocks {d : Written} (hes : ∀ e ∈ d.elements, e.Valid)
    (hafter : '<' ∉ d.after.toList) : List.Forall₂ Block.Shows (blocks d.text) d.elements := by
  refine forall₂_blocksFrom hes hafter (Nat.le_refl _) ?_
  simp [Cursor.ofText, Written.text]

end ComponentInsight.Document

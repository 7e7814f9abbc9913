import ComponentInsight.Document.Block
import Mathlib.Data.List.Infix

/-!
# Where the content of a block ends

The content of a block ends at the first closing tag of the block, in any letter case. So a content
that holds no such tag is found again in front of one, whatever follows (`closingIndex?_append`):
the closing tag begins with the only `<` in it, and no occurrence can begin inside the content and
end inside the closing tag. For a template the same holds of contents without nested templates
(`templateIndex?_append`).
-/

namespace ComponentInsight.Document

/-- A text with all ASCII letters in lower case. -/
def folded (cs : List Char) : List Char := cs.map Char.toLower

@[simp] theorem folded_nil : folded [] = [] := rfl

@[simp] theorem folded_cons (c : Char) (cs : List Char) :
    folded (c :: cs) = c.toLower :: folded cs := rfl

@[simp] theorem folded_append (cs ds : List Char) : folded (cs ++ ds) = folded cs ++ folded ds :=
  List.map_append

theorem length_folded (cs : List Char) : (folded cs).length = cs.length := List.length_map _

theorem toList_toLower (s : String) : s.toLower.toList = folded s.toList := String.toList_map

/-- A text begins with another in any letter case if its folded form does. -/
theorem startsFolded_iff {cs ps : List Char} :
    startsFolded cs ps = true ↔ folded ps <+: folded cs := by
  induction ps generalizing cs with
  | nil => cases cs <;> simp [startsFolded]
  | cons p ps ih =>
    cases cs with
    | nil => simp [startsFolded]
    | cons c cs =>
      rw [startsFolded, Bool.and_eq_true, beq_iff_eq, ih, folded_cons, folded_cons,
        List.cons_prefix_cons, eq_comm]

/-- A text does not start with a front, in either case, exactly if their foldings do not. -/
theorem startsFolded_eq_false_iff {cs ps : List Char} :
    startsFolded cs ps = false ↔ ¬ folded ps <+: folded cs := by
  rw [← startsFolded_iff, Bool.not_eq_true]

/-- Only a sign itself has the sign as its lower case: the lower case of a capital letter is a
letter. -/
theorem eq_of_toLower {c x : Char} (hx : x.val.toNat < 97) (h : c.toLower = x) : c = x := by
  unfold Char.toLower at h
  split at h
  · next hupper =>
    have hval := congrArg (fun c : Char => c.val.toNat) h
    obtain ⟨hlow, hhigh⟩ := hupper
    have hlow' : 65 ≤ c.val.toNat := UInt32.le_iff_toNat_le.mp hlow
    have hhigh' : c.val.toNat ≤ 90 := UInt32.le_iff_toNat_le.mp hhigh
    simp only [UInt32.toNat_add] at hval
    have h32 : ('a'.val - 'A'.val : UInt32).toNat = 32 := rfl
    omega
  · exact h

/-- Only `<` has the lower case `<`. -/
theorem eq_lt_of_toLower {c : Char} (h : c.toLower = '<') : c = '<' := eq_of_toLower (by decide) h

private theorem lt_notMem_folded {cs : List Char} (h : '<' ∉ cs) : '<' ∉ folded cs := by
  intro hmem
  obtain ⟨c, hc, hlower⟩ := List.mem_map.mp hmem
  exact h (eq_lt_of_toLower hlower ▸ hc)

/-- What begins with the only `<` in it and begins inside a text ends before the next `<`. -/
theorem prefix_of_prefix_append_lt {q content rest : List Char} (hq : '<' ∉ q)
    (hne : content ≠ []) (h : '<' :: q <+: content ++ '<' :: rest) : '<' :: q <+: content := by
  rcases List.prefix_or_prefix_of_prefix h (List.prefix_append content _) with h' | ⟨r, heq⟩
  · exact h'
  cases r with
  | nil => exact ⟨[], by simpa using heq.symm⟩
  | cons x r =>
    -- otherwise it holds the next `<`, behind its own
    obtain ⟨c, cs, rfl⟩ := List.exists_cons_of_ne_nil hne
    rw [← heq, List.prefix_append_right_inj, List.cons_prefix_cons] at h
    obtain ⟨-, hq'⟩ := List.cons.inj heq
    exact absurd (hq' ▸ by simp [h.1]) hq

/-! ### Closing tags -/

/-- The closing tag of a name folds to that of its folding. -/
theorem folded_closingTag (tag : List Char) :
    folded (closingTag tag) = '<' :: '/' :: (folded tag ++ ['>']) := by
  simp [closingTag]

/-- A closing tag has no `<` but the one it begins with. -/
private theorem lt_notMem_closingTag {tag : List Char} (h : '<' ∉ tag) :
    '<' ∉ '/' :: (folded tag ++ ['>']) := by
  simp [lt_notMem_folded h]

/-- No closing tag begins inside a content that holds none. -/
theorem startsFolded_closingTag_eq_false {tag content rest : List Char} (htag : '<' ∉ tag)
    (hne : content ≠ []) (hfree : ¬ folded (closingTag tag) <:+: folded content) :
    startsFolded (content ++ '<' :: rest) (closingTag tag) = false := by
  rw [startsFolded_eq_false_iff]
  intro h
  rw [folded_closingTag, folded_append, folded_cons] at h
  refine hfree (List.IsPrefix.isInfix ?_)
  rw [folded_closingTag]
  exact prefix_of_prefix_append_lt (lt_notMem_closingTag htag) (by simpa [folded] using hne) h

/-- A content without its closing tag ends where a closing tag begins. -/
theorem closingIndex?_append {tag content rest : List Char} (htag : '<' ∉ tag)
    (hfree : ¬ folded (closingTag tag) <:+: folded content)
    (hclosing : startsFolded ('<' :: rest) (closingTag tag) = true) :
    closingIndex? tag (content ++ '<' :: rest) = some content.length := by
  induction content with
  | nil => simp [closingIndex?, hclosing]
  | cons c cs ih =>
    have hrest : ¬ folded (closingTag tag) <:+: folded cs :=
      fun h => hfree (h.trans (List.suffix_cons _ _).isInfix)
    have hstart : startsFolded (c :: (cs ++ '<' :: rest)) (closingTag tag) = false :=
      startsFolded_closingTag_eq_false htag (List.cons_ne_nil c cs) hfree
    rw [List.cons_append, closingIndex?, hstart, ih hrest]
    rfl

/-! ### Templates -/

/-- No template begins inside a content that holds none. -/
private theorem opensTemplate_eq_false {content rest : List Char} (hne : content ≠ [])
    (hfree : ¬ folded ('<' :: templateTag) <:+: folded content) :
    opensTemplate (content ++ '<' :: rest) = false := by
  have hstart : startsFolded (content ++ '<' :: rest) ('<' :: templateTag) = false := by
    rw [startsFolded_eq_false_iff]
    intro h
    rw [folded_append, folded_cons] at h
    refine hfree (List.IsPrefix.isInfix ?_)
    exact prefix_of_prefix_append_lt (by decide) (by simpa [folded] using hne) h
  rw [opensTemplate, hstart, Bool.false_and]

/-- A content without templates ends where the closing tag of its template begins. -/
theorem templateIndex?_append {content rest : List Char}
    (hopening : ¬ folded ('<' :: templateTag) <:+: folded content)
    (hfree : ¬ folded (closingTag templateTag) <:+: folded content)
    (hclosing : startsFolded ('<' :: rest) (closingTag templateTag) = true) :
    templateIndex? 1 (content ++ '<' :: rest) = some content.length := by
  induction content with
  | nil =>
    rw [List.nil_append, templateIndex?]
    simp [hclosing]
  | cons c cs ih =>
    have hopening' : ¬ folded ('<' :: templateTag) <:+: folded cs :=
      fun h => hopening (h.trans (List.suffix_cons _ _).isInfix)
    have hfree' : ¬ folded (closingTag templateTag) <:+: folded cs :=
      fun h => hfree (h.trans (List.suffix_cons _ _).isInfix)
    have hclose : startsFolded (c :: (cs ++ '<' :: rest)) (closingTag templateTag) = false :=
      startsFolded_closingTag_eq_false (by decide) (List.cons_ne_nil c cs) hfree
    have hopen : opensTemplate (c :: (cs ++ '<' :: rest)) = false :=
      opensTemplate_eq_false (List.cons_ne_nil c cs) hopening
    rw [List.cons_append, templateIndex?, hclose, hopen, ih hopening' hfree']
    rfl

/-- A content is found again in front of a closing tag of its block, if it holds no such tag and, in
a template, no other template. -/
theorem contentLength?_append {tag content rest : List Char} (htag : '<' ∉ tag)
    (hfree : ¬ folded (closingTag tag) <:+: folded content)
    (htemplate : folded tag = templateTag → ¬ folded ('<' :: templateTag) <:+: folded content)
    (hclosing : startsFolded ('<' :: rest) (closingTag tag) = true) :
    contentLength? tag (content ++ '<' :: rest) = some content.length := by
  have htemplateTag : folded templateTag = templateTag := by decide
  unfold contentLength?
  split
  · next heq =>
    have hfolded : folded tag = templateTag := by
      rw [← htemplateTag]
      exact beq_iff_eq.mp heq
    have hsame : folded (closingTag tag) = folded (closingTag templateTag) := by
      rw [folded_closingTag, folded_closingTag, hfolded, htemplateTag]
    rw [startsFolded_iff, hsame] at hclosing
    rw [hsame] at hfree
    exact templateIndex?_append (htemplate hfolded) hfree (startsFolded_iff.mpr hclosing)
  · exact closingIndex?_append htag hfree hclosing

end ComponentInsight.Document

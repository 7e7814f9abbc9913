import ComponentInsight.Document.Regions
import ComponentInsight.Proofs.Document.Nesting

/-!
# What reading takes up

Every function that reads a document goes on from one position to a later one. `Cursor.Reads` says
which characters lie between the two, and keeps the count of bytes and lines.

Each function has one lemma that tells what it takes up: `attributeValue_reads` for the value of an
attribute, `attributes_reads` for an opening tag, `startsFolded_of_contentLength?` for a content. A
block is told by `block?_eq_some_iff`: it closes itself, or it has a content and a closing tag.
-/

namespace ComponentInsight.Document

/-! ### From one position to another -/

@[simp] theorem byteLength_append (cs ds : List Char) :
    byteLength (cs ++ ds) = byteLength cs + byteLength ds := by
  induction cs with
  | nil => simp [byteLength]
  | cons c cs ih => simp [byteLength, ih, Nat.add_assoc]

theorem utf8ByteSize_ofList (cs : List Char) : (String.ofList cs).utf8ByteSize = byteLength cs := by
  induction cs with
  | nil => rfl
  | cons c cs ih =>
    rw [← List.singleton_append, String.ofList_append, String.utf8ByteSize_append, ih]
    simp [byteLength]

theorem byteLength_toList (s : String) : byteLength s.toList = s.utf8ByteSize := by
  rw [← utf8ByteSize_ofList, String.ofList_toList]

/-- No character takes up no bytes. -/
theorem byteLength_eq_zero {cs : List Char} (h : byteLength cs = 0) : cs = [] := by
  cases cs with
  | nil => rfl
  | cons c cs =>
    have := c.utf8Size_pos
    rw [byteLength] at h
    omega

/-- The same number of bytes are the same characters at the beginning of the same text. -/
private theorem append_inj_of_byteLength {s t cs ds : List Char} (h : s ++ cs = t ++ ds)
    (hlength : byteLength s = byteLength t) : s = t ∧ cs = ds := by
  rcases List.append_eq_append_iff.mp h with ⟨more, rfl, rfl⟩ | ⟨more, rfl, rfl⟩ <;>
  · rw [byteLength_append] at hlength
    obtain rfl : more = [] := byteLength_eq_zero (by omega)
    simp

namespace Cursor

/-- From one cursor, some characters lead to another. -/
structure Reads (c : Cursor) (s : List Char) (d : Cursor) : Prop where
  rest : c.rest = s ++ d.rest
  offset : d.offset = c.offset + byteLength s
  line : d.line = c.line + s.count '\n'

variable {c d e : Cursor} {s t : List Char} {p : Char → Bool}

theorem Reads.refl (c : Cursor) : c.Reads [] c := ⟨rfl, rfl, rfl⟩

/-- What is read to a cursor and on from it is read together. -/
theorem Reads.trans (h : c.Reads s d) (h' : d.Reads t e) : c.Reads (s ++ t) e where
  rest := by rw [h.rest, h'.rest, List.append_assoc]
  offset := by rw [h'.offset, h.offset, byteLength_append, Nat.add_assoc]
  line := by rw [h'.line, h.line, List.count_append, Nat.add_assoc]

/-- A position in the middle of what is read. -/
theorem Reads.exists_between (h : c.Reads (s ++ t) d) : ∃ e, c.Reads s e ∧ e.Reads t d := by
  have hrest : c.rest = s ++ (t ++ d.rest) := h.rest.trans (List.append_assoc _ _ _)
  refine ⟨⟨t ++ d.rest, c.offset + byteLength s, c.line + s.count '\n'⟩, ⟨hrest, rfl, rfl⟩,
    rfl, ?_, ?_⟩
  · rw [h.offset, byteLength_append, Nat.add_assoc]
  · rw [h.line, List.count_append, Nat.add_assoc]

/-- A step reads a character. -/
theorem reads_step {x : Char} {rest : List Char} (h : c.rest = x :: rest) :
    c.Reads [x] c.step := by
  rw [step, h]
  refine ⟨by simp [h], by simp [byteLength], ?_⟩
  by_cases hx : x = '\n' <;> simp [hx]

theorem reads_advance (n : Nat) (c : Cursor) : c.Reads (c.rest.take n) (c.advance n) := by
  induction n generalizing c with
  | zero => exact .refl c
  | succ n ih =>
    cases h : c.rest with
    | nil =>
      have hstep : c.step = c := by rw [step, h]
      have := ih c
      rw [h, List.take_nil] at this
      rwa [advance, hstep, List.take_nil]
    | cons x rest =>
      have := (reads_step h).trans (ih c.step)
      rwa [rest_step, h] at this

/-- Reading as many characters as there are in front leads behind them. -/
theorem reads_advance_append (h : c.rest = s ++ t) : c.Reads s (c.advance s.length) := by
  have := reads_advance s.length c
  rwa [h, List.take_left] at this

theorem reads_skip (p : Char → Bool) (c : Cursor) :
    c.Reads (c.rest.takeWhile p) (c.skip p) := by
  refine reads_advance_append (t := c.rest.dropWhile p) ?_
  exact List.takeWhile_append_dropWhile.symm

/-- Further on, less is left. -/
theorem Reads.offset_le_iff (h : c.Reads s d) (h' : c.Reads t e) :
    d.offset ≤ e.offset ↔ e.rest.length ≤ d.rest.length := by
  have hsplit := h.rest.symm.trans h'.rest
  rw [h.offset, h'.offset]
  rcases List.append_eq_append_iff.mp hsplit with ⟨more, rfl, hrest⟩ | ⟨more, rfl, hrest⟩
  · rw [hrest, byteLength_append, List.length_append]
    omega
  · rw [hrest, byteLength_append, List.length_append]
    constructor
    · intro hle
      obtain rfl : more = [] := byteLength_eq_zero (by omega)
      simp
    · intro hle
      obtain rfl : more = [] := List.length_eq_zero_iff.mp (by omega)
      exact Nat.le_refl _

/-- Of two cursors on one way, the one at the greater offset has less ahead. -/
theorem Reads.offset_lt_iff (h : c.Reads s d) (h' : c.Reads t e) :
    d.offset < e.offset ↔ e.rest.length < d.rest.length :=
  lt_iff_lt_of_le_iff_le (h'.offset_le_iff h)

/-- A cursor at the offset behind a front has left that front behind. -/
theorem Reads.rest_eq {u v : List Char} (h : c.Reads s d) (hc : c.rest = u ++ v)
    (hoffset : d.offset = c.offset + byteLength u) : d.rest = v := by
  have hlength : byteLength s = byteLength u := Nat.add_left_cancel (h.offset.symm.trans hoffset)
  exact (append_inj_of_byteLength (h.rest.symm.trans hc) hlength).2

/-- A cursor that has left a front behind stands at the offset behind it. -/
theorem Reads.offset_eq {u v : List Char} (h : c.Reads s d) (hc : c.rest = u ++ v)
    (hrest : d.rest = v) : d.offset = c.offset + byteLength u := by
  rw [h.offset, List.append_cancel_right (h.rest.symm.trans (hrest ▸ hc))]

/-- What is read determines where the cursor stands. -/
theorem Reads.unique (h : c.Reads s d) (h' : c.Reads s e) : d = e := by
  obtain ⟨rest, offset, line⟩ := d
  obtain ⟨rest', offset', line'⟩ := e
  have hrest : rest = rest' := List.append_cancel_left (h.rest.symm.trans h'.rest)
  have hoffset : offset = offset' := h.offset.trans h'.offset.symm
  have hline : line = line' := h.line.trans h'.line.symm
  rw [hrest, hoffset, hline]

/-- What is read takes up bytes. -/
theorem Reads.offset_lt_of_ne_nil (h : c.Reads s d) (hne : s ≠ []) :
    c.offset < d.offset := by
  rw [h.offset, Nat.lt_add_right_iff_pos, Nat.pos_iff_ne_zero]
  exact mt byteLength_eq_zero hne

/-- Skipping begins with a step over a character that passes the test. -/
theorem skip_of_head {x : Char} {more : List Char} (hc : c.rest = x :: more) (hx : p x = true) :
    c.skip p = c.step.skip p := by
  have hrun : c.run p = c.step.run p + 1 := by
    rw [run, run, rest_step, hc, List.takeWhile_cons_of_pos hx]
    rfl
  rw [skip, hrun, advance, skip]

theorem skip_of_not {x : Char} (h : c.rest.head? = some x) (hx : p x = false) : c.skip p = c := by
  obtain ⟨more, hmore⟩ := List.head?_eq_some_iff.mp h
  have hrun : c.run p = 0 := by
    rw [run, hmore, List.takeWhile_cons_of_neg (by simp [hx])]
    rfl
  rw [skip, hrun, advance]

/-- What stands behind a run does not belong to it. -/
theorem not_of_head?_skip {x : Char} (h : (c.skip p).rest.head? = some x) : p x = false := by
  have := List.head?_dropWhile_not p c.rest
  rwa [← rest_skip, h] at this

theorem skip_of_run_eq_zero (h : c.run p = 0) : c.skip p = c := by
  rw [skip, h, advance]

theorem advance_add (m n : Nat) (c : Cursor) : c.advance (m + n) = (c.advance m).advance n := by
  induction m generalizing c with
  | zero => rw [Nat.zero_add, advance]
  | succ m ih => rw [Nat.succ_add, advance, advance, ih]

/-- A run is the longest front that passes the test. -/
theorem take_run (p : Char → Bool) (c : Cursor) :
    c.rest.take (c.run p) = c.rest.takeWhile p := by
  conv_lhs => rw [← List.takeWhile_append_dropWhile (p := p) (l := c.rest)]
  exact List.take_left

@[simp] theorem toList_text_slice (n : Nat) (c : Cursor) :
    (c.slice n).text.toList = c.rest.take n := String.toList_ofList

end Cursor

/-- Behind a run, a character that does not belong to it follows, if any does. -/
private theorem exists_dropWhile_eq_cons {p : Char → Bool} {cs : List Char}
    (h : cs.dropWhile p ≠ []) : ∃ x rest, cs.dropWhile p = x :: rest ∧ p x = false := by
  obtain ⟨x, rest, hx⟩ := List.exists_cons_of_ne_nil h
  have := List.head?_dropWhile_not p cs
  rw [hx] at this
  exact ⟨x, rest, hx, this⟩

/-! ### Opening tags -/

/-- Some characters that do not end with a slash. -/
def NoSlash (s : List Char) : Prop := s.getLast? ≠ some '/'

theorem NoSlash.append {s t : List Char} (hs : NoSlash s) (ht : NoSlash t) : NoSlash (s ++ t) := by
  unfold NoSlash at *
  rw [List.getLast?_append]
  cases h : t.getLast? with
  | none => simpa using hs
  | some x => simpa [h] using ht

private theorem NoSlash.append_of_ne_nil {s t : List Char} (ht : NoSlash t) (hne : t ≠ []) :
    NoSlash (s ++ t) := by
  unfold NoSlash at *
  rwa [List.getLast?_append_of_ne_nil _ hne]

private theorem noSlash_concat {s : List Char} {x : Char} (hx : x ≠ '/') : NoSlash (s ++ [x]) := by
  simp [NoSlash, hx]

theorem noSlash_takeWhile {p : Char → Bool} (hp : p '/' = false) (cs : List Char) :
    NoSlash (cs.takeWhile p) := by
  intro h
  have := List.mem_takeWhile_imp (List.mem_of_getLast? h)
  simp [hp] at this

/-- The characters of a value without quotes. -/
def isBareChar (c : Char) : Bool := c != '>' && c != '/' && !isTagSpace c

section Value

variable {c : Cursor}

/-- Without `=` behind the name, the value is empty. -/
theorem attributeValue_of_ne (h : (c.skip isInnerSpace).rest.head? ≠ some '=') :
    attributeValue c = ((c.skip isInnerSpace).slice 0, c.skip isInnerSpace) := by
  unfold attributeValue
  dsimp only
  split
  · next rest heq => exact absurd (by rw [heq]; rfl) h
  · rfl

/-- A value in quotes goes up to the next quote of the same kind, which is read too. -/
theorem attributeValue_of_quote {q : Char} (h : (c.skip isInnerSpace).rest.head? = some '=')
    (hhead : (((c.skip isInnerSpace).advance 1).skip isInnerSpace).rest.head? = some q)
    (hq : q = '"' ∨ q = '\'') : attributeValue c =
      let body := (((c.skip isInnerSpace).advance 1).skip isInnerSpace).advance 1
      (body.slice (body.run (· != q)), body.advance (body.run (· != q) + 1)) := by
  obtain ⟨rest, hrest⟩ := List.head?_eq_some_iff.mp h
  obtain ⟨rest', hrest'⟩ := List.head?_eq_some_iff.mp hhead
  unfold attributeValue
  dsimp only
  rw [hrest, hrest']
  exact if_pos hq

/-- A value without quotes goes up to the next blank, slash or end of the tag. -/
theorem attributeValue_of_bare (h : (c.skip isInnerSpace).rest.head? = some '=')
    (hq : ∀ q ∈ (((c.skip isInnerSpace).advance 1).skip isInnerSpace).rest.head?,
      ¬ (q = '"' ∨ q = '\'')) : attributeValue c =
      let value := ((c.skip isInnerSpace).advance 1).skip isInnerSpace
      (value.slice (value.run isBareChar), value.skip isBareChar) := by
  obtain ⟨rest, hrest⟩ := List.head?_eq_some_iff.mp h
  unfold attributeValue
  dsimp only
  rw [hrest]
  cases hvalue : (((c.skip isInnerSpace).advance 1).skip isInnerSpace).rest with
  | nil =>
    have hrun : (((c.skip isInnerSpace).advance 1).skip isInnerSpace).run isBareChar = 0 := by
      rw [Cursor.run, hvalue]
      rfl
    rw [hrun, Cursor.skip_of_run_eq_zero hrun]
    rfl
  | cons q rest' =>
    rw [hvalue] at hq
    exact if_neg (hq q rfl)

/-- What the value of an attribute takes up does not end with a slash, unless the document does. -/
theorem attributeValue_reads (c : Cursor) :
    ∃ s, c.Reads s (attributeValue c).2 ∧ ((attributeValue c).2.rest ≠ [] → NoSlash s) := by
  have hinner := Cursor.reads_skip isInnerSpace c
  have hspace : NoSlash (c.rest.takeWhile isInnerSpace) := noSlash_takeWhile rfl _
  by_cases hsign : (c.skip isInnerSpace).rest.head? = some '='
  · obtain ⟨rest, hrest⟩ := List.head?_eq_some_iff.mp hsign
    have hread := (hinner.trans (Cursor.reads_advance_append (s := ['=']) hrest)).trans
      (Cursor.reads_skip isInnerSpace ((c.skip isInnerSpace).advance 1))
    by_cases hquote : ∃ q ∈ (((c.skip isInnerSpace).advance 1).skip isInnerSpace).rest.head?,
        q = '"' ∨ q = '\''
    · obtain ⟨q, hhead, hq⟩ := hquote
      obtain ⟨rest', hrest'⟩ := List.head?_eq_some_iff.mp hhead
      rw [attributeValue_of_quote hsign hhead hq]
      set body := (((c.skip isInnerSpace).advance 1).skip isInnerSpace).advance 1
      refine ⟨_, (hread.trans (Cursor.reads_advance_append (s := [q]) hrest')).trans
        (Cursor.reads_advance _ body), fun hmore => ?_⟩
      dsimp only at hmore
      -- more is left only behind the closing quote
      have hrest : body.rest.dropWhile (· != q) ≠ [] := by
        rw [← Cursor.rest_skip, Cursor.skip]
        intro hnil
        rw [Cursor.rest_advance] at hnil hmore
        rw [← List.drop_drop, hnil] at hmore
        exact hmore rfl
      obtain ⟨x, more, hx, hxq⟩ := exists_dropWhile_eq_cons hrest
      obtain rfl : x = q := by simpa using hxq
      have htake : body.rest.take (body.run (· != x) + 1) =
          body.rest.takeWhile (· != x) ++ [x] := by
        conv_lhs => rw [← List.takeWhile_append_dropWhile (p := (· != x)) (l := body.rest), hx]
        simp [Cursor.run, List.take_append]
      rw [htake, ← List.append_assoc]
      refine noSlash_concat ?_
      rintro rfl
      simp at hq
    · simp only [not_exists, not_and] at hquote
      rw [attributeValue_of_bare hsign hquote]
      refine ⟨_, hread.trans (Cursor.reads_skip _ _), fun _ => ?_⟩
      exact ((hspace.append (t := ['=']) (by simp [NoSlash])).append
        (noSlash_takeWhile rfl _)).append (noSlash_takeWhile rfl _)
  · rw [attributeValue_of_ne hsign]
    exact ⟨_, hinner, fun _ => hspace⟩

end Value

section Attributes

variable {c : Cursor}

/-- At the end of the text, the end of the tag is missing. -/
private theorem attributes_missing (h : (c.skip isTagSpace).rest = []) :
    attributes c = ([], .missing) := by
  rw [attributes]
  split
  · rfl
  · next heq => exact absurd (h.symm.trans heq) (List.cons_ne_nil _ _).symm

/-- A tag that ends at once has no attributes. -/
theorem attributes_opened (h : (c.skip isTagSpace).rest.head? = some '>') :
    attributes c = ([], .opened ((c.skip isTagSpace).advance 1)) := by
  obtain ⟨rest, hrest⟩ := List.head?_eq_some_iff.mp h
  rw [attributes]
  split
  · next heq => exact absurd (hrest.symm.trans heq) (List.cons_ne_nil _ _)
  · next x rest' heq =>
    obtain ⟨rfl, -⟩ := List.cons.inj (hrest.symm.trans heq)
    rfl

/-- A slash ends the tag or is dropped. -/
theorem attributes_slash (h : (c.skip isTagSpace).rest.head? = some '/') : attributes c =
    if ((c.skip isTagSpace).advance 1).rest.head? = some '>' then
      ([], .closed ((c.skip isTagSpace).advance 2))
    else attributes ((c.skip isTagSpace).advance 1) := by
  obtain ⟨rest, hrest⟩ := List.head?_eq_some_iff.mp h
  conv_lhs => rw [attributes]
  split
  · next heq => exact absurd (hrest.symm.trans heq) (List.cons_ne_nil _ _)
  · next x rest' heq =>
    obtain ⟨rfl, rfl⟩ := List.cons.inj (hrest.symm.trans heq)
    rw [Cursor.rest_advance, hrest]
    rfl

/-- Anything else begins an attribute. -/
theorem attributes_named {x : Char} (h : (c.skip isTagSpace).rest.head? = some x) (hgt : x ≠ '>')
    (hslash : x ≠ '/') : attributes c =
      let inner := c.skip isTagSpace
      let name := inner.slice (inner.run isAttributeNameChar)
      let found := attributeValue (inner.skip isAttributeNameChar)
      let more := attributes found.2
      if name.text.isEmpty then more else (⟨name, found.1⟩ :: more.1, more.2) := by
  obtain ⟨rest, hrest⟩ := List.head?_eq_some_iff.mp h
  conv_lhs => rw [attributes]
  split
  · next heq => exact absurd (hrest.symm.trans heq) (List.cons_ne_nil _ _)
  · next x rest' heq =>
    obtain ⟨rfl, -⟩ := List.cons.inj (hrest.symm.trans heq)
    rw [dif_neg hgt, dif_neg hslash]

/-- An opening tag is read piece by piece: its end, a slash that is dropped, an attribute. -/
@[elab_as_elim]
theorem attributes_induction {motive : Cursor → List Attribute × TagEnd → Prop}
    (missing : ∀ c, (c.skip isTagSpace).rest = [] → motive c ([], .missing))
    (opened : ∀ c, (c.skip isTagSpace).rest.head? = some '>' →
      motive c ([], .opened ((c.skip isTagSpace).advance 1)))
    (closed : ∀ c, (c.skip isTagSpace).rest.head? = some '/' →
      ((c.skip isTagSpace).advance 1).rest.head? = some '>' →
      motive c ([], .closed ((c.skip isTagSpace).advance 2)))
    (slash : ∀ c, (c.skip isTagSpace).rest.head? = some '/' →
      ((c.skip isTagSpace).advance 1).rest.head? ≠ some '>' →
      motive ((c.skip isTagSpace).advance 1) (attributes ((c.skip isTagSpace).advance 1)) →
      motive c (attributes ((c.skip isTagSpace).advance 1)))
    (named : ∀ c x, (c.skip isTagSpace).rest.head? = some x → x ≠ '>' → x ≠ '/' →
      let inner := c.skip isTagSpace
      let name := inner.slice (inner.run isAttributeNameChar)
      let found := attributeValue (inner.skip isAttributeNameChar)
      let more := attributes found.2
      motive found.2 more →
      motive c (if name.text.isEmpty then more else (⟨name, found.1⟩ :: more.1, more.2)))
    (c : Cursor) : motive c (attributes c) := by
  induction c using attributes.induct with
  | case1 c inner h =>
    rw [attributes_missing h]
    exact missing c h
  | case2 c inner rest h =>
    have hhead : inner.rest.head? = some '>' := by rw [h]; rfl
    rw [attributes_opened hhead]
    exact opened c hhead
  | case3 c inner rest hgt h _ =>
    have hhead : inner.rest.head? = some '/' := by rw [h]; rfl
    have hnext : (inner.advance 1).rest.head? = some '>' := by rwa [Cursor.rest_advance, h]
    rw [attributes_slash hhead, if_pos hnext]
    exact closed c hhead hnext
  | case4 c inner rest hgt h _ ih =>
    have hhead : inner.rest.head? = some '/' := by rw [h]; rfl
    have hnext : (inner.advance 1).rest.head? ≠ some '>' := by rwa [Cursor.rest_advance, h]
    rw [attributes_slash hhead, if_neg hnext]
    exact slash c hhead hnext ih
  | case5 c inner x rest h hgt hslash name found _ ih
  | case6 c inner x rest h hgt hslash name found _ ih =>
    have hhead : inner.rest.head? = some x := by rw [h]; rfl
    rw [attributes_named hhead hgt hslash]
    exact named c x hhead hgt hslash ih

end Attributes

/-- What an opening tag takes up from a cursor on. A `>` ends a tag that opens only if no slash
stands in front of it, be it one that was read before. -/
def TagEnd.Reads (c : Cursor) : TagEnd → Prop
  | .opened body => ∃ s, c.Reads (s ++ ['>']) body ∧
      ∀ front, NoSlash front ∨ c.rest.head? ≠ some '>' → NoSlash (front ++ s)
  | .closed rest => ∃ s, c.Reads (s ++ ['/', '>']) rest
  | .missing => True

private theorem TagEnd.Reads.trans {c d : Cursor} {t : List Char} {e : TagEnd} (h : c.Reads t d)
    (hfront : ∀ front, NoSlash front ∨ c.rest.head? ≠ some '>' →
      NoSlash (front ++ t) ∨ d.rest.head? ≠ some '>')
    (he : e.Reads d) : e.Reads c := by
  cases e with
  | opened body =>
    obtain ⟨s, hs, hnoSlash⟩ := he
    refine ⟨t ++ s, ?_, fun front hf => ?_⟩
    · rw [List.append_assoc]
      exact h.trans hs
    · rw [← List.append_assoc]
      exact hnoSlash _ (hfront front hf)
  | closed rest =>
    obtain ⟨s, hs⟩ := he
    refine ⟨t ++ s, ?_⟩
    rw [List.append_assoc]
    exact h.trans hs
  | missing => trivial

/-- An attribute takes up something, which does not end with a slash, unless the document does. -/
theorem attribute_reads {c : Cursor} {x : Char} (h : (c.skip isTagSpace).rest.head? = some x)
    (hgt : x ≠ '>') (hslash : x ≠ '/') :
    let inner := c.skip isTagSpace
    let found := attributeValue (inner.skip isAttributeNameChar)
    ∃ s, s ≠ [] ∧ inner.Reads s found.2 ∧ (found.2.rest ≠ [] → NoSlash s) := by
  intro inner found
  obtain ⟨v, hv, hvalue⟩ := attributeValue_reads (inner.skip isAttributeNameChar)
  have hname : NoSlash (inner.rest.takeWhile isAttributeNameChar) := noSlash_takeWhile rfl _
  have hread := (Cursor.reads_skip isAttributeNameChar inner).trans hv
  obtain ⟨rest, hrest⟩ := List.head?_eq_some_iff.mp h
  refine ⟨_, fun hnil => ?_, hread, fun hend => hname.append (hvalue hend)⟩
  have hsame := hread.rest
  rw [hnil, List.nil_append] at hsame
  exact (length_attribute_lt hrest (Cursor.not_of_head?_skip h) hgt hslash).ne
    (congrArg List.length hsame.symm)

/-- A tag is read up to its end. -/
theorem attributes_reads (c : Cursor) : (attributes c).2.Reads c := by
  induction c using attributes_induction with
  | missing c h => trivial
  | opened c h =>
    obtain ⟨rest, hrest⟩ := List.head?_eq_some_iff.mp h
    refine ⟨_, (Cursor.reads_skip isTagSpace c).trans
      (Cursor.reads_advance_append (s := ['>']) hrest), fun front hf => ?_⟩
    have hspace : NoSlash (c.rest.takeWhile isTagSpace) := noSlash_takeWhile rfl _
    by_cases hnil : c.rest.takeWhile isTagSpace = []
    · have hhead : c.rest.head? = some '>' := by
        rw [(Cursor.reads_skip isTagSpace c).rest, hnil, hrest]
        rfl
      simpa [hnil, hhead] using hf
    · exact hspace.append_of_ne_nil hnil
  | closed c h hgt =>
    obtain ⟨rest, hrest⟩ := List.head?_eq_some_iff.mp h
    obtain ⟨more, hmore⟩ := List.head?_eq_some_iff.mp hgt
    have hslash := Cursor.reads_advance_append (s := ['/']) hrest
    exact ⟨_, (Cursor.reads_skip isTagSpace c).trans
      (hslash.trans (Cursor.reads_advance_append (s := ['>']) hmore))⟩
  | slash c h hgt ih =>
    obtain ⟨rest, hrest⟩ := List.head?_eq_some_iff.mp h
    exact ih.trans ((Cursor.reads_skip isTagSpace c).trans
      (Cursor.reads_advance_append (s := ['/']) hrest)) fun front _ => .inr hgt
  | named c x h hgt hslash inner name found more ih =>
    obtain ⟨s, hs, hread, hnoSlash⟩ := attribute_reads h hgt hslash
    -- an attribute takes up something, so what it ends with decides
    have htrans : more.2.Reads c := by
      refine ih.trans ((Cursor.reads_skip isTagSpace c).trans hread) fun front _ => ?_
      by_cases hend : found.2.rest = []
      · exact .inr (by rw [hend]; simp)
      · rw [← List.append_assoc]
        exact .inl ((hnoSlash hend).append_of_ne_nil hs)
    split
    · exact htrans
    · exact htrans

/-! ### Contents -/

/-- A content without templates ends at the first closing tag. -/
theorem closingIndex?_eq_some_iff {tag cs : List Char} {n : Nat} :
    closingIndex? tag cs = some n ↔ startsFolded (cs.drop n) (closingTag tag) = true ∧
      ∀ m < n, startsFolded (cs.drop m) (closingTag tag) = false := by
  induction cs generalizing n with
  | nil => simp [closingIndex?, closingTag, Document.startsFolded]
  | cons c cs ih =>
    rw [closingIndex?]
    cases hstart : startsFolded (c :: cs) (closingTag tag) with
    | true =>
      rw [if_pos rfl]
      constructor
      · rintro ⟨rfl⟩
        exact ⟨hstart, fun m hm => absurd hm (Nat.not_lt_zero m)⟩
      · rintro ⟨-, hfirst⟩
        cases n with
        | zero => rfl
        | succ n =>
          have := hfirst 0 (Nat.succ_pos n)
          rw [List.drop_zero, hstart] at this
          cases this
    | false =>
      rw [if_neg Bool.false_ne_true, Option.map_eq_some_iff]
      constructor
      · rintro ⟨n, hn, rfl⟩
        obtain ⟨hend, hfirst⟩ := ih.mp hn
        refine ⟨hend, fun m hm => ?_⟩
        cases m with
        | zero => exact hstart
        | succ m => exact hfirst m (by omega)
      · rintro ⟨hend, hfirst⟩
        cases n with
        | zero => simp [hstart] at hend
        | succ n =>
          exact ⟨n, ih.mpr ⟨hend, fun m hm => hfirst (m + 1) (by omega)⟩, rfl⟩

/-- The content of a template ends at a closing tag. -/
theorem startsFolded_of_templateIndex? {depth : Nat} {cs : List Char} :
    ∀ n, templateIndex? depth cs = some n →
      startsFolded (cs.drop n) (closingTag templateTag) = true := by
  induction depth, cs using templateIndex?_induction with
  | nil depth => simp
  | cut depth cs => simp
  | last depth tag more htag =>
    rintro n hn
    obtain rfl : 0 = n := by simpa using hn
    exact htag.startsFolded more
  | stop depth tag more _ ih | start depth tag more _ ih | single depth tag more _ ih =>
    rintro n hn
    obtain ⟨m, hm, rfl⟩ := Option.map_eq_some_iff.mp hn
    rw [Nat.add_comm m, List.drop_length_add_append]
    exact ih m hm
  | char depth c cs _ _ ih =>
    rintro n hn
    obtain ⟨m, hm, rfl⟩ := Option.map_eq_some_iff.mp hn
    exact ih m hm

/-- A content without templates holds no closing tag of its block. -/
private theorem not_infix_of_closingIndex? {tag cs : List Char} {n : Nat}
    (h : closingIndex? tag cs = some n) :
    ¬ folded (closingTag tag) <:+: folded (cs.take n) := by
  rintro ⟨front, back, hin⟩
  have hfirst := (closingIndex?_eq_some_iff.mp h).2 front.length
  have hlength := congrArg List.length hin
  simp only [List.length_append, length_folded, List.length_take] at hlength
  have hpos : 0 < (closingTag tag).length := Nat.succ_pos _
  refine startsFolded_eq_false_iff.mp (hfirst (by omega)) ?_
  have hdrop : (folded (cs.take n)).drop front.length = folded (closingTag tag) ++ back := by
    rw [← hin, List.append_assoc, List.drop_left]
  have hpre : (cs.take n).drop front.length <+: cs.drop front.length :=
    (List.take_prefix n cs).drop _
  refine List.IsPrefix.trans ⟨back, ?_⟩ (folded_isPrefix hpre)
  rw [← hdrop]
  exact List.map_drop.symm

/-- Closing tags are compared in any letter case. -/
theorem startsFolded_closingTag_congr {tag tag' : List Char} (h : folded tag = folded tag')
    (cs : List Char) : startsFolded cs (closingTag tag) = startsFolded cs (closingTag tag') := by
  rw [Bool.eq_iff_iff, startsFolded_iff, startsFolded_iff, folded_closingTag, folded_closingTag, h]

/-- A content ends at a closing tag of its block. -/
theorem startsFolded_of_contentLength? {tag cs : List Char} {n : Nat}
    (h : contentLength? tag cs = some n) :
    startsFolded (cs.drop n) (closingTag tag) = true := by
  unfold contentLength? at h
  split at h
  · next heq =>
    rw [startsFolded_closingTag_congr (beq_iff_eq.mp heq)]
    exact startsFolded_of_templateIndex? _ h
  · exact (closingIndex?_eq_some_iff.mp h).1

/-! ### Blocks -/

/-- A block closes itself, or it has a content and a closing tag. -/
theorem block?_eq_some_iff {c rest : Cursor} {b : Block} :
    block? c = some (b, rest) ↔
      let inner := c.advance 1
      let found := attributes (inner.skip isTagChar)
      inner.run isTagChar ≠ 0 ∧
        ((found.2 = .closed rest ∧
          b = ⟨inner.slice (inner.run isTagChar), found.1, rest.slice 0, c.offset, rest.offset,
            c.line, rest.line⟩) ∨
        ∃ body n, found.2 = .opened body ∧
          contentLength? (inner.rest.takeWhile isTagChar) body.rest = some n ∧
          rest = body.advance (n + (inner.run isTagChar + 3)) ∧
          b = ⟨inner.slice (inner.run isTagChar), found.1, body.slice n, c.offset, rest.offset,
            c.line, rest.line⟩) := by
  unfold block? Cursor.skip
  dsimp only
  rw [Cursor.take_run]
  by_cases hname : (c.advance 1).run isTagChar = 0
  · simp [hname]
  obtain ⟨as, e, hfound⟩ : ∃ as e, attributes ((c.advance 1).advance
      ((c.advance 1).run isTagChar)) = (as, e) := ⟨_, _, rfl⟩
  rw [if_neg hname, hfound]
  cases e with
  | missing => simp
  | closed rest' =>
    constructor
    · intro h
      obtain ⟨rfl, rfl⟩ := Prod.mk.inj (Option.some.inj h)
      exact ⟨hname, .inl ⟨rfl, rfl⟩⟩
    · rintro ⟨-, ⟨⟨⟩, rfl⟩ | ⟨body, n, ⟨⟩, -⟩⟩
      rfl
  | opened body =>
    constructor
    · intro h
      obtain ⟨n, hn, h⟩ := Option.bind_eq_some_iff.mp h
      obtain ⟨rfl, rfl⟩ := Prod.mk.inj (Option.some.inj h)
      exact ⟨hname, .inr ⟨body, n, rfl, hn, rfl, rfl⟩⟩
    · rintro ⟨-, ⟨⟨⟩, -⟩ | ⟨body, n, ⟨⟩, hn, rfl, rfl⟩⟩
      exact Option.bind_eq_some_iff.mpr ⟨n, hn, rfl⟩

/-- The tags a block is written with: an opening tag and a closing one in any letter case, or a
single tag that closes itself, and then there is no content. -/
inductive Block.Tags (b : Block) : List Char → List Char → Prop
  | pair {inner closing : List Char} :
      folded closing = '<' :: '/' :: (folded b.tag.text.toList ++ ['>']) →
      b.Tags ('<' :: (b.tag.text.toList ++ (inner ++ ['>']))) closing
  | single {inner : List Char} : b.content.text = "" →
      b.Tags ('<' :: (b.tag.text.toList ++ (inner ++ ['/', '>']))) []

/-- A block lies between two cursors: its tags and its content are the characters between them, and
its offsets and lines are theirs. -/
structure Block.Spans (b : Block) (c rest : Cursor) (opening closing : List Char) : Prop where
  tags : b.Tags opening closing
  reads : c.Reads (opening ++ (b.content.text.toList ++ closing)) rest
  start : b.start = c.offset
  contentStart : b.content.start = c.offset + byteLength opening
  stop : b.stop = rest.offset
  startLine : b.startLine = c.line
  endLine : b.endLine = rest.line

/-- A block spans its tags and its content. -/
theorem block?_spans {c rest : Cursor} {b : Block} (h : block? c = some (b, rest))
    (hlt : c.rest.head? = some '<') : ∃ opening closing, b.Spans c rest opening closing := by
  obtain ⟨cs, hc⟩ := List.head?_eq_some_iff.mp hlt
  obtain ⟨-, hend⟩ := block?_eq_some_iff.mp h
  have hname : c.Reads ('<' :: (c.advance 1).rest.take ((c.advance 1).run isTagChar))
      ((c.advance 1).skip isTagChar) := by
    rw [Cursor.take_run]
    exact (Cursor.reads_advance_append (s := ['<']) hc).trans (Cursor.reads_skip _ _)
  have hreads := attributes_reads ((c.advance 1).skip isTagChar)
  rcases hend with ⟨hfound, rfl⟩ | ⟨body, n, hfound, hn, rfl, rfl⟩
  · rw [hfound] at hreads
    obtain ⟨inner, hinner⟩ := hreads
    refine ⟨_, [], @Block.Tags.single _ inner rfl, ?_, rfl, ?_, rfl, rfl, rfl⟩
    · simpa using hname.trans hinner
    · simpa [Cursor.slice] using (hname.trans hinner).offset
  · rw [hfound] at hreads
    obtain ⟨inner, hinner, -⟩ := hreads
    obtain ⟨closing, more, hclosing, hfold⟩ :=
      exists_append_of_startsFolded (startsFolded_of_contentLength? hn)
    have hlength : closing.length = (c.advance 1).run isTagChar + 3 := by
      rw [← length_folded, hfold, length_folded, closingTag, Cursor.run]
      simp
    have hcontent := Cursor.reads_advance n body
    have hend : (body.advance n).Reads closing
        (body.advance (n + ((c.advance 1).run isTagChar + 3))) := by
      rw [Cursor.advance_add, ← hlength]
      refine Cursor.reads_advance_append (t := more) ?_
      rw [Cursor.rest_advance, hclosing]
    refine ⟨_, closing, @Block.Tags.pair _ inner closing ?_, ?_, rfl, ?_, rfl, rfl, rfl⟩
    · rw [hfold, folded_closingTag, Cursor.toList_text_slice, Cursor.take_run]
    · simpa using ((hname.trans hinner).trans hcontent).trans hend
    · simpa [Cursor.slice] using (hname.trans hinner).offset

/-- The kind of a block is its tag in lower case. -/
theorem Block.toList_kind (b : Block) : b.kind.toList = folded b.tag.text.toList :=
  toList_toLower b.tag.text

/-- Contents are counted for templates only. -/
theorem Block.kind_eq_template_iff {b : Block} :
    b.kind = "template" ↔ equalFolded b.tag.text.toList templateTag = true := by
  rw [← String.toList_inj, toList_kind]
  exact beq_iff_eq.symm

/-- A block closes itself, or its content is what `contentLength?` measures. -/
theorem content_of_block? {c rest : Cursor} {b : Block} (h : block? c = some (b, rest)) :
    (b.content.text = "" ∧ b.content.stop = b.stop) ∨ ∃ (body : Cursor) (n : Nat),
      contentLength? b.tag.text.toList body.rest = some n ∧
      b.content.text.toList = body.rest.take n := by
  obtain ⟨-, hend⟩ := block?_eq_some_iff.mp h
  rcases hend with ⟨hfound, rfl⟩ | ⟨body, n, hfound, hn, rfl, rfl⟩
  · exact .inl ⟨rfl, by simp [Slice.stop, Cursor.slice, byteLength]⟩
  · refine .inr ⟨body, n, ?_, Cursor.toList_text_slice n body⟩
    rw [Cursor.toList_text_slice, Cursor.take_run]
    exact hn

/-- Only templates hold closing tags of their own. -/
theorem not_infix_of_block? {c rest : Cursor} {b : Block} (h : block? c = some (b, rest))
    (hkind : b.kind ≠ "template") :
    ¬ closingTag b.kind.toList <:+: folded b.content.text.toList := by
  have htag : closingTag b.kind.toList = folded (closingTag b.tag.text.toList) := by
    rw [folded_closingTag, b.toList_kind, closingTag]
  rcases content_of_block? h with ⟨hempty, -⟩ | ⟨body, n, hn, hcontent⟩
  · intro hin
    simpa [hempty, closingTag] using hin.length_le
  · rw [ne_eq, Block.kind_eq_template_iff] at hkind
    rw [contentLength?, if_neg hkind] at hn
    rw [htag, hcontent]
    exact not_infix_of_closingIndex? hn

end ComponentInsight.Document

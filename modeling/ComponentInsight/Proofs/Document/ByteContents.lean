import ComponentInsight.Proofs.Document.ByteReading

/-!
# Contents by bytes

The end of a content is looked for from one `<` to the next, wherever characters of several bytes
stand between them. A closing tag is ASCII, so that it is compared byte by byte
(`Cursor.Within.closingEnd`); of a tag of a template the byte in front of its `>` is read, which is
one of the tag (`Cursor.Within.exists_lookTemplate`). The count of open templates never goes below
zero, as the search ends at the first closing tag of the template itself.
-/

namespace ComponentInsight.Document

namespace Bytes

/-- Only a sign itself has the sign as its lower case. -/
private theorem toLower_eq_iff {a b : UInt8} (ha : a.toNat < 65) :
    toLower b = toLower a ↔ b = a := by
  refine ⟨fun h => ?_, congrArg toLower⟩
  rw [← UInt8.toNat_inj, toNat_bytes_toLower, toNat_bytes_toLower] at h
  rw [← UInt8.toNat_inj]
  split_ifs at h <;> omega

private theorem startsFolded_of_lt {bs ps : List UInt8} (h : bs.length < ps.length) :
    startsFolded bs ps = false := by
  rw [startsFolded, decide_eq_false (Nat.not_le.mpr h), Bool.false_and]

private theorem startsFolded_nil (bs : List UInt8) : startsFolded bs [] = true := by
  rw [startsFolded, List.length_nil, decide_eq_true (Nat.zero_le _)]
  rfl

/-- Comparing goes piece by piece. -/
private theorem startsFolded_append {front tag : List UInt8} (h : front.length = tag.length)
    (bs ps : List UInt8) : startsFolded (front ++ bs) (tag ++ ps) =
      (equalFolded front tag && startsFolded bs ps) := by
  have htake : (front ++ bs).take (tag ++ ps).length = front ++ bs.take ps.length := by
    rw [List.length_append, ← h, List.take_length_add_append]
  have hle : (tag ++ ps).length ≤ (front ++ bs).length ↔ ps.length ≤ bs.length := by
    rw [List.length_append, List.length_append, h, Nat.add_le_add_iff_left]
  rw [startsFolded, htake, Bool.eq_iff_iff]
  simp only [startsFolded, equalFolded, hle, List.map_append, Bool.and_eq_true, beq_iff_eq,
    decide_eq_true_iff]
  constructor
  · rintro ⟨hps, heq⟩
    obtain ⟨hfront, hbs⟩ := List.append_inj heq (by simp [h])
    exact ⟨hfront, hps, hbs⟩
  · rintro ⟨hfront, hps, hbs⟩
    exact ⟨hps, by rw [hfront, hbs]⟩

/-- A sign in front is compared as it is. -/
private theorem startsFolded_cons {a b : UInt8} (ha : a.toNat < 65) (bs ps : List UInt8) :
    startsFolded (b :: bs) (a :: ps) = (b == a && startsFolded bs ps) := by
  have hsign : equalFolded [b] [a] = (b == a) := by
    rw [Bool.eq_iff_iff, beq_iff_eq, ← toLower_eq_iff ha, equalFolded]
    simp
  rw [← List.singleton_append, ← List.singleton_append (l := ps), startsFolded_append (by rfl),
    hsign]

section

variable {text : String} {tag : List UInt8} {i : Nat} {b b' : UInt8} {front back : List UInt8}

/-- Some bytes and the byte behind them are read where they stand. -/
private theorem range_eq_of_drop (h : (ofText text).drop i = front ++ b :: back) :
    range text i (i + front.length) = .ok front ∧ byteAt text (i + front.length) = .ok b := by
  have hsize : text.utf8ByteSize - i = front.length + (back.length + 1) := by
    rw [← length_ofText, ← List.length_drop, h, List.length_append, List.length_cons]
  constructor
  · rw [range_eq (Nat.le_add_right _ _) (by omega), h, Nat.add_sub_cancel_left, List.take_left]
  · rw [byteAt_eq_ok_iff, ← List.head?_drop, ← List.drop_drop, h, List.drop_left]
    rfl

/-- Behind a position with room for a closing tag stand a byte, bytes for the name and one more. -/
private theorem exists_drop_eq (h : i + 2 + tag.length < text.utf8ByteSize) :
    ∃ b front b' back, (ofText text).drop (i + 1) = b :: (front ++ b' :: back) ∧
      front.length = tag.length := by
  rw [← length_ofText] at h
  refine ⟨(ofText text)[i + 1], ((ofText text).drop (i + 2)).take tag.length,
    (ofText text)[i + 2 + tag.length], (ofText text).drop (i + 2 + tag.length + 1), ?_, ?_⟩
  · rw [← List.drop_eq_getElem_cons h, ← List.drop_drop (i := tag.length), List.take_append_drop]
    exact List.drop_eq_getElem_cons _
  · rw [List.length_take, List.length_drop]
    omega

/-- With room for a closing tag its pieces are compared one after the other. -/
private theorem isCustomClosing_of_drop
    (h : (ofText text).drop (i + 1) = b :: (front ++ b' :: back))
    (hfront : front.length = tag.length) : isCustomClosing text tag i =
      .ok (b == '/'.toUInt8 && (equalFolded front tag && b' == '>'.toUInt8)) := by
  have hbehind : (ofText text).drop (i + 2) = front ++ b' :: back := by
    rw [← List.drop_drop (i := 1), h]
    rfl
  have hsize : text.utf8ByteSize - (i + 2) = front.length + (back.length + 1) := by
    rw [← length_ofText, ← List.length_drop, hbehind, List.length_append, List.length_cons]
  have hfirst : (some b == some '/'.toUInt8) = (b == '/'.toUInt8) := rfl
  obtain ⟨hrange, hbyte⟩ := range_eq_of_drop hbehind
  rw [hfront] at hrange hbyte
  unfold isCustomClosing
  dsimp only
  rw [← List.head?_drop, h, List.head?_cons, hfirst, decide_eq_true (by omega), Bool.and_true,
    hrange]
  cases b == '/'.toUInt8 with
  | false => rfl
  | true =>
    rw [if_pos rfl, ok_bind, Bool.true_and]
    cases equalFolded front tag with
    | false => rfl
    | true =>
      rw [if_pos rfl, hbyte]
      rfl

/-- Without room for a closing tag nothing is read. -/
private theorem isCustomClosing_of_le (h : text.utf8ByteSize ≤ i + 2 + tag.length) :
    isCustomClosing text tag i = .ok false := by
  unfold isCustomClosing
  dsimp only
  rw [decide_eq_false (Nat.not_lt.mpr h), Bool.and_false, if_neg Bool.false_ne_true]
  rfl

end

/-- The closing tag of a block is compared piece by piece, and nothing behind the text is read. -/
private theorem isCustomClosing_eq (text : String) (tag : List UInt8) (i : Nat) :
    isCustomClosing text tag i = .ok (startsFolded ((ofText text).drop (i + 1))
      (['/'.toUInt8] ++ (tag ++ ['>'.toUInt8]))) := by
  rw [List.singleton_append]
  by_cases hroom : i + 2 + tag.length < text.utf8ByteSize
  · obtain ⟨b, front, b', back, hdrop, hfront⟩ := exists_drop_eq hroom
    rw [isCustomClosing_of_drop hdrop hfront, hdrop, startsFolded_cons (by decide),
      startsFolded_append hfront, startsFolded_cons (by decide), startsFolded_nil, Bool.and_true]
  · rw [isCustomClosing_of_le (Nat.not_lt.mp hroom), startsFolded_of_lt]
    rw [List.length_drop, length_ofText, List.length_cons, List.length_append,
      List.length_singleton]
    omega

end Bytes

namespace Cursor

variable {text : String} {c d : Cursor} {x : Char} {more : List Char}

/-- A `<` ahead is not lost by a step over another character. -/
theorem mem_step_rest (hc : c.rest = x :: more) (hx : x ≠ '<') :
    '<' ∈ c.rest ↔ '<' ∈ c.step.rest := by
  rw [rest_step, hc, List.mem_cons, or_iff_right hx.symm]
  rfl

private theorem map_advance (k : Nat) (r : Option Nat) (c : Cursor) :
    (r.map (· + k)).map (fun n => (c.advance n).offset) =
      r.map fun n => ((c.advance k).advance n).offset := by
  rw [Option.map_map]
  congr 1
  funext n
  rw [Function.comp, Nat.add_comm, advance_add]

namespace Within

private theorem next_of_head (h : c.Within text) (hc : c.rest.head? = some '<') :
    Bytes.next text '<'.toUInt8 c.offset = .ok (some c.offset) := by
  obtain ⟨more, hmore⟩ := List.head?_eq_some_iff.mp hc
  rw [h.next (by decide), if_pos (by simp [hmore]), skip_of_not hc rfl]

private theorem next_of_ne (h : c.Within text) (hc : c.rest = x :: more) (hx : x ≠ '<') :
    Bytes.next text '<'.toUInt8 c.offset = Bytes.next text '<'.toUInt8 c.step.offset := by
  have hstep : c.step.Within text := h.of_advance 1
  rw [h.next (by decide), hstep.next (by decide), skip_of_head hc (by simpa using hx)]
  simp only [mem_step_rest hc hx]

section AtTag

variable {σ α : Type} {look : Nat → Checked (Bytes.Round σ (Option α))}

private theorem atTag_nil (h : c.Within text) (hc : c.rest = []) :
    Bytes.atTag text c.offset look = .ok (.done none) := by
  have hend : ¬ c.offset < text.utf8ByteSize := by simp [h.offset_lt_iff, hc]
  rw [Bytes.atTag, if_neg hend]
  rfl

/-- At any other character, the search goes on. -/
private theorem atTag_of_ne (h : c.Within text) (hc : c.rest = x :: more) (hx : x ≠ '<') :
    Bytes.atTag text c.offset look = Bytes.atTag text c.step.offset look := by
  have hstep : c.step.Within text := h.of_advance 1
  have hlt : c.offset < text.utf8ByteSize := h.offset_lt_iff.mpr (by simp [hc])
  cases hmore : c.step.rest with
  | nil =>
    rw [hstep.atTag_nil hmore, Bytes.atTag, if_pos hlt, h.next_of_ne hc hx,
      hstep.next (by decide), hmore]
    rfl
  | cons y rest =>
    have hlt' : c.step.offset < text.utf8ByteSize := hstep.offset_lt_iff.mpr fun hnil =>
      List.cons_ne_nil y rest (hmore.symm.trans hnil)
    rw [Bytes.atTag, Bytes.atTag, if_pos hlt, if_pos hlt', h.next_of_ne hc hx]

/-- At a `<`, the search looks. -/
private theorem atTag_of_head (h : c.Within text) (hc : c.rest.head? = some '<') :
    Bytes.atTag text c.offset look = look c.offset := by
  have hlt : c.offset < text.utf8ByteSize := h.offset_lt_iff.mpr fun hnil => by simp [hnil] at hc
  rw [Bytes.atTag, if_pos hlt, h.next_of_head hc, Bytes.ok_bind]

end AtTag

/-! ### Closing tags -/

section Closing

variable {isClosing : Nat → Checked Bool} {tag : List Char}

/-- A round of the search for a closing tag, at a `<`. -/
private theorem closingRound_of_head {b : Bool} (h : c.Within text) (hc : c.rest.head? = some '<')
    (hclosing : isClosing c.offset = .ok b) : Bytes.closingRound text isClosing c.offset =
      .ok (if b then .done (some c.offset) else .again c.step.offset) := by
  have hstep : c.step.offset = c.offset + 1 := h.offset_advance_eq hc (by decide)
  rw [Bytes.closingRound, h.atTag_of_head hc, hclosing, Bytes.ok_bind, hstep]
  cases b <;> rfl

/-- All rounds of that search together find the offset of the first closing tag. -/
private theorem repeatFor_closingRound
    (hclosing : ∀ d : Cursor, d.Within text → d.rest.head? = some '<' →
      isClosing d.offset = .ok (startsFolded d.rest (closingTag tag)))
    (cs : List Char) : ∀ (c : Cursor) (fuel : Nat), c.Within text → c.rest = cs →
      text.utf8ByteSize < c.offset + fuel →
      Bytes.repeatFor (Bytes.closingRound text isClosing) fuel c.offset =
        .ok ((closingIndex? tag cs).map fun n => (c.advance n).offset) := by
  induction cs with
  | nil =>
    intro c fuel h hc hfuel
    obtain ⟨fuel, rfl⟩ := h.exists_fuel hfuel
    have hround : Bytes.closingRound text isClosing c.offset = .ok (.done none) := h.atTag_nil hc
    exact Bytes.repeatFor_done hround fuel
  | cons x more ih =>
    intro c fuel h hc hfuel
    obtain ⟨fuel, rfl⟩ := h.exists_fuel hfuel
    have hstep : c.step.Within text := h.of_advance 1
    have hmore : c.step.rest = more := by rw [rest_step, hc]; rfl
    have hmap := map_advance 1 (closingIndex? tag more) c
    have hlt := (reads_step hc).offset_lt_of_ne_nil (List.cons_ne_nil x [])
    rw [closingIndex?]
    by_cases hx : x = '<'
    · have hhead : c.rest.head? = some '<' := by rw [hc, hx]; rfl
      have hround := h.closingRound_of_head hhead (hclosing c h hhead)
      rw [hc] at hround
      cases hstart : startsFolded (x :: more) (closingTag tag) with
      | true =>
        rw [hstart] at hround
        exact Bytes.repeatFor_done hround fuel
      | false =>
        rw [hstart] at hround
        rw [Bytes.repeatFor_again hround, ih c.step fuel hstep hmore (by omega),
          if_neg Bool.false_ne_true, hmap]
        rfl
    · have hstart : startsFolded (x :: more) (closingTag tag) = false := by
        rw [startsFolded_eq_false_iff, folded_closingTag, folded_cons, List.cons_prefix_cons]
        exact fun hpre => hx (eq_lt_of_toLower hpre.1.symm)
      have hround : Bytes.closingRound text isClosing c.offset =
          Bytes.closingRound text isClosing c.step.offset := h.atTag_of_ne hc hx
      rw [Bytes.repeatFor_congr hround, hstart, if_neg Bool.false_ne_true,
        hmap, ih c.step _ hstep hmore (by omega)]
      rfl

/-- The search by bytes for a closing tag finds what the search by characters finds. -/
theorem closingEnd (h : c.Within text) (hclosing : ∀ d : Cursor, d.Within text →
      d.rest.head? = some '<' → isClosing d.offset = .ok (startsFolded d.rest (closingTag tag))) :
    Bytes.closingEnd text isClosing c.offset =
      .ok ((closingIndex? tag c.rest).map fun n => (c.advance n).offset) :=
  repeatFor_closingRound hclosing c.rest c _ h rfl (by omega)

/-- The closing tag of a known block. -/
private theorem isKnownClosing (h : c.Within text) (htag : IsAscii (closingTag tag)) :
    Bytes.isKnownClosing text tag c.offset = .ok (startsFolded c.rest (closingTag tag)) := by
  rw [Bytes.isKnownClosing, h.tail, Bytes.ok_bind, startsFolded_utf8 htag]
  rfl

/-- The closing tag of any other block. -/
private theorem isCustomClosing (h : c.Within text) (htag : IsAscii (closingTag tag))
    (hc : c.rest.head? = some '<') : Bytes.isCustomClosing text (utf8 tag) c.offset =
      .ok (startsFolded c.rest (closingTag tag)) := by
  obtain ⟨more, hmore⟩ := List.head?_eq_some_iff.mp hc
  have hdrop : (Bytes.ofText text).drop (c.offset + 1) = utf8 more := by
    rw [← h.offset_advance_eq hc (by decide), (h.of_advance 1).drop_ofText, rest_advance, hmore]
    rfl
  have hascii : IsAscii ('/' :: (tag ++ ['>'])) :=
    fun x hx => htag x (List.mem_cons_of_mem _ hx)
  have hpattern : ['/'.toUInt8] ++ (utf8 tag ++ ['>'.toUInt8]) =
      Bytes.ascii ('/' :: (tag ++ ['>'])) := by
    rw [← hascii.utf8_eq, utf8_cons, utf8_append]
    rfl
  rw [Bytes.isCustomClosing_eq, hdrop, hpattern, startsFolded_utf8 hascii, hmore]
  rfl

end Closing

/-! ### Templates -/

section Template

variable {tag name inner : List Char} {depth : Nat}

private theorem length_name (h : folded name = templateTag) : ('<' :: name).length = 9 := by
  rw [List.length_cons, ← length_folded, h]
  rfl

private theorem drop_name (h : folded name = templateTag) (rest : List Char) :
    ('<' :: (name ++ rest)).drop 9 = rest := by
  rw [← List.cons_append, ← length_name h, List.drop_left]

/-- The name of a template does not end with a slash. -/
private theorem noSlash_name (h : folded name = templateTag) : NoSlash ('<' :: name) := by
  intro hlast
  have hfold : (folded ('<' :: name)).getLast? = some '/' := by
    rw [folded, List.getLast?_map, hlast]
    rfl
  rw [folded_cons, h] at hfold
  revert hfold
  decide

/-- A slash at the end of a tag is one behind the name. -/
private theorem last_eq_slash_iff {front : List Char} {y : Char} (hname : folded name = templateTag)
    (h : '<' :: name ++ inner = front ++ [y]) : y = '/' ↔ inner.getLast? = some '/' := by
  have hy : some y = inner.getLast?.or ('<' :: name).getLast? := by
    rw [← List.getLast?_append, h, List.getLast?_concat]
  cases hinner : inner.getLast? with
  | none =>
    rw [hinner, Option.none_or] at hy
    have := noSlash_name hname
    rw [NoSlash, ← hy] at this
    simpa using this
  | some z =>
    rw [hinner, Option.some_or] at hy
    rw [← hy, Option.some.injEq]

/-- At a closing tag one template fewer is open. -/
private theorem lookTemplate_stop (h : c.Within text) (hc : c.rest = tag ++ more)
    (htag : IsTemplateEnd tag) (depth : Nat) :
    Bytes.lookTemplate text (depth + 1) c.offset =
      .ok (if depth = 0 then .done (some c.offset)
        else .again ((c.advance tag.length).offset, depth)) := by
  have hstop := htag.startsFolded more
  have hlength : tag.length = (closingTag templateTag).length := by
    rw [← length_folded, htag]
    decide
  have hascii : IsAscii tag := by
    rw [← isAscii_folded_iff, htag]
    decide
  have hoffset : (c.advance tag.length).offset = c.offset + (closingTag templateTag).length := by
    rw [(reads_advance_append hc).offset, hascii.byteLength_eq, hlength]
  have hbefore : Bytes.before (depth + 1) 1 = .ok depth := if_pos (Nat.le_add_left 1 depth)
  rw [Bytes.lookTemplate, h.tail, Bytes.ok_bind, startsFolded_utf8 (by decide), hc, hstop,
    if_pos rfl, hbefore, Bytes.ok_bind, hoffset]
  cases depth <;> rfl

/-- Where the name of a template stands, what comes behind it decides. -/
private theorem lookTemplate_name (h : c.Within text) (hc : c.rest = '<' :: (name ++ more))
    (hname : folded name = templateTag) : Bytes.lookTemplate text depth c.offset =
      if more.head?.any (fun x => isTagSpace x || x == '>') then
        Bytes.enterTemplate text depth (c.advance 9).offset
      else .ok (.again (c.step.offset, depth)) := by
  have hstep : c.step.Within text := h.of_advance 1
  have hstop := startsFolded_name_eq_false hname more
  have hstart : startsFolded c.step.rest templateTag = true := by
    rw [rest_step, hc]
    exact startsFolded_append (hname.trans (by decide)) more
  have hascii : IsAscii ('<' :: name) := by
    rw [← isAscii_folded_iff, folded_cons, hname]
    decide
  have hlength := length_name hname
  have hoffset : c.step.offset = c.offset + 1 := h.offset_advance_eq (by rw [hc]; rfl) (by decide)
  have hinner := reads_advance_append (c := c) (s := '<' :: name) (t := more) hc
  rw [hlength] at hinner
  have hafter : (c.advance 9).offset = c.offset + 1 + templateTag.length := by
    rw [hinner.offset, hascii.byteLength_eq, hlength]
    rfl
  have hends : Agrees (fun b => Bytes.isSpace b || b == '>'.toUInt8)
      (fun x => isTagSpace x || x == '>') := agrees_isSpace.or (.beq (by decide))
  have hmore : (c.advance 9).rest = more := by rw [rest_advance, hc, drop_name hname]
  rw [Bytes.lookTemplate, h.tail, Bytes.ok_bind, startsFolded_utf8 (by decide), hc, hstop,
    if_neg Bool.false_ne_true, ← hoffset, hstep.tail, Bytes.ok_bind, startsFolded_utf8 (by decide),
    hstart, if_pos rfl, hoffset, ← hafter, (h.of_advance 9).holds hends, Bytes.ok_bind, hmore]
  rfl

/-- At a tag of a template one more is open, unless the tag closes itself. -/
theorem exists_lookTemplate (h : c.Within text) (hc : c.rest = tag ++ more)
    (htag : IsTemplateTag inner tag) (depth : Nat) :
    ∃ g : Cursor, g.Within text ∧ g.Reads ['>'] (c.advance tag.length) ∧
      Bytes.lookTemplate text depth c.offset =
        .ok (.again (g.offset, if inner.getLast? = some '/' then depth else depth + 1)) := by
  obtain ⟨⟨name, hname, rfl⟩, hhead, hgt⟩ := htag
  have hc' : c.rest = '<' :: (name ++ (inner ++ '>' :: more)) := by simpa using hc
  have hlength := length_name hname
  have hback := reads_advance_append (c := c) (s := '<' :: name) (t := inner ++ '>' :: more) hc'
  rw [hlength] at hback
  have hrest : (c.advance 9).rest = inner ++ '>' :: more := by
    rw [rest_advance, hc', drop_name hname]
  have hinner : (c.advance 9).rest.takeWhile (· != '>') = inner := by
    rw [hrest, List.takeWhile_append_of_pos fun x hx => by
      simpa using fun heq : x = '>' => hgt (heq ▸ hx)]
    simp
  have hread := hback.trans (reads_skip (· != '>') (c.advance 9))
  set g := (c.advance 9).skip (· != '>')
  rw [hinner] at hread
  have hg : g.rest = '>' :: more :=
    List.append_cancel_left (hread.rest.symm.trans (by simpa using hc'))
  have hend := reads_advance_append (c := g) (s := ['>']) (t := more) hg
  have htag := hread.trans hend
  have hnext : c.advance ('<' :: (name ++ (inner ++ ['>']))).length = g.advance 1 :=
    Reads.unique (reads_advance_append hc) (by simpa using htag)
  refine ⟨g, h.of_reads hread, by rw [hnext]; exact hend, ?_⟩
  obtain ⟨front, y, hfront⟩ : ∃ front y, '<' :: name ++ inner = front ++ [y] :=
    (List.eq_nil_or_concat' _).resolve_left (List.cons_ne_nil _ _)
  rw [hfront] at hread
  obtain ⟨b, hb, hbefore, hbyte⟩ := h.byteAt_before hread
  have hslash : (b == '/'.toUInt8) = (y == '/') := Agrees.beq (by decide) y b hb
  have hany : (inner ++ '>' :: more).head?.any (fun x => isTagSpace x || x == '>') = true := by
    cases inner with
    | nil => rfl
    | cons x inner => simp [hhead x rfl]
  have hmem : '>' ∈ (c.advance 9).rest := by
    rw [hrest]
    exact List.mem_append_right _ List.mem_cons_self
  rw [h.lookTemplate_name hc' hname, if_pos hany, Bytes.enterTemplate,
    (h.of_advance 9).next (by decide), if_pos hmem, Bytes.ok_bind]
  dsimp only
  rw [hbefore, Bytes.ok_bind, hbyte, Bytes.ok_bind, hslash]
  simp only [← last_eq_slash_iff hname hfront, beq_iff_eq]
  split <;> rfl

/-- A tag of a template that does not end is the end of the search. -/
private theorem lookTemplate_cut (h : c.Within text) (hstart : opensTemplate c.rest = true)
    (hgt : '>' ∉ c.rest) (depth : Nat) :
    Bytes.lookTemplate text depth c.offset = .ok (.done none) := by
  obtain ⟨name, x, more, hc, hname, hx⟩ := exists_of_opensTemplate hstart
  have hany : (x :: more).head?.any (fun x => isTagSpace x || x == '>') = true := by simpa using hx
  have hinner : '>' ∉ (c.advance 9).rest := by
    rw [rest_advance]
    exact fun hmem => hgt (List.mem_of_mem_drop hmem)
  rw [h.lookTemplate_name hc hname, if_pos hany, Bytes.enterTemplate,
    (h.of_advance 9).next (by decide), if_neg hinner]
  rfl

/-- Any other `<` is passed. -/
private theorem lookTemplate_char (h : c.Within text) (hc : c.rest = '<' :: more)
    (hstop : startsFolded c.rest (closingTag templateTag) = false)
    (hstart : opensTemplate c.rest = false) (depth : Nat) :
    Bytes.lookTemplate text depth c.offset = .ok (.again (c.step.offset, depth)) := by
  have hstep : c.step.Within text := h.of_advance 1
  have hmore : c.step.rest = more := by rw [rest_step, hc]; rfl
  cases hname : startsFolded more templateTag with
  | true =>
    obtain ⟨name, rest, rfl, hfold⟩ := exists_append_of_startsFolded hname
    have htag : folded name = templateTag := hfold.trans (by decide)
    have hopen := startsFolded_append (s := '<' :: name) (p := '<' :: templateTag)
      (by rw [folded_cons, folded_cons, hfold]) rest
    rw [hc, opensTemplate, drop_name htag, ← List.cons_append, hopen, Bool.true_and] at hstart
    have hany : rest.head?.any (fun x => isTagSpace x || x == '>') = false := by
      cases rest with
      | nil => rfl
      | cons x rest => exact hstart
    rw [h.lookTemplate_name hc htag, hany, if_neg Bool.false_ne_true]
  | false =>
    have hoffset : c.step.offset = c.offset + 1 :=
      h.offset_advance_eq (by rw [hc]; rfl) (by decide)
    rw [Bytes.lookTemplate, h.tail, Bytes.ok_bind, startsFolded_utf8 (by decide), hstop,
      if_neg Bool.false_ne_true, ← hoffset, hstep.tail, Bytes.ok_bind,
      startsFolded_utf8 (by decide), hmore, hname, if_neg Bool.false_ne_true]
    rfl

/-- A tag of a template is passed in one round: it leads to its `>`, and from there on the next `<`
is looked for. -/
private theorem repeatFor_tag (h : c.Within text) (hc : c.rest = tag ++ more)
    (htag : IsTemplateTag inner tag) (depth fuel : Nat) :
    Bytes.repeatFor (Bytes.templateRound text) (fuel + 1) (c.offset, depth) =
      Bytes.repeatFor (Bytes.templateRound text) fuel ((c.advance tag.length).offset,
        if inner.getLast? = some '/' then depth else depth + 1) := by
  obtain ⟨g, hg, hend, hlook⟩ := h.exists_lookTemplate hc htag depth
  have hhead : c.rest.head? = some '<' := by
    obtain ⟨⟨name, -, rfl⟩, -, -⟩ := htag
    rw [hc]
    rfl
  have hround : Bytes.templateRound text (c.offset, depth) = .ok (.again (g.offset,
      if inner.getLast? = some '/' then depth else depth + 1)) :=
    (h.atTag_of_head hhead).trans hlook
  have hstep : g.step = c.advance tag.length := (reads_step hend.rest).unique hend
  have hpass (depth : Nat) : Bytes.templateRound text (g.offset, depth) =
      Bytes.templateRound text (g.step.offset, depth) := hg.atTag_of_ne hend.rest (by decide)
  rw [Bytes.repeatFor_again hround, Bytes.repeatFor_congr (hpass _), hstep]

/-- Behind a piece of what is ahead the cursor stands further on, in front of what follows. -/
private theorem advance_of_append (hc : c.rest = tag ++ more) (hne : tag ≠ []) :
    (c.advance tag.length).rest = more ∧ c.offset < (c.advance tag.length).offset :=
  ⟨rest_advance_append hc, (reads_advance_append hc).offset_lt_of_ne_nil hne⟩

/-- All rounds of the search for the end of a template, with the depth they begin with. -/
private theorem repeatFor_templateRound (depth : Nat) (cs : List Char) :
    ∀ (c : Cursor) (fuel : Nat),
    c.Within text → c.rest = cs → 0 < depth → text.utf8ByteSize < c.offset + fuel →
    Bytes.repeatFor (Bytes.templateRound text) fuel (c.offset, depth) =
      .ok ((templateIndex? depth cs).map fun n => (c.advance n).offset) := by
  induction depth, cs using templateIndex?_induction with
  | nil depth =>
    intro c fuel h hc hdepth hfuel
    obtain ⟨fuel, rfl⟩ := h.exists_fuel hfuel
    have hround : Bytes.templateRound text (c.offset, depth) = .ok (.done none) := h.atTag_nil hc
    exact Bytes.repeatFor_done hround fuel
  | cut depth cs hstart hgt =>
    rintro c fuel h rfl hdepth hfuel
    obtain ⟨fuel, rfl⟩ := h.exists_fuel hfuel
    obtain ⟨name, x, more, hc, -, -⟩ := exists_of_opensTemplate hstart
    have hround : Bytes.templateRound text (c.offset, depth) = .ok (.done none) :=
      (h.atTag_of_head (by rw [hc]; rfl)).trans (h.lookTemplate_cut hstart hgt depth)
    exact Bytes.repeatFor_done hround fuel
  | last depth tag more htag hle =>
    intro c fuel h hc hdepth hfuel
    obtain ⟨fuel, rfl⟩ := h.exists_fuel hfuel
    obtain ⟨rest, hrest⟩ := htag.exists_cons
    obtain rfl : depth = 0 + 1 := by omega
    have hround : Bytes.templateRound text (c.offset, 0 + 1) = .ok (.done (some c.offset)) :=
      (h.atTag_of_head (by rw [hc, hrest]; rfl)).trans (h.lookTemplate_stop hc htag 0)
    exact Bytes.repeatFor_done hround fuel
  | stop depth tag more htag ih =>
    intro c fuel h hc hdepth hfuel
    obtain ⟨fuel, rfl⟩ := h.exists_fuel hfuel
    obtain ⟨rest, hrest⟩ := htag.exists_cons
    have hround : Bytes.templateRound text (c.offset, depth + 1 + 1) =
        .ok (.again ((c.advance tag.length).offset, depth + 1)) :=
      (h.atTag_of_head (by rw [hc, hrest]; rfl)).trans (h.lookTemplate_stop hc htag (depth + 1))
    obtain ⟨hmore, hlt⟩ := advance_of_append hc (by rw [hrest]; exact List.cons_ne_nil _ _)
    rw [Bytes.repeatFor_again hround, map_advance,
      ih _ fuel (h.of_advance _) hmore (Nat.succ_pos _) (by omega)]
  | start depth tag more htag ih =>
    intro c fuel h hc hdepth hfuel
    obtain ⟨fuel, rfl⟩ := h.exists_fuel hfuel
    obtain ⟨inner, htag, hlast⟩ := htag.exists_inner
    obtain ⟨hmore, hlt⟩ := advance_of_append hc (List.ne_nil_of_length_pos htag.length_pos)
    rw [h.repeatFor_tag hc htag, if_neg hlast, map_advance]
    exact ih _ fuel (h.of_advance _) hmore (by omega) (by omega)
  | single depth tag more htag ih =>
    intro c fuel h hc hdepth hfuel
    obtain ⟨fuel, rfl⟩ := h.exists_fuel hfuel
    obtain ⟨inner, htag, hlast⟩ := htag.exists_inner
    obtain ⟨hmore, hlt⟩ := advance_of_append hc (List.ne_nil_of_length_pos htag.length_pos)
    rw [h.repeatFor_tag hc htag, if_pos hlast, map_advance]
    exact ih _ fuel (h.of_advance _) hmore (by omega) (by omega)
  | char depth x more hstop hstart ih =>
    intro c fuel h hc hdepth hfuel
    obtain ⟨fuel, rfl⟩ := h.exists_fuel hfuel
    have hstep : c.step.Within text := h.of_advance 1
    have hmore : c.step.rest = more := by rw [rest_step, hc]; rfl
    have hlt := (reads_step hc).offset_lt_of_ne_nil (List.cons_ne_nil x [])
    rw [map_advance]
    by_cases hx : x = '<'
    · have hround : Bytes.templateRound text (c.offset, depth) =
          .ok (.again (c.step.offset, depth)) :=
        (h.atTag_of_head (by rw [hc, hx]; rfl)).trans
          (h.lookTemplate_char (by rw [hc, hx]) (by rwa [hc]) (by rwa [hc]) depth)
      rw [Bytes.repeatFor_again hround]
      exact ih c.step fuel hstep hmore hdepth (by omega)
    · have hround : Bytes.templateRound text (c.offset, depth) =
          Bytes.templateRound text (c.step.offset, depth) := h.atTag_of_ne hc hx
      rw [Bytes.repeatFor_congr hround]
      exact ih c.step _ hstep hmore hdepth (by omega)

private theorem templateEnd (h : c.Within text) : Bytes.templateEnd text c.offset =
    .ok ((templateIndex? 1 c.rest).map fun n => (c.advance n).offset) :=
  repeatFor_templateRound 1 c.rest c _ h rfl Nat.one_pos (by omega)

end Template

/-! ### Contents -/

private theorem length_of_equalFolded {tag known : List Char} (h : equalFolded tag known = true) :
    (closingTag known).length = tag.length + 3 := by
  have hlength := congrArg List.length (beq_iff_eq.mp h)
  rw [List.length_map, List.length_map] at hlength
  simp [closingTag, hlength]

/-- A known block is closed by its own closing tag, in any letter case. -/
private theorem closingEnd_known {tag known : List Char} (h : c.Within text)
    (hknown : IsAscii (closingTag known)) (heq : equalFolded tag known = true) :
    Bytes.closingEnd text (Bytes.isKnownClosing text known) c.offset =
      .ok ((closingIndex? tag c.rest).map fun n => (c.advance n).offset) := by
  refine h.closingEnd fun d hd _ => ?_
  rw [hd.isKnownClosing hknown, startsFolded_closingTag_congr (beq_iff_eq.mp heq)]

/-- The content of a block ends where it does for characters, and the closing tag is as long. -/
theorem contentEnd {tag : List Char} (h : c.Within text) (htag : IsAscii tag) :
    Bytes.contentEnd text (utf8 tag) c.offset =
      .ok ((contentLength? tag c.rest).map fun n => ((c.advance n).offset, tag.length + 3)) := by
  have hequal (known : List Char) (hknown : IsAscii known) :
      Bytes.equalFolded (utf8 tag) (Bytes.ascii known) = equalFolded tag known := by
    rw [← hknown.utf8_eq, equalFolded_utf8]
  unfold Bytes.contentEnd contentLength?
  rw [hequal _ (by decide), hequal _ (by decide), hequal _ (by decide)]
  cases htemplate : equalFolded tag templateTag with
  | true =>
    rw [if_pos rfl, if_pos rfl, h.templateEnd, Bytes.ok_bind, length_of_equalFolded htemplate]
    exact congrArg Except.ok (Option.map_map _ _ _)
  | false =>
    rw [if_neg Bool.false_ne_true, if_neg Bool.false_ne_true]
    cases hscript : equalFolded tag Bytes.scriptTag with
    | true =>
      rw [if_pos rfl, h.closingEnd_known (by decide) hscript, Bytes.ok_bind,
        length_of_equalFolded hscript]
      exact congrArg Except.ok (Option.map_map _ _ _)
    | false =>
      rw [if_neg Bool.false_ne_true]
      cases hstyle : equalFolded tag Bytes.styleTag with
      | true =>
        rw [if_pos rfl, h.closingEnd_known (by decide) hstyle, Bytes.ok_bind,
          length_of_equalFolded hstyle]
        exact congrArg Except.ok (Option.map_map _ _ _)
      | false =>
        rw [if_neg Bool.false_ne_true,
          h.closingEnd fun d hd hhead => hd.isCustomClosing htag.closingTag hhead, Bytes.ok_bind,
          length_utf8, htag.byteLength_eq]
        exact congrArg Except.ok (Option.map_map _ _ _)

end Within

end Cursor

end ComponentInsight.Document

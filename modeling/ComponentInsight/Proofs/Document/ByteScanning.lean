import ComponentInsight.Proofs.Document.ByteContents
import ComponentInsight.Proofs.Document.Scanning

/-!
# Scanning by bytes

The splitter over bytes does what the splitter over characters does, and has no fault
(`outline_eq_ok`): at each `<` it finds the same block, at the same offsets and lines
(`Cursor.Within.block`), and passes the same text. Every round of a loop but the last goes on by at
least a byte, so that no loop takes more rounds than the document has bytes.
-/

namespace ComponentInsight.Document

namespace Cursor

variable {text : String} {c d : Cursor} {x : Char} {more : List Char}

/-! ### Blocks -/

/-- What the scanner keeps of a cursor. -/
def scanner (c : Cursor) : Bytes.Scanner := ⟨c.offset, c.line⟩

@[simp] theorem offset_scanner (c : Cursor) : c.scanner.offset = c.offset := rfl

namespace Within

/-- The lines on the way are counted by bytes. -/
private theorem advanceTo {s : List Char} (h : c.Within text) (hd : c.Reads s d) :
    c.scanner.advanceTo text d.offset = .ok d.scanner := by
  have hstop : min d.offset text.utf8ByteSize = d.offset := min_eq_left (h.of_reads hd).offset_le
  rw [Bytes.Scanner.advanceTo, scanner]
  dsimp only
  rw [hstop, h.range hd, Bytes.ok_bind, count_utf8 (by decide), ← hd.line]
  rfl

section BlockBody

variable {g body rest : Cursor} {s name : List Char} (tag : Slice) (found : List Attribute)

/-- A tag that does not end makes no block. -/
private theorem blockBody_missing (text : String) (scanner : Bytes.Scanner) (nameStop : Nat) :
    Bytes.blockBody text scanner nameStop tag found text.utf8ByteSize = .ok none := by
  have hend : Bytes.holds text (· == '>'.toUInt8) text.utf8ByteSize = .ok false :=
    if_neg (Nat.lt_irrefl _)
  rw [Bytes.blockBody, closesItself_missing, Bytes.ok_bind, if_neg Bool.false_ne_true, hend]
  rfl

/-- A tag that closes itself makes an empty block. -/
private theorem blockBody_closed (h : c.Within text) (hg : c.Reads s g) (hend : g.Reads ['>'] rest)
    (hself : Bytes.closesItself text g.offset = .ok true) (nameStop : Nat) :
    Bytes.blockBody text c.scanner nameStop tag found g.offset =
      .ok (some (⟨tag, found, rest.slice 0, c.offset, rest.offset, c.line, rest.line⟩,
        rest.scanner)) := by
  have hoffset : g.offset + 1 = rest.offset := hend.offset.symm
  have hrest := h.of_reads (hg.trans hend)
  rw [Bytes.blockBody, hself, Bytes.ok_bind, if_pos rfl, hoffset, h.advanceTo (hg.trans hend),
    Bytes.ok_bind, hrest.slice (.refl rest), Bytes.ok_bind]
  rfl

/-- An opening tag makes a block that goes up to its closing tag, if there is one. -/
private theorem blockBody_opened (h : c.Within text) (hg : c.Reads s g) (hend : g.Reads ['>'] body)
    (hself : Bytes.closesItself text g.offset = .ok false) {nameStop : Nat}
    (hname : Bytes.range text (c.offset + 1) nameStop = .ok (utf8 name)) (hascii : IsAscii name) :
    Bytes.blockBody text c.scanner nameStop tag found g.offset =
      .ok ((contentLength? name body.rest).map fun n =>
        let rest := body.advance (n + (name.length + 3))
        (⟨tag, found, body.slice n, c.offset, rest.offset, c.line, rest.line⟩, rest.scanner)) := by
  have hoffset : g.offset + 1 = body.offset := hend.offset.symm
  have hbody := h.of_reads (hg.trans hend)
  have hgt : Bytes.holds text (· == '>'.toUInt8) g.offset = .ok true :=
    (h.of_reads hg).holds_pos (.beq (by decide)) (x := '>') (by rw [hend.rest]; rfl) rfl
  rw [Bytes.blockBody, hself, Bytes.ok_bind, if_neg Bool.false_ne_true, hgt, Bytes.ok_bind,
    if_pos rfl, offset_scanner, hname, Bytes.ok_bind, hoffset,
    hbody.contentEnd hascii, Bytes.ok_bind]
  cases hn : contentLength? name body.rest with
  | none => rfl
  | some n =>
    -- the closing tag is as long in bytes
    obtain ⟨closing, more, hclosing, hfold⟩ :=
      exists_append_of_startsFolded (startsFolded_of_contentLength? hn)
    have hlength : closing.length = name.length + 3 := by
      rw [← length_folded, hfold, length_folded, closingTag]
      simp
    have hclosingAscii : IsAscii closing := by
      rw [← isAscii_folded_iff, hfold, isAscii_folded_iff]
      exact hascii.closingTag
    have hread := reads_advance n body
    have hmore : (body.advance n).rest = closing ++ more := by rw [rest_advance, hclosing]
    have hnext := reads_advance_append hmore
    rw [hlength, ← advance_add] at hnext
    have hstop : (body.advance n).offset + (name.length + 3) =
        (body.advance (n + (name.length + 3))).offset := by
      rw [hnext.offset, hclosingAscii.byteLength_eq, hlength]
    dsimp only [Option.map_some]
    rw [hstop, h.advanceTo (((hg.trans hend).trans hread).trans hnext), Bytes.ok_bind,
      hbody.slice hread, Bytes.ok_bind]
    rfl

end BlockBody

/-- A block is found by bytes if it is by characters, and it is the same. -/
theorem block (h : c.Within text) (hc : c.rest.head? = some '<') :
    Bytes.block text c.scanner = .ok ((block? c).map fun p => (p.1, p.2.scanner)) := by
  obtain ⟨more, hmore⟩ := List.head?_eq_some_iff.mp hc
  have hopening := reads_advance_append (c := c) (s := ['<']) (t := more) hmore
  have hoffset : (c.advance 1).offset = c.offset + 1 := h.offset_advance_eq hc (by decide)
  have hinner : (c.advance 1).Within text := h.of_advance 1
  have hname := reads_skip isTagChar (c.advance 1)
  have htag : (c.advance 1).rest.takeWhile isTagChar = [] ↔ (c.advance 1).run isTagChar = 0 :=
    List.length_eq_zero_iff.symm
  rw [Bytes.block, offset_scanner, ← hoffset, hinner.skip agrees_isTagByte, Bytes.ok_bind]
  by_cases hrun : (c.advance 1).run isTagChar = 0
  · have hblock : block? c = none := by
      rw [block?]
      exact if_pos hrun
    rw [skip_of_run_eq_zero hrun, beq_self_eq_true, if_pos rfl, hblock]
    rfl
  · have hlt := hname.offset_lt_of_ne_nil (mt htag.mp hrun)
    rw [beq_false_of_ne hlt.ne', if_neg Bool.false_ne_true,
      (hinner.of_skip isTagChar).attributes, Bytes.ok_bind]
    dsimp only
    rw [hinner.slice_run, Bytes.ok_bind]
    obtain ⟨found, e, hfound⟩ : ∃ found e, Document.attributes ((c.advance 1).skip isTagChar) =
        (found, e) := ⟨_, _, rfl⟩
    have hend : (Document.attributes ((c.advance 1).skip isTagChar)).2 = e := by rw [hfound]
    have hfront := hopening.trans hname
    have hskip := hinner.of_skip isTagChar
    rw [hfound]
    rw [Cursor.skip] at hfound
    rw [block?]
    dsimp only
    rw [if_neg hrun, hfound]
    cases e with
    | missing => exact blockBody_missing _ _ text c.scanner _
    | closed rest =>
      obtain ⟨s, g, hg, hgt, hself⟩ := hskip.closesItself_closed hend
      have hposition : rest.offset - 1 = g.offset := by
        rw [hgt.offset]
        rfl
      rw [TagEnd.position, hposition, h.blockBody_closed _ _ (hfront.trans hg) hgt hself]
      rfl
    | opened body =>
      have hslash : NoSlash (['<'] ++ (c.advance 1).rest.takeWhile isTagChar) :=
        NoSlash.append (by simp [NoSlash]) (noSlash_takeWhile rfl _)
      obtain ⟨s, g, hg, hgt, hself⟩ :=
        h.closesItself_opened hfront hslash (List.cons_ne_nil _ _) hend
      have hposition : body.offset - 1 = g.offset := by
        rw [hgt.offset]
        rfl
      have hascii : IsAscii ((c.advance 1).rest.takeWhile isTagChar) :=
        fun x hx => toNat_lt_of_isTagChar (List.mem_takeWhile_imp hx)
      have hrange := hinner.range hname
      rw [hoffset] at hrange
      rw [TagEnd.position, hposition, h.blockBody_opened _ _ hg hgt hself hrange hascii,
        take_run]
      dsimp only
      cases contentLength? ((c.advance 1).rest.takeWhile isTagChar) body.rest <;> rfl

end Within

/-! ### The scan -/

private theorem isPrefix_of_indexOf? {p cs : List Char} {n : Nat} (h : indexOf? p cs = some n) :
    p <+: cs.drop n := by
  induction cs generalizing n with
  | nil =>
    rw [indexOf?] at h
    split at h
    · next hp =>
      rw [List.isEmpty_iff.mp hp]
      exact List.nil_prefix
    · cases h
  | cons c cs ih =>
    rw [indexOf?] at h
    split at h
    · next hpre =>
      obtain rfl : 0 = n := Option.some.inj h
      exact List.isPrefixOf_iff_prefix.mp hpre
    · obtain ⟨m, hm, rfl⟩ := Option.map_eq_some_iff.mp h
      exact ih hm

namespace Within

/-- A comment ends at the same place for bytes and for characters. -/
private theorem commentEnd (h : c.Within text) : Bytes.commentEnd text c.offset =
    .ok (c.advance (commentLength c.rest)).offset := by
  rw [Bytes.commentEnd, h.tail, Bytes.ok_bind, commentClosing, search_utf8 (by decide),
    ← commentClosing, commentLength]
  cases hn : indexOf? commentClosing c.rest with
  | none =>
    have hread := reads_advance c.rest.length c
    rw [List.take_length] at hread
    rw [hread.offset, h.offset_add]
    rfl
  | some n =>
    obtain ⟨more, hmore⟩ := isPrefix_of_indexOf? hn
    have hread := reads_advance n c
    have hclosing : (c.advance n).rest = commentClosing ++ more := by rw [rest_advance, hmore]
    have hend := hread.trans (reads_advance_append hclosing)
    rw [← advance_add] at hend
    have hoffset := hend.offset
    rw [byteLength_append, ← Nat.add_assoc] at hoffset
    exact congrArg Except.ok hoffset.symm

/-- At a `<`, the bytes are looked at as the characters are. -/
private theorem scanTag (h : c.Within text) (hc : c.rest.head? = some '<') :
    Bytes.scanTag text c.scanner = .ok (match c.look.1 with
      | some b => .done (some (b, c.look.2.scanner))
      | none => .again c.look.2.scanner) := by
  have hoffset : c.offset + 1 = c.step.offset := (h.offset_advance_eq hc (by decide)).symm
  obtain ⟨more, hmore⟩ := List.head?_eq_some_iff.mp hc
  rw [Bytes.scanTag, offset_scanner, h.tail, Bytes.ok_bind, isPrefixOf_utf8 (by decide), look,
    if_pos hc]
  cases hcomment : commentOpening.isPrefixOf c.rest with
  | true =>
    rw [if_pos rfl, if_pos rfl, h.commentEnd, Bytes.ok_bind, h.advanceTo (reads_advance _ c)]
    rfl
  | false =>
    rw [if_neg Bool.false_ne_true, if_neg Bool.false_ne_true, h.block hc, Bytes.ok_bind]
    cases block? c with
    | some found => rfl
    | none =>
      dsimp only [Option.map_none]
      rw [hoffset, h.advanceTo (reads_step hmore)]
      rfl

/-- A round of the scan goes on to the next `<`, if there is one. -/
private theorem scanRound (h : c.Within text) : Bytes.scanRound text c.scanner =
    if '<' ∈ c.rest then Bytes.scanTag text (c.skip (· != '<')).scanner
    else .ok (.done none) := by
  rw [Bytes.scanRound, offset_scanner, h.next (by decide), Bytes.ok_bind]
  by_cases hmem : '<' ∈ c.rest
  · rw [if_pos hmem, if_pos hmem]
    dsimp only
    rw [h.advanceTo (reads_skip _ c), Bytes.ok_bind]
  · rw [if_neg hmem, if_neg hmem]
    rfl

private theorem scanRound_of_ne (h : c.Within text) (hc : c.rest = x :: more) (hx : x ≠ '<') :
    Bytes.scanRound text c.scanner = Bytes.scanRound text c.step.scanner := by
  have hstep : c.step.Within text := h.of_advance 1
  rw [h.scanRound, hstep.scanRound, skip_of_head hc (by simpa using hx)]
  simp only [mem_step_rest hc hx]

private theorem scanRound_of_head (h : c.Within text) (hc : c.rest.head? = some '<') :
    Bytes.scanRound text c.scanner = Bytes.scanTag text c.scanner := by
  obtain ⟨more, hmore⟩ := List.head?_eq_some_iff.mp hc
  rw [h.scanRound, if_pos (by simp [hmore]), skip_of_not hc rfl]

end Within

/-- The next block of a scan and what comes behind it. -/
def IsNext (c : Cursor) (bs : List Block) : Option (Block × Cursor) → Prop
  | none => bs = []
  | some (b, d) => bs = b :: d.scan ∧ ∃ s, s ≠ [] ∧ c.Reads s d

private theorem IsNext.of_reads {bs : List Block} {found : Option (Block × Cursor)} {s : List Char}
    (h : d.IsNext bs found) (hread : c.Reads s d) : c.IsNext bs found := by
  cases found with
  | none => exact h
  | some found =>
    obtain ⟨hscan, t, ht, hread'⟩ := h
    exact ⟨hscan, s ++ t, fun hnil => ht (List.append_eq_nil_iff.mp hnil).2, hread.trans hread'⟩

/-- The rounds of the scan come to its next block, or to the end. -/
private theorem exists_repeatFor_scanRound (c : Cursor) : ∀ fuel, c.Within text →
    text.utf8ByteSize < c.offset + fuel → ∃ found, c.IsNext c.scan found ∧
      Bytes.repeatFor (Bytes.scanRound text) fuel c.scanner =
        .ok (found.map fun p => (p.1, p.2.scanner)) := by
  induction c using scan_induction with
  | nil c hc =>
    intro fuel h hfuel
    obtain ⟨fuel, rfl⟩ := h.exists_fuel hfuel
    have hround : Bytes.scanRound text c.scanner = .ok (.done none) := by
      rw [h.scanRound, hc, if_neg List.not_mem_nil]
    exact ⟨none, rfl, Bytes.repeatFor_done hround fuel⟩
  | pass c hne hlook ih =>
    intro fuel h hfuel
    obtain ⟨fuel, rfl⟩ := h.exists_fuel hfuel
    obtain ⟨s, hs, hread⟩ := exists_reads_look hne
    have hlt := hread.offset_lt_of_ne_nil hs
    by_cases hhead : c.rest.head? = some '<'
    · have hround : Bytes.scanRound text c.scanner = .ok (.again c.look.2.scanner) := by
        rw [h.scanRound_of_head hhead, h.scanTag hhead, hlook]
      obtain ⟨found, hnext, hfound⟩ := ih fuel (h.of_reads hread) (by omega)
      exact ⟨found, hnext.of_reads hread, (Bytes.repeatFor_again hround fuel).trans hfound⟩
    · obtain ⟨x, more, hc⟩ := List.exists_cons_of_ne_nil hne
      have hx : x ≠ '<' := fun heq => hhead (by rw [hc, heq]; rfl)
      have hround := h.scanRound_of_ne hc hx
      obtain ⟨found, hnext, hfound⟩ := ih (fuel + 1) (h.of_reads hread) (by omega)
      rw [look_of_ne hhead] at hfound
      exact ⟨found, hnext.of_reads hread, (Bytes.repeatFor_congr hround _).trans hfound⟩
  | block c b hlook ih =>
    intro fuel h hfuel
    obtain ⟨fuel, rfl⟩ := h.exists_fuel hfuel
    obtain ⟨s, hs, hread⟩ := exists_reads_look (ne_nil_of_look hlook)
    obtain ⟨hhead, -⟩ := look_eq_some hlook
    have hround : Bytes.scanRound text c.scanner = .ok (.done (some (b, c.look.2.scanner))) := by
      rw [h.scanRound_of_head hhead, h.scanTag hhead, hlook]
    exact ⟨some (b, c.look.2), ⟨rfl, s, hs, hread⟩, Bytes.repeatFor_done hround fuel⟩

/-- Bytes and characters find the same next block. -/
private theorem exists_nextBlock (h : c.Within text) : ∃ found, c.IsNext c.scan found ∧
    Bytes.nextBlock text c.scanner = .ok (found.map fun p => (p.1, p.2.scanner)) :=
  exists_repeatFor_scanRound c _ h (by omega)

/-- Each block that is found is added to the outline. -/
private theorem repeatFor_outlineRound (fuel : Nat) (c : Cursor) (o : Outline) (h : c.Within text)
    (hfuel : text.utf8ByteSize < c.offset + fuel) :
    Bytes.repeatFor (Bytes.outlineRound text) fuel (c.scanner, o) =
      .ok (c.scan.foldlM Outline.add o) := by
  induction fuel generalizing c o with
  | zero => exact absurd h.offset_le (by omega)
  | succ fuel ih =>
    obtain ⟨found, hnext, hfound⟩ := exists_nextBlock h
    cases found with
    | none =>
      have hround : Bytes.outlineRound text (c.scanner, o) = .ok (.done (.ok o)) := by
        rw [Bytes.outlineRound, hfound]
        rfl
      rw [Bytes.repeatFor_done hround, show c.scan = [] from hnext]
      rfl
    | some found =>
      obtain ⟨b, d⟩ := found
      obtain ⟨hscan, s, hs, hread⟩ := hnext
      have hlt := hread.offset_lt_of_ne_nil hs
      rw [hscan, List.foldlM_cons]
      cases hadd : o.add b with
      | error e =>
        have hround : Bytes.outlineRound text (c.scanner, o) = .ok (.done (.error e)) := by
          rw [Bytes.outlineRound, hfound]
          dsimp only [Option.map_some, Bytes.ok_bind]
          rw [hadd]
          rfl
        rw [Bytes.repeatFor_done hround]
        rfl
      | ok o' =>
        have hround : Bytes.outlineRound text (c.scanner, o) = .ok (.again (d.scanner, o')) := by
          rw [Bytes.outlineRound, hfound]
          dsimp only [Option.map_some, Bytes.ok_bind]
          rw [hadd]
          rfl
        rw [Bytes.repeatFor_again hround, ih d o' (h.of_reads hread) (by omega)]
        rfl

end Cursor

/-- **Splitting by bytes has no fault**: for every document each byte that is read is there, each
slice begins and ends between characters, each loop ends, and the outline is the one that is read by
characters. -/
theorem outline_eq_ok (text : String) : Bytes.outline text = .ok (Outline.ofText text) :=
  Cursor.repeatFor_outlineRound _ _ _ (Cursor.within_ofText text) (by
    rw [Cursor.ofText]
    omega)

end ComponentInsight.Document

import ComponentInsight.Proofs.Document.Scanning
import Mathlib.Data.String.Basic

/-!
# Where blocks stand

The offsets and lines of a block are those of the document. `Block.LiesIn` says so for one block:
the document is cut in front of the block, behind its opening tag, behind its content and behind its
closing tag, and offsets and lines are what is in front of the cuts. It holds for all blocks of a
document (`liesIn_scan`), and each ends before the next one begins.

The scanner counts offsets and lines as it goes, in each of its moves. The argument is one
invariant: what lies between the beginning of the document and the cursor is read (`Cursor.Reads`),
be it blocks, comments or tags at which no block begins.
-/

namespace ComponentInsight.Document

/-- A block as a piece of a document: what stands in front of it, its opening tag, its closing tag
and what stands behind it. Offsets count bytes, lines count from 1. -/
structure Block.StandsIn (b : Block) (text : String) (before opening closing after : List Char) :
    Prop where
  text_eq : text.toList =
    before ++ (opening ++ (b.content.text.toList ++ (closing ++ after)))
  tags : b.Tags opening closing
  start : b.start = byteLength before
  contentStart : b.content.start = byteLength (before ++ opening)
  stop : b.stop = byteLength (before ++ (opening ++ (b.content.text.toList ++ closing)))
  startLine : b.startLine = 1 + before.count '\n'
  endLine : b.endLine =
    1 + (before ++ (opening ++ (b.content.text.toList ++ closing))).count '\n'

/-- The location of a block is true of the document. -/
structure Block.LiesIn (b : Block) (text : String) : Prop where
  start_le : b.content.start ≤ b.content.stop
  stop_le : b.content.stop ≤ text.utf8ByteSize
  content : String.Pos.Raw.extract text ⟨b.content.start⟩ ⟨b.content.stop⟩ = b.content.text
  /-- Only a template holds closing tags of its own, in any letter case. -/
  free : b.kind ≠ "template" → ¬ closingTag b.kind.toList <:+: folded b.content.text.toList
  pieces : ∃ before opening closing after, b.StandsIn text before opening closing after

private theorem utf8Len_eq_byteLength (cs : List Char) : String.utf8Len cs = byteLength cs := by
  induction cs with
  | nil => rfl
  | cons c cs ih => rw [String.utf8Len, ih, byteLength, Nat.add_comm]

/-- The piece of a text between two offsets. -/
theorem extract_eq {text : String} {s t u : List Char} (h : text.toList = s ++ (t ++ u)) :
    String.Pos.Raw.extract text ⟨byteLength s⟩ ⟨byteLength s + byteLength t⟩ =
      String.ofList t := by
  have := String.extract_of_valid s t u
  rwa [utf8Len_eq_byteLength, utf8Len_eq_byteLength, List.append_assoc, ← h,
    String.ofList_toList] at this

/-- A block found where the scanner has come to lies in the document. -/
private theorem Block.Spans.standsIn {text : String} {b : Block} {c rest : Cursor}
    {before opening closing : List Char} (h : b.Spans c rest opening closing)
    (hc : (Cursor.ofText text).Reads before c) :
    b.StandsIn text before opening closing rest.rest := by
  have hrest := hc.trans h.reads
  refine ⟨?_, h.tags, ?_, ?_, ?_, ?_, ?_⟩
  · simpa [Cursor.ofText] using hrest.rest
  · rw [h.start, hc.offset, Cursor.ofText, Nat.zero_add]
  · rw [h.contentStart, hc.offset, Cursor.ofText, Nat.zero_add, byteLength_append]
  · rw [h.stop, hrest.offset, Cursor.ofText, Nat.zero_add]
  · rw [h.startLine, hc.line, Cursor.ofText]
  · rw [h.endLine, hrest.line, Cursor.ofText]

/-- A block that stands in a text lies in it, by offsets and by lines. -/
private theorem Block.StandsIn.liesIn {text : String} {b : Block}
    {before opening closing after : List Char} (h : b.StandsIn text before opening closing after)
    (hfree : b.kind ≠ "template" → ¬ closingTag b.kind.toList <:+: folded b.content.text.toList) :
    b.LiesIn text where
  start_le := Nat.le_add_right _ _
  stop_le := by
    rw [← byteLength_toList, h.text_eq, Slice.stop, h.contentStart]
    simp only [byteLength_append]
    omega
  content := by
    have := extract_eq (s := before ++ opening) (t := b.content.text.toList)
      (u := closing ++ after) (h.text_eq.trans (List.append_assoc _ _ _).symm)
    rwa [← h.contentStart, String.ofList_toList] at this
  free := hfree
  pieces := ⟨before, opening, closing, after, h⟩

/-- The content of a block lies between its bounds. -/
theorem Block.LiesIn.content_le {text : String} {b : Block} (h : b.LiesIn text) :
    b.start ≤ b.content.start ∧ b.content.start ≤ b.stop := by
  obtain ⟨before, opening, closing, after, hpieces⟩ := h.pieces
  rw [hpieces.start, hpieces.contentStart, hpieces.stop]
  simp only [byteLength_append]
  omega

/-- All blocks from a position on lie in the document, behind the position and one after another. -/
theorem liesIn_scan {text : String} (c : Cursor) : ∀ before, (Cursor.ofText text).Reads before c →
    (∀ b ∈ c.scan, b.LiesIn text ∧ c.offset ≤ b.start) ∧
      c.scan.Pairwise (fun a b => a.stop ≤ b.start) := by
  induction c using Cursor.scan_induction with
  | nil c _ => simp
  | pass c hne _ ih =>
    intro before hc
    obtain ⟨s, -, hs⟩ := Cursor.exists_reads_look hne
    obtain ⟨hblocks, hpairwise⟩ := ih _ (hc.trans hs)
    refine ⟨fun b hb => ⟨(hblocks b hb).1, ?_⟩, hpairwise⟩
    exact Nat.le_trans (by rw [hs.offset]; exact Nat.le_add_right _ _) (hblocks b hb).2
  | block c b hlook ih =>
    intro before hc
    obtain ⟨hlt, hblock⟩ := Cursor.look_eq_some hlook
    obtain ⟨opening, closing, hspans⟩ := block?_spans hblock hlt
    obtain ⟨hblocks, hpairwise⟩ := ih _ (hc.trans hspans.reads)
    have hlies : b.LiesIn text := (hspans.standsIn hc).liesIn (not_infix_of_block? hblock)
    refine ⟨List.forall_mem_cons.mpr ⟨⟨hlies, hspans.start.ge⟩, fun a ha => ⟨(hblocks a ha).1, ?_⟩⟩,
      List.pairwise_cons.mpr ⟨fun a ha => ?_, hpairwise⟩⟩
    · refine Nat.le_trans ?_ (hblocks a ha).2
      rw [hspans.reads.offset]
      exact Nat.le_add_right _ _
    · rw [hspans.stop]
      exact (hblocks a ha).2

/-- A block that should not be there is reported where it stands. -/
private theorem Outline.location?_of_add {o : Outline} {b : Block} {e : SplitError}
    (h : o.add b = .error e) : e.location? = some b.location := by
  unfold Outline.add at h
  split at h
  · split at h
    · cases h
      rfl
    · cases h
  · split at h
    · split at h
      · cases h
        rfl
      · cases h
    · split at h
      · cases h
        rfl
      · cases h
  · cases h
  · cases h

private theorem Outline.exists_location_of_foldlM {o : Outline} {bs : List Block} {e : SplitError}
    (h : bs.foldlM Outline.add o = .error e) : ∃ b ∈ bs, e.location? = some b.location := by
  induction bs generalizing o with
  | nil => cases h
  | cons b bs ih =>
    rw [List.foldlM_cons] at h
    cases hadd : o.add b with
    | error e' =>
      rw [hadd] at h
      cases h
      exact ⟨b, List.mem_cons_self, Outline.location?_of_add hadd⟩
    | ok o' =>
      rw [hadd] at h
      obtain ⟨a, ha, hlocation⟩ := ih h
      exact ⟨a, List.mem_cons_of_mem _ ha, hlocation⟩

/-- **Block locations are true.** Offsets, lines and contents of all blocks are those of the
document, blocks end before the next one begins, and an error is located at one of them. -/
theorem liesIn_blocks (text : String) :
    (∀ b ∈ blocks text, b.LiesIn text) ∧
      (blocks text).Pairwise (fun a b => a.stop ≤ b.start) ∧
      ∀ e, Outline.ofText text = .error e → ∃ b ∈ blocks text, e.location? = some b.location := by
  obtain ⟨hblocks, hpairwise⟩ := liesIn_scan (Cursor.ofText text) [] (.refl _)
  exact ⟨fun b hb => (hblocks b hb).1, hpairwise,
    fun e he => Outline.exists_location_of_foldlM he⟩

/-- A document with a comment, a tag that does not end, a block that closes itself and two
scripts. -/
def repeatedScript : String :=
  "<!-- <b> -->é<p>\n<style/>\n<script>\n1 // é</script>\n<SCRIPT>\n</Script>"

/-- A document of several lines with a second script: both are blocks, and the error names the
second. -/
theorem liesIn_blocks_repeatedScript :
    (∃ b ∈ blocks repeatedScript, b.location = ⟨35, 43, 3, 4⟩ ∧ b.LiesIn repeatedScript) ∧
      Outline.ofText repeatedScript = .error (.duplicateScript ⟨61, 62, 5, 6⟩) ∧
      ∃ b ∈ blocks repeatedScript, b.location = ⟨61, 62, 5, 6⟩ := by
  have hfound : ∃ b ∈ blocks repeatedScript, b.location = ⟨35, 43, 3, 4⟩ := by decide +kernel
  have herror : Outline.ofText repeatedScript = .error (.duplicateScript ⟨61, 62, 5, 6⟩) := by
    decide +kernel
  obtain ⟨hblocks, -, hlocation⟩ := liesIn_blocks repeatedScript
  obtain ⟨b, hb, hb'⟩ := hfound
  obtain ⟨a, ha, ha'⟩ := hlocation _ herror
  exact ⟨⟨b, hb, hb', hblocks b hb⟩, herror, a, ha, (Option.some.inj ha').symm⟩

end ComponentInsight.Document

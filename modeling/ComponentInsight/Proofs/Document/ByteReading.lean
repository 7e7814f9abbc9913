import ComponentInsight.Proofs.Document.Encoding
import ComponentInsight.Proofs.Document.Locations

/-!
# Reading by bytes

No byte that is read is missing and no character is cut: wherever the splitter reads the bytes of a
document, it stands between two characters of it (`Cursor.Within`). At such a position each byte
function does what the function on characters does, and has no fault. Runs of bytes are passed byte
by byte, through the middle of characters, but they end between characters (`Cursor.Within.skip`).

`slice_eq_ok_iff` tells what it means that a slice has no fault.
-/

namespace ComponentInsight.Document

namespace Bytes

@[simp] theorem ok_bind {α β : Type} (a : α) (f : α → Checked β) :
    ((.ok a : Checked α) >>= f) = f a := rfl

section Loops

variable {σ α : Type} {round : σ → Checked (Round σ α)} {s s' : σ} {a : α}

/-- A round that is to be repeated takes a unit of fuel. -/
theorem repeatFor_again (h : round s = .ok (.again s')) (fuel : Nat) :
    repeatFor round (fuel + 1) s = repeatFor round fuel s' := by
  rw [repeatFor, h, ok_bind]

/-- A round that is done ends the repetition. -/
theorem repeatFor_done (h : round s = .ok (.done a)) (fuel : Nat) :
    repeatFor round (fuel + 1) s = .ok a := by
  rw [repeatFor, h, ok_bind]
  rfl

theorem repeatFor_congr (h : round s = round s') (fuel : Nat) :
    repeatFor round fuel s = repeatFor round fuel s' := by
  cases fuel with
  | zero => rfl
  | succ fuel => rw [repeatFor, repeatFor, h]

end Loops

theorem length_ofText (text : String) : (ofText text).length = text.utf8ByteSize := by
  rw [ofText_eq_utf8, length_utf8, byteLength_toList]

/-- A byte is read if and only if it is there. -/
theorem byteAt_eq_ok_iff {text : String} {i : Nat} {b : UInt8} :
    byteAt text i = .ok b ↔ (ofText text)[i]? = some b := by
  unfold byteAt
  split
  · next b' h => rw [h, Except.ok.injEq, Option.some.injEq]
  · next h => simp [h]

/-- Within a text, a range of bytes is what its bounds say. -/
theorem range_eq {text : String} {i j : Nat} (hij : i ≤ j) (hj : j ≤ text.utf8ByteSize) :
    range text i j = .ok (((ofText text).drop i).take (j - i)) := if_pos ⟨hij, hj⟩

/-- A position is between characters if and only if the text can be cut there. -/
private theorem isValid_iff {text : String} {i : Nat} : String.Pos.Raw.isValid text ⟨i⟩ = true ↔
    ∃ front back, text.toList = front ++ back ∧ i = byteLength front := by
  rw [String.Pos.Raw.isValid_eq_true_iff, String.Pos.Raw.isValid_iff_exists_append]
  constructor
  · rintro ⟨front, back, rfl, hi⟩
    refine ⟨front.toList, back.toList, String.toList_append, ?_⟩
    rw [byteLength_toList]
    exact congrArg String.Pos.Raw.byteIdx hi
  · rintro ⟨front, back, htext, rfl⟩
    refine ⟨String.ofList front, String.ofList back, ?_, ?_⟩
    · rw [← String.ofList_append, ← htext, String.ofList_toList]
    · rw [← utf8ByteSize_ofList]
      rfl

/-- A slice is cut out if and only if it is a piece of the text and the positions are those between
the characters where it begins and ends. -/
theorem slice_eq_ok_iff {text : String} {i j : Nat} {s : Slice} : slice text i j = .ok s ↔
    ∃ front back, text.toList = front ++ (s.text.toList ++ back) ∧ s.start = i ∧
      i = byteLength front ∧ j = byteLength front + byteLength s.text.toList := by
  constructor
  · intro h
    unfold slice at h
    split at h
    · next hle =>
      split at h
      · next hvalid =>
        obtain ⟨hi, hj⟩ := Bool.and_eq_true_iff.mp hvalid
        obtain ⟨front, more, htext, rfl⟩ := isValid_iff.mp hi
        obtain ⟨front', back, htext', rfl⟩ := isValid_iff.mp hj
        obtain ⟨t, rfl, rfl⟩ : ∃ t, front' = front ++ t ∧ more = t ++ back := by
          rcases List.append_eq_append_iff.mp (htext.symm.trans htext') with h | ⟨t, rfl, rfl⟩
          · exact h
          · rw [byteLength_append] at hle
            obtain rfl : t = [] := byteLength_eq_zero (by omega)
            exact ⟨[], by simp, rfl⟩
        have hextract := extract_eq htext
        rw [← byteLength_append] at hextract
        obtain rfl := Except.ok.inj h
        refine ⟨front, back, ?_, rfl, rfl, ?_⟩
        · rw [hextract, String.toList_ofList, htext]
        · rw [hextract, String.toList_ofList, byteLength_append]
      · cases h
    · cases h
  · rintro ⟨front, back, htext, hstart, rfl, rfl⟩
    have hsize : text.utf8ByteSize =
        byteLength front + (byteLength s.text.toList + byteLength back) := by
      rw [← byteLength_toList, htext, byteLength_append, byteLength_append]
    have hfront := isValid_iff.mpr ⟨front, _, htext, rfl⟩
    have hback := isValid_iff.mpr ⟨front ++ s.text.toList, back,
      htext.trans (List.append_assoc _ _ _).symm, (byteLength_append _ _).symm⟩
    rw [slice, if_pos ⟨Nat.le_add_right _ _, by omega⟩, hfront, hback, extract_eq htext,
      String.ofList_toList, ← hstart]
    rfl

example : slice "é" 0 1 = .error .insideCharacter := by decide

/-- Whether a byte satisfies a test is told everywhere. -/
private theorem holds_eq (text : String) (p : UInt8 → Bool) (i : Nat) :
    holds text p i = .ok (((ofText text).drop i).head?.any p) := by
  rw [holds, List.head?_drop]
  split
  · next h =>
    rw [← length_ofText] at h
    have hb : (ofText text)[i]? = some (ofText text)[i] := List.getElem?_eq_getElem h
    rw [byteAt_eq_ok_iff.mpr hb, hb]
    rfl
  · next h =>
    rw [← length_ofText] at h
    rw [List.getElem?_eq_none (Nat.le_of_not_lt h)]
    rfl

private theorem skipRound_eq (text : String) (p : UInt8 → Bool) (i : Nat) : skipRound text p i =
    .ok (if ((ofText text).drop i).head?.any p then .again (i + 1) else .done i) := by
  rw [skipRound, holds_eq, ok_bind]
  split <;> rfl

/-- A run of bytes is passed byte by byte. -/
private theorem repeatFor_skipRound {text : String} {p : UInt8 → Bool} {i fuel : Nat}
    (hi : i ≤ text.utf8ByteSize) (hfuel : text.utf8ByteSize < i + fuel) :
    repeatFor (skipRound text p) fuel i =
      .ok (i + (((ofText text).drop i).takeWhile p).length) := by
  induction fuel generalizing i with
  | zero => omega
  | succ fuel ih =>
    have hround := skipRound_eq text p i
    cases hdrop : (ofText text).drop i with
    | nil =>
      rw [hdrop] at hround
      exact repeatFor_done hround fuel
    | cons b more =>
      have hlt : i < text.utf8ByteSize := by
        have hlength := congrArg List.length hdrop
        rw [List.length_drop, length_ofText, List.length_cons] at hlength
        omega
      have hmore : (ofText text).drop (i + 1) = more := by
        rw [← List.drop_drop, hdrop]
        rfl
      rw [hdrop, List.head?_cons, Option.any_some] at hround
      cases hb : p b with
      | true =>
        rw [hb] at hround
        rw [repeatFor_again hround, ih hlt (by omega), hmore, List.takeWhile_cons_of_pos hb,
          List.length_cons]
        congr 1
        omega
      | false =>
        rw [hb] at hround
        rw [repeatFor_done hround, List.takeWhile_cons_of_neg (by simp [hb])]
        rfl

/-- Skipping bytes skips the longest front that passes the test. -/
private theorem skip_eq {text : String} {p : UInt8 → Bool} {i : Nat} (h : i ≤ text.utf8ByteSize) :
    skip text p i = .ok (i + (((ofText text).drop i).takeWhile p).length) :=
  repeatFor_skipRound h (by omega)

end Bytes

/-! ### Positions between characters -/

/-- A cursor is a position of a document: some characters lead to it from the beginning. -/
def Cursor.Within (c : Cursor) (text : String) : Prop :=
  ∃ front, (Cursor.ofText text).Reads front c

namespace Cursor

variable {text : String} {c d : Cursor} {s more : List Char} {x : Char}

/-- A cursor at the beginning of a text is within it. -/
theorem within_ofText (text : String) : (Cursor.ofText text).Within text := ⟨[], .refl _⟩

namespace Within

variable (h : c.Within text)

include h

/-- Reading stays within the text. -/
theorem of_reads (hd : c.Reads s d) : d.Within text :=
  h.imp' (· ++ s) fun _ hc => hc.trans hd

theorem of_advance (n : Nat) : (c.advance n).Within text := h.of_reads (reads_advance n c)

theorem of_skip (q : Char → Bool) : (c.skip q).Within text := h.of_reads (reads_skip q c)

/-- From the offset of a cursor on, the bytes are those of the characters ahead. -/
theorem drop_ofText : (Bytes.ofText text).drop c.offset = utf8 c.rest := by
  obtain ⟨front, hc⟩ := h
  have htext : text.toList = front ++ c.rest := hc.rest
  have hoffset : c.offset = (utf8 front).length := by
    rw [hc.offset, length_utf8, Cursor.ofText, Nat.zero_add]
  rw [ofText_eq_utf8, htext, utf8_append, hoffset, List.drop_left]

/-- What was read and what is ahead make up the text. -/
theorem offset_add : c.offset + byteLength c.rest = text.utf8ByteSize := by
  obtain ⟨front, hc⟩ := h
  have htext : text.toList = front ++ c.rest := hc.rest
  rw [← byteLength_toList, htext, byteLength_append, hc.offset, Cursor.ofText, Nat.zero_add]

theorem offset_le : c.offset ≤ text.utf8ByteSize := by
  rw [← h.offset_add]
  exact Nat.le_add_right _ _

/-- The end of the text is reached exactly when nothing is ahead. -/
theorem offset_lt_iff : c.offset < text.utf8ByteSize ↔ c.rest ≠ [] := by
  rw [← h.offset_add, Nat.lt_add_right_iff_pos, Nat.pos_iff_ne_zero, not_iff_not]
  exact ⟨byteLength_eq_zero, fun hnil => by rw [hnil]; rfl⟩

/-- Before the end of the text, there is fuel left. -/
theorem exists_fuel {fuel : Nat} (hfuel : text.utf8ByteSize < c.offset + fuel) :
    ∃ n, fuel = n + 1 := by
  have := h.offset_le
  exact ⟨fuel - 1, by omega⟩

theorem tail : Bytes.tail text c.offset = .ok (utf8 c.rest) := by
  rw [Bytes.tail, Bytes.range_eq h.offset_le le_rfl, h.drop_ofText, List.take_of_length_le]
  rw [length_utf8, ← h.offset_add, Nat.add_sub_cancel_left]

/-- The range between two cursors has the bytes of what is read between them. -/
theorem range (hd : c.Reads s d) : Bytes.range text c.offset d.offset = .ok (utf8 s) := by
  have hle : c.offset ≤ d.offset := by
    rw [hd.offset]
    exact Nat.le_add_right _ _
  rw [Bytes.range_eq hle (h.of_reads hd).offset_le, h.drop_ofText, hd.rest, utf8_append, hd.offset,
    Nat.add_sub_cancel_left, ← length_utf8, List.take_left]

/-- The slice between two cursors has the characters of what is read between them, and no fault
occurs. -/
theorem slice (hd : c.Reads s d) :
    Bytes.slice text c.offset d.offset = .ok ⟨String.ofList s, c.offset⟩ := by
  obtain ⟨front, hc⟩ := h
  have hoffset : c.offset = byteLength front := by rw [hc.offset, Cursor.ofText, Nat.zero_add]
  refine Bytes.slice_eq_ok_iff.mpr ⟨front, d.rest, ?_, rfl, hoffset, ?_⟩
  · rw [String.toList_ofList, ← hd.rest]
    exact hc.rest
  · rw [String.toList_ofList, hd.offset, hoffset]

/-- A byte of the character behind the cursor is read. -/
private theorem byteAt (hc : c.rest = x :: more) :
    ∃ b ∈ String.utf8EncodeChar x, Bytes.byteAt text c.offset = .ok b := by
  obtain ⟨b, bs, hb⟩ := exists_utf8EncodeChar_eq_cons x
  refine ⟨b, by simp [hb], Bytes.byteAt_eq_ok_iff.mpr ?_⟩
  rw [← List.head?_drop, h.drop_ofText, hc, utf8_cons, hb]
  rfl

private theorem byteAt_ascii (hc : c.rest.head? = some x) (hx : x.toNat < 128) :
    Bytes.byteAt text c.offset = .ok x.toUInt8 := by
  obtain ⟨more, hmore⟩ := List.head?_eq_some_iff.mp hc
  obtain ⟨b, hb, hbyte⟩ := h.byteAt hmore
  rw [utf8EncodeChar_eq_singleton hx, List.mem_singleton] at hb
  rw [hbyte, hb]

/-- A byte of the character in front of the cursor is read. -/
theorem byteAt_before (hd : c.Reads (s ++ [x]) d) : ∃ b ∈ String.utf8EncodeChar x,
    Bytes.before d.offset 1 = .ok (d.offset - 1) ∧
      Bytes.byteAt text (d.offset - 1) = .ok b := by
  obtain ⟨front, b, hb⟩ : ∃ front b, String.utf8EncodeChar x = front ++ [b] :=
    (List.eq_nil_or_concat' _).resolve_left String.utf8EncodeChar_ne_nil
  have hsize : byteLength [x] = front.length + 1 := by
    rw [← length_utf8, utf8_cons, hb]
    simp
  have hoffset := hd.offset
  rw [byteLength_append, hsize] at hoffset
  refine ⟨b, by simp [hb], if_pos (by omega), Bytes.byteAt_eq_ok_iff.mpr ?_⟩
  have hindex : d.offset - 1 = c.offset + (utf8 s ++ front).length := by
    rw [List.length_append, length_utf8]
    omega
  rw [hindex, ← List.head?_drop, ← List.drop_drop, h.drop_ofText, hd.rest, utf8_append, utf8_append,
    utf8_cons, hb]
  simp

variable {p : UInt8 → Bool} {q : Char → Bool}

/-- A test of the byte at a cursor is the test of the character there, for tests that agree. -/
theorem holds (hp : Agrees p q) :
    Bytes.holds text p c.offset = .ok (c.rest.head?.any q) := by
  rw [Bytes.holds_eq, h.drop_ofText]
  cases c.rest with
  | nil => rfl
  | cons x more =>
    obtain ⟨b, bs, hb⟩ := exists_utf8EncodeChar_eq_cons x
    rw [utf8_cons, hb, List.cons_append, List.head?_cons, List.head?_cons, Option.any_some,
      Option.any_some, hp x b (by simp [hb])]

theorem holds_pos (hp : Agrees p q) (hc : c.rest.head? = some x) (hx : q x = true) :
    Bytes.holds text p c.offset = .ok true := by
  rw [h.holds hp, hc, Option.any_some, hx]

/-- A test fails at the end of the text and where the character fails it. -/
private theorem holds_neg (hp : Agrees p q) (hc : ∀ x ∈ c.rest.head?, q x = false) :
    Bytes.holds text p c.offset = .ok false := by
  rw [h.holds hp]
  cases hhead : c.rest.head? with
  | none => rfl
  | some x => rw [Option.any_some, hc x hhead]

/-- A run that is told by characters ends between characters. -/
theorem skip (hp : Agrees p q) : Bytes.skip text p c.offset = .ok (c.skip q).offset := by
  rw [Bytes.skip_eq h.offset_le, h.drop_ofText, takeWhile_utf8 hp, length_utf8,
    (reads_skip q c).offset]

/-- So does a slice of a run. -/
theorem slice_run (q : Char → Bool) :
    Bytes.slice text c.offset (c.skip q).offset = .ok (c.slice (c.run q)) := by
  rw [h.slice (reads_skip q c), Cursor.slice, take_run]

/-- An ASCII character is found at its byte. -/
theorem next {a : Char} (ha : a.toNat < 128) : Bytes.next text a.toUInt8 c.offset =
    .ok (if a ∈ c.rest then some (c.skip (· != a)).offset else none) := by
  rw [Bytes.next, h.tail, Bytes.ok_bind, idxOf?_utf8 ha, (reads_skip _ c).offset]
  split <;> rfl

/-- One byte further, at most at the end, is behind an ASCII character. -/
private theorem offset_advance_one (hascii : ∀ x ∈ c.rest.head?, x.toNat < 128) :
    (c.advance 1).offset = min (c.offset + 1) text.utf8ByteSize := by
  have hlt := h.offset_lt_iff
  cases hc : c.rest with
  | nil =>
    have hoffset := h.offset_add
    rw [hc, byteLength] at hoffset
    have hstep : c.step = c := by rw [step, hc]
    rw [advance, advance, hstep]
    omega
  | cons x more =>
    have hsize : byteLength [x] = 1 := by
      rw [← length_utf8, utf8_cons, utf8EncodeChar_eq_singleton (hascii x (by rw [hc]; rfl))]
      rfl
    have hread : c.Reads [x] (c.advance 1) := reads_advance_append (t := more) hc
    rw [hread.offset, hsize]
    rw [hc] at hlt
    have := hlt.mpr (List.cons_ne_nil x more)
    omega

theorem offset_advance_eq (hc : c.rest.head? = some x) (hx : x.toNat < 128) :
    (c.advance 1).offset = c.offset + 1 := by
  have hlt := h.offset_lt_iff.mpr fun hnil => by simp [hnil] at hc
  rw [h.offset_advance_one (by simpa [hc] using hx)]
  omega

/-! ### Opening tags -/

/-- A quote is closed by the next one of its kind, or at the end. -/
private theorem next_getD {a : Char} (ha : a.toNat < 128) : ∃ stop,
    Bytes.next text a.toUInt8 c.offset = .ok stop ∧
      stop.getD text.utf8ByteSize = (c.skip (· != a)).offset := by
  refine ⟨_, h.next ha, ?_⟩
  by_cases hmem : a ∈ c.rest
  · rw [if_pos hmem, Option.getD_some]
  · have hall : c.rest.takeWhile (· != a) = c.rest := by
      rw [List.takeWhile_eq_self_iff]
      intro x hx
      simpa using fun heq : x = a => hmem (heq ▸ hx)
    rw [if_neg hmem, Option.getD_none, (reads_skip _ c).offset, hall, h.offset_add]

private theorem offset_advance_run {a : Char} (ha : a.toNat < 128) :
    (c.advance (c.run (· != a) + 1)).offset =
      min ((c.skip (· != a)).offset + 1) text.utf8ByteSize := by
  rw [advance_add, ← Cursor.skip, (h.of_skip _).offset_advance_one]
  intro x hx
  obtain rfl : x = a := by simpa using not_of_head?_skip hx
  exact ha

/-- The value of an attribute, wherever its quote is closed, or not at all. -/
private theorem attributeValue : Bytes.attributeValue text c.offset =
    .ok ((attributeValue c).1, (attributeValue c).2.offset) := by
  have hinner := h.of_skip isInnerSpace
  have hsign : Agrees (· == '='.toUInt8) (· == '=') := .beq (by decide)
  rw [Bytes.attributeValue, h.skip agrees_isBlank, Bytes.ok_bind]
  by_cases heq : (c.skip isInnerSpace).rest.head? = some '='
  · have hnext := hinner.of_advance 1
    have hvalue := hnext.of_skip isInnerSpace
    rw [hinner.holds_pos hsign heq rfl, Bytes.ok_bind, if_pos rfl,
      ← hinner.offset_advance_eq heq (by decide), hnext.skip agrees_isBlank, Bytes.ok_bind]
    by_cases hquote : ∃ q ∈ (((c.skip isInnerSpace).advance 1).skip isInnerSpace).rest.head?,
        q = '"' ∨ q = '\''
    · obtain ⟨q, hhead, hq⟩ := hquote
      have hascii : q.toNat < 128 := by rcases hq with rfl | rfl <;> decide
      rw [hvalue.holds_pos agrees_isQuote hhead (by simpa using hq),
        attributeValue_of_quote heq hhead hq, Bytes.ok_bind, if_pos rfl]
      have hbody := hvalue.of_advance 1
      obtain ⟨stop, hquoteEnd, hget⟩ := hbody.next_getD hascii
      rw [hvalue.byteAt_ascii hhead hascii, Bytes.ok_bind, ← hvalue.offset_advance_eq hhead hascii,
        hquoteEnd, Bytes.ok_bind, hget]
      dsimp only
      rw [hbody.slice_run, Bytes.ok_bind, hbody.offset_advance_run hascii]
      rfl
    · simp only [not_exists, not_and] at hquote
      rw [hvalue.holds_neg agrees_isQuote fun q hq => by simpa using hquote q hq,
        attributeValue_of_bare heq hquote, Bytes.ok_bind, if_neg Bool.false_ne_true,
        hvalue.skip agrees_isBareByte, Bytes.ok_bind, hvalue.slice_run]
      rfl
  · rw [hinner.holds_neg hsign, attributeValue_of_ne heq, Bytes.ok_bind, if_neg Bool.false_ne_true]
    · rfl
    · rintro x hx
      refine beq_false_of_ne ?_
      rintro rfl
      exact heq hx

end Within

end Cursor

/-- The position of the `>` an opening tag ends with, or the end. -/
def TagEnd.position (text : String) : TagEnd → Nat
  | .opened body => body.offset - 1
  | .closed rest => rest.offset - 1
  | .missing => text.utf8ByteSize

namespace Cursor.Within

variable {text : String} {c d : Cursor} {x : Char}

section AttributeRound

variable (found : List Attribute) (h : c.Within text)

include h

/-- Behind blanks, the tag ends. -/
private theorem attributeRound_end (hend : ∀ x ∈ (c.skip isTagSpace).rest.head?, x = '>') :
    Bytes.attributeRound text (c.offset, found) =
      .ok (.done (found, (c.skip isTagSpace).offset)) := by
  have hgt : Agrees (· != '>'.toUInt8) (· != '>') := .bne (by decide)
  rw [Bytes.attributeRound, h.holds hgt, Bytes.ok_bind]
  cases hany : c.rest.head?.any (· != '>') with
  | false =>
    -- then there are no blanks
    have hrun : c.run isTagSpace = 0 := by
      rw [run, List.length_eq_zero_iff]
      cases hc : c.rest with
      | nil => rfl
      | cons y more =>
        obtain rfl : y = '>' := by simpa [hc] using hany
        rfl
    rw [skip_of_run_eq_zero hrun]
    rfl
  | true =>
    rw [if_pos rfl, h.skip agrees_isSpace, Bytes.ok_bind, (h.of_skip _).holds_neg hgt,
      Bytes.ok_bind]
    · rfl
    · intro x hx
      simpa using hend x hx

/-- Behind blanks, there is more of the tag: a byte of the next character is looked at. -/
private theorem holds_of_head (hx : (c.skip isTagSpace).rest.head? = some x) (hgt : x ≠ '>') :
    Bytes.holds text (· != '>'.toUInt8) c.offset = .ok true := by
  cases hc : c.rest with
  | nil => simp [hc] at hx
  | cons y more =>
    refine h.holds_pos (Agrees.bne (by decide)) (x := y) (by rw [hc]; rfl) ?_
    rw [bne_iff_ne]
    rintro rfl
    have hspace : (('>' :: more).dropWhile isTagSpace).head? = some '>' := rfl
    rw [rest_skip, hc, hspace] at hx
    exact hgt (Option.some.inj hx).symm

/-- A slash in front of `>` ends the tag, another one is passed. -/
private theorem attributeRound_slash (hx : (c.skip isTagSpace).rest.head? = some '/') :
    Bytes.attributeRound text (c.offset, found) = .ok
      (if ((c.skip isTagSpace).advance 1).rest.head? = some '>' then
        .done (found, ((c.skip isTagSpace).advance 1).offset)
      else .again (((c.skip isTagSpace).advance 1).offset, found)) := by
  have hinner := h.of_skip isTagSpace
  have hnext := hinner.of_advance 1
  have hgt : Agrees (· == '>'.toUInt8) (· == '>') := .beq (by decide)
  rw [Bytes.attributeRound, h.holds_of_head hx (by decide), Bytes.ok_bind, if_pos rfl,
    h.skip agrees_isSpace, Bytes.ok_bind, hinner.holds_pos (Agrees.bne (by decide)) hx rfl,
    Bytes.ok_bind, if_pos rfl, hinner.byteAt_ascii hx (by decide), Bytes.ok_bind,
    if_pos (beq_self_eq_true _), ← hinner.offset_advance_eq hx (by decide)]
  by_cases hend : ((c.skip isTagSpace).advance 1).rest.head? = some '>'
  · rw [hnext.holds_pos hgt hend rfl, if_pos hend]
    rfl
  · rw [hnext.holds_neg hgt fun y hy => beq_false_of_ne fun heq => hend (heq ▸ hy), if_neg hend]
    rfl

/-- Anything else begins an attribute. -/
private theorem attributeRound_named (hx : (c.skip isTagSpace).rest.head? = some x) (hgt : x ≠ '>')
    (hslash : x ≠ '/') : Bytes.attributeRound text (c.offset, found) =
      let inner := c.skip isTagSpace
      let name := inner.slice (inner.run isAttributeNameChar)
      let value := Document.attributeValue (inner.skip isAttributeNameChar)
      .ok (.again (value.2.offset,
        if name.text.isEmpty then found else found ++ [⟨name, value.1⟩])) := by
  have hinner := h.of_skip isTagSpace
  have hname := hinner.of_skip isAttributeNameChar
  obtain ⟨more, hmore⟩ := List.head?_eq_some_iff.mp hx
  obtain ⟨b, hb, hbyte⟩ := hinner.byteAt hmore
  have hbslash : (b == '/'.toUInt8) = (x == '/') := Agrees.beq (by decide) x b hb
  rw [Bytes.attributeRound, h.holds_of_head hx hgt, Bytes.ok_bind, if_pos rfl,
    h.skip agrees_isSpace, Bytes.ok_bind,
    hinner.holds_pos (Agrees.bne (by decide)) hx (by simpa using hgt), Bytes.ok_bind,
    if_pos rfl, hbyte, Bytes.ok_bind, hbslash, beq_false_of_ne hslash, if_neg Bool.false_ne_true,
    hinner.skip agrees_isNameByte, Bytes.ok_bind, hinner.slice_run, Bytes.ok_bind,
    hname.attributeValue, Bytes.ok_bind]
  rfl

end AttributeRound

/-- The rounds of the loop go on to the end of the opening tag. -/
private theorem repeatFor_attributeRound (c : Cursor) : ∀ fuel found, c.Within text →
    text.utf8ByteSize < c.offset + fuel →
    Bytes.repeatFor (Bytes.attributeRound text) fuel (c.offset, found) =
      .ok (found ++ (Document.attributes c).1, (Document.attributes c).2.position text) := by
  have hskip (c : Cursor) : c.offset ≤ (c.skip isTagSpace).offset := by
    rw [(reads_skip isTagSpace c).offset]
    exact Nat.le_add_right _ _
  induction c using attributes_induction with
  | missing c hc =>
    intro fuel found h hfuel
    obtain ⟨fuel, rfl⟩ := h.exists_fuel hfuel
    have hoffset := (h.of_skip isTagSpace).offset_add
    rw [hc, byteLength, Nat.add_zero] at hoffset
    rw [Bytes.repeatFor_done (h.attributeRound_end found (by rw [hc]; rintro _ ⟨⟩)),
      List.append_nil, hoffset]
    rfl
  | opened c hc =>
    intro fuel found h hfuel
    obtain ⟨fuel, rfl⟩ := h.exists_fuel hfuel
    have hoffset := (h.of_skip isTagSpace).offset_advance_eq hc (by decide)
    have hround := h.attributeRound_end found fun x hx => Option.some.inj (hx.symm.trans hc)
    rw [Bytes.repeatFor_done hround, List.append_nil, TagEnd.position, hoffset, Nat.add_sub_cancel]
  | closed c hc hgt =>
    intro fuel found h hfuel
    obtain ⟨fuel, rfl⟩ := h.exists_fuel hfuel
    have hoffset : ((c.skip isTagSpace).advance 2).offset =
        ((c.skip isTagSpace).advance 1).offset + 1 :=
      ((h.of_skip isTagSpace).of_advance 1).offset_advance_eq hgt (by decide)
    have hround := h.attributeRound_slash found hc
    rw [if_pos hgt] at hround
    rw [Bytes.repeatFor_done hround, List.append_nil, TagEnd.position, hoffset,
      Nat.add_sub_cancel]
  | slash c hc hgt ih =>
    intro fuel found h hfuel
    obtain ⟨fuel, rfl⟩ := h.exists_fuel hfuel
    have hle := hskip c
    have hoffset := (h.of_skip isTagSpace).offset_advance_eq hc (by decide)
    have hround := h.attributeRound_slash found hc
    rw [if_neg hgt] at hround
    rw [Bytes.repeatFor_again hround]
    exact ih fuel found ((h.of_skip isTagSpace).of_advance 1) (by omega)
  | named c x hc hgt hslash inner name value more ih =>
    intro fuel found h hfuel
    obtain ⟨fuel, rfl⟩ := h.exists_fuel hfuel
    obtain ⟨s, hs, hread, -⟩ := attribute_reads hc hgt hslash
    have hlt : inner.offset < value.2.offset := hread.offset_lt_of_ne_nil hs
    have hle : c.offset ≤ inner.offset := hskip c
    rw [Bytes.repeatFor_again (h.attributeRound_named found hc hgt hslash)]
    refine (ih fuel (if name.text.isEmpty then found else found ++ [⟨name, value.1⟩])
      ((h.of_skip isTagSpace).of_reads hread) (by omega)).trans ?_
    cases name.text.isEmpty with
    | true => rfl
    | false => simp

/-- Attributes are read by bytes as they are by characters. -/
theorem attributes (h : c.Within text) : Bytes.attributes text c.offset =
    .ok ((Document.attributes c).1, (Document.attributes c).2.position text) :=
  repeatFor_attributeRound c _ [] h (by omega)

/-- In front of a `>` there is a slash or not. -/
private theorem closesItself_eq {g : Cursor} {s : List Char} (h : d.Within text)
    (hg : d.Reads (s ++ [x]) g) (hgt : g.rest.head? = some '>') :
    Bytes.closesItself text g.offset = .ok (x == '/') := by
  have hlt := (h.of_reads hg).offset_lt_iff.mpr fun hnil => by simp [hnil] at hgt
  obtain ⟨b, hb, hbefore, hbyte⟩ := h.byteAt_before hg
  have hpos : 0 < g.offset := by
    have hsize := x.utf8Size_pos
    rw [hg.offset, byteLength_append, byteLength, byteLength]
    omega
  have hslash : (b == '/'.toUInt8) = (x == '/') := Agrees.beq (by decide) x b hb
  rw [Bytes.closesItself, decide_eq_true hpos, decide_eq_true hlt, Bool.and_self, if_pos rfl,
    hbefore, Bytes.ok_bind, hbyte, Bytes.ok_bind, hslash]
  cases x == '/' with
  | true =>
    rw [if_pos rfl, (h.of_reads hg).byteAt_ascii hgt (by decide), Bytes.ok_bind, beq_self_eq_true]
    rfl
  | false => rfl

theorem closesItself_missing (text : String) :
    Bytes.closesItself text text.utf8ByteSize = .ok false := by
  rw [Bytes.closesItself, decide_eq_false (Nat.lt_irrefl _), Bool.and_false]
  rfl

/-- A tag that opens is not told to close itself, though the byte in front of its `>` may be one
that was read before its attributes. -/
theorem closesItself_opened {front : List Char} {body : Cursor} (h : d.Within text)
    (hd : d.Reads front c) (hfront : NoSlash front) (hne : front ≠ [])
    (hend : (Document.attributes c).2 = .opened body) :
    ∃ (s : List Char) (g : Cursor), d.Reads s g ∧ g.Reads ['>'] body ∧
      Bytes.closesItself text g.offset = .ok false := by
  have hreads := attributes_reads c
  rw [hend] at hreads
  obtain ⟨s, hs, hnoSlash⟩ := hreads
  obtain ⟨g, hg, hgt⟩ := hs.exists_between
  have hread := hd.trans hg
  obtain ⟨s', x, heq⟩ : ∃ s' x, front ++ s = s' ++ [x] :=
    (List.eq_nil_or_concat' _).resolve_left fun hnil => hne (List.append_eq_nil_iff.mp hnil).1
  have hx := hnoSlash front (.inl hfront)
  rw [heq] at hread hx
  have hslash : x ≠ '/' := by simpa [NoSlash] using hx
  refine ⟨_, g, hread, hgt, ?_⟩
  rw [h.closesItself_eq hread (by rw [hgt.rest]; rfl), beq_false_of_ne hslash]

/-- One that closes itself is. -/
theorem closesItself_closed {rest : Cursor} (h : c.Within text)
    (hend : (Document.attributes c).2 = .closed rest) :
    ∃ (s : List Char) (g : Cursor), c.Reads s g ∧ g.Reads ['>'] rest ∧
      Bytes.closesItself text g.offset = .ok true := by
  have hreads := attributes_reads c
  rw [hend] at hreads
  obtain ⟨s, hs⟩ := hreads
  replace hs : c.Reads ((s ++ ['/']) ++ ['>']) rest := by rwa [List.append_assoc]
  obtain ⟨g, hg, hgt⟩ := hs.exists_between
  refine ⟨_, g, hg, hgt, ?_⟩
  rw [h.closesItself_eq hg (by rw [hgt.rest]; rfl), beq_self_eq_true]

end Cursor.Within

end ComponentInsight.Document

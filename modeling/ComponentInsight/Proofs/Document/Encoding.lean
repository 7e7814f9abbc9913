import ComponentInsight.Document.Bytes
import ComponentInsight.Proofs.Document.Reading

/-!
# Bytes of characters

A document is a list of characters and a list of bytes. An ASCII character is one byte, and no byte
of another character looks like one (`toNat_of_mem_utf8EncodeChar`), so what is told by ASCII
characters is told by bytes alike: `Agrees` relates a test of bytes to a test of characters, and
runs (`takeWhile_utf8`), first occurrences (`idxOf?_utf8`, `search_utf8`) and comparisons in any
letter case (`startsFolded_utf8`) are the same on both sides.
-/

namespace ComponentInsight.Document

/-- The bytes of some characters. -/
def utf8 (cs : List Char) : List UInt8 := cs.flatMap String.utf8EncodeChar

@[simp] theorem utf8_nil : utf8 [] = [] := rfl

@[simp] theorem utf8_cons (c : Char) (cs : List Char) :
    utf8 (c :: cs) = String.utf8EncodeChar c ++ utf8 cs := rfl

@[simp] theorem utf8_append (cs ds : List Char) : utf8 (cs ++ ds) = utf8 cs ++ utf8 ds :=
  List.flatMap_append

theorem length_utf8 (cs : List Char) : (utf8 cs).length = byteLength cs := by
  induction cs with
  | nil => rfl
  | cons c cs ih => rw [utf8_cons, List.length_append, String.length_utf8EncodeChar, ih, byteLength]

/-- The bytes of a text are the encodings of its characters. -/
theorem ofText_eq_utf8 (text : String) : Bytes.ofText text = utf8 text.toList := by
  rw [Bytes.ofText, String.toUTF8, ← String.utf8Encode_toList, List.utf8Encode]
  simp [utf8]

/-- A byte of an ASCII character is its number, all other bytes are greater. -/
theorem toNat_of_mem_utf8EncodeChar {c : Char} {b : UInt8} (h : b ∈ String.utf8EncodeChar c) :
    (c.toNat < 128 ∧ b.toNat = c.toNat) ∨ (128 ≤ c.toNat ∧ 128 ≤ b.toNat) := by
  rw [String.utf8EncodeChar.eq_def] at h
  change b ∈ (if c.toNat ≤ 127 then _ else _) at h
  split at h
  · next hle =>
    refine .inl ⟨by omega, ?_⟩
    rw [List.mem_singleton.mp h, UInt8.toNat_ofNat']
    exact Nat.mod_eq_of_lt (Nat.lt_of_le_of_lt hle (by decide))
  · next hlt =>
    refine .inr ⟨by omega, ?_⟩
    split_ifs at h <;>
    · simp only [List.mem_cons, List.not_mem_nil, or_false] at h
      rcases h with rfl | rfl | rfl | rfl <;> simp <;> omega

theorem utf8EncodeChar_eq_singleton {c : Char} (h : c.toNat < 128) :
    String.utf8EncodeChar c = [c.toUInt8] := by
  rw [String.utf8EncodeChar.eq_def]
  exact if_pos (Nat.le_of_lt_succ h)

/-- A text of ASCII characters. -/
def IsAscii (cs : List Char) : Prop := ∀ c ∈ cs, c.toNat < 128

-- not by going through all characters
instance : DecidablePred IsAscii := fun cs => List.decidableBAll _ cs

/-- A text of ASCII is encoded byte by byte. -/
theorem IsAscii.utf8_eq {cs : List Char} (h : IsAscii cs) : utf8 cs = Bytes.ascii cs := by
  induction cs with
  | nil => rfl
  | cons c cs ih =>
    obtain ⟨hc, hcs⟩ := List.forall_mem_cons.mp h
    rw [utf8_cons, utf8EncodeChar_eq_singleton hc, ih hcs]
    rfl

private theorem toNat_toUInt8 {c : Char} (h : c.toNat < 128) : c.toUInt8.toNat = c.toNat :=
  (UInt32.toNat_toUInt8 c.val).trans (Nat.mod_eq_of_lt (Nat.lt_trans h (by decide)))

/-- A text of ASCII has as many bytes as characters. -/
theorem IsAscii.byteLength_eq {cs : List Char} (h : IsAscii cs) : byteLength cs = cs.length := by
  rw [← length_utf8, h.utf8_eq, Bytes.ascii, List.length_map]

theorem IsAscii.closingTag {tag : List Char} (h : IsAscii tag) : IsAscii (closingTag tag) := by
  intro x hx
  simp only [Document.closingTag, List.mem_cons, List.mem_append, List.not_mem_nil, or_false] at hx
  rcases hx with rfl | rfl | hx | rfl
  · decide
  · decide
  · exact h x hx
  · decide

/-- The byte of an ASCII character is found in that character only. -/
private theorem toUInt8_mem_utf8EncodeChar {a c : Char} (ha : a.toNat < 128) :
    a.toUInt8 ∈ String.utf8EncodeChar c ↔ c = a := by
  constructor
  · intro h
    rw [← Char.toNat_inj]
    rcases toNat_of_mem_utf8EncodeChar h with ⟨-, heq⟩ | ⟨-, hle⟩
    · rw [← heq, toNat_toUInt8 ha]
    · rw [toNat_toUInt8 ha] at hle
      omega
  · rintro rfl
    rw [utf8EncodeChar_eq_singleton ha]
    exact List.mem_singleton_self _

/-! ### Tests -/

/-- A test of bytes and one of characters tell the same: all bytes of a character pass if and only
if the character does. -/
def Agrees (p : UInt8 → Bool) (q : Char → Bool) : Prop :=
  ∀ c, ∀ b ∈ String.utf8EncodeChar c, p b = q c

namespace Agrees

variable {p p' : UInt8 → Bool} {q q' : Char → Bool}

/-- Pairs of tests that agree do so when each is joined by "or". -/
theorem or (h : Agrees p q) (h' : Agrees p' q') :
    Agrees (fun b => p b || p' b) (fun c => q c || q' c) :=
  fun c b hb => congrArg₂ (· || ·) (h c b hb) (h' c b hb)

private theorem and (h : Agrees p q) (h' : Agrees p' q') :
    Agrees (fun b => p b && p' b) (fun c => q c && q' c) :=
  fun c b hb => congrArg₂ (· && ·) (h c b hb) (h' c b hb)

private theorem not (h : Agrees p q) : Agrees (fun b => !p b) (fun c => !q c) :=
  fun c b hb => congrArg (! ·) (h c b hb)

/-- ASCII characters are told by their bytes. -/
theorem beq {a : Char} (ha : a.toNat < 128) : Agrees (· == a.toUInt8) (· == a) := by
  intro c b hb
  rw [Bool.eq_iff_iff, beq_iff_eq, beq_iff_eq]
  constructor
  · rintro rfl
    exact (toUInt8_mem_utf8EncodeChar ha).mp hb
  · rintro rfl
    rwa [utf8EncodeChar_eq_singleton ha, List.mem_singleton] at hb

theorem bne {a : Char} (ha : a.toNat < 128) : Agrees (· != a.toUInt8) (· != a) := (beq ha).not

/-- So are ranges of them. -/
private theorem range {lo hi : UInt8} (hhi : hi.toNat < 128) :
    Agrees (fun b => decide (lo ≤ b) && decide (b ≤ hi))
      (fun c => decide (lo.toNat ≤ c.toNat) && decide (c.toNat ≤ hi.toNat)) := by
  intro c b hb
  simp only [UInt8.le_iff_toNat_le]
  rcases toNat_of_mem_utf8EncodeChar hb with ⟨-, hb⟩ | ⟨hc, hb⟩
  · rw [hb]
  · rw [decide_eq_false (by omega : ¬ b.toNat ≤ hi.toNat),
      decide_eq_false (by omega : ¬ c.toNat ≤ hi.toNat), Bool.and_false, Bool.and_false]

end Agrees

theorem agrees_isSpace : Agrees Bytes.isSpace isTagSpace :=
  (((Agrees.beq (by decide)).or (.beq (by decide))).or (.beq (by decide))).or (.beq (by decide))

theorem agrees_isBlank : Agrees Bytes.isBlank isInnerSpace :=
  (Agrees.beq (by decide)).or (.beq (by decide))

theorem agrees_isQuote : Agrees Bytes.isQuote (fun c => c == '"' || c == '\'') :=
  (Agrees.beq (by decide)).or (.beq (by decide))

theorem agrees_isNameByte : Agrees Bytes.isNameByte isAttributeNameChar := by
  have h : isAttributeNameChar = fun c =>
      !(c == '=' || c == '>' || c == '/') && !isTagSpace c := by
    funext c
    simp [isAttributeNameChar, bne]
  rw [h]
  exact (((Agrees.beq (by decide)).or (.beq (by decide))).or (.beq (by decide))).not.and
    agrees_isSpace.not

theorem agrees_isBareByte : Agrees Bytes.isBareByte isBareChar := by
  have h : isBareChar = fun c => !(c == '>' || c == '/') && !isTagSpace c := by
    funext c
    simp [isBareChar, bne]
  rw [h]
  exact ((Agrees.beq (by decide)).or (.beq (by decide))).not.and agrees_isSpace.not

private theorem isTagChar_eq (c : Char) : isTagChar c =
    ((decide ('a'.toNat ≤ c.toNat) && decide (c.toNat ≤ 'z'.toNat)) ||
      (decide ('A'.toNat ≤ c.toNat) && decide (c.toNat ≤ 'Z'.toNat)) ||
      (decide ('0'.toNat ≤ c.toNat) && decide (c.toNat ≤ '9'.toNat)) || c == '-' || c == '_') := by
  have hle (x y : Char) : x.val ≤ y.val ↔ x.toNat ≤ y.toNat := UInt32.le_iff_toNat_le
  have halphanum : c.isAlphanum = (decide (c.val ≥ 'A'.val ∧ c.val ≤ 'Z'.val) ||
      (decide (c.val ≥ 'a'.val) && decide (c.val ≤ 'z'.val)) ||
      (decide (c.val ≥ '0'.val) && decide (c.val ≤ '9'.val))) := rfl
  simp only [isTagChar, halphanum, ge_iff_le, hle, Bool.decide_and]
  rw [Bool.or_comm (decide ('A'.toNat ≤ c.toNat) && _)]

theorem agrees_isTagByte : Agrees Bytes.isTagByte isTagChar := by
  rw [funext isTagChar_eq]
  exact ((((Agrees.range (by decide)).or (.range (by decide))).or (.range (by decide))).or
    (.beq (by decide))).or (.beq (by decide))

/-- Names of tags are ASCII. -/
theorem toNat_lt_of_isTagChar {c : Char} (h : isTagChar c = true) : c.toNat < 128 := by
  rw [isTagChar_eq] at h
  simp only [Bool.or_eq_true, Bool.and_eq_true, decide_eq_true_iff, beq_iff_eq] at h
  rcases h with (((⟨-, h⟩ | ⟨-, h⟩) | ⟨-, h⟩) | rfl) | rfl
  · exact Nat.lt_of_le_of_lt h (by decide)
  · exact Nat.lt_of_le_of_lt h (by decide)
  · exact Nat.lt_of_le_of_lt h (by decide)
  · decide
  · decide

/-! ### Runs and occurrences -/

theorem exists_utf8EncodeChar_eq_cons (c : Char) : ∃ b bs, String.utf8EncodeChar c = b :: bs :=
  List.exists_cons_of_ne_nil String.utf8EncodeChar_ne_nil

/-- A run of bytes is one of characters. -/
theorem takeWhile_utf8 {p : UInt8 → Bool} {q : Char → Bool} (h : Agrees p q) (cs : List Char) :
    (utf8 cs).takeWhile p = utf8 (cs.takeWhile q) := by
  induction cs with
  | nil => rfl
  | cons c cs ih =>
    rw [utf8_cons]
    by_cases hc : q c = true
    · rw [List.takeWhile_append_of_pos fun b hb => (h c b hb).trans hc, ih,
        List.takeWhile_cons_of_pos hc, utf8_cons]
    · obtain ⟨b, bs, hbs⟩ := exists_utf8EncodeChar_eq_cons c
      rw [List.takeWhile_cons_of_neg hc, hbs, List.cons_append, List.takeWhile_cons_of_neg,
        utf8_nil]
      rwa [h c b (by simp [hbs])]

/-- A character of ASCII is among the bytes exactly if it is in the text. -/
private theorem toUInt8_mem_utf8 {a : Char} (ha : a.toNat < 128) (cs : List Char) :
    a.toUInt8 ∈ utf8 cs ↔ a ∈ cs := by
  simp only [utf8, List.mem_flatMap, toUInt8_mem_utf8EncodeChar ha, exists_eq_right]

/-- The first place of a byte, told by the front without it. -/
private theorem idxOf?_eq (l : List UInt8) (b : UInt8) :
    l.idxOf? b = if b ∈ l then some (l.takeWhile (· != b)).length else none := by
  induction l with
  | nil => rfl
  | cons a l ih =>
    rw [List.idxOf?_cons, ih]
    by_cases ha : a = b
    · simp [ha]
    · by_cases hmem : b ∈ l <;> simp [ha, Ne.symm ha, hmem]

/-- The first occurrence of a byte is that of its character. -/
theorem idxOf?_utf8 {a : Char} (ha : a.toNat < 128) (cs : List Char) :
    (utf8 cs).idxOf? a.toUInt8 =
      if a ∈ cs then some (byteLength (cs.takeWhile (· != a))) else none := by
  have hrun : (utf8 cs).takeWhile (· != a.toUInt8) = utf8 (cs.takeWhile (· != a)) :=
    takeWhile_utf8 (Agrees.bne ha) cs
  simp only [idxOf?_eq, toUInt8_mem_utf8 ha, hrun, length_utf8]

/-- The same characters are the same bytes, and only they are. -/
private theorem utf8_inj {cs ds : List Char} : utf8 cs = utf8 ds ↔ cs = ds := by
  refine ⟨fun h => ?_, congrArg utf8⟩
  rw [← String.ofList_inj, ← String.toByteArray_inj]
  have hbytes (cs : List Char) : utf8 cs = (String.ofList cs).toByteArray.data.toList := by
    rw [← String.toList_ofList (l := cs), ← ofText_eq_utf8, String.toList_ofList]
    rfl
  rw [hbytes, hbytes] at h
  exact ByteArray.ext (Array.toList_inj.mp h)

/-- A character of ASCII occurs among the bytes as often as in the text. -/
theorem count_utf8 {a : Char} (ha : a.toNat < 128) (cs : List Char) :
    (utf8 cs).count a.toUInt8 = cs.count a := by
  induction cs with
  | nil => rfl
  | cons c cs ih =>
    rw [utf8_cons, List.count_append, ih]
    by_cases hc : c = a
    · rw [hc, utf8EncodeChar_eq_singleton ha, List.count_singleton_self, List.count_cons_self,
        Nat.add_comm]
    · rw [List.count_cons_of_ne hc, List.count_eq_zero_of_not_mem, Nat.zero_add]
      exact mt (toUInt8_mem_utf8EncodeChar ha).mp hc

/-! ### Letter case -/

private theorem toNat_toLower (c : Char) :
    c.toLower.toNat = if 65 ≤ c.toNat ∧ c.toNat ≤ 90 then c.toNat + 32 else c.toNat := by
  have hrange : (c.val ≥ 'A'.val ∧ c.val ≤ 'Z'.val) ↔ (65 ≤ c.toNat ∧ c.toNat ≤ 90) := by
    rw [ge_iff_le, UInt32.le_iff_toNat_le, UInt32.le_iff_toNat_le]
    rfl
  unfold Char.toLower
  by_cases h : c.val ≥ 'A'.val ∧ c.val ≤ 'Z'.val
  · rw [dif_pos h, if_pos (hrange.mp h)]
    change (c.val + ('a'.val - 'A'.val)).toNat = _
    have hle := (hrange.mp h).2
    rw [UInt32.toNat_add]
    exact Nat.mod_eq_of_lt (by change c.toNat + 32 < _; omega)
  · rw [dif_neg h, if_neg (mt hrange.mpr h)]

theorem toNat_bytes_toLower (b : UInt8) : (Bytes.toLower b).toNat =
    if 65 ≤ b.toNat ∧ b.toNat ≤ 90 then b.toNat + 32 else b.toNat := by
  have hrange : (65 ≤ b ∧ b ≤ 90) ↔ (65 ≤ b.toNat ∧ b.toNat ≤ 90) := by
    rw [UInt8.le_iff_toNat_le, UInt8.le_iff_toNat_le]
    rfl
  unfold Bytes.toLower
  by_cases h : 65 ≤ b ∧ b ≤ 90
  · rw [if_pos h, if_pos (hrange.mp h), UInt8.toNat_add]
    have hle := (hrange.mp h).2
    exact Nat.mod_eq_of_lt (by change b.toNat + 32 < _; omega)
  · rw [if_neg h, if_neg (mt hrange.mpr h)]

/-- The lower case of a text is that of its bytes. -/
private theorem map_toLower_utf8 (cs : List Char) :
    (utf8 cs).map Bytes.toLower = utf8 (folded cs) := by
  induction cs with
  | nil => rfl
  | cons c cs ih =>
    rw [utf8_cons, List.map_append, ih, folded_cons, utf8_cons]
    congr 1
    by_cases hc : c.toNat < 128
    · have hlower : c.toLower.toNat < 128 := by
        rw [toNat_toLower]
        split <;> omega
      rw [utf8EncodeChar_eq_singleton hc, utf8EncodeChar_eq_singleton hlower, List.map_singleton]
      congr 1
      rw [← UInt8.toNat_inj, toNat_bytes_toLower, toNat_toUInt8 hc, toNat_toUInt8 hlower,
        toNat_toLower]
    · have hlower : c.toLower = c := by
        rw [← Char.toNat_inj, toNat_toLower, if_neg (by omega)]
      rw [hlower, List.map_congr_left (g := id), List.map_id]
      intro b hb
      rcases toNat_of_mem_utf8EncodeChar hb with ⟨hlt, -⟩ | ⟨-, hb⟩
      · exact absurd hlt hc
      · rw [← UInt8.toNat_inj, toNat_bytes_toLower, if_neg (by omega), id]

/-- Texts are equal in either case exactly if their bytes are. -/
theorem equalFolded_utf8 (cs ds : List Char) :
    Bytes.equalFolded (utf8 cs) (utf8 ds) = equalFolded cs ds := by
  rw [Bytes.equalFolded, map_toLower_utf8, map_toLower_utf8, Bool.eq_iff_iff, beq_iff_eq, utf8_inj,
    equalFolded, beq_iff_eq]
  rfl

/-- Folding leads into ASCII from ASCII only. -/
theorem isAscii_folded_iff {cs : List Char} : IsAscii (folded cs) ↔ IsAscii cs := by
  have hlower (c : Char) : c.toLower.toNat < 128 ↔ c.toNat < 128 := by
    rw [toNat_toLower]
    split <;> omega
  simp only [IsAscii, folded, List.forall_mem_map, hlower]

/-! ### Comparisons -/

section Comparisons

variable {ps : List Char} (hps : IsAscii ps)

include hps

/-- ASCII characters begin a text if their bytes do. -/
theorem isPrefixOf_utf8 (cs : List Char) :
    (Bytes.ascii ps).isPrefixOf (utf8 cs) = ps.isPrefixOf cs := by
  induction ps generalizing cs with
  | nil => rfl
  | cons p ps ih =>
    obtain ⟨hp, hps⟩ := List.forall_mem_cons.mp hps
    cases cs with
    | nil => rfl
    | cons c cs =>
      by_cases hc : c = p
      · rw [hc, utf8_cons, utf8EncodeChar_eq_singleton hp, List.singleton_append, Bytes.ascii,
          List.map_cons, List.isPrefixOf_cons_cons, List.isPrefixOf_cons_cons, beq_self_eq_true,
          beq_self_eq_true]
        exact congrArg _ (ih hps cs)
      · obtain ⟨b, bs, hbs⟩ := exists_utf8EncodeChar_eq_cons c
        have hb : (b == p.toUInt8) = (c == p) := Agrees.beq hp c b (by simp [hbs])
        rw [beq_false_of_ne hc, BEq.comm] at hb
        rw [utf8_cons, hbs, List.cons_append, Bytes.ascii, List.map_cons,
          List.isPrefixOf_cons_cons, List.isPrefixOf_cons_cons, hb, beq_false_of_ne (Ne.symm hc),
          Bool.false_and, Bool.false_and]

/-- A text starts with a front, in either case, exactly if its bytes do. -/
theorem startsFolded_utf8 (cs : List Char) :
    Bytes.startsFolded (utf8 cs) (Bytes.ascii ps) = startsFolded cs ps := by
  have hfold : Bytes.startsFolded (utf8 cs) (Bytes.ascii ps) =
      (Bytes.ascii (folded ps)).isPrefixOf (utf8 (folded cs)) := by
    rw [← hps.utf8_eq, ← (isAscii_folded_iff.mpr hps).utf8_eq, ← map_toLower_utf8,
      ← map_toLower_utf8, Bool.eq_iff_iff, List.isPrefixOf_iff_prefix, List.prefix_iff_eq_take,
      List.length_map, ← List.map_take, Bytes.startsFolded, Bytes.equalFolded, Bool.and_eq_true,
      decide_eq_true_iff, beq_iff_eq]
    constructor
    · rintro ⟨-, heq⟩
      exact heq.symm
    · intro heq
      refine ⟨?_, heq.symm⟩
      have hlength := congrArg List.length heq
      rw [List.length_map, List.length_map, List.length_take] at hlength
      omega
  rw [hfold, isPrefixOf_utf8 (isAscii_folded_iff.mpr hps), Bool.eq_iff_iff,
    List.isPrefixOf_iff_prefix, startsFolded_iff]

end Comparisons

/-- Bytes without the first one of a pattern are passed. -/
private theorem search_append {p : UInt8} {ps bs : List UInt8} (h : ∀ b ∈ bs, b ≠ p)
    (rest : List UInt8) : Bytes.search (p :: ps) (bs ++ rest) =
      (Bytes.search (p :: ps) rest).map (· + bs.length) := by
  induction bs with
  | nil => simp
  | cons b bs ih =>
    obtain ⟨hb, hbs⟩ := List.forall_mem_cons.mp h
    have hpre : (p :: ps).isPrefixOf (b :: (bs ++ rest)) = false := by
      rw [List.isPrefixOf_cons_cons, beq_false_of_ne (Ne.symm hb), Bool.false_and]
    rw [List.cons_append, Bytes.search, hpre, ih hbs]
    cases Bytes.search (p :: ps) rest <;> simp [Nat.add_assoc]

/-- A pattern of ASCII characters occurs where its bytes do. -/
theorem search_utf8 {p : Char} {ps : List Char} (hps : IsAscii (p :: ps)) (cs : List Char) :
    Bytes.search (Bytes.ascii (p :: ps)) (utf8 cs) =
      (indexOf? (p :: ps) cs).map fun n => byteLength (cs.take n) := by
  have hp : p.toNat < 128 := hps p List.mem_cons_self
  induction cs with
  | nil => rfl
  | cons c cs ih =>
    have hmore : ((indexOf? (p :: ps) cs).map (· + 1)).map
        (fun n => byteLength ((c :: cs).take n)) =
        (Bytes.search (Bytes.ascii (p :: ps)) (utf8 cs)).map (· + c.utf8Size) := by
      rw [ih, Option.map_map, Option.map_map]
      congr 1
      funext n
      exact Nat.add_comm _ _
    rcases eq_or_ne c p with rfl | hc
    · have hpre := isPrefixOf_utf8 hps (c :: cs)
      have hsize : c.utf8Size = 1 := by
        rw [← String.length_utf8EncodeChar, utf8EncodeChar_eq_singleton hp]
        rfl
      rw [utf8_cons, utf8EncodeChar_eq_singleton hp, List.singleton_append] at hpre ⊢
      rw [Bytes.search, hpre, indexOf?]
      split
      · rfl
      · rw [hmore, hsize]
    · have hpre : (p :: ps).isPrefixOf (c :: cs) = false := by
        rw [List.isPrefixOf_cons_cons, beq_false_of_ne (Ne.symm hc), Bool.false_and]
      rw [indexOf?, hpre, if_neg Bool.false_ne_true, hmore, utf8_cons, Bytes.ascii, List.map_cons,
        search_append, String.length_utf8EncodeChar]
      rintro b hb rfl
      exact hc ((toUInt8_mem_utf8EncodeChar hp).mp hb)

end ComponentInsight.Document

import ComponentInsight.Fingerprint
import Mathlib.Algebra.Group.Nat.Defs
import Mathlib.Data.List.Basic

/-!
# What a fingerprinted stream tells of its parts

Texts and bytes are written with their length in front, integers with a fixed width and nothing in
front. So a stream alone does not say where an integer begins, and the **lower half** of an integer
can pass for the length of bytes. This is the only way in which two lists of parts have one stream
(`Fingerprint.stream_eq_iff`, `Fingerprint.tellsApart_iff`): behind parts that agree, one list has
an integer and the other has as many bytes as the lower half of the integer says
(`Fingerprint.Imitates`).

Lists with integers at the same places are therefore told apart, however many parts they have and
whatever these hold, and no other rule about places is enough: for any two layouts that differ
somewhere there are lists that differ and have one stream
(`Fingerprint.forall_tellsApart_iff`). A text counts as its UTF-8 bytes throughout.
-/

namespace ComponentInsight

/-! ### Little-endian numbers -/

@[simp]
theorem length_littleEndian (width n : Nat) : (littleEndian width n).length = width := by
  induction width generalizing n with
  | zero => rfl
  | succ width ih => rw [littleEndian, List.length_cons, ih]

/-- The bytes tell a number up to the multiples of the first power that has no room. -/
private theorem littleEndian_eq_iff {width m n : Nat} :
    littleEndian width m = littleEndian width n ↔ m % 256 ^ width = n % 256 ^ width := by
  induction width generalizing m n with
  | zero => simp [littleEndian, Nat.mod_one]
  | succ width ih =>
    have hbyte : m.toUInt8 = n.toUInt8 ↔ m % 256 = n % 256 := UInt8.toNat_inj.symm
    rw [littleEndian, littleEndian, List.cons.injEq, hbyte, ih, Nat.pow_succ', Nat.mod_mul,
      Nat.mod_mul]
    constructor
    · rintro ⟨hlow, hhigh⟩
      rw [hlow, hhigh]
    · intro h
      have hm := Nat.mod_lt m (show 0 < 256 by omega)
      have hn := Nat.mod_lt n (show 0 < 256 by omega)
      omega

/-- Numbers that have room are told by their bytes. -/
private theorem littleEndian_inj {width m n : Nat} (hm : m < 256 ^ width) (hn : n < 256 ^ width) :
    littleEndian width m = littleEndian width n ↔ m = n := by
  rw [littleEndian_eq_iff, Nat.mod_eq_of_lt hm, Nat.mod_eq_of_lt hn]

/-- The lower bytes come first. -/
private theorem littleEndian_add (low high n : Nat) :
    littleEndian (low + high) n = littleEndian low n ++ littleEndian high (n / 256 ^ low) := by
  induction low generalizing n with
  | zero => simp [littleEndian]
  | succ low ih =>
    rw [Nat.succ_add, littleEndian, littleEndian, ih, List.cons_append, Nat.div_div_eq_div_mul,
      Nat.pow_succ']

namespace Fingerprint

/-! ### Parts -/

/-- Bytes with their count in front are told apart from all that follows. -/
private theorem delimited_append_inj {a b s t : List UInt8} (ha : a.length < 2 ^ 64)
    (hb : b.length < 2 ^ 64) (h : delimited a ++ s = delimited b ++ t) : a = b ∧ s = t := by
  rw [delimited, delimited, List.append_assoc, List.append_assoc] at h
  obtain ⟨hcount, hrest⟩ := List.append_inj h (by rw [length_littleEndian, length_littleEndian])
  exact List.append_inj hrest ((littleEndian_inj ha hb).mp hcount)

/-- How a part is set off from what follows it. -/
inductive Framing where
  | fixedWidth
  | lengthPrefixed
  deriving DecidableEq

namespace Part

/-- How a part is written. -/
def framing : Part → Framing
  | .text _ => .lengthPrefixed
  | .bytes _ => .lengthPrefixed
  | .integer _ => .fixedWidth

/-- The part with the bytes of its text in place of the text. -/
def plain : Part → Part
  | .text s => .bytes (utf8Bytes s)
  | .bytes data => .bytes data
  | .integer n => .integer n

/-- There is room for the part: eight bytes for a length, sixteen for an integer. -/
def Fits : Part → Prop
  | .text s => (utf8Bytes s).length < 2 ^ 64
  | .bytes data => data.length < 2 ^ 64
  | .integer n => n < 2 ^ 128

instance : DecidablePred Fits
  | .text s => inferInstanceAs (Decidable ((utf8Bytes s).length < 2 ^ 64))
  | .bytes data => inferInstanceAs (Decidable (data.length < 2 ^ 64))
  | .integer n => inferInstanceAs (Decidable (n < 2 ^ 128))

variable {p q : Part}

private theorem encode_plain (p : Part) : p.plain.encode = p.encode := by
  cases p <;> rfl

private theorem fits_plain : p.plain.Fits ↔ p.Fits := by
  cases p <;> exact Iff.rfl

private theorem framing_plain (p : Part) : p.plain.framing = p.framing := by
  cases p <;> rfl

/-- A part is length-prefixed if what it stands for is a list of bytes. -/
private theorem framing_eq_lengthPrefixed_iff :
    p.framing = .lengthPrefixed ↔ ∃ data, p.plain = .bytes data := by
  cases p <;> simp [framing, plain]

/-- A part has a fixed width if what it stands for is a number. -/
private theorem framing_eq_fixedWidth_iff :
    p.framing = .fixedWidth ↔ ∃ n, p.plain = .integer n := by
  cases p <;> simp [framing, plain]

private theorem encode_ne_nil (p : Part) : p.encode ≠ [] := by
  cases p <;> exact List.cons_ne_nil _ _

/-- Parts that are framed alike are told apart from all that follows. -/
private theorem encode_append_inj (hp : p.Fits) (hq : q.Fits) (hframing : p.framing = q.framing)
    {s t : List UInt8} (h : p.encode ++ s = q.encode ++ t) : p.plain = q.plain ∧ s = t := by
  rw [← encode_plain p, ← encode_plain q] at h
  rw [← fits_plain] at hp hq
  cases hp' : p.framing with
  | lengthPrefixed =>
    obtain ⟨a, ha⟩ := framing_eq_lengthPrefixed_iff.mp hp'
    obtain ⟨b, hb⟩ := framing_eq_lengthPrefixed_iff.mp (hframing.symm.trans hp')
    rw [ha] at hp h ⊢
    rw [hb] at hq h ⊢
    obtain ⟨rfl, hrest⟩ := delimited_append_inj hp hq h
    exact ⟨rfl, hrest⟩
  | fixedWidth =>
    obtain ⟨m, hm⟩ := framing_eq_fixedWidth_iff.mp hp'
    obtain ⟨n, hn⟩ := framing_eq_fixedWidth_iff.mp (hframing.symm.trans hp')
    rw [hm] at hp h ⊢
    rw [hn] at hq h ⊢
    obtain ⟨hbytes, hrest⟩ := List.append_inj h (by simp [encode])
    obtain rfl := (littleEndian_inj hp hq).mp hbytes
    exact ⟨rfl, hrest⟩

/-- An integer in front of some bytes is a delimited part in front of others: the lower half is the
length, and the upper half begins what was delimited. -/
private theorem encode_integer_append_eq_iff {n : Nat} {data s t : List UInt8}
    (hdata : data.length < 2 ^ 64) :
    (integer n).encode ++ s = (bytes data).encode ++ t ↔
      n % 2 ^ 64 = data.length ∧ littleEndian 8 (n / 2 ^ 64) ++ s = data ++ t := by
  have hhalves : (integer n).encode = littleEndian 8 n ++ littleEndian 8 (n / 2 ^ 64) :=
    littleEndian_add 8 8 n
  have hcount : littleEndian 8 n = littleEndian 8 data.length ↔ n % 2 ^ 64 = data.length := by
    rw [littleEndian_eq_iff, ← Nat.mod_eq_of_lt hdata]
    simp
  rw [hhalves, encode, delimited, List.append_assoc, List.append_assoc, ← hcount]
  constructor
  · exact fun h => List.append_inj h (by rw [length_littleEndian, length_littleEndian])
  · rintro ⟨hlow, hrest⟩
    rw [hlow, hrest]

end Part

/-! ### Streams -/

variable {ps qs : List Part}

private theorem stream_cons (p : Part) (ps : List Part) :
    stream (p :: ps) = p.encode ++ stream ps :=
  List.flatMap_cons

private theorem stream_append (ps qs : List Part) : stream (ps ++ qs) = stream ps ++ stream qs :=
  List.flatMap_append

private theorem stream_map_plain (ps : List Part) : stream (ps.map Part.plain) = stream ps := by
  rw [stream, stream, List.flatMap_map]
  exact List.flatMap_congr fun p _ => p.encode_plain

/-- Behind parts that agree, the first list has an integer where the second has bytes, and the
integer passes for the length of the bytes: its lower half is that length, and its upper half, with
all that follows, gives the bytes and all that follows those. -/
def Imitates (ps qs : List Part) : Prop :=
  ∃ front n rest data rest', ps.map Part.plain = front ++ .integer n :: rest ∧
    qs.map Part.plain = front ++ .bytes data :: rest' ∧ n % 2 ^ 64 = data.length ∧
    littleEndian 8 (n / 2 ^ 64) ++ stream rest = data ++ stream rest'

private theorem Imitates.cons (h : Imitates ps qs) {p q : Part} (hpq : p.plain = q.plain) :
    Imitates (p :: ps) (q :: qs) := by
  obtain ⟨front, n, rest, data, rest', hps, hqs, h⟩ := h
  refine ⟨q.plain :: front, n, rest, data, rest', ?_, ?_, h⟩
  · rw [List.map_cons, hps, hpq, List.cons_append]
  · rw [List.map_cons, hqs, List.cons_append]

/-- Lists of parts that imitate each other stand for different data. -/
private theorem Imitates.map_plain_ne (h : Imitates ps qs) :
    ps.map Part.plain ≠ qs.map Part.plain := by
  obtain ⟨front, n, rest, data, rest', hps, hqs, -⟩ := h
  intro heq
  rw [hps, hqs] at heq
  cases (List.cons.inj (List.append_cancel_left heq)).1

/-- Lists of parts that imitate each other have one stream. -/
private theorem Imitates.stream_eq (h : Imitates ps qs) (hqs : ∀ q ∈ qs, q.Fits) :
    stream ps = stream qs := by
  obtain ⟨front, n, rest, data, rest', hps, hqs', h⟩ := h
  have hdata : (Part.bytes data).Fits := by
    obtain ⟨q, hq, heq⟩ := List.mem_map.mp (hqs' ▸ List.mem_append_right front List.mem_cons_self)
    rw [← heq, Part.fits_plain]
    exact hqs q hq
  have hbytes := (Part.encode_integer_append_eq_iff hdata).mpr h
  rw [← stream_map_plain ps, ← stream_map_plain qs, hps, hqs', stream_append, stream_append,
    stream_cons, stream_cons, hbytes]

/-- Parts that are framed differently have one stream only by imitation. -/
private theorem imitates_of_framing {p q : Part} (hq : q.Fits) (hp' : p.framing = .fixedWidth)
    (hq' : q.framing = .lengthPrefixed) (h : stream (p :: ps) = stream (q :: qs)) :
    Imitates (p :: ps) (q :: qs) := by
  obtain ⟨n, hn⟩ := Part.framing_eq_fixedWidth_iff.mp hp'
  obtain ⟨data, hdata⟩ := Part.framing_eq_lengthPrefixed_iff.mp hq'
  rw [← stream_map_plain (p :: ps), ← stream_map_plain (q :: qs), List.map_cons, List.map_cons, hn,
    hdata, stream_cons, stream_cons] at h
  rw [← Part.fits_plain, hdata] at hq
  refine ⟨[], n, ps.map Part.plain, data, qs.map Part.plain, ?_, ?_, ?_⟩
  · rw [List.map_cons, hn, List.nil_append]
  · rw [List.map_cons, hdata, List.nil_append]
  · exact (Part.encode_integer_append_eq_iff hq).mp h

/-- By induction on both lists: parts that are framed alike are the same, and the first two that are
not imitate one another. -/
private theorem eq_or_imitates (hps : ∀ p ∈ ps, p.Fits) (hqs : ∀ q ∈ qs, q.Fits)
    (h : stream ps = stream qs) :
    ps.map Part.plain = qs.map Part.plain ∨ Imitates ps qs ∨ Imitates qs ps := by
  induction ps generalizing qs with
  | nil =>
    cases qs with
    | nil => exact .inl rfl
    | cons q qs => exact absurd (List.append_eq_nil_iff.mp h.symm).1 q.encode_ne_nil
  | cons p ps ih =>
    cases qs with
    | nil => exact absurd (List.append_eq_nil_iff.mp h).1 p.encode_ne_nil
    | cons q qs =>
      obtain ⟨hp, hps⟩ := List.forall_mem_cons.mp hps
      obtain ⟨hq, hqs⟩ := List.forall_mem_cons.mp hqs
      by_cases hframing : p.framing = q.framing
      · obtain ⟨hpq, hrest⟩ := Part.encode_append_inj hp hq hframing h
        rcases ih hps hqs hrest with heq | himitates | himitates
        · left
          rw [List.map_cons, List.map_cons, hpq, heq]
        · exact .inr (.inl (himitates.cons hpq))
        · exact .inr (.inr (himitates.cons hpq.symm))
      · cases hp' : p.framing with
        | fixedWidth =>
          cases hq' : q.framing with
          | fixedWidth => exact absurd (hp'.trans hq'.symm) hframing
          | lengthPrefixed => exact .inr (.inl (imitates_of_framing hq hp' hq' h))
        | lengthPrefixed =>
          cases hq' : q.framing with
          | fixedWidth => exact .inr (.inr (imitates_of_framing hp hq' hp' h.symm))
          | lengthPrefixed => exact absurd (hp'.trans hq'.symm) hframing

/-- **Two lists of parts have one stream if and only if they agree or one imitates the other.** -/
theorem stream_eq_iff (hps : ∀ p ∈ ps, p.Fits) (hqs : ∀ q ∈ qs, q.Fits) :
    stream ps = stream qs ↔
      ps.map Part.plain = qs.map Part.plain ∨ Imitates ps qs ∨ Imitates qs ps := by
  constructor
  · exact eq_or_imitates hps hqs
  · rintro (heq | himitates | himitates)
    · rw [← stream_map_plain ps, heq, stream_map_plain]
    · exact himitates.stream_eq hqs
    · exact (himitates.stream_eq hps).symm

/-- If the streams are equal, so are the parts. -/
def TellsApart (ps qs : List Part) : Prop :=
  stream ps = stream qs → ps.map Part.plain = qs.map Part.plain

/-! ### Layouts -/

/-- The framing of each part, by its place. -/
abbrev Layout := Nat → Framing

/-- An integer in front of texts and bytes. -/
def integerFirst : Layout
  | 0 => .fixedWidth
  | _ + 1 => .lengthPrefixed

/-- The parts are framed as the layout says, as far as there are parts. -/
def Layout.Admits (l : Layout) (ps : List Part) : Prop := ∀ i, ∀ p ∈ ps[i]?, p.framing = l i

namespace Layout

variable {l l' : Layout}

@[simp]
theorem admits_nil (l : Layout) : l.Admits [] := fun _ _ hp => nomatch hp

/-- A layout admits a list if it admits its first part and, moved on by one, the others. -/
@[simp]
theorem admits_cons {p : Part} :
    l.Admits (p :: ps) ↔ p.framing = l 0 ∧ Layout.Admits (fun i => l (i + 1)) ps := by
  constructor
  · exact fun h => ⟨h 0 p rfl, fun i => h (i + 1)⟩
  · rintro ⟨hfirst, hrest⟩ i
    cases i with
    | zero =>
      rintro _ ⟨⟩
      exact hfirst
    | succ i => exact hrest i

/-- What stands behind a front is framed as the layout says for its place. -/
private theorem Admits.framing_eq (h : l.Admits ps) {front rest : List Part} {p : Part}
    (heq : ps.map Part.plain = front ++ p :: rest) : p.framing = l front.length := by
  have hp : (ps.map Part.plain)[front.length]? = some p := by
    rw [heq, List.getElem?_append_right Nat.le.refl, Nat.sub_self, List.getElem?_cons_zero]
  rw [List.getElem?_map] at hp
  obtain ⟨p', hp', rfl⟩ := Option.map_eq_some_iff.mp hp
  rw [Part.framing_plain]
  exact h front.length p' hp'

/-- Lists of one layout do not imitate each other. -/
private theorem Admits.not_imitates (hps : l.Admits ps) (hqs : l.Admits qs) : ¬ Imitates ps qs := by
  rintro ⟨front, n, rest, data, rest', hps', hqs', -⟩
  have hfixed : Framing.fixedWidth = l front.length := hps.framing_eq hps'
  have hprefixed : Framing.lengthPrefixed = l front.length := hqs.framing_eq hqs'
  rw [← hfixed] at hprefixed
  cases hprefixed

/-- Lists of one layout are told apart, also if one is longer. -/
theorem Admits.tellsApart (hps : l.Admits ps) (hqs : l.Admits qs) (hps' : ∀ p ∈ ps, p.Fits)
    (hqs' : ∀ q ∈ qs, q.Fits) : TellsApart ps qs := by
  intro h
  rcases (stream_eq_iff hps' hqs').mp h with heq | himitates | himitates
  · exact heq
  · exact absurd himitates (hps.not_imitates hqs)
  · exact absurd himitates (hqs.not_imitates hps)

end Layout

/-! ### Different layouts -/

/-- A part that is framed as told and written as an eight in sixteen bytes: the number itself, or
eight zeros with their count in front. -/
def eight : Framing → Part
  | .fixedWidth => .integer 8
  | .lengthPrefixed => .bytes (List.replicate 8 0)

private theorem fits_eight (f : Framing) : (eight f).Fits := by
  cases f <;> decide

private theorem framing_eight (f : Framing) : (eight f).framing = f := by
  cases f <;> rfl

private theorem plain_eight_inj {f g : Framing} : (eight f).plain = (eight g).plain ↔ f = g := by
  cases f <;> cases g <;> simp [eight, Part.plain]

/-- The samples of both framings are encoded alike. -/
private theorem encode_eight (f g : Framing) : (eight f).encode = (eight g).encode := by
  cases f <;> cases g <;> decide

/-- As many eights as told, framed as the layout says. -/
def Layout.eights (l : Layout) (count : Nat) : List Part :=
  (List.range count).map fun i => eight (l i)

private theorem Layout.admits_eights (l : Layout) (count : Nat) : l.Admits (l.eights count) := by
  intro i p hp
  rw [eights, List.getElem?_map] at hp
  obtain ⟨j, hj, rfl⟩ := Option.map_eq_some_iff.mp hp
  obtain ⟨hi, rfl⟩ := List.getElem?_eq_some_iff.mp hj
  rw [List.getElem_range, framing_eight]

private theorem Layout.fits_eights (l : Layout) (count : Nat) : ∀ p ∈ l.eights count, p.Fits :=
  List.forall_mem_map.mpr fun i _ => fits_eight (l i)

private theorem Layout.stream_eights (l l' : Layout) (count : Nat) :
    stream (l.eights count) = stream (l'.eights count) := by
  rw [stream, stream, eights, eights, List.flatMap_map, List.flatMap_map]
  exact List.flatMap_congr fun i _ => encode_eight (l i) (l' i)

/-- **Streams tell lists of one layout apart, and lists of different layouts they do not.** -/
theorem forall_tellsApart_iff (l l' : Layout) :
    (∀ ps qs, l.Admits ps → l'.Admits qs → (∀ p ∈ ps, p.Fits) → (∀ q ∈ qs, q.Fits) →
      TellsApart ps qs) ↔ l = l' := by
  constructor
  · intro h
    funext i
    -- the layouts are compared at the last of so many eights
    have hplain := h _ _ (l.admits_eights (i + 1)) (l'.admits_eights (i + 1))
      (l.fits_eights (i + 1)) (l'.fits_eights (i + 1)) (l.stream_eights l' (i + 1))
    rw [Layout.eights, Layout.eights, List.map_map, List.map_map, List.map_inj_left] at hplain
    exact plain_eight_inj.mp (hplain i List.self_mem_range_succ)
  · rintro rfl ps qs hps hqs
    exact hps.tellsApart hqs

/-! ### Two lists -/

/-- **Two lists of parts are told apart if and only if neither imitates the other.** -/
theorem tellsApart_iff (hps : ∀ p ∈ ps, p.Fits) (hqs : ∀ q ∈ qs, q.Fits) :
    TellsApart ps qs ↔ ¬ Imitates ps qs ∧ ¬ Imitates qs ps := by
  constructor
  · intro h
    refine ⟨fun himitates => ?_, fun himitates => ?_⟩
    · exact himitates.map_plain_ne (h (himitates.stream_eq hqs))
    · exact himitates.map_plain_ne (h (himitates.stream_eq hps).symm).symm
  · rintro ⟨hps', hqs'⟩ h
    rcases (stream_eq_iff hps hqs).mp h with heq | himitates | himitates
    · exact heq
    · exact absurd himitates hps'
    · exact absurd himitates hqs'

/-- A text that ends like an empty text is not taken for two texts. -/
theorem tellsApart_iff_integerFirst :
    let ps := [Part.integer 8, .text "a\x00\x00\x00\x00\x00\x00\x00\x00"]
    let qs := [Part.integer 8, .text "a", .text ""]
    (∀ p ∈ ps, p.Fits) ∧ (∀ q ∈ qs, q.Fits) ∧ ¬ Imitates ps qs ∧ ¬ Imitates qs ps ∧
      ps.map Part.plain ≠ qs.map Part.plain ∧ stream ps ≠ stream qs := by
  intro ps qs
  have hps : ∀ p ∈ ps, p.Fits := by decide +kernel
  have hqs : ∀ q ∈ qs, q.Fits := by decide +kernel
  have hplain : ps.map Part.plain ≠ qs.map Part.plain := by decide +kernel
  have hps' : integerFirst.Admits ps := by
    simp [ps, Part.framing, integerFirst]
  have hqs' : integerFirst.Admits qs := by
    simp [qs, Part.framing, integerFirst]
  have himitates : ¬ Imitates ps qs ∧ ¬ Imitates qs ps :=
    ⟨hps'.not_imitates hqs', hqs'.not_imitates hps'⟩
  exact ⟨hps, hqs, himitates.1, himitates.2, hplain,
    mt ((tellsApart_iff hps hqs).mpr himitates) hplain⟩

/-- The number eight and eight zeros have one stream: nothing stands in front of the number, and its
lower half is the count in front of the zeros. -/
theorem not_tellsApart_eight :
    (Part.integer 8).Fits ∧ (Part.bytes (List.replicate 8 0)).Fits ∧
      ¬ TellsApart [.integer 8] [.bytes (List.replicate 8 0)] := by
  refine ⟨by decide, by decide, fun h => ?_⟩
  cases h (by decide)

end Fingerprint

end ComponentInsight

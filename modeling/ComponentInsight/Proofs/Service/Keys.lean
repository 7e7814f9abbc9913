import ComponentInsight.Proofs.Fingerprint.Parts
import ComponentInsight.Proofs.Service.Recall

/-!
# What cache keys identify

The key of a file is hashed from the time at which it was modified, its path and the way it is read,
the key of a buffer from its text and its path. Either has one layout, so what is hashed determines
all of this, whatever bytes stand in texts and paths (`FileKey.stream_eq_iff`,
`BufferKey.stream_eq_iff`). Times before the epoch count as the epoch.

Two documents **share an entry** if every service remembers for one of them what it remembers for
the other (`Subject.SharesEntry`). This is told by their keys, and files never share with buffers
(`Subject.sharesEntry_iff`). So two files share an entry only if the same path is read in the same
way and was modified at the same time, and two buffers only if they have the same text and path,
unless two different streams have one hash (`Fingerprint.Collide`).
-/

namespace ComponentInsight

/-! ### Bytes of texts -/

private theorem toList_loop (b : ByteArray) (i : Nat) (r : List UInt8) :
    ByteArray.toList.loop b i r = r.reverse ++ b.data.toList.drop i := by
  fun_induction ByteArray.toList.loop b i r with
  | case1 i r hi ih =>
    have hi' : i < b.data.toList.length := hi
    have hget : b.get! i = b.data.toList[i] := by
      rw [Array.getElem_toList]
      exact getElem!_pos b.data i hi
    rw [ih, List.drop_eq_getElem_cons hi', List.reverse_cons, List.append_assoc, hget]
    rfl
  | case2 i r hi =>
    have hi' : b.data.toList.length ≤ i := Nat.le_of_not_lt hi
    rw [List.drop_eq_nil_of_le hi', List.append_nil]

/-- A text is determined by its bytes. -/
private theorem utf8Bytes_injective : Function.Injective utf8Bytes := by
  intro s t h
  have hdata : s.toUTF8.data.toList = t.toUTF8.data.toList :=
    (toList_loop s.toUTF8 0 []).symm.trans (h.trans (toList_loop t.toUTF8 0 []))
  exact String.toByteArray_inj.mp (ByteArray.ext (Array.toList_inj.mp hdata))

namespace DocumentKind

/-- Kinds have different tags. -/
private theorem tag_injective : Function.Injective tag := by
  intro k k' h
  cases k <;> cases k' <;> simp [tag] at h ⊢

private theorem fits_tag (k : DocumentKind) : (Fingerprint.Part.text k.tag).Fits := by
  cases k <;> decide +kernel

end DocumentKind

/-! ### What is hashed -/

namespace FileKey

/-- What the key of a file is hashed from. -/
def parts (k : FileKey) : List Fingerprint.Part :=
  [.integer k.modified.toNat, .text k.path.text, .text k.kind.tag]

/-- The bytes that are hashed. -/
def stream (k : FileKey) : List UInt8 := Fingerprint.stream k.parts

private theorem fingerprint_eq (k : FileKey) : k.fingerprint = .ofBytes k.stream := rfl

/-- There is room for the time and the path. -/
structure Fits (k : FileKey) : Prop where
  modified : k.modified.toNat < 2 ^ 128
  path : (utf8Bytes k.path.text).length < 2 ^ 64

/-- The same path is read in the same way and was modified at the same time, counted from the
epoch. -/
structure Same (k k' : FileKey) : Prop where
  modified : k.modified.toNat = k'.modified.toNat
  path : k.path = k'.path
  kind : k.kind = k'.kind

variable {k k' : FileKey}

private theorem Fits.parts (h : k.Fits) : ∀ p ∈ k.parts, p.Fits := by
  simp only [FileKey.parts, List.forall_mem_cons, List.not_mem_nil, false_imp_iff, implies_true,
    and_true]
  exact ⟨h.modified, h.path, k.kind.fits_tag⟩

/-- The parts of a key have the layout of such keys. -/
private theorem admits_parts (k : FileKey) : Fingerprint.integerFirst.Admits k.parts := by
  simp [parts, Fingerprint.Part.framing, Fingerprint.integerFirst]

/-- What is hashed for a file determines its path, the way it is read and its time. -/
theorem stream_eq_iff (h : k.Fits) (h' : k'.Fits) : k.stream = k'.stream ↔ k.Same k' := by
  constructor
  · intro heq
    have hplain := k.admits_parts.tellsApart k'.admits_parts h.parts h'.parts heq
    simp only [parts, List.map_cons, Fingerprint.Part.plain, List.cons.injEq,
      Fingerprint.Part.integer.injEq, Fingerprint.Part.bytes.injEq] at hplain
    obtain ⟨hmodified, hpath, hkind, -⟩ := hplain
    exact ⟨hmodified, congrArg Path.mk (utf8Bytes_injective hpath),
      DocumentKind.tag_injective (utf8Bytes_injective hkind)⟩
  · intro hsame
    rw [stream, stream, parts, parts, hsame.modified, hsame.path, hsame.kind]

end FileKey

namespace BufferKey

/-- What the key of a buffer is hashed from. -/
def parts (k : BufferKey) : List Fingerprint.Part := [.text k.text, .text k.path.text]

/-- The bytes that are hashed. -/
def stream (k : BufferKey) : List UInt8 := Fingerprint.stream k.parts

private theorem fingerprint_eq (k : BufferKey) : k.fingerprint = .ofBytes k.stream := rfl

/-- There is room for the text and the path. -/
structure Fits (k : BufferKey) : Prop where
  text : (utf8Bytes k.text).length < 2 ^ 64
  path : (utf8Bytes k.path.text).length < 2 ^ 64

variable {k k' : BufferKey}

private theorem Fits.parts (h : k.Fits) : ∀ p ∈ k.parts, p.Fits := by
  simp only [BufferKey.parts, List.forall_mem_cons, List.not_mem_nil, false_imp_iff, implies_true,
    and_true]
  exact ⟨h.text, h.path⟩

private theorem admits_parts (k : BufferKey) :
    Fingerprint.Layout.Admits (fun _ => .lengthPrefixed) k.parts := by
  simp [parts, Fingerprint.Part.framing]

/-- What is hashed for a buffer determines its text and its path. -/
theorem stream_eq_iff (h : k.Fits) (h' : k'.Fits) : k.stream = k'.stream ↔ k = k' := by
  constructor
  · intro heq
    have hplain := k.admits_parts.tellsApart k'.admits_parts h.parts h'.parts heq
    simp only [parts, List.map_cons, Fingerprint.Part.plain, List.cons.injEq,
      Fingerprint.Part.bytes.injEq] at hplain
    obtain ⟨htext, hpath, -⟩ := hplain
    exact congrArg₂ BufferKey.mk (utf8Bytes_injective htext)
      (congrArg Path.mk (utf8Bytes_injective hpath))
  · rintro rfl
    rfl

end BufferKey

/-! ### Shared entries -/

namespace Fingerprint

/-- Two different streams have one hash. -/
def Collide (s t : List UInt8) : Prop := s ≠ t ∧ ofBytes s = ofBytes t

/-- Fingerprints are equal if the bytes are, or if these collide. -/
private theorem ofBytes_eq_iff {s t : List UInt8} :
    ofBytes s = ofBytes t ↔ s = t ∨ Collide s t := by
  constructor
  · intro h
    by_cases heq : s = t
    · exact .inl heq
    · exact .inr ⟨heq, h⟩
  · rintro (rfl | hcollide)
    · rfl
    · exact hcollide.2

end Fingerprint

namespace Service

/-- The cache of buffers or that of files. -/
def cache (s : Service) (isBuffer : Bool) : Cache Record :=
  if isBuffer then s.buffers else s.files

/-- What is remembered for a document is what its cache has at its key. -/
theorem remembered?_of_key? (s : Service) {t : FileTree} {x : Subject} {key : Fingerprint}
    (h : x.key? t = some key) : s.remembered? t x = (s.cache x.isBuffer).entries.find? key := by
  cases x with
  | file path kind =>
    replace h : t.key? path kind = some key := h
    rw [remembered?, h]
    rfl
  | buffer text path =>
    obtain rfl := Option.some.inj h
    rfl

/-- A service with one entry. -/
def holding (isBuffer : Bool) (key : Fingerprint) (record : Record) : Service where
  options := { root := ⟨"/"⟩ }
  files := ⟨if isBuffer then [] else [(key, record)], 1, 0, 0⟩
  buffers := ⟨if isBuffer then [(key, record)] else [], 1, 0, 0⟩
  config := none

private theorem find?_holding (isBuffer isBuffer' : Bool) (key key' : Fingerprint)
    (record : Record) : ((holding isBuffer key record).cache isBuffer').entries.find? key' =
      if isBuffer = isBuffer' ∧ key = key' then some record else none := by
  cases isBuffer <;> cases isBuffer' <;> simp [holding, cache, Table.find?]

end Service

namespace Subject

/-- Whatever a service remembers for the one document, as it is in its tree, it remembers for the
other. -/
def SharesEntry (t : FileTree) (x : Subject) (t' : FileTree) (y : Subject) : Prop :=
  ∀ s : Service, s.remembered? t x = s.remembered? t' y

/-- Documents share an entry if and only if they are kept in one cache and have one key. -/
theorem sharesEntry_iff {t t' : FileTree} {x y : Subject} {key key' : Fingerprint}
    (hx : x.key? t = some key) (hy : y.key? t' = some key') :
    SharesEntry t x t' y ↔ x.isBuffer = y.isBuffer ∧ key = key' := by
  constructor
  · intro h
    -- a service that remembers the first document and nothing else
    have hheld := h (.holding x.isBuffer key .empty)
    rw [Service.remembered?_of_key? _ hx, Service.remembered?_of_key? _ hy, Service.find?_holding,
      Service.find?_holding, if_pos ⟨rfl, rfl⟩] at hheld
    by_contra hne
    rw [if_neg hne] at hheld
    cases hheld
  · rintro ⟨hsort, rfl⟩ s
    rw [s.remembered?_of_key? hx, s.remembered?_of_key? hy, hsort]

end Subject

/-- The file is in the tree, and was modified at the time of the key. -/
def FileKey.IsIn (k : FileKey) (t : FileTree) : Prop :=
  ∃ f, t.file? k.path = some f ∧ f.modified = k.modified

private theorem FileKey.IsIn.key? {k : FileKey} {t : FileTree} (h : k.IsIn t) :
    (Subject.file k.path k.kind).key? t = some k.fingerprint := by
  obtain ⟨f, hf, hmodified⟩ := h
  rw [Subject.key?, FileTree.key?_of_file? hf, File.key_eq_fingerprint, hmodified]

/-- Two files share an entry only for the same path, way of reading and time, or by a collision. -/
theorem FileKey.sharesEntry_iff {k k' : FileKey} (h : k.Fits) (h' : k'.Fits) {t t' : FileTree}
    (ht : k.IsIn t) (ht' : k'.IsIn t') :
    Subject.SharesEntry t (.file k.path k.kind) t' (.file k'.path k'.kind) ↔
      k.Same k' ∨ Fingerprint.Collide k.stream k'.stream := by
  rw [Subject.sharesEntry_iff ht.key? ht'.key?, k.fingerprint_eq, k'.fingerprint_eq,
    Fingerprint.ofBytes_eq_iff, stream_eq_iff h h']
  exact and_iff_right rfl

/-- Two buffers share an entry only for the same text and path, or by a collision. -/
theorem BufferKey.sharesEntry_iff {k k' : BufferKey} (h : k.Fits) (h' : k'.Fits)
    (t t' : FileTree) :
    Subject.SharesEntry t (.buffer k.text k.path) t' (.buffer k'.text k'.path) ↔
      k = k' ∨ Fingerprint.Collide k.stream k'.stream := by
  have hkey : ∀ (b : BufferKey) (t : FileTree),
      (Subject.buffer b.text b.path).key? t = some b.fingerprint := fun _ _ => rfl
  rw [Subject.sharesEntry_iff (hkey k t) (hkey k' t'), k.fingerprint_eq, k'.fingerprint_eq,
    Fingerprint.ofBytes_eq_iff, stream_eq_iff h h']
  exact and_iff_right rfl

/-- **Keys identify what they are made of.** The bytes hashed for a file determine the time at which
it was modified, its path and the way it is read, those hashed for a buffer its text and its path.
So documents that differ in any of these share no entry, unless their streams collide. -/
theorem keys_identify :
    (∀ k k' : FileKey, k.Fits → k'.Fits →
      (k.stream = k'.stream ↔ k.Same k') ∧
      ∀ t t' : FileTree, k.IsIn t → k'.IsIn t' →
        (Subject.SharesEntry t (.file k.path k.kind) t' (.file k'.path k'.kind) ↔
          k.Same k' ∨ Fingerprint.Collide k.stream k'.stream)) ∧
    ∀ k k' : BufferKey, k.Fits → k'.Fits →
      (k.stream = k'.stream ↔ k = k') ∧
      ∀ t t' : FileTree,
        (Subject.SharesEntry t (.buffer k.text k.path) t' (.buffer k'.text k'.path) ↔
          k = k' ∨ Fingerprint.Collide k.stream k'.stream) :=
  ⟨fun _ _ h h' => ⟨FileKey.stream_eq_iff h h', fun _ _ => FileKey.sharesEntry_iff h h'⟩,
    fun _ _ h h' => ⟨BufferKey.stream_eq_iff h h', BufferKey.sharesEntry_iff h h'⟩⟩

namespace Sample

def note : Path := ⟨"/note.js"⟩

/-- A script that was modified at the given time. -/
def noteTree (modified : Int) : FileTree := ⟨[(["note.js"], ⟨some "", modified⟩)], []⟩

/-- A script before and after it is written, and two buffers of which the text of the first ends
with all that is written behind the text of the second. -/
theorem keys_identify_note :
    let k : FileKey := ⟨1, note, .mixin⟩
    let k' : FileKey := ⟨2, note, .mixin⟩
    let b : BufferKey := ⟨"x\x08\x00\x00\x00\x00\x00\x00\x00/note.js", note⟩
    let b' : BufferKey := ⟨"x", note⟩
    (k.Fits ∧ k'.Fits ∧ k.IsIn (noteTree 1) ∧ k'.IsIn (noteTree 2) ∧ b.Fits ∧ b'.Fits) ∧
      k.stream ≠ k'.stream ∧
      ¬ Subject.SharesEntry (noteTree 1) (.file note .mixin) (noteTree 2) (.file note .mixin) ∧
      b.stream ≠ b'.stream ∧
      ¬ Subject.SharesEntry (noteTree 1) (.buffer b.text note) (noteTree 2)
        (.buffer b'.text note) := by
  intro k k' b b'
  have hk : k.Fits := ⟨by decide, by decide +kernel⟩
  have hk' : k'.Fits := ⟨by decide, by decide +kernel⟩
  have hin : k.IsIn (noteTree 1) := ⟨⟨some "", 1⟩, by decide, rfl⟩
  have hin' : k'.IsIn (noteTree 2) := ⟨⟨some "", 2⟩, by decide, rfl⟩
  have hb : b.Fits := ⟨by decide +kernel, by decide +kernel⟩
  have hb' : b'.Fits := ⟨by decide +kernel, by decide +kernel⟩
  have hsame : ¬ k.Same k' := fun h => absurd h.modified (by decide)
  have hne : b ≠ b' := by decide
  have hcollide : ¬ Fingerprint.Collide k.stream k'.stream := fun h =>
    absurd h.2 (by decide +kernel)
  have hcollide' : ¬ Fingerprint.Collide b.stream b'.stream := fun h =>
    absurd h.2 (by decide +kernel)
  obtain ⟨hstream, hshares⟩ := keys_identify.1 k k' hk hk'
  obtain ⟨hstream', hshares'⟩ := keys_identify.2 b b' hb hb'
  refine ⟨⟨hk, hk', hin, hin', hb, hb'⟩, mt hstream.mp hsame, ?_, mt hstream'.mp hne, ?_⟩
  · exact mt (hshares _ _ hin hin').mp (not_or.mpr ⟨hsame, hcollide⟩)
  · exact mt (hshares' _ _).mp (not_or.mpr ⟨hne, hcollide'⟩)

end Sample

end ComponentInsight

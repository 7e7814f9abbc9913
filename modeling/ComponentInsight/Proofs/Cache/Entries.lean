import ComponentInsight.Cache
import Mathlib.Data.List.Perm.Subperm

/-!
# What holds of all entries of a cache

`Cache.All P c` says that every entry of a cache satisfies `P`. Look-ups keep it, whatever they
find, and so does storing a value that satisfies `P`; forgetting entries can only help. It is the
form in which invariants of caches are carried through computations that use the cache themselves,
where a refresh comes in two halves (`Cache.probe`, `Cache.settle`).

A cache whose keys stay within a list that it has room for (`Cache.Within`) forgets nothing: what
was stored once is found until it is replaced (`Cache.Within.find?_insert`).
-/

namespace ComponentInsight

namespace Cache

variable {α : Type} {P : Fingerprint → α → Prop} {c : Cache α} {key : Fingerprint} {v : α}
  {current : α → Bool}

/-- Every entry satisfies `P`. -/
def All (P : Fingerprint → α → Prop) (c : Cache α) : Prop := ∀ e ∈ c.entries, P e.1 e.2

theorem all_empty (capacity : Nat) : All P (empty capacity : Cache α) := by
  simp [All, empty]

theorem all_clear (c : Cache α) : All P c.clear := by
  simp [All, clear]

/-- What holds of all entries holds of one that is found. -/
theorem All.of_find? (h : c.All P) (hv : c.entries.find? key = some v) : P key v :=
  h (key, v) (Table.mem_of_find?_eq_some hv)

private theorem mem_of_mem_without {entries : Table Fingerprint α} {e : Fingerprint × α}
    (h : e ∈ without entries key) : e ∈ entries :=
  (List.mem_filter.mp h).1

theorem All.touch (h : c.All P) : (c.touch key).2.All P := by
  unfold Cache.touch
  cases hv : c.entries.find? key with
  | none => exact h
  | some v =>
    intro e he
    rcases List.mem_cons.mp he with rfl | he
    · exact h.of_find? hv
    · exact h e (mem_of_mem_without he)

/-- An entry that is stored has to have the property; those pushed out do not matter. -/
private theorem All.insert (h : c.All P) (hv : P key v) : (c.insert key v).2.All P := by
  intro e he
  rcases List.mem_cons.mp he with rfl | he
  · exact hv
  · exact h e (mem_of_mem_without (List.mem_of_mem_take he))

/-- A touch tells what is stored at the key. -/
theorem touch_fst (c : Cache α) (key : Fingerprint) : (c.touch key).1 = c.entries.find? key := by
  unfold Cache.touch
  cases c.entries.find? key <;> rfl

/-- A probe yields the stored value if it is current. -/
theorem probe_fst (c : Cache α) (key : Fingerprint) (current : α → Bool) :
    (c.probe key current).1 = (c.entries.find? key).filter current := by
  have hfst := c.touch_fst key
  unfold probe
  rcases htouch : c.touch key with ⟨_ | v, c'⟩
  · simp [← hfst, htouch]
  · cases hv : current v <;> simp [← hfst, htouch, hv, Option.filter]

/-- The entries after a probe are those after a touch. -/
theorem probe_entries (c : Cache α) (key : Fingerprint) (current : α → Bool) :
    (c.probe key current).2.entries = (c.touch key).2.entries := by
  unfold probe
  rcases c.touch key with ⟨_ | v, c'⟩
  · rfl
  · dsimp only
    split <;> rfl

/-- A probe keeps what holds of all entries. -/
theorem All.probe (h : c.All P) : (c.probe key current).2.All P := by
  unfold All
  rw [probe_entries]
  exact h.touch

theorem All.of_probe_eq (h : c.All P) {found : Option α} {c' : Cache α}
    (hprobe : c.probe key current = (found, c')) : c'.All P := by
  have hprobed : (c.probe key current).2.All P := h.probe
  rwa [hprobe] at hprobed

/-- An answer from a cache has the property of its entries, and is current. -/
theorem All.of_probe (h : c.All P) (hv : (c.probe key current).1 = some v) :
    P key v ∧ current v = true := by
  rw [probe_fst, Option.filter_eq_some_iff] at hv
  exact ⟨h.of_find? hv.1, hv.2⟩

/-- Settling stores the value, or keeps a current one that is there already. -/
theorem settle_cases (c : Cache α) (key : Fingerprint) (current : α → Bool) (v : α) :
    c.settle key current v = (v, ((c.touch key).2.insert key v).2) ∨
      ∃ existing, c.entries.find? key = some existing ∧ current existing = true ∧
        c.settle key current v = (existing, (c.touch key).2) := by
  have hfst := c.touch_fst key
  unfold settle
  rcases htouch : c.touch key with ⟨_ | existing, c'⟩
  · exact .inl rfl
  · cases hcurrent : current existing
    · exact .inl (by simp [hcurrent])
    · exact .inr ⟨existing, by rw [← hfst, htouch], hcurrent, by simp [hcurrent]⟩

/-- Settling on a value keeps what holds of all entries, if it holds of the value. -/
theorem All.settle (h : c.All P) (hv : P key v) : (c.settle key current v).2.All P := by
  rcases c.settle_cases key current v with heq | ⟨existing, -, -, heq⟩
  · rw [heq]
    exact h.touch.insert hv
  · rw [heq]
    exact h.touch

/-- The value that counts after settling is the given one or one that is current. -/
theorem All.of_settle (h : c.All P) :
    (c.settle key current v).1 = v ∨
      P key (c.settle key current v).1 ∧ current (c.settle key current v).1 = true := by
  rcases c.settle_cases key current v with heq | ⟨existing, hfind, hcurrent, heq⟩
  · exact .inl (by rw [heq])
  · rw [heq]
    exact .inr ⟨h.of_find? hfind, hcurrent⟩

/-- Settling keeps a current value. -/
theorem settle_of_current {u : α} (hu : c.entries.find? key = some u)
    (hcurrent : current u = true) :
    c.settle key current v = (u, (c.touch key).2) := by
  have hfst := c.touch_fst key
  unfold settle
  rcases htouch : c.touch key with ⟨_ | existing, c'⟩
  · rw [htouch, hu] at hfst
    cases hfst
  · rw [htouch, hu] at hfst
    obtain rfl := Option.some.inj hfst
    simp [hcurrent]

/-- Without an entry, the other keys keep their order. -/
theorem keys_without (entries : Table Fingerprint α) (key : Fingerprint) :
    (without entries key).keys = entries.keys.filter fun k => k != key := by
  simp only [without, Table.keys, List.filter_map]
  rfl

/-- The keys stay different when one of them is put in front. -/
theorem nodup_cons_without {entries : Table Fingerprint α} (h : entries.keys.Nodup)
    (key : Fingerprint) : (key :: (without entries key).keys).Nodup := by
  rw [keys_without]
  exact List.nodup_cons.mpr ⟨by simp, h.filter _⟩

/-! ### What else is changed -/

/-- A touch changes the entries only. -/
theorem touch_snd (c : Cache α) (key : Fingerprint) :
    (c.touch key).2 = { c with entries := (c.touch key).2.entries } := by
  unfold touch
  cases c.entries.find? key <;> rfl

/-- Settling changes the entries only. -/
theorem settle_snd (c : Cache α) (key : Fingerprint) (current : α → Bool) (v : α) :
    (c.settle key current v).2 =
      { c with entries := (c.settle key current v).2.entries } := by
  rcases c.settle_cases key current v with heq | ⟨_, _, _, heq⟩
  · rw [heq, touch_snd]
    rfl
  · rw [heq]
    exact c.touch_snd key

/-- A current value that is found is a hit. -/
theorem probe_snd_of_some (hv : (c.probe key current).1 = some v) :
    (c.probe key current).2 = (c.touch key).2.hit := by
  rcases htouch : c.touch key with ⟨_ | v', c'⟩
  · simp [probe, htouch] at hv
  · cases hcurrent : current v'
    · simp [probe, htouch, hcurrent] at hv
    · simp [probe, htouch, hcurrent]

/-- All else is a miss. -/
theorem probe_snd_of_none (hv : (c.probe key current).1 = none) :
    (c.probe key current).2 = (c.touch key).2.miss := by
  rcases htouch : c.touch key with ⟨_ | v', c'⟩
  · simp [probe, htouch]
  · cases hcurrent : current v'
    · simp [probe, htouch, hcurrent]
    · simp [probe, htouch, hcurrent] at hv

/-! ### Finding what was stored -/

/-- Other entries are found as before when one is taken out. -/
theorem find?_without (entries : Table Fingerprint α) {k : Fingerprint} (hk : k ≠ key) :
    (without entries key).find? k = entries.find? k := by
  induction entries with
  | nil => rfl
  | cons e rest ih =>
    obtain ⟨k', v⟩ := e
    by_cases hkey : k' = key
    · have hne : k' ≠ k := fun h => hk (h ▸ hkey)
      simpa [without, hkey, Table.find?, hkey ▸ hne] using ih
    · by_cases heq : k' = k
      · simp [without, Table.find?, heq, hk]
      · simpa [without, hkey, Table.find?, heq] using ih

/-- A touch does not change what is stored where. -/
theorem find?_touch (c : Cache α) (key k : Fingerprint) :
    (c.touch key).2.entries.find? k = c.entries.find? k := by
  unfold touch
  cases hv : c.entries.find? key with
  | none => rfl
  | some v =>
    by_cases hk : key = k
    · simp [Table.find?, hk, ← hv]
    · simp [Table.find?, hk, find?_without c.entries (Ne.symm hk)]

/-- A probe does not change what is stored where. -/
theorem find?_probe (c : Cache α) (key k : Fingerprint) (current : α → Bool) :
    (c.probe key current).2.entries.find? k = c.entries.find? k := by
  rw [probe_entries, find?_touch]

/-! ### Keys that are absent -/

/-- A key is absent exactly if all entries have other keys. -/
theorem contains_eq_false_iff : c.contains key = false ↔ c.All fun k _ => k ≠ key := by
  rw [contains, ← Bool.not_eq_true, Table.isSome_find?, Table.keys, List.mem_map]
  simp only [All, not_exists, not_and, ne_eq]

/-- Looking for an absent key is a miss and nothing else. -/
theorem probe_of_absent (h : c.contains key = false) (current : α → Bool) :
    c.probe key current = (none, c.miss) := by
  have hfind : c.entries.find? key = none := by simpa [contains] using h
  simp [probe, touch, hfind]

/-- What is stored under an absent key counts. -/
theorem settle_fst_of_absent (h : c.contains key = false) (current : α → Bool) (v : α) :
    (c.settle key current v).1 = v := by
  have hfind : c.entries.find? key = none := by simpa [contains] using h
  simp [settle, touch, hfind]

/-! ### The entry used last -/

/-- The value at the key is the one used last. -/
def InFront (key : Fingerprint) (v : α) (c : Cache α) : Prop :=
  ∃ others : Table Fingerprint α, c.entries = (key, v) :: others ∧ key ∉ others.keys

private theorem notMem_keys_without (entries : Table Fingerprint α) (key : Fingerprint) :
    key ∉ (without entries key).keys := by
  simp [keys_without]

private theorem without_of_notMem {entries : Table Fingerprint α} (h : key ∉ entries.keys) :
    without entries key = entries := by
  refine List.filter_eq_self.mpr fun e he => ?_
  have hne : e.1 ≠ key := fun heq => h (List.mem_map.mpr ⟨e, he, heq⟩)
  simpa using hne

private theorem inFront_touch (hv : c.entries.find? key = some v) :
    (c.touch key).2.InFront key v := by
  unfold touch
  rw [hv]
  exact ⟨_, rfl, notMem_keys_without c.entries key⟩

private theorem inFront_insert (c : Cache α) (key : Fingerprint) (v : α) :
    (c.insert key v).2.InFront key v := by
  refine ⟨_, rfl, fun hmem => notMem_keys_without c.entries key ?_⟩
  exact (List.Sublist.map _ (List.take_sublist _ _)).subset hmem

/-- A probe that answers leaves its entry in front. -/
theorem inFront_probe (hv : (c.probe key current).1 = some v) :
    (c.probe key current).2.InFront key v := by
  rw [probe_fst, Option.filter_eq_some_iff] at hv
  rw [InFront, probe_entries]
  exact inFront_touch hv.1

/-- What is settled on stands in front. -/
theorem inFront_settle (c : Cache α) (key : Fingerprint) (current : α → Bool) (v : α) :
    (c.settle key current v).2.InFront key (c.settle key current v).1 := by
  rcases c.settle_cases key current v with heq | ⟨existing, hfind, -, heq⟩
  · rw [heq]
    exact inFront_insert _ key v
  · rw [heq]
    exact inFront_touch hfind

namespace InFront

/-- What stands in front is found. -/
theorem find? (h : c.InFront key v) : c.entries.find? key = some v := by
  obtain ⟨others, hentries, -⟩ := h
  simp [hentries, Table.find?]

/-- The entry used last stays where it is when it is used again. -/
private theorem touch_eq (h : c.InFront key v) : c.touch key = (some v, c) := by
  obtain ⟨others, hentries, hothers⟩ := id h
  have hwithout : without c.entries key = others := by
    rw [hentries, without, List.filter_cons_of_neg (by simp)]
    exact without_of_notMem hothers
  unfold touch
  rw [h.find?, hwithout]
  dsimp only
  rw [← hentries]

/-- A probe for the entry used last is a hit and nothing else. -/
theorem probe_eq (h : c.InFront key v) (hcurrent : current v = true) :
    c.probe key current = (some v, c.hit) := by
  simp [Cache.probe, h.touch_eq, hcurrent]

end InFront

/-! ### Caches with enough room -/

/-- The keys of a cache are all different and in a list that the cache has room for. -/
structure Within (keys : List Fingerprint) (c : Cache α) : Prop where
  nodup : c.entries.keys.Nodup
  subset : c.entries.keys ⊆ keys
  room : keys.length ≤ c.capacity

namespace Within

variable {keys : List Fingerprint}

theorem empty {capacity : Nat} (h : keys.length ≤ max capacity 1) :
    (Cache.empty capacity : Cache α).Within keys where
  nodup := by simp [Cache.empty, Table.keys]
  subset := by simp [Cache.empty, Table.keys]
  room := h

/-- A key in front of the other ones. -/
private theorem cons_without (h : c.Within keys) (hkey : key ∈ keys) :
    (key :: (without c.entries key).keys).Nodup ∧ key :: (without c.entries key).keys ⊆ keys := by
  refine ⟨nodup_cons_without h.nodup key, List.cons_subset.mpr ⟨hkey, fun k hk => ?_⟩⟩
  rw [keys_without] at hk
  exact h.subset (List.mem_of_mem_filter hk)

private theorem touch (h : c.Within keys) : (c.touch key).2.Within keys := by
  unfold Cache.touch
  cases hv : c.entries.find? key with
  | none => exact h
  | some v =>
    have hkey : key ∈ keys :=
      h.subset (List.mem_map.mpr ⟨(key, v), Table.mem_of_find?_eq_some hv, rfl⟩)
    exact ⟨(h.cons_without hkey).1, (h.cons_without hkey).2, h.room⟩

/-- No other entry is forgotten when a value is stored. -/
private theorem insert_eq (h : c.Within keys) (hkey : key ∈ keys) :
    (c.insert key v).2 = { c with entries := (key, v) :: without c.entries key } := by
  obtain ⟨hnodup, hsubset⟩ := h.cons_without hkey
  have hlength : (without c.entries key).length + 1 ≤ keys.length := by
    simpa [Table.keys] using (List.subperm_of_subset hnodup hsubset).length_le
  have htake : (without c.entries key).take (c.capacity - 1) = without c.entries key := by
    have := h.room
    exact List.take_of_length_le (by omega)
  simp only [Cache.insert, htake]

/-- Storing an entry adds no key but its own. -/
private theorem insert (h : c.Within keys) (hkey : key ∈ keys) :
    (c.insert key v).2.Within keys := by
  rw [h.insert_eq hkey]
  exact ⟨(h.cons_without hkey).1, (h.cons_without hkey).2, h.room⟩

/-- What was stored elsewhere is still there after a value is stored. -/
theorem find?_insert (h : c.Within keys) (hkey : key ∈ keys) (k : Fingerprint) :
    (c.insert key v).2.entries.find? k = if key = k then some v else c.entries.find? k := by
  rw [h.insert_eq hkey]
  by_cases hk : key = k
  · simp [Table.find?, hk]
  · simp [Table.find?, hk, find?_without c.entries (Ne.symm hk)]

/-- A probe adds no key. -/
theorem probe (h : c.Within keys) : (c.probe key current).2.Within keys := by
  have htouch : (c.touch key).2.Within keys := h.touch
  unfold Cache.probe
  rcases hpair : c.touch key with ⟨_ | v, c'⟩
  · rw [hpair] at htouch
    exact ⟨htouch.nodup, htouch.subset, htouch.room⟩
  · rw [hpair] at htouch
    dsimp only
    split
    · exact ⟨htouch.nodup, htouch.subset, htouch.room⟩
    · exact ⟨htouch.nodup, htouch.subset, htouch.room⟩

/-- Settling adds no key but its own. -/
theorem settle (h : c.Within keys) (hkey : key ∈ keys) :
    (c.settle key current v).2.Within keys := by
  rcases c.settle_cases key current v with heq | ⟨existing, -, -, heq⟩
  · rw [heq]
    exact h.touch.insert hkey
  · rw [heq]
    exact h.touch

/-- Settling forgets no key and adds the one that is settled. -/
theorem mem_keys_settle (h : c.Within keys) (hkey : key ∈ keys) (k : Fingerprint) :
    k ∈ (c.settle key current v).2.entries.keys ↔ k ∈ c.entries.keys ∨ k = key := by
  simp only [← Table.isSome_find?]
  rcases c.settle_cases key current v with heq | ⟨existing, hfind, -, heq⟩
  · rw [heq, h.touch.find?_insert hkey, find?_touch]
    by_cases hk : key = k
    · simp [hk]
    · simp [hk, Ne.symm hk]
  · rw [heq, find?_touch]
    refine ⟨.inl, ?_⟩
    rintro (hk | rfl)
    · exact hk
    · rw [hfind]
      rfl

/-- A current value survives settling at any key. -/
theorem exists_current_settle (h : c.Within keys) (hkey : key ∈ keys) {k : Fingerprint}
    (hk : ∃ u, c.entries.find? k = some u ∧ current u = true) :
    ∃ u, (c.settle key current v).2.entries.find? k = some u ∧ current u = true := by
  obtain ⟨u, hu, hcurrent⟩ := hk
  refine ⟨u, ?_, hcurrent⟩
  by_cases heq : key = k
  · subst heq
    rw [settle_of_current hu hcurrent, find?_touch, hu]
  · rcases c.settle_cases key current v with hsettle | ⟨existing, -, -, hsettle⟩
    · rw [hsettle, h.touch.find?_insert hkey, if_neg heq, find?_touch, hu]
    · rw [hsettle, find?_touch, hu]

/-- A current value that is settled is found, or another one that is current. -/
theorem exists_current_settle_self (h : c.Within keys) (hkey : key ∈ keys)
    (hv : current v = true) :
    ∃ u, (c.settle key current v).2.entries.find? key = some u ∧ current u = true := by
  rcases c.settle_cases key current v with hsettle | ⟨existing, hfind, hcurrent, hsettle⟩
  · exact ⟨v, by rw [hsettle, h.touch.find?_insert hkey, if_pos rfl], hv⟩
  · exact ⟨existing, by rw [hsettle, find?_touch, hfind], hcurrent⟩

end Within

end Cache

end ComponentInsight

import ComponentInsight.Import.AliasTable
import ComponentInsight.Proofs.Table
import Mathlib.Data.List.Sort

/-!
# The alias that fits

A table of aliases is merged from those of the editor settings and those of the project, sorted by
the length of the prefix in bytes, and searched for the first entry that fits. What comes out is
told without any of that:

* **Choice** (`AliasTable.lookup?_merged_eq_some_iff`): the alias that fits is the longest one that
  does. Of prefixes of one text the one with more bytes has more characters, and no two are of one
  length, so there is never a choice to make.
* **Precedence** (`AliasTable.find?_table`): the root is the one the project gives, and the one of
  the settings if it gives none.

So the order of the entries does not matter (`AliasTable.lookup?_merged_of_maps`).
-/

namespace ComponentInsight

namespace AliasTable

variable {settings project : Aliases} {key root text : String}

/-! ### Entries from long to short -/

/-- Of two prefixes of one text, one with fewer bytes or as many has fewer characters, or it is the
other one. -/
private theorem length_lt_of_isPrefix {a b text : String} (ha : a.toList <+: text.toList)
    (hb : b.toList <+: text.toList) (hsize : a.utf8ByteSize ≤ b.utf8ByteSize) (hne : a ≠ b) :
    a.length < b.length := by
  by_contra hlength
  have hba : b.toList <+: a.toList := by
    refine List.prefix_of_prefix_length_le hb ha ?_
    rw [String.length_toList, String.length_toList]
    omega
  obtain ⟨cs, hcs⟩ := hba
  obtain rfl : a = b ++ String.ofList cs := by
    rw [← String.toList_inj, String.toList_append, String.toList_ofList, hcs]
  rw [String.utf8ByteSize_append] at hsize
  have hempty : String.ofList cs = "" := String.utf8ByteSize_eq_zero_iff.mp (by omega)
  rw [hempty, String.append_empty] at hne
  exact hne rfl

/-- The entries of a table go from longer keys to shorter ones. -/
private theorem pairwise_sortByLength (entries : List (String × String)) :
    (sortByLength entries).Pairwise fun a b => b.1.utf8ByteSize ≤ a.1.utf8ByteSize := by
  have hsorted : (sortByLength entries).Pairwise fun a b =>
      decide (b.1.utf8ByteSize ≤ a.1.utf8ByteSize) = true := by
    apply List.pairwise_mergeSort
    · intro a b c hab hbc
      simp only [decide_eq_true_eq] at *
      omega
    · intro a b
      simp only [Bool.or_eq_true, decide_eq_true_eq]
      omega
  exact hsorted.imp of_decide_eq_true

/-- The alias that is found is in the table and fits. -/
private theorem mem_and_isPrefix_of_lookup? {t : AliasTable} {found : String × String}
    (h : t.lookup? text = some found) : found ∈ t.entries ∧ found.1.toList <+: text.toList :=
  ⟨List.mem_of_find?_eq_some h, List.isPrefixOf_iff_prefix.mp
    (List.find?_some (p := fun e : String × String => e.1.toList.isPrefixOf text.toList) h)⟩

/-- Nothing is found if nothing fits. -/
theorem lookup?_eq_none_iff {t : AliasTable} :
    t.lookup? text = none ↔ ∀ e ∈ t.entries, ¬ e.1.toList <+: text.toList := by
  simp [lookup?, List.find?_eq_none]

/-- The alias that fits is not shorter than any other one that does. -/
private theorem utf8ByteSize_le_of_lookup? {t : AliasTable} {text : String}
    {found e : String × String}
    (hsorted : t.entries.Pairwise fun a b => b.1.utf8ByteSize ≤ a.1.utf8ByteSize)
    (hfound : t.lookup? text = some found) (he : e ∈ t.entries)
    (hfits : e.1.toList <+: text.toList) : e.1.utf8ByteSize ≤ found.1.utf8ByteSize := by
  obtain ⟨-, before, after, hentries, hbefore⟩ := List.find?_eq_some_iff_append.mp hfound
  rw [hentries] at hsorted he
  rcases List.mem_append.mp he with he | he
  · have hmisfit := hbefore e he
    rw [List.isPrefixOf_iff_prefix.mpr hfits] at hmisfit
    exact absurd hmisfit (by decide)
  · rcases List.mem_cons.mp he with rfl | he
    · exact Nat.le_refl _
    · exact (List.pairwise_cons.mp (List.pairwise_append.mp hsorted).2.1).1 e he

/-! ### Entries that count -/

/-- The aliases that count, by prefix. -/
def table (settings project : Aliases) : Table String String :=
  Table.ofEntries ((settings ++ project).filter fun e => e.1 != "")

/-- Sorting neither adds nor drops entries. -/
private theorem mem_entries_merged {e : String × String} :
    e ∈ (merged settings project).entries ↔ e ∈ table settings project :=
  List.mem_mergeSort

/-- The prefixes that count are those that are not empty. -/
private theorem mem_keys_table :
    key ∈ (table settings project).keys ↔ key ∈ settings.keys ++ project.keys ∧ key ≠ "" := by
  rw [table, Table.ofEntries, Table.keys_putAll, Distinct.mem_addAll]
  simp only [Table.keys, List.map_nil, List.not_mem_nil, false_or, List.mem_map, List.mem_filter,
    ← List.map_append, bne_iff_ne]
  constructor
  · rintro ⟨e, ⟨he, hne⟩, rfl⟩
    exact ⟨⟨e, he, rfl⟩, hne⟩
  · rintro ⟨⟨e, he, rfl⟩, hne⟩
    exact ⟨e, ⟨he, hne⟩, rfl⟩

/-- The root of a prefix is the one the project gives, or else the one of the settings. -/
theorem find?_table (hkey : key ≠ "") : (table settings project).find? key =
    ((Table.ofEntries project).find? key).or ((Table.ofEntries settings).find? key) := by
  have hkeep (entries : Aliases) : (entries.filter fun e => e.1 != "").filterMap
      (fun e => if e.1 = key then some e.2 else none) =
        entries.filterMap fun e => if e.1 = key then some e.2 else none := by
    rw [List.filterMap_filter]
    refine List.filterMap_congr fun e _ => ?_
    by_cases he : e.1 = key
    · simp [he, hkey]
    · simp [he]
  rw [table, Table.find?_ofEntries, Table.find?_ofEntries, Table.find?_ofEntries, hkeep,
    List.filterMap_append, List.getLast?_append]

/-! ### The longest prefix -/

/-- A key that begins a text and is longer than all other keys that do. -/
structure IsLongestPrefix (keys : List String) (text key : String) : Prop where
  mem : key ∈ keys
  ne_empty : key ≠ ""
  fits : key.toList <+: text.toList
  longest : ∀ other ∈ keys, other.toList <+: text.toList → other ≠ key → other.length < key.length

/-- There is only one longest prefix. -/
private theorem IsLongestPrefix.eq {keys : List String} {key' : String}
    (h : IsLongestPrefix keys text key) (h' : IsLongestPrefix keys text key') : key = key' := by
  by_contra hne
  have hlt : key.length < key'.length := h'.longest key h.mem h.fits hne
  have hgt : key'.length < key.length := h.longest key' h'.mem h'.fits (Ne.symm hne)
  omega

private theorem isLongestPrefix_congr {keys keys' : List String} (h : ∀ k, k ∈ keys ↔ k ∈ keys') :
    IsLongestPrefix keys text key ↔ IsLongestPrefix keys' text key where
  mp hl := ⟨(h key).mp hl.mem, hl.ne_empty, hl.fits, fun k hk => hl.longest k ((h k).mpr hk)⟩
  mpr hl := ⟨(h key).mpr hl.mem, hl.ne_empty, hl.fits, fun k hk => hl.longest k ((h k).mp hk)⟩

/-- Nothing is found among merged aliases if no prefix but the empty one fits. -/
private theorem lookup?_merged_eq_none_iff : (merged settings project).lookup? text = none ↔
    ∀ key ∈ settings.keys ++ project.keys, key ≠ "" → ¬ key.toList <+: text.toList := by
  have hentries : (∀ e ∈ (merged settings project).entries, ¬ e.1.toList <+: text.toList) ↔
      ∀ key ∈ (table settings project).keys, ¬ key.toList <+: text.toList := by
    simp only [mem_entries_merged, Table.keys, List.forall_mem_map]
  rw [lookup?_eq_none_iff, hentries]
  simp only [mem_keys_table, and_imp]

/-- What is found among merged aliases is the longest prefix. -/
private theorem isLongestPrefix_of_lookup?_merged
    (h : (merged settings project).lookup? text = some (key, root)) :
    IsLongestPrefix (settings.keys ++ project.keys) text key := by
  obtain ⟨hmem, hfits⟩ := mem_and_isPrefix_of_lookup? h
  obtain ⟨hkey, hne⟩ := mem_keys_table.mp (List.mem_map.mpr ⟨_, mem_entries_merged.mp hmem, rfl⟩)
  refine ⟨hkey, hne, hfits, fun other hother hprefix hother' => ?_⟩
  by_cases hempty : other = ""
  · -- the empty prefix does not count, and it is shorter than every other one
    have hpos : 0 < key.length := Nat.pos_of_ne_zero fun h0 => hne (String.length_eq_zero_iff.mp h0)
    simpa [hempty] using hpos
  · obtain ⟨e, he, rfl⟩ := List.mem_map.mp (mem_keys_table.mpr ⟨hother, hempty⟩)
    have hsize : e.1.utf8ByteSize ≤ key.utf8ByteSize := utf8ByteSize_le_of_lookup?
      (pairwise_sortByLength _) h (mem_entries_merged.mpr he) hprefix
    exact length_lt_of_isPrefix hprefix hfits hsize hother'

/-- The alias that is found among merged ones has the longest prefix, and the root that counts. -/
theorem lookup?_merged_eq_some_iff : (merged settings project).lookup? text = some (key, root) ↔
    IsLongestPrefix (settings.keys ++ project.keys) text key ∧
      (table settings project).find? key = some root := by
  constructor
  · intro h
    have hmem := mem_entries_merged.mp (mem_and_isPrefix_of_lookup? h).1
    exact ⟨isLongestPrefix_of_lookup?_merged h,
      Table.find?_eq_some_of_mem (Table.nodup_keys_ofEntries _) hmem⟩
  · rintro ⟨hlongest, hroot⟩
    cases hfound : (merged settings project).lookup? text with
    | none =>
      exact absurd hlongest.fits
        (lookup?_merged_eq_none_iff.mp hfound key hlongest.mem hlongest.ne_empty)
    | some found =>
      obtain ⟨key', root'⟩ := found
      obtain rfl : key' = key := (isLongestPrefix_of_lookup?_merged hfound).eq hlongest
      have hmem := mem_entries_merged.mp (mem_and_isPrefix_of_lookup? hfound).1
      have hroot' := Table.find?_eq_some_of_mem (Table.nodup_keys_ofEntries _) hmem
      rw [Option.some.inj (hroot'.symm.trans hroot)]

/-- An alias of the project is the one that fits a text if no longer one does. -/
theorem lookup?_merged {settings project : Aliases} {key root text : String}
    (hproject : project.keys.Nodup) (hkey : key ≠ "") (hroot : project.find? key = some root)
    (hfits : key.toList <+: text.toList)
    (hlongest : ∀ a ∈ settings ++ project, key.length < a.1.length → ¬ a.1.toList <+: text.toList) :
    (merged settings project).lookup? text = some (key, root) := by
  have hmem : key ∈ settings.keys ++ project.keys :=
    List.mem_append_right _ ((Table.isSome_find? project key).mp (by simp [hroot]))
  refine lookup?_merged_eq_some_iff.mpr
    ⟨⟨hmem, hkey, hfits, fun other hother hprefix hne => ?_⟩, ?_⟩
  · have hle : other.length ≤ key.length := by
      by_contra hlt
      obtain ⟨a, ha, rfl⟩ : ∃ a ∈ settings ++ project, a.1 = other := by
        simpa [Table.keys, ← List.map_append] using hother
      exact hlongest a ha (by omega) hprefix
    refine lt_of_le_of_ne hle fun hlength => hne ?_
    -- two prefixes of one length are the same
    have hlists : other.toList.length = key.toList.length := by
      rw [String.length_toList, String.length_toList, hlength]
    have hbetween := List.prefix_of_prefix_length_le hprefix hfits hlists.le
    exact String.toList_inj.mp (hbetween.eq_of_length hlists)
  · rw [find?_table hkey, Table.ofEntries_of_nodup hproject, hroot, Option.some_or]

/-! ### Aliases that are maps -/

/-- The root that the project gives for a prefix counts before the one of the settings. -/
private theorem find?_table_of_nodup (hsettings : settings.keys.Nodup)
    (hproject : project.keys.Nodup) (hkey : key ≠ "") :
    (table settings project).find? key = (project.find? key).or (settings.find? key) := by
  rw [find?_table hkey, Table.ofEntries_of_nodup hproject, Table.ofEntries_of_nodup hsettings]

/-- In which order two maps of aliases list their entries does not matter. -/
private theorem lookup?_merged_eq_of_perm {settings' project' : Aliases}
    (hsettings : settings.keys.Nodup)
    (hproject : project.keys.Nodup) (hs : settings'.Perm settings) (hp : project'.Perm project) :
    (merged settings' project').lookup? text = (merged settings project).lookup? text := by
  have hsettings' : settings'.keys.Nodup := (hs.map Prod.fst).nodup_iff.mpr hsettings
  have hproject' : project'.keys.Nodup := (hp.map Prod.fst).nodup_iff.mpr hproject
  have hkeys (k : String) : k ∈ settings'.keys ++ project'.keys ↔
      k ∈ settings.keys ++ project.keys :=
    ((hs.map Prod.fst).append (hp.map Prod.fst)).mem_iff
  have hroots {k : String} (hk : k ≠ "") :
      (table settings' project').find? k = (table settings project).find? k := by
    rw [find?_table_of_nodup hsettings' hproject' hk, find?_table_of_nodup hsettings hproject hk,
      Table.find?_eq_of_perm hsettings' hs, Table.find?_eq_of_perm hproject' hp]
  refine Option.ext fun ⟨key, root⟩ => ?_
  rw [lookup?_merged_eq_some_iff, lookup?_merged_eq_some_iff, isLongestPrefix_congr hkeys]
  exact and_congr_right fun hlongest => by rw [hroots hlongest.ne_empty]

/-- **Choice of an alias.** Of aliases given as two maps the one that fits a text has the longest
prefix of it, in either map, and the root of the project if it has one there. In which order the
maps list their entries does not matter. -/
theorem lookup?_merged_of_maps {settings project : Aliases} (hsettings : settings.keys.Nodup)
    (hproject : project.keys.Nodup) (text : String) :
    ((merged settings project).lookup? text = none ↔
      ∀ key ∈ settings.keys ++ project.keys, key ≠ "" → ¬ key.toList <+: text.toList) ∧
    (∀ key root, (merged settings project).lookup? text = some (key, root) ↔
      IsLongestPrefix (settings.keys ++ project.keys) text key ∧
        (project.find? key).or (settings.find? key) = some root) ∧
    ∀ settings' project' : Aliases, settings'.Perm settings → project'.Perm project →
      (merged settings' project').lookup? text = (merged settings project).lookup? text := by
  refine ⟨lookup?_merged_eq_none_iff, fun key root => ?_, fun _ _ hs hp =>
    lookup?_merged_eq_of_perm hsettings hproject hs hp⟩
  rw [lookup?_merged_eq_some_iff]
  exact and_congr_right fun hlongest => by
    rw [find?_table_of_nodup hsettings hproject hlongest.ne_empty]

/-- The empty prefix does not count, three others fit, and the longest has a root in either map. -/
theorem lookup?_merged_of_maps_icons :
    (merged [("", "all/"), ("@", "src/"), ("@/ü", "old/")]
        [("@/", "lib/"), ("@/ü", "new/")]).lookup? "@/über" = some ("@/ü", "new/") :=
  ((lookup?_merged_of_maps (by decide) (by decide) "@/über").2.1 "@/ü" "new/").mpr
    ⟨⟨by decide, by decide, by decide, by decide⟩, by decide⟩

end AliasTable

end ComponentInsight

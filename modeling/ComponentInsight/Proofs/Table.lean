import ComponentInsight.Table
import Mathlib.Data.List.Induction

/-!
# The laws of ordered tables

What many stores, one after another, leave in a table, said in three ways:

* **Keys** (`Table.keys_putAll`): the new ones are appended, each at its first occurrence. Names
  collected without repetitions are the list without its later repetitions
  (`Distinct.ofList_eq_eraseDups`).
* **Look-up** (`Table.find?_putAll`, `Table.find?_putAllNew`): a look-up is an `Option.or` of what
  is stored and what was there, in one order or the other.
* **Entries** (`Table.mem_of_mem_putAll`): each is an old one or one of those stored.
-/

namespace ComponentInsight

/-! ### Names in order of first occurrence -/

namespace Distinct

variable {α : Type} [DecidableEq α]

@[simp]
theorem mem_add {names : List α} {a b : α} : b ∈ add names a ↔ b ∈ names ∨ b = a := by
  unfold add
  split
  · next ha => exact ⟨.inl, fun h => h.elim id fun hb => hb ▸ ha⟩
  · simp

@[simp]
theorem mem_addAll {names more : List α} {b : α} :
    b ∈ addAll names more ↔ b ∈ names ∨ b ∈ more := by
  induction more generalizing names with
  | nil => simp [addAll]
  | cons a more ih =>
    have hstep : addAll names (a :: more) = addAll (add names a) more := rfl
    rw [hstep, ih, mem_add, List.mem_cons, or_assoc]

private theorem nodup_add {names : List α} (h : names.Nodup) (a : α) : (add names a).Nodup := by
  unfold add
  split
  · exact h
  · next ha =>
    have hcons : (a :: names).Nodup := List.nodup_cons.mpr ⟨ha, h⟩
    exact List.perm_append_singleton a names |>.nodup_iff.mpr hcons

/-- Adding names repeats none. -/
theorem nodup_addAll {names : List α} (h : names.Nodup) (more : List α) :
    (addAll names more).Nodup := by
  induction more generalizing names with
  | nil => exact h
  | cons a more ih => exact ih (nodup_add h a)

/-- Names are added one list after the other. -/
theorem addAll_append (names a b : List α) : addAll names (a ++ b) = addAll (addAll names a) b :=
  List.foldl_append

/-- Collecting names keeps the first of those that are repeated. -/
theorem ofList_eq_eraseDups (names : List α) : ofList names = names.eraseDups := by
  -- the last name is the one added last, so the induction runs from the end of the list
  induction names using List.reverseRecOn with
  | nil => rfl
  | append_singleton names a ih =>
    have hstep : ofList (names ++ [a]) = add (ofList names) a := addAll_append [] names [a]
    rw [hstep, ih, List.eraseDups_append, List.cons_removeAll, List.nil_removeAll]
    by_cases ha : a ∈ names <;> simp [add, ha, List.eraseDups_cons]

/-- A list without its repetitions has the same names. -/
theorem mem_ofList {names : List α} {b : α} : b ∈ ofList names ↔ b ∈ names := by
  simp [ofList]

/-- Of the names that stand at places, collected from place to place, one comes before another if
it stands at a place in front of all of the other's. -/
theorem pairwise_ofList_filterMap_range (at? : Nat → Option α) (n : Nat) :
    (ofList ((List.range n).filterMap at?)).Pairwise fun a b =>
      ∃ i, at? i = some a ∧ ∀ j, at? j = some b → i < j := by
  induction n with
  | zero => exact List.Pairwise.nil
  | succ n ih =>
    rw [List.range_succ, List.filterMap_append]
    cases hlast : at? n with
    | none => simpa [List.filterMap_cons_none hlast] using ih
    | some b =>
      have hstep : ofList ((List.range n).filterMap at? ++ [b]) =
          add (ofList ((List.range n).filterMap at?)) b := addAll_append [] _ [b]
      rw [List.filterMap_cons_some hlast, List.filterMap_nil, hstep, add]
      split
      · exact ih
      · next hnew =>
        refine List.pairwise_append.mpr ⟨ih, List.pairwise_singleton _ _, fun a ha c hc => ?_⟩
        obtain rfl := List.mem_singleton.mp hc
        obtain ⟨i, hi, hat⟩ := List.mem_filterMap.mp (mem_ofList.mp ha)
        refine ⟨i, hat, fun j hj => Nat.lt_of_lt_of_le (List.mem_range.mp hi) ?_⟩
        -- a new name stands at no place that was passed
        refine Nat.le_of_not_lt fun hjn => hnew (mem_ofList.mpr ?_)
        exact List.mem_filterMap.mpr ⟨j, List.mem_range.mpr hjn, hj⟩

end Distinct

namespace Table

variable {κ α : Type} [DecidableEq κ]

/-! ### Keys -/

/-- If every step of many stores appends its key unless it is known, so do all of them. -/
private theorem keys_foldl {store : Table κ α → κ × α → Table κ α}
    (hstore : ∀ t e, keys (store t e) = Distinct.add (keys t) e.1) (t : Table κ α)
    (entries : List (κ × α)) :
    keys (entries.foldl store t) = Distinct.addAll (keys t) (keys entries) := by
  induction entries generalizing t with
  | nil => rfl
  | cons e rest ih =>
    rw [List.foldl_cons, ih, hstore]
    rfl

/-- The keys of many stored entries are appended, each at its first occurrence. -/
theorem keys_putAll (t : Table κ α) (entries : List (κ × α)) :
    keys (t.putAll entries) = Distinct.addAll (keys t) (keys entries) :=
  keys_foldl (fun t e => keys_put t e.1 e.2) t entries

/-- Which values are kept makes no difference to the keys. -/
theorem keys_putAllNew (t : Table κ α) (entries : List (κ × α)) :
    keys (t.putAllNew entries) = Distinct.addAll (keys t) (keys entries) :=
  keys_foldl (fun t e => keys_putNew t e.1 e.2) t entries

/-- A new key goes last. -/
theorem put_of_notMem {t : Table κ α} {k : κ} (h : k ∉ t.keys) (v : α) :
    t.put k v = t ++ [(k, v)] := by
  induction t with
  | nil => rfl
  | cons e rest ih =>
    obtain ⟨hne, hrest⟩ : k ≠ e.1 ∧ k ∉ keys rest := by simpa [keys] using h
    rw [put, if_neg (Ne.symm hne), ih hrest]
    rfl

/-- New keys go last, in order. -/
theorem putAll_of_nodup {t : Table κ α} {entries : List (κ × α)}
    (h : (keys (t ++ entries)).Nodup) : t.putAll entries = t ++ entries := by
  induction entries generalizing t with
  | nil => simp [putAll]
  | cons e rest ih =>
    have hkeys : keys (t ++ e :: rest) = t.keys ++ e.1 :: keys rest := by simp [keys]
    have hnew : e.1 ∉ t.keys := by
      intro hmem
      rw [hkeys] at h
      exact (List.nodup_append.mp h).2.2 _ hmem _ List.mem_cons_self rfl
    have hstep : t.putAll (e :: rest) = (t.put e.1 e.2).putAll rest := rfl
    have happend : t ++ [(e.1, e.2)] ++ rest = t ++ e :: rest := by simp
    rw [hstep, put_of_notMem hnew, ih (by rwa [happend]), happend]

/-- Entries with different keys are a table as they are. -/
theorem ofEntries_of_nodup {entries : List (κ × α)} (h : (keys entries).Nodup) :
    ofEntries entries = entries :=
  putAll_of_nodup (t := []) h

/-- The last of many entries is stored last. -/
theorem putAll_concat (t : Table κ α) (rest : List (κ × α)) (e : κ × α) :
    t.putAll (rest ++ [e]) = (t.putAll rest).put e.1 e.2 := by
  simp [putAll]

/-! ### Look-up -/

/-- A value that is put is found, and other keys as before. -/
theorem find?_put (t : Table κ α) (k x : κ) (v : α) :
    (t.put k v).find? x = if k = x then some v else t.find? x := by
  induction t with
  | nil => rfl
  | cons e rest ih =>
    obtain ⟨k', v'⟩ := e
    by_cases hk : k' = k
    · subst hk
      by_cases hx : k' = x <;> simp [put, find?, hx]
    · by_cases hx : k' = x
      · subst hx
        simp [put, find?, hk, Ne.symm hk]
      · simp [put, find?, hk, hx, ih]

/-- A new value is found unless its key had one. -/
private theorem find?_putNew (t : Table κ α) (k x : κ) (v : α) :
    (t.putNew k v).find? x = (t.find? x).or (if k = x then some v else none) := by
  rw [putNew_eq]
  by_cases hk : k = x
  · subst hk
    split
    · next hknown =>
      obtain ⟨v', hv'⟩ := Option.isSome_iff_exists.mp ((isSome_find? t k).mpr hknown)
      rw [hv', Option.some_or]
    · next hnew =>
      have hnone : t.find? k = none :=
        Option.not_isSome_iff_eq_none.mp (mt (isSome_find? t k).mp hnew)
      rw [find?_put, hnone, if_pos rfl, Option.none_or]
  · rw [if_neg hk, Option.or_none]
    split
    · rfl
    · rw [find?_put, if_neg hk]

/-- Of many stored entries those that were stored count before those that were there. -/
theorem find?_putAll (t : Table κ α) (entries : List (κ × α)) (x : κ) :
    (t.putAll entries).find? x = ((ofEntries entries).find? x).or (t.find? x) := by
  -- the last entry stored decides, so the induction runs from the end of the list
  induction entries using List.reverseRecOn with
  | nil => rfl
  | append_singleton rest e ih =>
    rw [ofEntries, putAll_concat, putAll_concat, find?_put, find?_put, ih]
    split <;> simp [ofEntries]

/-- Of the values stored under a key the last one counts. -/
theorem find?_ofEntries (entries : List (κ × α)) (x : κ) :
    (ofEntries entries).find? x =
      (entries.filterMap fun e => if e.1 = x then some e.2 else none).getLast? := by
  induction entries using List.reverseRecOn with
  | nil => rfl
  | append_singleton rest e ih =>
    have hstep : ofEntries (rest ++ [e]) = (ofEntries rest).put e.1 e.2 := putAll_concat [] rest e
    rw [hstep, find?_put, ih, List.filterMap_append, List.getLast?_append]
    by_cases hx : e.1 = x <;> simp [hx]

/-- Of many entries stored as new those that were there count first. -/
theorem find?_putAllNew (t : Table κ α) (entries : List (κ × α)) (x : κ) :
    (t.putAllNew entries).find? x = (t.find? x).or (find? entries x) := by
  induction entries generalizing t with
  | nil => simp [putAllNew, find?]
  | cons e rest ih =>
    have hstep : t.putAllNew (e :: rest) = (t.putNew e.1 e.2).putAllNew rest := rfl
    rw [hstep, ih, find?_putNew, Option.or_assoc]
    by_cases hx : e.1 = x <;> simp [find?, hx]

/-- Of many tables stored as new, one after another, the first that has a key counts. -/
theorem find?_foldl_putAllNew {β : Type} (f : β → Table κ α) (bs : List β) (t : Table κ α) (x : κ) :
    (bs.foldl (fun t b => t.putAllNew (f b)) t).find? x =
      (t.find? x).or (bs.findSome? fun b => (f b).find? x) := by
  induction bs generalizing t with
  | nil => simp
  | cons b rest ih =>
    rw [List.foldl_cons, ih, find?_putAllNew, Option.or_assoc, List.findSome?_cons]
    cases (f b).find? x <;> simp

/-! ### Entries -/

/-- An entry was there before or is the one put. -/
private theorem mem_of_mem_put {t : Table κ α} {k : κ} {v : α} {e : κ × α} (he : e ∈ t.put k v) :
    e ∈ t ∨ e = (k, v) := by
  induction t with
  | nil => exact .inr (List.mem_singleton.mp he)
  | cons a rest ih =>
    unfold put at he
    split at he <;> rcases List.mem_cons.mp he with rfl | he
    · exact .inr rfl
    · exact .inl (List.mem_cons_of_mem _ he)
    · exact .inl List.mem_cons_self
    · exact (ih he).imp_left (List.mem_cons_of_mem _)

/-- So it is for values put only where there is none. -/
private theorem mem_of_mem_putNew {t : Table κ α} {k : κ} {v : α} {e : κ × α}
    (he : e ∈ t.putNew k v) : e ∈ t ∨ e = (k, v) := by
  rw [putNew_eq] at he
  split at he
  · exact .inl he
  · exact mem_of_mem_put he

omit [DecidableEq κ] in
/-- If every step of many stores adds its entry at most, so do all of them. -/
private theorem mem_of_mem_foldl {store : Table κ α → κ × α → Table κ α}
    (hstore : ∀ t a, ∀ e ∈ store t a, e ∈ t ∨ e = a) {t : Table κ α} {entries : List (κ × α)}
    {e : κ × α} (he : e ∈ entries.foldl store t) : e ∈ t ∨ e ∈ entries := by
  induction entries generalizing t with
  | nil => exact .inl he
  | cons a rest ih =>
    rcases ih he with he | he
    · exact (hstore t a e he).imp_right fun heq => List.mem_cons.mpr (.inl heq)
    · exact .inr (List.mem_cons_of_mem _ he)

/-- The entries of a table in which others are stored are those that were there and those stored. -/
theorem mem_of_mem_putAll {t : Table κ α} {entries : List (κ × α)} {e : κ × α}
    (he : e ∈ t.putAll entries) : e ∈ t ∨ e ∈ entries :=
  mem_of_mem_foldl (fun _ _ _ => mem_of_mem_put) he

/-- The same for entries that are stored as new. -/
theorem mem_of_mem_putAllNew {t : Table κ α} {entries : List (κ × α)} {e : κ × α}
    (he : e ∈ t.putAllNew entries) : e ∈ t ∨ e ∈ entries :=
  mem_of_mem_foldl (fun _ _ _ => mem_of_mem_putNew) he

/-- A table of entries has each key once. -/
theorem nodup_keys_ofEntries (entries : List (κ × α)) : (keys (ofEntries entries)).Nodup := by
  rw [ofEntries, keys_putAll]
  exact Distinct.nodup_addAll List.nodup_nil _

/-- The value under a key of a table without repetitions is the one that is found. -/
theorem find?_eq_some_of_mem {t : Table κ α} (h : t.keys.Nodup) {k : κ} {v : α} (he : (k, v) ∈ t) :
    t.find? k = some v := by
  induction t with
  | nil => cases he
  | cons e rest ih =>
    obtain ⟨hne, hrest⟩ : e.1 ∉ keys rest ∧ (keys rest).Nodup := List.nodup_cons.mp h
    rcases List.mem_cons.mp he with rfl | he
    · simp [find?]
    · have hk : e.1 ≠ k := by
        rintro rfl
        exact hne (List.mem_map.mpr ⟨_, he, rfl⟩)
      simpa [find?, hk] using ih hrest he

/-- In which order a table without repetitions lists its entries does not matter for look-ups. -/
theorem find?_eq_of_perm {t u : Table κ α} (h : t.keys.Nodup) (hperm : t.Perm u) (k : κ) :
    t.find? k = u.find? k := by
  have hu : u.keys.Nodup := (hperm.map Prod.fst).nodup_iff.mp h
  refine Option.ext fun v => ⟨fun hv => ?_, fun hv => ?_⟩
  · exact find?_eq_some_of_mem hu (hperm.mem_iff.mp (mem_of_find?_eq_some hv))
  · exact find?_eq_some_of_mem h (hperm.mem_iff.mpr (mem_of_find?_eq_some hv))

/-- A key under which only one value is stored has this value. -/
theorem find?_ofEntries_of_forall {entries : List (κ × α)} {k : κ} {v : α} (he : (k, v) ∈ entries)
    (honly : ∀ e ∈ entries, e.1 = k → e.2 = v) : (ofEntries entries).find? k = some v := by
  have hkey : k ∈ keys (ofEntries entries) := by
    rw [ofEntries, keys_putAll, Distinct.mem_addAll]
    exact .inr (List.mem_map.mpr ⟨_, he, rfl⟩)
  obtain ⟨v', hv'⟩ := Option.isSome_iff_exists.mp ((isSome_find? _ k).mpr hkey)
  have hstored : (k, v') ∈ entries :=
    (mem_of_mem_putAll (mem_of_find?_eq_some hv')).resolve_left nofun
  obtain rfl : v' = v := honly (k, v') hstored rfl
  exact hv'

end Table

end ComponentInsight

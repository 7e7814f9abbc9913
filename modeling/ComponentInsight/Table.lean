/-!
# Ordered tables

Props, components, aliases and object literals are all maps whose order shows. A `Table` is the
list of its entries in order of first insertion; `put` overwrites a value in place, `putNew` keeps
the value that is already there. `Distinct.add` is the same for a collection of names alone.

Main facts: neither `put` nor `putNew` moves an entry, and both change the keys as `Distinct.add`
does (`Table.keys_put`, `Table.keys_putNew`).
-/

namespace ComponentInsight

namespace Distinct

variable {α : Type} [DecidableEq α]

/-- Append a name unless it is already there. -/
def add (names : List α) (a : α) : List α := if a ∈ names then names else names ++ [a]

/-- Append every name that is not there yet. -/
def addAll (names : List α) (more : List α) : List α := more.foldl add names

/-- The names of a list, each at its first occurrence. -/
def ofList (names : List α) : List α := addAll [] names

end Distinct

/-- A map as the list of its entries, in order of first insertion. -/
abbrev Table (κ α : Type) := List (κ × α)

namespace Table

variable {κ α : Type} [DecidableEq κ]

/-- The keys, in order. -/
def keys (t : Table κ α) : List κ := t.map Prod.fst

/-- The value at a key. -/
def find? (t : Table κ α) (k : κ) : Option α :=
  match t with
  | [] => none
  | (k', v) :: rest => if k' = k then some v else find? rest k

/-- An entry that is found is in the table. -/
theorem mem_of_find?_eq_some {t : Table κ α} {k : κ} {v : α}
    (h : t.find? k = some v) : (k, v) ∈ t := by
  induction t with
  | nil => simp [find?] at h
  | cons e rest ih =>
    obtain ⟨k', v'⟩ := e
    simp only [find?] at h
    split at h
    · simp_all
    · exact List.mem_cons_of_mem _ (ih h)

/-- The keys are what is found. -/
theorem isSome_find? (t : Table κ α) (k : κ) : (t.find? k).isSome ↔ k ∈ t.keys := by
  induction t with
  | nil => simp [find?, keys]
  | cons e rest ih =>
    by_cases he : e.1 = k
    · simp [find?, keys, he]
    · simpa [find?, keys, he, Ne.symm he] using ih

/-- Store a value: a known key keeps its place and gets the new value, a new key goes last. -/
def put (t : Table κ α) (k : κ) (v : α) : Table κ α :=
  match t with
  | [] => [(k, v)]
  | (k', v') :: rest => if k' = k then (k, v) :: rest else (k', v') :: put rest k v

/-- Store a value unless the key is known. -/
def putNew (t : Table κ α) (k : κ) (v : α) : Table κ α :=
  match t with
  | [] => [(k, v)]
  | (k', v') :: rest => if k' = k then (k', v') :: rest else (k', v') :: putNew rest k v

/-- Store every entry in turn; later values win. -/
def putAll (t : Table κ α) (entries : List (κ × α)) : Table κ α :=
  entries.foldl (fun t e => t.put e.1 e.2) t

/-- Store every entry in turn; earlier values win. -/
def putAllNew (t : Table κ α) (entries : List (κ × α)) : Table κ α :=
  entries.foldl (fun t e => t.putNew e.1 e.2) t

/-- The table of a list of entries; a repeated key keeps its first place and its last value. -/
def ofEntries (entries : List (κ × α)) : Table κ α := putAll [] entries

/-- Storing a value appends its key, unless the key is known: no entry is moved. -/
theorem keys_put (t : Table κ α) (k : κ) (v : α) : keys (t.put k v) = Distinct.add (keys t) k := by
  induction t with
  | nil => rfl
  | cons e rest ih =>
    obtain ⟨k', v'⟩ := e
    by_cases hk : k' = k
    · subst hk
      simp [put, keys, Distinct.add]
    · have hadd : Distinct.add (k' :: keys rest) k = k' :: Distinct.add (keys rest) k := by
        by_cases hmem : k ∈ keys rest <;> simp [Distinct.add, hmem, Ne.symm hk]
      simp only [put, hk, if_false]
      exact (congrArg (k' :: ·) ih).trans hadd.symm

/-- A value stored as new is stored, unless the key is known. -/
theorem putNew_eq (t : Table κ α) (k : κ) (v : α) :
    t.putNew k v = if k ∈ keys t then t else t.put k v := by
  induction t with
  | nil => rfl
  | cons e rest ih =>
    obtain ⟨k', v'⟩ := e
    by_cases hk : k' = k
    · simp [putNew, keys, hk]
    · by_cases hmem : k ∈ keys rest
      · have hmem' : k ∈ keys ((k', v') :: rest) := List.mem_cons_of_mem _ hmem
        rw [putNew, if_neg hk, ih, if_pos hmem, if_pos hmem']
      · have hmem' : k ∉ keys ((k', v') :: rest) := fun h =>
          (List.mem_cons.mp h).elim (fun heq => hk heq.symm) hmem
        rw [putNew, if_neg hk, ih, if_neg hmem, if_neg hmem', put, if_neg hk]

/-- Storing a value as new changes the keys as storing it does. -/
theorem keys_putNew (t : Table κ α) (k : κ) (v : α) :
    keys (t.putNew k v) = Distinct.add (keys t) k := by
  rw [putNew_eq]
  split
  · next hknown => exact (if_pos hknown).symm
  · exact keys_put t k v

end Table

end ComponentInsight

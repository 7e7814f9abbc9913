import ComponentInsight.Cache.History
import ComponentInsight.Proofs.Cache.Entries
import Mathlib.Data.Finset.Card
import Mathlib.Data.Finset.Dedup
import Mathlib.Data.Finset.Filter

/-!
# What a cache remembers

A cache is described by the log of the uses its keys were put to. A key is held exactly when it was
stored after the last clearing and fewer other keys than the cache has room for were used since its
own last use; its value is the one stored last (`Cache.remembersRecent`).

The log is compared with the cache through the table `Recency.order`, which arranges all keys of
the log, the one used last in front, and forgets none of them: a cache with room for `c` entries
holds the first `c` of that table (`Follows`). One step of the cache keeps this (`Follows.step`).

The steps are the stretches in which a cache is used without interruption. The two halves of a
refresh are separate steps with judgements of their own, so that a list of steps is any
interleaving of refreshes with the computations inside them; `Cache.trace` lists the steps that a
run of nested operations takes.
-/

namespace ComponentInsight

variable {α : Type}

/-- An uninterrupted use of a cache. -/
inductive CacheStep (α : Type) where
  | get (key : Fingerprint)
  | insert (key : Fingerprint) (value : α)
  /-- The beginning of a refresh. -/
  | probe (key : Fingerprint) (current : α → Bool)
  /-- The end of a refresh whose value has been computed and is to be stored. -/
  | settle (key : Fingerprint) (current : α → Bool) (value : α)
  | contains (key : Fingerprint)
  | clear

/-- Whether a step looks a key up: it is a look-up of its own, or begins a refresh. -/
def CacheStep.isLookup : CacheStep α → Bool
  | .get _ | .probe _ _ => true
  | _ => false

/-- What happened to a key, or to all of them. -/
inductive CacheUse (α : Type) where
  /-- The key was looked up and found. -/
  | found (key : Fingerprint)
  | stored (key : Fingerprint) (value : α)
  | cleared

/-- The key that was used. -/
def CacheUse.key? : CacheUse α → Option Fingerprint
  | .found key | .stored key _ => some key
  | .cleared => none

namespace Cache

/-- The cache after a step. -/
def step (c : Cache α) : CacheStep α → Cache α
  | .get key => (c.get key).2
  | .insert key value => (c.insert key value).2
  | .probe key current => (c.probe key current).2
  | .settle key current value => (c.settle key current value).2
  | .contains _ => c
  | .clear => c.clear

/-- The cache after steps. -/
def after (c : Cache α) (steps : List (CacheStep α)) : Cache α := steps.foldl step c

/-- A key is used by being found. -/
def finds (c : Cache α) (key : Fingerprint) : List (CacheUse α) :=
  if c.contains key then [.found key] else []

/-- The uses a step puts keys to, the last one first. -/
def uses (c : Cache α) : CacheStep α → List (CacheUse α)
  | .get key | .probe key _ => c.finds key
  | .insert key value => [.stored key value]
  | .settle key current value =>
    if (c.entries.find? key).any current then c.finds key
    else .stored key value :: c.finds key
  | .contains _ => []
  | .clear => [.cleared]

/-- The uses of all keys during steps, the last one first. -/
def log (c : Cache α) : List (CacheStep α) → List (CacheUse α)
  | [] => []
  | s :: rest => (c.step s).log rest ++ c.uses s

/-- The steps of a refresh. -/
def refreshTrace (c : Cache α) (key : Fingerprint) (current : α → Bool)
    (compute : Cache α → List (CacheStep α)) (store : Bool) (value : α) : List (CacheStep α) :=
  .probe key current ::
    match c.probe key current with
    | (some _, _) => []
    | (none, c) => compute c ++ if store then [.settle key current value] else []

mutual

/-- The steps that running an operation takes, those of its computation included. -/
def trace (c : Cache α) : CacheAction α → List (CacheStep α)
  | .get key => [.get key]
  | .insert key value => [.insert key value]
  | .getOrInsert key value inside =>
    c.refreshTrace key (fun _ => true) (fun c => traceAll c inside) true value
  | .refresh key value current store inside =>
    c.refreshTrace key current (fun c => traceAll c inside) store value
  | .contains key => [.contains key]
  | .clear => [.clear]
  | .isEmpty | .hitRate => []

/-- The steps that running operations one after another takes. -/
def traceAll (c : Cache α) : List (CacheAction α) → List (CacheStep α)
  | [] => []
  | a :: rest => trace c a ++ traceAll (c.after (trace c a)) rest

end

/-- The number of look-ups counted so far. -/
def lookups (c : Cache α) : Nat := c.hits + c.misses

/-- A look-up is a use that is counted one way or the other. -/
private theorem get_snd (c : Cache α) (key : Fingerprint) :
    (c.get key).2 = (c.touch key).2.hit ∨ (c.get key).2 = (c.touch key).2.miss := by
  unfold get
  rcases c.touch key with ⟨_ | v, c'⟩
  · exact .inr rfl
  · exact .inl rfl

/-- A probe moves its entry to the front and counts. -/
private theorem probe_snd (c : Cache α) (key : Fingerprint) (current : α → Bool) :
    (c.probe key current).2 = (c.touch key).2.hit ∨
      (c.probe key current).2 = (c.touch key).2.miss := by
  cases hv : (c.probe key current).1 with
  | some v => exact .inl (probe_snd_of_some hv)
  | none => exact .inr (probe_snd_of_none hv)

private theorem step_capacity (c : Cache α) (s : CacheStep α) :
    (c.step s).capacity = c.capacity := by
  have hcounted : ∀ (key : Fingerprint) (c' : Cache α),
      c' = (c.touch key).2.hit ∨ c' = (c.touch key).2.miss → c'.capacity = c.capacity := by
    rintro key c' (rfl | rfl) <;> rw [touch_snd] <;> rfl
  cases s with
  | get key => exact hcounted key _ (c.get_snd key)
  | probe key current => exact hcounted key _ (c.probe_snd key current)
  | settle key current v =>
    rw [step, settle_snd]
  | insert key v => rfl
  | contains key => rfl
  | clear => rfl

private theorem after_capacity (c : Cache α) (steps : List (CacheStep α)) :
    (c.after steps).capacity = c.capacity := by
  induction steps generalizing c with
  | nil => rfl
  | cons s rest ih => exact (ih (c.step s)).trans (c.step_capacity s)

/-- The counters count the look-ups. -/
private theorem step_lookups (c : Cache α) (s : CacheStep α) :
    (c.step s).lookups = c.lookups + if s.isLookup then 1 else 0 := by
  have hcounted : ∀ (key : Fingerprint) (c' : Cache α),
      c' = (c.touch key).2.hit ∨ c' = (c.touch key).2.miss → c'.lookups = c.lookups + 1 := by
    rintro key c' (rfl | rfl) <;> rw [touch_snd] <;> simp only [lookups, hit, miss] <;> omega
  cases s with
  | get key => exact hcounted key _ (c.get_snd key)
  | probe key current => exact hcounted key _ (c.probe_snd key current)
  | settle key current v =>
    rw [step, settle_snd]
    rfl
  | insert key v => rfl
  | contains key => rfl
  | clear => rfl

/-- Each lookup is counted once, as a hit or a miss. -/
private theorem after_lookups (c : Cache α) (steps : List (CacheStep α)) :
    (c.after steps).lookups = c.lookups + steps.countP CacheStep.isLookup := by
  induction steps generalizing c with
  | nil => rfl
  | cons s rest ih =>
    change ((c.step s).after rest).lookups = _
    rw [ih, step_lookups, List.countP_cons]
    omega

/-! ### Runs of operations -/

@[simp] theorem after_nil (c : Cache α) : c.after [] = c := rfl

@[simp] theorem after_cons (c : Cache α) (s : CacheStep α) (rest : List (CacheStep α)) :
    c.after (s :: rest) = (c.step s).after rest := rfl

private theorem after_append (c : Cache α) (steps more : List (CacheStep α)) :
    c.after (steps ++ more) = (c.after steps).after more :=
  List.foldl_append

/-- A refresh takes its steps if its computation does. -/
private theorem refreshWith_snd (c : Cache α) (key : Fingerprint) (current : α → Bool)
    {compute : Cache α → List (CacheReport α) × Cache α}
    {steps : Cache α → List (CacheStep α)} (hcompute : ∀ c, (compute c).2 = c.after (steps c))
    (store : Bool) (value : α) :
    (c.refreshWith key current compute store value).2 =
      c.after (c.refreshTrace key current steps store value) := by
  rw [refreshTrace, after_cons, step, refreshWith]
  rcases c.probe key current with ⟨_ | v, c'⟩
  · cases store <;> simp [after_append, hcompute, report, step]
  · rfl

mutual

/-- Running an operation is taking its steps. -/
theorem run_snd (c : Cache α) (action : CacheAction α) :
    (c.run action).2 = c.after (c.trace action) := by
  cases action with
  | getOrInsert key value inside =>
    simp only [run, trace]
    exact c.refreshWith_snd key _ (fun c => runAll_snd c inside) true value
  | refresh key value current store inside =>
    simp only [run, trace]
    exact c.refreshWith_snd key current (fun c => runAll_snd c inside) store value
  | get key => simp [run, trace, report, step]
  | insert key value => simp [run, trace, report, step]
  | contains key => simp [run, trace, report, step]
  | clear => simp [run, trace, report, step]
  | isEmpty => simp [run, trace, report]
  | hitRate => simp [run, trace, report]

/-- Running operations one after another is taking their steps. -/
private theorem runAll_snd (c : Cache α) (actions : List (CacheAction α)) :
    (c.runAll actions).2 = c.after (c.traceAll actions) := by
  cases actions with
  | nil => simp [runAll, traceAll]
  | cons a rest => simp only [runAll, traceAll, after_append, run_snd, runAll_snd]

end

end Cache

namespace Recency

/-- The value stored last at a key, unless the cache was cleared after that. -/
def stored? (key : Fingerprint) : List (CacheUse α) → Option α
  | [] | .cleared :: _ => none
  | .found _ :: older => stored? key older
  | .stored k v :: older => if k = key then some v else stored? key older

/-- The keys used since a key was used last. -/
def usedSince (key : Fingerprint) (log : List (CacheUse α)) : List Fingerprint :=
  (log.takeWhile fun use => use.key? != some key).filterMap CacheUse.key?

/-- All keys stored since the last clearing with their values, the key used last in front. -/
def order : List (CacheUse α) → Table Fingerprint α
  | [] | .cleared :: _ => []
  | .found key :: older =>
    match (order older).find? key with
    | some v => (key, v) :: Cache.without (order older) key
    | none => order older
  | .stored key v :: older => (key, v) :: Cache.without (order older) key

/-- A log in which only stored keys are found. -/
def Sound : List (CacheUse α) → Prop
  | [] => True
  | .found key :: older => (stored? key older).isSome ∧ Sound older
  | _ :: older => Sound older

/-! ### The order of all keys -/

/-- No key of a log is ordered twice. -/
private theorem nodup_keys_order (log : List (CacheUse α)) : (order log).keys.Nodup := by
  induction log with
  | nil => simp [order, Table.keys]
  | cons use older ih =>
    cases use with
    | found key =>
      simp only [order]
      split
      · exact Cache.nodup_cons_without ih _
      · exact ih
    | stored key v => exact Cache.nodup_cons_without ih _
    | cleared => simp [order, Table.keys]

/-- The table of all keys has the value stored last under each of them. -/
private theorem find?_order (key : Fingerprint) (log : List (CacheUse α)) :
    (order log).find? key = stored? key log := by
  induction log with
  | nil => rfl
  | cons use older ih =>
    cases use with
    | found k =>
      simp only [order, stored?]
      split
      case h_1 v hv =>
        by_cases hk : k = key
        · simp [Table.find?, hk, ← ih, ← hv]
        · simp [Table.find?, hk, Cache.find?_without _ (Ne.symm hk), ih]
      case h_2 => exact ih
    | stored k v =>
      by_cases hk : k = key
      · simp [order, stored?, Table.find?, hk]
      · simp [order, stored?, Table.find?, hk, Cache.find?_without _ (Ne.symm hk), ih]
    | cleared => rfl

/-- A key that is found moves to the front. -/
private theorem order_found {key : Fingerprint} {older : List (CacheUse α)} {v : α}
    (hv : stored? key older = some v) :
    order (.found key :: older) = (key, v) :: Cache.without (order older) key := by
  simp only [order, find?_order, hv]

/-! ### The keys in front of a key -/

/-- A list without repetitions up to one of its members, with another one taken out. -/
private theorem toFinset_takeWhile_filter {k key : Fingerprint} (hk : k ≠ key)
    (keys : List Fingerprint) : insert k ((keys.filter (· != k)).takeWhile (· != key)).toFinset =
      insert k (keys.takeWhile (· != key)).toFinset := by
  induction keys with
  | nil => rfl
  | cons a rest ih =>
    by_cases ha : a = k
    · subst ha
      simpa [hk] using ih
    · by_cases hkey : a = key
      · simp [hkey, Ne.symm hk]
      · have hfilter : (a :: rest).filter (· != k) = a :: rest.filter (· != k) :=
          List.filter_cons_of_pos (by simpa using ha)
        have htake : ∀ l : List Fingerprint,
            (a :: l).takeWhile (· != key) = a :: l.takeWhile (· != key) := fun l =>
          List.takeWhile_cons_of_pos (by simpa using hkey)
        rw [hfilter, htake, htake, List.toFinset_cons, List.toFinset_cons, Finset.insert_comm, ih,
          Finset.insert_comm]

/-- A used key moves to the front of the order. -/
private theorem toFinset_takeWhile_cons {k key : Fingerprint} {entries : Table Fingerprint α}
    (v : α) (hk : k ≠ key) :
    ((Table.keys ((k, v) :: Cache.without entries k)).takeWhile (· != key)).toFinset =
      insert k (entries.keys.takeWhile (· != key)).toFinset := by
  change ((k :: (Cache.without entries k).keys).takeWhile (· != key)).toFinset = _
  rw [Cache.keys_without, List.takeWhile_cons_of_pos (by simpa using hk), List.toFinset_cons,
    toFinset_takeWhile_filter hk]

/-- The keys in front of a key are those used since that key was. -/
private theorem toFinset_takeWhile_order {key : Fingerprint} {log : List (CacheUse α)}
    (hlog : Sound log) (hkey : (stored? key log).isSome) :
    ((order log).keys.takeWhile (· != key)).toFinset = (usedSince key log).toFinset := by
  induction log with
  | nil => simp [stored?] at hkey
  | cons use older ih =>
    cases use with
    | found k =>
      obtain ⟨v, hv⟩ := Option.isSome_iff_exists.mp hlog.1
      rw [order_found hv]
      by_cases hk : k = key
      · simp [usedSince, CacheUse.key?, Table.keys, hk]
      · rw [toFinset_takeWhile_cons v hk, ih hlog.2 hkey]
        simp [usedSince, CacheUse.key?, hk]
    | stored k v =>
      by_cases hk : k = key
      · simp [order, usedSince, CacheUse.key?, Table.keys, hk]
      · rw [order, toFinset_takeWhile_cons v hk, ih hlog (by simpa [stored?, hk] using hkey)]
        simp [usedSince, CacheUse.key?, hk]
    | cleared => simp [stored?] at hkey

/-- A member is among the first entries of a list if few others stand in front of it. -/
private theorem mem_take_iff {a : Fingerprint} {l : List Fingerprint} (ha : a ∈ l) (n : Nat) :
    a ∈ l.take n ↔ (l.takeWhile (· != a)).length < n := by
  induction l generalizing n with
  | nil => cases ha
  | cons b rest ih =>
    cases n with
    | zero => simp
    | succ n =>
      by_cases hb : b = a
      · simp [hb]
      · have hrest : a ∈ rest := (List.mem_cons.mp ha).resolve_left (Ne.symm hb)
        simp [hb, Ne.symm hb, ih hrest]

/-- Which keys are among the first ones of the order. -/
private theorem mem_keys_take_order {log : List (CacheUse α)} (hlog : Sound log) (key : Fingerprint)
    (n : Nat) :
    key ∈ Table.keys ((order log).take n) ↔
      (stored? key log).isSome ∧ (usedSince key log).toFinset.card < n := by
  have htake : Table.keys ((order log).take n) = (order log).keys.take n := List.map_take
  have hmem : key ∈ (order log).keys ↔ (stored? key log).isSome := by
    rw [← find?_order, Table.isSome_find?]
  rw [htake, ← hmem]
  constructor
  · intro h
    have hkey := List.mem_of_mem_take h
    refine ⟨hkey, ?_⟩
    rw [← toFinset_takeWhile_order hlog (hmem.mp hkey)]
    exact Nat.lt_of_le_of_lt (List.toFinset_card_le _) ((mem_take_iff hkey n).mp h)
  · rintro ⟨hkey, hcard⟩
    have hnodup : ((order log).keys.takeWhile (· != key)).Nodup :=
      (nodup_keys_order log).sublist (List.takeWhile_sublist _)
    rw [← toFinset_takeWhile_order hlog (hmem.mp hkey), List.toFinset_card_of_nodup hnodup] at hcard
    exact (mem_take_iff hkey n).mpr hcard

/-! ### A cache holds the first keys -/

private theorem find?_of_find?_take {entries : Table Fingerprint α} {key : Fingerprint} {v : α}
    {n : Nat} (hv : Table.find? (entries.take n) key = some v) : entries.find? key = some v := by
  induction entries generalizing n with
  | nil => simp [Table.find?] at hv
  | cons e rest ih =>
    cases n with
    | zero => simp [Table.find?] at hv
    | succ n =>
      by_cases he : e.1 = key
      · simpa [Table.find?, he] using hv
      · simp only [List.take_succ_cons, Table.find?, he, if_false] at hv ⊢
        exact ih hv

/-- Removing a key from the first entries leaves the first entries without that key, except for
one that may have moved up. -/
private theorem take_without_take {entries : Table Fingerprint α} (h : entries.keys.Nodup)
    (key : Fingerprint) (n : Nat) :
    (Cache.without (entries.take n) key).take (n - 1) =
      (Cache.without entries key).take (n - 1) := by
  induction entries generalizing n with
  | nil => simp
  | cons e rest ih =>
    obtain ⟨hmem, hrest⟩ := List.nodup_cons.mp h
    cases n with
    | zero => simp
    | succ n =>
      by_cases he : e.1 = key
      · have hid : ∀ t : Table Fingerprint α, t ⊆ rest → Cache.without t key = t := by
          intro t ht
          refine List.filter_eq_self.mpr fun e' he' => ?_
          have : e'.1 ∈ Table.keys rest := List.mem_map_of_mem (ht he')
          grind
        have hskip : ∀ t, Cache.without (e :: t) key = Cache.without t key := by
          simp [Cache.without, he]
        rw [List.take_succ_cons, hskip, hskip, hid _ (List.take_subset n rest),
          hid _ (List.Subset.refl rest), Nat.add_sub_cancel, List.take_take, Nat.min_self]
      · have hkeep : ∀ t, Cache.without (e :: t) key = e :: Cache.without t key := by
          simp [Cache.without, he]
        rw [List.take_succ_cons, hkeep, hkeep, Nat.add_sub_cancel]
        cases n with
        | zero => rfl
        | succ n => simpa using ih hrest (n + 1)

/-- A key among the first entries gives up its place. -/
private theorem without_take {entries : Table Fingerprint α} (h : entries.keys.Nodup)
    {key : Fingerprint} {n : Nat} (hkey : key ∈ Table.keys (entries.take n)) :
    Cache.without (entries.take n) key = (Cache.without entries key).take (n - 1) := by
  rw [← take_without_take h]
  obtain ⟨e, he, rfl⟩ := List.mem_map.mp hkey
  have hlt : (Cache.without (entries.take n) e.1).length < (entries.take n).length :=
    List.length_filter_lt_length_iff_exists.mpr ⟨e, he, by simp⟩
  have hle := List.length_take_le n entries
  exact (List.take_of_length_le (by omega)).symm

/-- In a list of at most `n + 1` different keys, the key past the first `n` is the last one. -/
private theorem getLast?_eq_some_iff_of_length_le {l : List Fingerprint} (hnodup : l.Nodup)
    {n : Nat} (hlength : l.length ≤ n + 1) (a : Fingerprint) :
    (if n + 1 ≤ l.length then l.getLast? else none) = some a ↔ a ∈ l ∧ a ∉ l.take n := by
  split
  case isTrue hfull =>
    obtain rfl | ⟨front, last, rfl⟩ := List.eq_nil_or_concat l
    · simp at hfull
    · rw [List.concat_eq_append] at *
      have hn : front.length = n := by
        simp only [List.length_append, List.length_singleton] at hlength hfull
        omega
      have hlast : last ∉ front := fun hmem =>
        (List.nodup_append.mp hnodup).2.2 last hmem last (List.mem_singleton_self last) rfl
      simp only [List.getLast?_concat, ← hn, List.take_left, List.mem_append, List.mem_singleton,
        Option.some.injEq]
      grind
  case isFalse hfull =>
    rw [List.take_of_length_le (by omega)]
    simp

end Recency

open Recency

/-- A cache holds the keys used last, as far as it has room for them. -/
structure Follows (log : List (CacheUse α)) (c : Cache α) : Prop where
  entries : c.entries = (order log).take c.capacity
  sound : Sound log
  room : 0 < c.capacity

namespace Follows

variable {log : List (CacheUse α)} {c : Cache α}

private theorem empty (capacity : Nat) : Follows [] (Cache.empty capacity : Cache α) where
  entries := by simp [Cache.empty, order]
  sound := trivial
  room := Nat.lt_of_lt_of_le Nat.one_pos (Nat.le_max_right _ _)

private theorem nodup (h : Follows log c) : c.entries.keys.Nodup := by
  rw [h.entries]
  exact (nodup_keys_order log).sublist ((List.take_sublist _ _).map _)

/-- A held value was stored. -/
private theorem stored?_eq (h : Follows log c) {key : Fingerprint} {v : α}
    (hv : c.entries.find? key = some v) : stored? key log = some v := by
  rw [h.entries] at hv
  rw [← find?_order, find?_of_find?_take hv]

/-- Putting a held key, or a new one, in front of the first entries. -/
private theorem cons_take (h : Follows log c) {key : Fingerprint} {v : α}
    {others : Table Fingerprint α}
    (hothers : others = (Cache.without (order log) key).take (c.capacity - 1)) :
    (key, v) :: others = List.take c.capacity ((key, v) :: Cache.without (order log) key) := by
  obtain ⟨n, hn⟩ := Nat.exists_eq_add_one.mpr h.room
  rw [hothers, hn, List.take_succ_cons, Nat.add_sub_cancel]

/-- A cache that moves an entry to the front follows the log with that use added. -/
private theorem touch (h : Follows log c) (key : Fingerprint) :
    Follows (c.finds key ++ log) (c.touch key).2 := by
  unfold Cache.touch Cache.finds Cache.contains
  cases hv : c.entries.find? key with
  | none => exact h
  | some v =>
    have hstored := h.stored?_eq hv
    have hkey : key ∈ Table.keys ((order log).take c.capacity) := by
      rw [← h.entries, ← Table.isSome_find?, hv]
      rfl
    refine ⟨?_, ⟨Option.isSome_of_eq_some hstored, h.sound⟩, h.room⟩
    change _ = List.take c.capacity (order (.found key :: log))
    rw [order_found hstored]
    exact h.cons_take (by rw [h.entries, without_take (nodup_keys_order log) hkey])

/-- A cache that stores an entry follows the log with that entry added. -/
private theorem insert (h : Follows log c) (key : Fingerprint) (v : α) :
    Follows (.stored key v :: log) (c.insert key v).2 where
  entries := h.cons_take (by rw [h.entries, take_without_take (nodup_keys_order log)])
  sound := h.sound
  room := h.room

/-- Counting a look-up changes nothing else. -/
private theorem counted (h : Follows log c) {c' : Cache α} (hc' : c' = c.hit ∨ c' = c.miss) :
    Follows log c' := by
  rcases hc' with rfl | rfl <;> exact ⟨h.entries, h.sound, h.room⟩

/-- One step of a cache keeps it in line with the log. -/
theorem step (h : Follows log c) (s : CacheStep α) : Follows (c.uses s ++ log) (c.step s) := by
  cases s with
  | get key => exact (h.touch key).counted (c.get_snd key)
  | insert key v => exact h.insert key v
  | probe key current => exact (h.touch key).counted (c.probe_snd key current)
  | settle key current v =>
    simp only [Cache.uses, Cache.step]
    split
    case isTrue hheld =>
      obtain ⟨held, hfind, hcurrent⟩ := (Option.any_eq_true current _).mp hheld
      rw [Cache.settle_of_current hfind hcurrent]
      exact h.touch key
    case isFalse hheld =>
      rcases c.settle_cases key current v with heq | ⟨held, hfind, hcurrent, -⟩
      · rw [heq]
        exact (h.touch key).insert key v
      · exact absurd ((Option.any_eq_true current _).mpr ⟨held, hfind, hcurrent⟩) hheld
  | contains key => exact h
  | clear => exact ⟨by simp [Cache.step, Cache.clear, Cache.uses, order], h.sound, h.room⟩

/-- A run of steps keeps a cache in line with the log. -/
private theorem after (h : Follows log c) (steps : List (CacheStep α)) :
    Follows (c.log steps ++ log) (c.after steps) := by
  induction steps generalizing c log with
  | nil => exact h
  | cons s rest ih =>
    rw [Cache.log, List.append_assoc]
    exact ih (h.step s)

private theorem length_le (h : Follows log c) : c.entries.length ≤ c.capacity := by
  rw [h.entries]
  exact List.length_take_le _ _

/-- What an insertion reports is what it forgets. -/
private theorem insert_fst (h : Follows log c) (key : Fingerprint) (v : α) (other : Fingerprint) :
    (c.insert key v).1 = some other ↔
      other ≠ key ∧ c.contains other = true ∧ (c.insert key v).2.contains other = false := by
  obtain ⟨n, hn⟩ := Nat.exists_eq_add_one.mpr h.room
  have hkeys := Cache.keys_without c.entries key
  have hnodup : (Cache.without c.entries key).keys.Nodup := hkeys ▸ h.nodup.filter _
  have hlength : (Cache.without c.entries key).keys.length ≤ n + 1 := by
    rw [Table.keys, List.length_map, ← hn]
    exact (List.length_filter_le _ _).trans h.length_le
  have hother : other ≠ key ∧ c.contains other = true ↔
      other ∈ (Cache.without c.entries key).keys := by
    rw [hkeys, Cache.contains, Table.isSome_find?]
    simp [and_comm]
  have hleft : other ≠ key → ((c.insert key v).2.contains other = false ↔
      other ∉ (Cache.without c.entries key).keys.take n) := by
    intro hne
    have htake : Table.keys ((Cache.without c.entries key).take n) =
        (Cache.without c.entries key).keys.take n := List.map_take
    rw [Cache.contains, ← Bool.not_eq_true, Table.isSome_find?, ← htake]
    simp [Cache.insert, Table.keys, hn, hne]
  have hfst : (c.insert key v).1 =
      if n + 1 ≤ (Cache.without c.entries key).keys.length then
        (Cache.without c.entries key).keys.getLast? else none := by
    simp only [Cache.insert, hn, Table.keys, List.length_map, List.getLast?_map]
  rw [hfst, getLast?_eq_some_iff_of_length_le hnodup hlength, ← hother]
  constructor
  · rintro ⟨⟨hne, hheld⟩, hout⟩
    exact ⟨hne, hheld, (hleft hne).mpr hout⟩
  · rintro ⟨hne, hheld, hout⟩
    exact ⟨⟨hne, hheld⟩, (hleft hne).mp hout⟩

/-- A key is held if it was stored and few others were used since it was. -/
private theorem contains_iff (h : Follows log c) (key : Fingerprint) :
    c.contains key = true ↔
      (stored? key log).isSome ∧ (usedSince key log).toFinset.card < c.capacity := by
  rw [Cache.contains, Table.isSome_find?, h.entries, mem_keys_take_order h.sound]

end Follows

/-! ### The log tells what is held -/

/-- A cache with room for a number of entries that behaves as the log says. -/
structure LeastRecentlyUsed (room : Nat) (log : List (CacheUse α)) (c : Cache α) : Prop where
  contains_iff : ∀ key, c.contains key = true ↔
    (stored? key log).isSome ∧ (usedSince key log).toFinset.card < room
  value : ∀ key, c.contains key = true → (c.get key).1 = stored? key log
  insert_fst : ∀ key v other, (c.insert key v).1 = some other ↔
    other ≠ key ∧ c.contains other = true ∧ (c.insert key v).2.contains other = false
  size_le : c.size ≤ room

/-- A cache that follows its log keeps what was used last. -/
private theorem Follows.leastRecentlyUsed {log : List (CacheUse α)} {c : Cache α}
    (h : Follows log c) : LeastRecentlyUsed c.capacity log c where
  contains_iff := h.contains_iff
  value := by
    intro key hkey
    obtain ⟨v, hv⟩ := Option.isSome_iff_exists.mp hkey
    have hget : (c.get key).1 = (c.touch key).1 := by
      unfold Cache.get
      rcases c.touch key with ⟨_ | v, c'⟩ <;> rfl
    rw [hget, Cache.touch_fst, hv, h.stored?_eq hv]
  insert_fst := h.insert_fst
  size_le := h.length_le

/-- Whatever is done with a cache that is empty at first, a key is held exactly when it was stored
after the last clearing and fewer other keys than the cache has room for were used since its own
last use; the value is the one stored last, an insertion reports the key it forgets, and every
look-up is counted once. Nested operations are such a run of steps. -/
theorem Cache.leastRecentlyUsed_history (capacity : Nat) :
    (∀ steps : List (CacheStep α),
      LeastRecentlyUsed (max capacity 1) ((empty capacity).log steps)
        ((empty capacity).after steps) ∧
      ((empty capacity).after steps).hits + ((empty capacity).after steps).misses =
        steps.countP CacheStep.isLookup) ∧
    ∀ actions : List (CacheAction α),
      ((empty capacity).runAll actions).2 =
        (empty capacity).after ((empty capacity).traceAll actions) := by
  refine ⟨fun steps => ⟨?_, ?_⟩, fun actions => runAll_snd _ actions⟩
  · have hfollows := (Follows.empty (α := α) capacity).after steps
    rw [List.append_nil] at hfollows
    have hcapacity : ((empty capacity : Cache α).after steps).capacity = max capacity 1 :=
      after_capacity _ steps
    exact hcapacity ▸ hfollows.leastRecentlyUsed
  · have hlookups := (empty capacity : Cache α).after_lookups steps
    simpa [lookups, empty] using hlookups

end ComponentInsight

import ComponentInsight.Proofs.FileTree.Joining
import ComponentInsight.Proofs.FileTree.Rewriting
import Mathlib.Logic.Function.Iterate

/-!
# What normalizing keeps

Following the components of a path comes to climbing a number of directories (`Path.climb`) and then
going down through some names (`Path.descent`), wherever one starts (`Path.foldl_push_eq`). From
this the normal forms can be read off:

* an absolute path is normalized to the root and the names of its descent;
* a relative one to the names of its descent, with a `..` in front if it climbs an odd number of
  directories. A second `..` takes the first one away, as if it were a name.

Normalizing twice is normalizing once (`Path.normalize_normalize`). But a relative path does not
keep its meaning if it climbs more than one directory: `Path.normalize_join_normalize_iff` says from
which directories it still leads where it led before.
-/

namespace ComponentInsight

namespace Path

open FileTree (componentsOf placeOf)

/-! ### Climbing and descending -/

/-- How many directories above its start a path comes. -/
def climb : List Component → Nat
  | [] => 0
  | .up :: rest => climb rest + 1
  | .name _ :: rest => climb rest - 1
  | _ :: rest => climb rest

/-- The names a path goes down through once it has come highest. -/
def descent : List Component → List String
  | [] => []
  | .name s :: rest => if climb rest = 0 then s :: descent rest else descent rest
  | _ :: rest => descent rest

/-- A name on the way down is one of the path. -/
theorem mem_of_mem_descent {cs : List Component} {s : String} (h : s ∈ descent cs) :
    .name s ∈ cs := by
  fun_induction descent cs with
  | case1 => cases h
  | case2 s' rest hclimb ih =>
    rcases List.mem_cons.mp h with rfl | h
    · exact List.mem_cons_self
    · exact List.mem_cons_of_mem _ (ih h)
  | case3 s' rest hclimb ih => exact List.mem_cons_of_mem _ (ih h)
  | case4 c rest _ ih => exact List.mem_cons_of_mem _ (ih h)

/-- Following a path is climbing and then going down. -/
theorem foldl_push_eq {cs : List Component} (h : .root ∉ cs) (stack : List Component) :
    cs.foldl push stack =
      ((descent cs).map .name).reverse ++ (fun s => push s .up)^[climb cs] stack := by
  induction cs generalizing stack with
  | nil => rfl
  | cons c rest ih =>
    have hrest : .root ∉ rest := fun hroot => h (List.mem_cons_of_mem _ hroot)
    rw [List.foldl_cons, ih hrest]
    cases c with
    | root => exact absurd List.mem_cons_self h
    | here => rfl
    | up => rfl
    | name s =>
      cases hclimb : climb rest with
      | zero => simp [descent, climb, hclimb, push]
      | succ n =>
        -- the first step up takes the name away again
        have hup : push (push stack (.name s)) .up = stack := by cases stack <;> rfl
        simp [descent, climb, hclimb, Function.iterate_succ_apply, hup]

/-- Above the place of a directory there is what is left without its last names. -/
theorem iterate_up_componentsOf (place : Place) (n : Nat) :
    (fun s => push s .up)^[n] (componentsOf place).reverse =
      (componentsOf (place.take (place.length - n))).reverse := by
  induction n with
  | zero => simp
  | succ n ih =>
    have hlength : min (place.length - n - 1) (place.length - n) = place.length - (n + 1) := by
      omega
    rw [Function.iterate_succ_apply', ih, FileTree.push_up_componentsOf, List.dropLast_eq_take,
      List.take_take, List.length_take_of_le (Nat.sub_le _ _), hlength]

/-- Above nowhere there is a `..`, and above this nothing again. -/
theorem iterate_up_nil (n : Nat) :
    (fun s => push s .up)^[n] [] = List.replicate (n % 2) .up := by
  induction n with
  | zero => rfl
  | succ n ih =>
    rw [Function.iterate_succ_apply', ih]
    rcases Nat.mod_two_eq_zero_or_one n with h | h
    · rw [h, show (n + 1) % 2 = 1 by omega]
      rfl
    · rw [h, show (n + 1) % 2 = 0 by omega]
      rfl

/-! ### Normal forms -/

/-- A path is absolute if the root is among its components. -/
theorem isAbsolute_iff {p : Path} : p.isAbsolute = true ↔ .root ∈ p.components := by
  have hsteps : Component.root ∉ steps p.text.toList := fun h => by cases isStep_of_mem_steps h
  cases h : p.isAbsolute with
  | true => simp [components_of_isAbsolute h]
  | false =>
    rw [components_of_relative h]
    split <;> simp [hsteps]

/-- The names of an absolute path that are left when it is normalized are its place. -/
theorem normalComponents_of_isAbsolute {p : Path} (h : p.isAbsolute = true) :
    normalComponents p.components = componentsOf (descent p.components) := by
  have hsteps : Component.root ∉ steps p.text.toList := fun h => by cases isStep_of_mem_steps h
  have hroot := iterate_up_componentsOf [] (climb (steps p.text.toList))
  rw [components_of_isAbsolute h, normalComponents, extend, List.reverse_nil, List.foldl_cons,
    foldl_push_eq hsteps]
  simp only [List.take_nil] at hroot
  rw [show push [] .root = (componentsOf []).reverse from rfl, hroot]
  simp [componentsOf, descent]

/-- A relative path is normalized to the names of its descent, and a `..` in front if it climbs an
odd number of directories. -/
theorem normalComponents_of_relative {p : Path} (h : p.isAbsolute = false) :
    normalComponents p.components =
      List.replicate (climb p.components % 2) .up ++ (descent p.components).map .name := by
  have hroot : .root ∉ p.components := fun hroot => by simp [isAbsolute_iff.mpr hroot] at h
  rw [normalComponents, extend, List.reverse_nil, foldl_push_eq hroot, iterate_up_nil]
  simp

private theorem isPlain_of_mem_descent {p : Path} {s : String} (h : s ∈ descent p.components) :
    IsPlain s :=
  (isWritten_components p).isPlain (mem_of_mem_descent h)

private theorem isWritten_normalComponents (p : Path) :
    IsWritten (normalComponents p.components) := by
  have hplain : ∀ s ∈ descent p.components, IsStep (.name s) := fun s hs =>
    .name (isPlain_of_mem_descent hs)
  cases h : p.isAbsolute with
  | true =>
    rw [normalComponents_of_isAbsolute h]
    exact .absolute (by simpa using hplain)
  | false =>
    rw [normalComponents_of_relative h]
    refine .relative fun c hc => ?_
    rcases List.mem_append.mp hc with hc | hc
    · exact List.eq_of_mem_replicate hc ▸ .up
    · obtain ⟨s, hs, rfl⟩ := List.mem_map.mp hc
      exact hplain s hs

/-- A normalized path has the components it is written from. -/
theorem components_normalize (p : Path) : p.normalize.components = normalComponents p.components :=
  (isWritten_normalComponents p).components_ofComponents

/-- Normalizing keeps absolute paths absolute, and relative ones relative. -/
theorem isAbsolute_normalize (p : Path) : p.normalize.isAbsolute = p.isAbsolute := by
  rw [Bool.eq_iff_iff, isAbsolute_iff, components_normalize]
  cases h : p.isAbsolute with
  | true => simp [normalComponents_of_isAbsolute h, componentsOf]
  | false => simp [normalComponents_of_relative h]

/-- Paths are normalized alike if and only if they lead to the same stack. -/
theorem normalize_eq_iff {p q : Path} :
    p.normalize = q.normalize ↔ p.components.foldl push [] = q.components.foldl push [] := by
  refine ⟨fun h => ?_, normalize_eq_of_foldl_push_eq⟩
  have hcomponents := congrArg components h
  rw [components_normalize, components_normalize] at hcomponents
  simpa [normalComponents, extend] using hcomponents

/-- A normal form climbs as it says in front. -/
theorem climb_normal (n : Nat) (names : List String) :
    climb (List.replicate n .up ++ names.map .name) = n := by
  induction n with
  | zero =>
    induction names with
    | nil => rfl
    | cons s rest ih => simpa [climb] using Nat.sub_eq_zero_of_le (Nat.le_succ_of_le ih.le)
  | succ n ih => simp [List.replicate_succ, climb, ih]

/-- A normal form goes down through all its names. -/
theorem descent_normal (n : Nat) (names : List String) :
    descent (List.replicate n .up ++ names.map .name) = names := by
  induction n with
  | zero =>
    induction names with
    | nil => rfl
    | cons s rest ih =>
      have hclimb : climb (rest.map .name) = 0 := climb_normal 0 rest
      simpa [descent, hclimb] using ih
  | succ n ih => simpa [List.replicate_succ, descent] using ih

/-- Of the steps up in front of a relative path, normalizing keeps one if their number is odd, and
none otherwise. -/
private theorem climb_normalize {p : Path} (h : p.isAbsolute = false) :
    climb p.normalize.components = climb p.components % 2 := by
  rw [components_normalize, normalComponents_of_relative h, climb_normal]

/-- Normalizing keeps the names that are left when all steps up are taken. -/
private theorem descent_normalize (p : Path) :
    descent p.normalize.components = descent p.components := by
  rw [components_normalize]
  cases h : p.isAbsolute with
  | true =>
    rw [normalComponents_of_isAbsolute h]
    exact descent_normal 0 _
  | false => rw [normalComponents_of_relative h, descent_normal]

/-- Normalizing once is enough. -/
theorem normalize_normalize (p : Path) : p.normalize.normalize = p.normalize := by
  have hcomponents : normalComponents p.normalize.components = normalComponents p.components := by
    cases h : p.isAbsolute with
    | true =>
      rw [normalComponents_of_isAbsolute (p.isAbsolute_normalize.trans h), descent_normalize,
        normalComponents_of_isAbsolute h]
    | false =>
      rw [normalComponents_of_relative (p.isAbsolute_normalize.trans h), descent_normalize,
        climb_normalize h, Nat.mod_mod, normalComponents_of_relative h]
  exact congrArg ofComponents hcomponents

/-! ### Places -/

/-- The place of an absolute path is told by the names of its descent. -/
theorem placeOf_eq_descent {p : Path} (h : p.isAbsolute = true) :
    placeOf p = descent p.components := by
  rw [placeOf, components_normalize, normalComponents_of_isAbsolute h]
  simp [componentsOf, List.filterMap_map]

/-- An absolute path is normalized to the path of its place. -/
theorem normalComponents_eq_componentsOf {p : Path} (h : p.isAbsolute = true) :
    normalComponents p.components = componentsOf (placeOf p) := by
  rw [placeOf_eq_descent h, normalComponents_of_isAbsolute h]

/-! ### Meaning -/

/-- Where a relative path leads from a directory: up as far as it climbs, and down again. -/
theorem foldl_push_join_of_isAbsolute {b p : Path} (hb : b.isAbsolute = true)
    (hp : p.isAbsolute = false) :
    (b.join p).components.foldl push [] = ((descent p.components).map .name).reverse ++
      (componentsOf ((placeOf b).take ((placeOf b).length - climb p.components))).reverse := by
  have hroot : .root ∉ p.components := fun hroot => by simp [isAbsolute_iff.mpr hroot] at hp
  have hbase : b.components.foldl push [] = (componentsOf (placeOf b)).reverse := by
    rw [← normalComponents_eq_componentsOf hb, normalComponents, extend, List.reverse_nil,
      List.reverse_reverse]
  rw [foldl_push_join b hp, ← foldl_push_components_of_relative hp, hbase, foldl_push_eq hroot,
    iterate_up_componentsOf]

/-- **Meaning.** Normalizing a path before it is followed from a directory makes no difference
exactly if the path is absolute, climbs one directory at most, or climbs so far that the root is
reached either way. A relative path that is normalized begins with one `..` if it has climbed an odd
number of directories, and else with none. -/
theorem normalize_join_normalize_iff {b : Path} (hb : b.isAbsolute = true) (p : Path) :
    ((b.join p.normalize).normalize = (b.join p).normalize ↔
      p.isAbsolute = true ∨ climb p.components ≤ 1 ∨
        (placeOf b).length ≤ climb p.components % 2) ∧
    (p.isAbsolute = false →
      p.normalize.components.count .up = climb p.components % 2) := by
  cases h : p.isAbsolute with
  | true =>
    have h' : p.normalize.isAbsolute = true := p.isAbsolute_normalize.trans h
    simp [join, h, h', normalize_normalize]
  | false =>
    have h' : p.normalize.isAbsolute = false := p.isAbsolute_normalize.trans h
    refine ⟨?_, fun _ => ?_⟩
    · rw [normalize_eq_iff, foldl_push_join_of_isAbsolute hb h', foldl_push_join_of_isAbsolute hb h,
        descent_normalize, climb_normalize h, List.append_cancel_left_eq, List.reverse_inj,
        FileTree.componentsOf_injective.eq_iff, List.take_eq_take_iff, Bool.false_eq_true, false_or]
      -- only the numbers of names that are left are compared
      omega
    · rw [components_normalize, normalComponents_of_relative h, List.count_append,
        List.count_replicate_self, List.count_eq_zero_of_not_mem (by simp), Nat.add_zero]

/-- From a directory right below the root, three `..` lead to the root, and so does the one that is
kept of them. -/
theorem normalize_join_normalize_iff_app :
    (Path.mk "/app").isAbsolute = true ∧
      ((Path.mk "/app").join (Path.mk "x/../../../../y").normalize).normalize =
        ((Path.mk "/app").join ⟨"x/../../../../y"⟩).normalize :=
  ⟨by decide, (normalize_join_normalize_iff (by decide) ⟨"x/../../../../y"⟩).1.mpr (by decide)⟩

/-- Two `..` are normalized to nothing, although they lead from `/src/pages` to the root. -/
theorem normalize_join_normalize_ne :
    ((Path.mk "/src/pages").join (Path.mk "../..").normalize).normalize ≠
      ((Path.mk "/src/pages").join ⟨"../.."⟩).normalize := by
  decide

end Path

end ComponentInsight

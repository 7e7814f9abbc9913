import ComponentInsight.Proofs.FileTree.Components
import Mathlib.Data.List.TakeWhile

/-!
# Joining and normalizing

Normalizing a path pushes its components, one after another, on a stack that holds the path so far.
Most of how a path is written does not matter for that: what is pushed is told by its steps alone
(`Path.steps`), in which repeated separators and every `.` leave no trace.

* **Texts** (`Path.steps_dropSlashes`): separators at the end leave no trace either.
* **Paths** (`Path.foldl_push_components`): the components of a path do to the stack what its
  steps do, above the root if the path is absolute.
* **Joining** (`Path.foldl_push_join`): joining with a relative path goes on from where the first
  path has led.
* **Directories** (`Path.normalize_parent_join`): what is joined to the directory of a path is taken
  from its home.
-/

namespace ComponentInsight

namespace Path

/-! ### Separators at the end -/

/-- A text is what is left without the separators at its end, and these. -/
theorem exists_toList_eq_dropSlashes (s : String) :
    ∃ n, s.toList = (dropSlashes s).toList ++ List.replicate n '/' := by
  refine ⟨(s.toList.reverse.takeWhile (· == '/')).length, ?_⟩
  have hslashes : ∀ c ∈ s.toList.reverse.takeWhile (· == '/'), c = '/' := fun c hc => by
    simpa using List.mem_takeWhile_imp hc
  rw [← List.reverse_inj, List.reverse_append, List.reverse_replicate, dropSlashes,
    String.toList_ofList, List.reverse_reverse, ← List.eq_replicate_of_mem hslashes,
    List.takeWhile_append_dropWhile]

/-- Separators at the end lead nowhere. -/
theorem steps_dropSlashes (s : String) : steps (dropSlashes s).toList = steps s.toList := by
  obtain ⟨n, hn⟩ := exists_toList_eq_dropSlashes s
  rw [hn]
  clear hn
  induction n with
  | zero => simp
  | succ n ih =>
    -- the last separator is cut off
    rw [List.replicate_succ', ← List.append_assoc, steps_append, steps_nil, List.append_nil]
    exact ih

/-- Dropping separators takes away those that were put behind a text. -/
theorem dropSlashes_append {s : String} (h : s.toList.getLast? ≠ some '/') (n : Nat) :
    dropSlashes (s ++ String.ofList (List.replicate n '/')) = s := by
  have hkeep : s.toList.reverse.dropWhile (· == '/') = s.toList.reverse := by
    rw [List.dropWhile_eq_self_iff]
    intro hpos
    rw [List.getLast?_eq_head?_reverse] at h
    simpa [List.head?_eq_getElem?, List.getElem?_eq_getElem hpos] using h
  rw [dropSlashes, String.toList_append, String.toList_ofList, List.reverse_append,
    List.reverse_replicate, List.dropWhile_append_of_pos (by simp), hkeep, List.reverse_reverse,
    String.ofList_toList]

/-- What a text begins with is kept when the separators at its end are dropped. -/
theorem dropSlashes_eq_or_isPrefix {s : String} (front : List Char)
    (hlast : front.getLast? ≠ some '/') (h : front ++ ['/'] <+: s.toList) :
    (dropSlashes s).toList = front ∨ front ++ ['/'] <+: (dropSlashes s).toList := by
  obtain ⟨n, hn⟩ := exists_toList_eq_dropSlashes s
  rw [hn] at h
  rcases List.prefix_or_prefix_of_prefix h (List.prefix_append _ _) with hkept | hshort
  · exact .inr hkept
  rcases List.prefix_concat_iff.mp hshort with heq | ⟨more, rfl⟩
  · exact .inr (heq ▸ List.prefix_refl _)
  · -- only separators are dropped
    rw [List.append_assoc, List.prefix_append_right_inj] at h
    rcases List.eq_nil_or_concat more with rfl | ⟨init, c, rfl⟩
    · exact .inl (List.append_nil _).symm
    · obtain rfl : c = '/' := List.eq_of_mem_replicate (h.subset (by simp))
      simp at hlast

/-- With one separator at its end a text is absolute if it is with its own. -/
theorem head?_dropSlashes_append {s : String} (h : s ≠ "") (cs : List Char) :
    ((dropSlashes s).toList ++ '/' :: cs).head? = s.toList.head? := by
  obtain ⟨n, hn⟩ := exists_toList_eq_dropSlashes s
  rcases hs : (dropSlashes s).toList with _ | ⟨c, rest⟩
  · rw [hs, List.nil_append] at hn
    have hne : s.toList ≠ [] := by simpa using h
    cases n with
    | zero => exact absurd hn hne
    | succ n => simp [hn, List.replicate_succ]
  · simp [hn, hs]

/-! ### The steps of a path -/

private theorem push_here (stack : List Component) : push stack .here = stack := rfl

/-- The components of a relative path do to the stack what its steps do. -/
theorem foldl_push_components_of_relative {p : Path} (h : p.isAbsolute = false)
    (stack : List Component) :
    p.components.foldl push stack = (steps p.text.toList).foldl push stack := by
  rw [components_of_relative h]
  split
  · rw [List.foldl_cons, push_here]
  · rfl

/-- The components of a path do to the empty stack what its steps do, above the root if the path is
absolute. -/
theorem foldl_push_components (p : Path) :
    p.components.foldl push [] =
      (steps p.text.toList).foldl push (if p.isAbsolute then [.root] else []) := by
  cases h : p.isAbsolute with
  | false => exact foldl_push_components_of_relative h []
  | true =>
    rw [components_of_isAbsolute h]
    rfl

/-! ### Joining -/

/-- What joining writes between two paths. -/
def separator (p : Path) : String :=
  if p.text.isEmpty ∨ p.text.toList.getLast? = some '/' then "" else "/"

/-- A slash is put behind a path that does not end with one. -/
theorem separator_eq_slash {p : Path} (hempty : p.text ≠ "")
    (hlast : p.text.toList.getLast? ≠ some '/') : p.separator = "/" :=
  if_neg (by simpa [String.isEmpty_iff] using ⟨hempty, hlast⟩)

/-- Joining with a relative path puts its text behind that of the first path. -/
theorem text_join (p : Path) {q : Path} (hq : q.isAbsolute = false) :
    (p.join q).text = p.text ++ p.separator ++ q.text := by
  rw [join, hq, if_neg Bool.false_ne_true, separator]
  split
  · simp
  · rfl

/-- Joining with nothing writes the separator that the next join needs. -/
theorem join_empty_join (p : Path) {q : Path} (hq : q.isAbsolute = false) :
    (p.join ⟨""⟩).join q = p.join q := by
  have hempty : (p.join ⟨""⟩).text = p.text ++ p.separator := by
    rw [text_join p rfl, String.append_empty]
  have hseparator : (p.join ⟨""⟩).separator = "" := by
    refine if_pos ?_
    rw [hempty, separator]
    split
    · next hend => simpa using hend
    · simp
  have htext : ((p.join ⟨""⟩).join q).text = (p.join q).text := by
    rw [text_join _ hq, text_join p hq, hseparator, hempty, String.append_empty]
  exact congrArg Path.mk htext

/-- Joining with a relative path loses nothing of it. -/
theorem eq_of_join_eq_join {p q q' : Path} (hq : q.isAbsolute = false) (hq' : q'.isAbsolute = false)
    (h : p.join q = p.join q') : q = q' := by
  have htext := congrArg Path.text h
  rw [text_join p hq, text_join p hq', String.append_right_inj] at htext
  exact congrArg Path.mk htext

/-- Joining with a relative path puts its steps behind those of the first path. -/
theorem steps_join (p : Path) {q : Path} (hq : q.isAbsolute = false) :
    steps (p.join q).text.toList = steps p.text.toList ++ steps q.text.toList := by
  unfold join
  rw [hq, if_neg Bool.false_ne_true]
  split
  · next hend =>
    rcases hend with hempty | hslash
    · simp [String.isEmpty_iff.mp hempty]
    · obtain ⟨cs, hcs⟩ := List.getLast?_eq_some_iff.mp hslash
      rw [String.toList_append, hcs, List.append_assoc, List.singleton_append, steps_append,
        steps_append, steps_nil, List.append_nil]
  · simp [steps_append]

/-- Joining a relative path changes nothing about being absolute. -/
theorem isAbsolute_join (p : Path) {q : Path} (hq : q.isAbsolute = false) :
    (p.join q).isAbsolute = p.isAbsolute := by
  unfold join
  rw [hq, if_neg Bool.false_ne_true]
  by_cases hempty : p.text = ""
  · simpa [isAbsolute, hempty] using hq
  · have hne : p.text.toList ≠ [] := by simpa using hempty
    split <;> simp [isAbsolute, List.head?_append_of_ne_nil _ hne]

theorem isAbsolute_join_of_isAbsolute {p : Path} (hp : p.isAbsolute = true) (q : Path) :
    (p.join q).isAbsolute = true := by
  cases hq : q.isAbsolute with
  | true => rwa [join, if_pos hq]
  | false => rw [isAbsolute_join p hq, hp]

/-- Joining with a relative path goes on from where the first path has led. -/
theorem foldl_push_join (p : Path) {q : Path} (hq : q.isAbsolute = false) :
    (p.join q).components.foldl push [] =
      (steps q.text.toList).foldl push (p.components.foldl push []) := by
  rw [foldl_push_components, foldl_push_components, steps_join p hq, isAbsolute_join p hq,
    List.foldl_append]

/-- Paths that lead to the same stack are normalized alike. -/
theorem normalize_eq_of_foldl_push_eq {p q : Path}
    (h : p.components.foldl push [] = q.components.foldl push []) : p.normalize = q.normalize := by
  simp only [normalize, normalComponents, extend, List.reverse_nil, h]

/-! ### Directories -/

/-- The directory a path lies in. -/
def parent (p : Path) : Path := ofComponents p.directory

/-- The parent of a path has the components of its directory. -/
theorem components_parent (p : Path) : p.parent.components = p.directory := by
  refine IsWritten.components_ofComponents ?_
  unfold directory
  split
  · exact .relative (by simp)
  · exact (isWritten_components p).dropLast

/-- What is taken from the home of a path is what is joined to its directory. -/
theorem normalize_parent_join (p : Path) {q : Path} (hq : q.isAbsolute = false) :
    (p.parent.join q).normalize = ofComponents (extend p.home q.components) := by
  rw [normalize, normalComponents, extend, List.reverse_nil, foldl_push_join _ hq,
    ← foldl_push_components_of_relative hq, components_parent, extend, home, normalComponents,
    extend, List.reverse_nil, List.reverse_reverse]

end Path

end ComponentInsight

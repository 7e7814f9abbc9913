import ComponentInsight.Path
import Mathlib.Data.List.Basic

/-!
# The components of a path

A path is a text, and its components are what stands between the separators of that text, without
the empty pieces and every `.` but a leading one (`Path.steps`).

Only some lists are the components of a path: the root or a `.` may come first, and all others are
steps, a `..` or a name that can stand between separators (`Path.IsWritten`). Such a list is found
again in the path written from it (`Path.IsWritten.components_ofComponents`).
-/

namespace ComponentInsight

namespace Path

/-! ### Texts cut at separators -/

private theorem splitSlash_ne_nil (cs : List Char) : splitSlash cs ≠ [] := by
  cases cs with
  | nil => simp [splitSlash]
  | cons c cs =>
    unfold splitSlash
    split
    · simp
    · split <;> simp

/-- What stands between separators holds none. -/
theorem slash_notMem_of_mem_splitSlash {cs piece : List Char} (h : piece ∈ splitSlash cs) :
    '/' ∉ piece := by
  induction cs generalizing piece with
  | nil => simp_all [splitSlash]
  | cons c cs ih =>
    unfold splitSlash at h
    split at h
    · rcases List.mem_cons.mp h with rfl | h
      · simp
      · exact ih h
    · next hc =>
      split at h
      · next hnil => exact absurd hnil (splitSlash_ne_nil cs)
      · next first rest hsplit =>
        rcases List.mem_cons.mp h with rfl | h
        · have hfirst : '/' ∉ first := ih (by simp [hsplit])
          simp [Ne.symm hc, hfirst]
        · exact ih (by simp [hsplit, h])

theorem splitSlash_of_notMem {cs : List Char} (h : '/' ∉ cs) : splitSlash cs = [cs] := by
  induction cs with
  | nil => rfl
  | cons c cs ih =>
    simp only [List.mem_cons, not_or] at h
    obtain ⟨hc, hcs⟩ := h
    simp [splitSlash, Ne.symm hc, ih hcs]

/-- A slash splits a text in two, which are split on their own. -/
theorem splitSlash_append_slash (a b : List Char) :
    splitSlash (a ++ '/' :: b) = splitSlash a ++ splitSlash b := by
  induction a with
  | nil => simp [splitSlash]
  | cons c a ih =>
    by_cases hc : c = '/'
    · simp [splitSlash, hc, ih]
    · obtain ⟨first, rest, hsplit⟩ := List.exists_cons_of_ne_nil (splitSlash_ne_nil a)
      simp [splitSlash, hc, ih, hsplit]

/-- Splitting undoes joining. -/
theorem splitSlash_intercalate {pieces : List (List Char)} (hne : pieces ≠ [])
    (h : ∀ piece ∈ pieces, '/' ∉ piece) : splitSlash (['/'].intercalate pieces) = pieces := by
  induction pieces with
  | nil => exact absurd rfl hne
  | cons piece rest ih =>
    have hpiece : splitSlash piece = [piece] := splitSlash_of_notMem (h piece List.mem_cons_self)
    cases rest with
    | nil => simpa using hpiece
    | cons next rest =>
      have hrest := ih (by simp) fun p hp => h p (List.mem_cons_of_mem _ hp)
      simp only [List.intercalate_cons_cons, List.append_assoc, List.singleton_append]
      rw [splitSlash_append_slash, hpiece, hrest, List.singleton_append]

/-- The last of the texts that are joined is the end of the whole. -/
theorem exists_intercalate_concat (init : List String) :
    ∃ front, ∀ s, "/".intercalate (init ++ [s]) = front ++ s := by
  cases init with
  | nil => exact ⟨"", fun s => by simp⟩
  | cons x rest =>
    refine ⟨"/".intercalate (x :: rest) ++ "/", fun s => ?_⟩
    rw [String.intercalate_append_of_ne_nil (by simp) (by simp), String.intercalate_singleton]

/-! ### Steps -/

/-- The components that stand between the separators of a text. -/
def steps (cs : List Char) : List Component :=
  (splitSlash cs).filterMap fun piece => component? (String.ofList piece)

@[simp] theorem steps_nil : steps [] = [] := rfl

/-- A text cut at a separator has the steps of both parts. -/
theorem steps_append (a b : List Char) : steps (a ++ '/' :: b) = steps a ++ steps b := by
  simp [steps, splitSlash_append_slash]

@[simp]
theorem steps_slash_cons (cs : List Char) : steps ('/' :: cs) = steps cs := steps_append [] cs

/-- A `.` in front leads nowhere. -/
@[simp]
theorem steps_here_cons (cs : List Char) : steps ('.' :: '/' :: cs) = steps cs := by
  have hhere : steps ['.'] = [] := rfl
  rw [show '.' :: '/' :: cs = ['.'] ++ '/' :: cs from rfl, steps_append, hhere, List.nil_append]

/-- A text that stands for itself as a component. -/
structure IsPlain (s : String) : Prop where
  component : component? s = some (.name s)
  noSlash : '/' ∉ s.toList

/-- A name is plain if it is not empty, no step of its own and without slashes. -/
theorem isPlain_iff {s : String} :
    IsPlain s ↔ s ≠ "" ∧ s ≠ "." ∧ s ≠ ".." ∧ '/' ∉ s.toList := by
  constructor
  · rintro ⟨hcomponent, hslash⟩
    unfold component? at hcomponent
    split_ifs at hcomponent with hdot hup
    · cases hcomponent
    · obtain ⟨hempty, hhere⟩ := not_or.mp hdot
      exact ⟨hempty, hhere, hup, hslash⟩
  · rintro ⟨hempty, hdot, hup, hslash⟩
    exact ⟨by simp [component?, hempty, hdot, hup], hslash⟩

/-- A text without separators is empty, dots or a name. -/
theorem isPlain_or_of_notMem {s : String} (h : '/' ∉ s.toList) :
    s = "" ∨ IsPlain s ∨ s = "." ∨ s = ".." := by
  by_cases hempty : s = ""
  · exact .inl hempty
  by_cases hhere : s = "."
  · exact .inr (.inr (.inl hhere))
  by_cases hup : s = ".."
  · exact .inr (.inr (.inr hup))
  exact .inr (.inl (isPlain_iff.mpr ⟨hempty, hhere, hup, h⟩))

theorem forall_isPlain_concat {names : List String} {s : String} (h : ∀ x ∈ names, IsPlain x)
    (hs : IsPlain s) : ∀ x ∈ names ++ [s], IsPlain x :=
  List.forall_mem_append.mpr ⟨h, List.forall_mem_singleton.mpr hs⟩

/-- A component that is found wherever its text stands between separators. -/
inductive IsStep : Component → Prop where
  | up : IsStep .up
  | name {s : String} (h : IsPlain s) : IsStep (.name s)

/-- A step is read back from its text. -/
private theorem IsStep.component {c : Component} (h : IsStep c) : component? c.text = some c := by
  cases h with
  | up => rfl
  | name h => exact h.component

private theorem IsStep.noSlash {c : Component} (h : IsStep c) : '/' ∉ c.text.toList := by
  cases h with
  | up => decide
  | name h => exact h.noSlash

/-- What a text without separators stands for is a step. -/
theorem isStep_of_component? {s : String} {c : Component} (h : component? s = some c)
    (hslash : '/' ∉ s.toList) : IsStep c := by
  have hs := h
  unfold component? at h
  split_ifs at h
  · obtain rfl := Option.some.inj h
    exact .up
  · obtain rfl := Option.some.inj h
    exact .name ⟨hs, hslash⟩

/-- Steps are made of what stands between slashes. -/
theorem isStep_of_mem_steps {cs : List Char} {c : Component} (h : c ∈ steps cs) : IsStep c := by
  obtain ⟨piece, hpiece, hc⟩ := List.mem_filterMap.mp h
  exact isStep_of_component? hc (by simpa using slash_notMem_of_mem_splitSlash hpiece)

/-- The steps of a text without separators are what the text stands for. -/
theorem steps_of_notMem {s : String} (h : '/' ∉ s.toList) :
    steps s.toList = (component? s).toList := by
  rw [steps, splitSlash_of_notMem h, List.filterMap_cons, String.ofList_toList]
  cases component? s <;> rfl

/-- Steps are found again in the text that joins them. -/
theorem steps_intercalate {cs : List Component} (h : ∀ c ∈ cs, IsStep c) :
    steps ("/".intercalate (cs.map Component.text)).toList = cs := by
  cases cs with
  | nil => rfl
  | cons c rest =>
    have hpieces : ("/".intercalate ((c :: rest).map Component.text)).toList =
        ['/'].intercalate ((c :: rest).map fun c => c.text.toList) := by
      simp [String.toList_intercalate, Function.comp_def]
    rw [steps, hpieces, splitSlash_intercalate (by simp) (by simpa using
      ⟨(h c List.mem_cons_self).noSlash, fun r hr => (h r (List.mem_cons_of_mem _ hr)).noSlash⟩),
      List.filterMap_map]
    have hfound : ∀ r ∈ c :: rest,
        ((fun piece => component? (String.ofList piece)) ∘ fun c => c.text.toList) r = some r := by
      intro r hr
      simpa using (h r hr).component
    exact (List.filterMap_congr hfound).trans List.filterMap_some

/-! ### Components -/

/-- An absolute path has the root in front of the components of its other segments. -/
theorem exists_segments_of_isAbsolute {p : Path} (h : p.isAbsolute = true) :
    ∃ rest, p.segments = "" :: rest ∧ p.components = .root :: rest.filterMap component? ∧
      ∀ s ∈ rest, '/' ∉ s.toList := by
  obtain ⟨cs, hcs⟩ : ∃ cs, p.text.toList = '/' :: cs := by
    unfold isAbsolute at h
    cases hc : p.text.toList with
    | nil => simp [hc] at h
    | cons c cs => exact ⟨cs, by simp_all⟩
  have hseg : p.segments = "" :: (splitSlash cs).map String.ofList := by
    simp [segments, hcs, splitSlash]
  refine ⟨_, hseg, ?_, ?_⟩
  · simp only [components, labelled, hseg, h, if_true, List.filterMap_cons, List.filterMap_map]
    rfl
  · intro s hs
    obtain ⟨piece, hpiece, rfl⟩ := List.mem_map.mp hs
    simpa using slash_notMem_of_mem_splitSlash hpiece

/-- The steps of a path come from its segments. -/
private theorem filterMap_segments (p : Path) :
    p.segments.filterMap component? = steps p.text.toList := by
  simp [steps, segments, List.filterMap_map]

/-- An absolute path has the root in front of its steps. -/
theorem components_of_isAbsolute {p : Path} (h : p.isAbsolute = true) :
    p.components = .root :: steps p.text.toList := by
  obtain ⟨rest, hseg, hcomp, -⟩ := exists_segments_of_isAbsolute h
  rw [hcomp, ← filterMap_segments, hseg]
  rfl

/-- A relative path has nothing but its steps, and a `.` in front of them if it begins with one. -/
theorem components_of_relative {p : Path} (h : p.isAbsolute = false) :
    p.components =
      if p.segments.head? = some "." then .here :: steps p.text.toList
      else steps p.text.toList := by
  obtain ⟨first, rest, hseg⟩ : ∃ first rest, p.segments = first :: rest :=
    List.exists_cons_of_ne_nil (by simp [segments, splitSlash_ne_nil])
  simp only [components, labelled, hseg, h, Bool.false_eq_true, if_false, List.filterMap_cons,
    List.filterMap_map, ← filterMap_segments, List.head?_cons, Option.some.injEq]
  by_cases hfirst : first = "."
  · have hhere : component? "." = none := rfl
    simp [hfirst, hhere]
  · simp [hfirst]

/-! ### Lists of components that paths have -/

/-- Components as they are found in a path: the root or a `.` may come first, all others are
steps. -/
inductive IsWritten : List Component → Prop where
  | absolute {cs : List Component} (h : ∀ c ∈ cs, IsStep c) : IsWritten (.root :: cs)
  | here {cs : List Component} (h : ∀ c ∈ cs, IsStep c) : IsWritten (.here :: cs)
  | relative {cs : List Component} (h : ∀ c ∈ cs, IsStep c) : IsWritten cs

/-- The components of a path are as they are written. -/
theorem isWritten_components (p : Path) : IsWritten p.components := by
  have hsteps : ∀ c ∈ steps p.text.toList, IsStep c := fun c hc => isStep_of_mem_steps hc
  cases h : p.isAbsolute with
  | true =>
    rw [components_of_isAbsolute h]
    exact .absolute hsteps
  | false =>
    rw [components_of_relative h]
    split
    · exact .here hsteps
    · exact .relative hsteps

/-- The names in a path are plain. -/
theorem IsWritten.isPlain {cs : List Component} {s : String} (h : IsWritten cs)
    (hs : .name s ∈ cs) : IsPlain s := by
  have hplain {cs : List Component} (hcs : ∀ c ∈ cs, IsStep c) (hs : .name s ∈ cs) : IsPlain s := by
    cases hcs _ hs with
    | name h => exact h
  cases h with
  | absolute h => exact hplain h (by simpa using hs)
  | here h => exact hplain h (by simpa using hs)
  | relative h => exact hplain h hs

theorem IsWritten.dropLast {cs : List Component} (h : IsWritten cs) : IsWritten cs.dropLast := by
  have hdrop {cs : List Component} (hcs : ∀ c ∈ cs, IsStep c) : ∀ c ∈ cs.dropLast, IsStep c :=
    fun c hc => hcs c (List.dropLast_subset cs hc)
  cases h with
  | absolute h =>
    rename_i cs
    cases cs with
    | nil => exact .relative (by simp)
    | cons c cs => exact .absolute (hdrop h)
  | here h =>
    rename_i cs
    cases cs with
    | nil => exact .relative (by simp)
    | cons c cs => exact .here (hdrop h)
  | relative h => exact .relative (hdrop h)

/-- Where the components of a relative path begin, there its text begins. -/
theorem isAbsolute_intercalate {c : Component} {rest : List Component} (hne : c.text ≠ "")
    (hslash : '/' ∉ c.text.toList) :
    (Path.mk ("/".intercalate ((c :: rest).map Component.text))).isAbsolute = false := by
  obtain ⟨x, xs, hx⟩ := List.exists_cons_of_ne_nil (fun h => hne (String.toList_eq_nil_iff.mp h))
  have hhead : ("/".intercalate ((c :: rest).map Component.text)).toList.head? = some x := by
    cases rest with
    | nil => simp [hx]
    | cons d rest => simp [String.intercalate_cons_cons, hx]
  have hne : x ≠ '/' := fun h => hslash (by simp [hx, h])
  rw [isAbsolute, hhead]
  simpa using hne

private theorem head?_segments_intercalate {c : Component} {rest : List Component}
    (hslash : '/' ∉ c.text.toList) :
    (Path.mk ("/".intercalate ((c :: rest).map Component.text))).segments.head? = some c.text := by
  have hc : splitSlash c.text.toList = [c.text.toList] := splitSlash_of_notMem hslash
  cases rest with
  | nil => simp [segments, hc]
  | cons d rest =>
    simp only [segments, List.map_cons, String.intercalate_cons_cons, String.toList_append]
    rw [show "/".toList = ['/'] from rfl, List.append_assoc, List.singleton_append,
      splitSlash_append_slash, hc]
    simp

/-- The path written from components has them. -/
theorem IsWritten.components_ofComponents {cs : List Component} (h : IsWritten cs) :
    (ofComponents cs).components = cs := by
  cases h with
  | absolute h =>
    rename_i cs
    have habs : (ofComponents (.root :: cs)).isAbsolute = true := by
      simp [ofComponents, isAbsolute]
    have htext : (ofComponents (.root :: cs)).text.toList =
        '/' :: ("/".intercalate (cs.map Component.text)).toList := by
      simp [ofComponents]
    rw [components_of_isAbsolute habs, htext, steps_slash_cons, steps_intercalate h]
  | here h =>
    rename_i cs
    have hslash : '/' ∉ Component.here.text.toList := by decide
    have hsteps :
        steps ("/".intercalate ((Component.here :: cs).map Component.text)).toList = cs := by
      cases cs with
      | nil => rfl
      | cons c cs =>
        have hrest := steps_intercalate h
        simp only [List.map_cons, String.intercalate_cons_cons, String.toList_append] at hrest ⊢
        simpa [Component.text] using hrest
    have hrel : (Path.mk ("/".intercalate ((Component.here :: cs).map Component.text))).isAbsolute =
        false := isAbsolute_intercalate (by decide) hslash
    rw [ofComponents, components_of_relative hrel, head?_segments_intercalate hslash, hsteps]
    · simp [Component.text]
    · simp
  | relative h =>
    cases cs with
    | nil => rfl
    | cons c cs =>
      have hc := h c List.mem_cons_self
      have hne : c.text ≠ "" := fun hempty => by simpa [hempty, component?] using hc.component
      have hdot : c.text ≠ "." := fun hdot => by simpa [hdot, component?] using hc.component
      rw [ofComponents, components_of_relative (isAbsolute_intercalate hne hc.noSlash),
        head?_segments_intercalate hc.noSlash, steps_intercalate h, if_neg (by simpa using hdot)]
      rintro rest heq
      obtain ⟨rfl, -⟩ := List.cons.inj heq
      cases hc

end Path

end ComponentInsight

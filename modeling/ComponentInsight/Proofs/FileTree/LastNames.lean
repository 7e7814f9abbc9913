import ComponentInsight.Proofs.FileTree.Joining

/-!
# Last names

The last segment of a text is the last name of the path, if it is a name. Whatever is put behind the
text then is put behind this name, and everything in front of it stays as it is: in the steps of the
text (`Path.exists_steps_append`), in what the path leads to (`Path.exists_normalComponents_join`),
and when that is written as a text again (`Path.exists_text_ofComponents_concat`).
-/

namespace ComponentInsight

namespace Path

/-- The last separator of a text, and what is behind it. -/
theorem exists_last_slash {cs : List Char} (h : '/' ∈ cs) :
    ∃ front last, cs = front ++ '/' :: last ∧ '/' ∉ last := by
  obtain ⟨last, front, hcs, hlast⟩ := List.eq_append_cons_of_mem (List.mem_reverse.mpr h)
  refine ⟨front.reverse, last.reverse, ?_, by simpa using hlast⟩
  rw [← List.reverse_inj, hcs]
  simp

/-- What is put behind the last segment of a text changes its last step, and no other. -/
theorem exists_steps_append {s name : String} (h : (Path.mk s).segments.getLast? = some name) :
    ∃ cs, ∀ e : String, '/' ∉ e.toList →
      steps (s ++ e).toList = cs ++ (component? (name ++ e)).toList := by
  by_cases hslash : '/' ∈ s.toList
  · obtain ⟨front, last, htext, hlast⟩ := exists_last_slash hslash
    have hname : name.toList = last := by
      have hname : String.ofList last = name := by
        simpa [segments, htext, splitSlash_append_slash, splitSlash_of_notMem hlast] using h
      rw [← hname, String.toList_ofList]
    refine ⟨steps front, fun e he => ?_⟩
    rw [← steps_of_notMem (by simp [hname, hlast, he]), String.toList_append, htext,
      List.append_assoc, List.cons_append, steps_append, String.toList_append, hname]
  · obtain rfl : s = name := by simpa [segments, splitSlash_of_notMem hslash] using h
    exact ⟨[], fun e he => steps_of_notMem (by simp [hslash, he])⟩

/-- What is put behind the last segment of a path changes the last name of what it leads to. -/
theorem exists_normalComponents_join (p : Path) {s name : String}
    (h : (Path.mk s).segments.getLast? = some name) :
    ∃ cs, ∀ e : String, (Path.mk (s ++ e)).isAbsolute = false → IsPlain (name ++ e) →
      normalComponents (p.join ⟨s ++ e⟩).components = cs ++ [.name (name ++ e)] := by
  obtain ⟨cs, hcs⟩ := exists_steps_append h
  refine ⟨(cs.foldl push (p.components.foldl push [])).reverse, fun e hrel hplain => ?_⟩
  have he : '/' ∉ e.toList := fun he => hplain.noSlash (by simp [he])
  rw [normalComponents, extend, List.reverse_nil, foldl_push_join p hrel, hcs e he,
    hplain.component, List.foldl_append]
  simp [push]

/-- A text whose last segment is a name does not end with a separator. -/
theorem getLast?_ne_of_getLast?_segments {s name : String}
    (h : (Path.mk s).segments.getLast? = some name) (hname : IsPlain name) :
    s.toList.getLast? ≠ some '/' := by
  intro hslash
  obtain ⟨cs, hcs⟩ := List.getLast?_eq_some_iff.mp hslash
  have hempty : String.ofList [] = name := by
    simpa [segments, hcs, splitSlash_append_slash, splitSlash] using h
  exact (isPlain_iff.mp hname).1 hempty.symm

/-- The last name of a path is the end of its text. -/
theorem exists_text_ofComponents_concat (cs : List Component) :
    ∃ front, ∀ s, (ofComponents (cs ++ [Component.name s])).text = front ++ s := by
  have hconcat (cs : List Component) : ∃ front, ∀ s,
      "/".intercalate ((cs ++ [Component.name s]).map Component.text) = front ++ s := by
    obtain ⟨front, hfront⟩ := exists_intercalate_concat (cs.map Component.text)
    refine ⟨front, fun s => ?_⟩
    rw [List.map_append]
    exact hfront s
  cases cs with
  | nil => exact hconcat []
  | cons c cs =>
    cases c with
    | root =>
      obtain ⟨front, hfront⟩ := hconcat cs
      refine ⟨"/" ++ front, fun s => ?_⟩
      rw [List.cons_append, ofComponents, hfront, String.append_assoc]
    | here => exact hconcat (.here :: cs)
    | up => exact hconcat (.up :: cs)
    | name s => exact hconcat (.name s :: cs)

end Path

end ComponentInsight

import ComponentInsight.Config.Json
import Mathlib.Data.List.DropRight

/-!
# The fuel of JSON

Readers of JSON are bounded by fuel, of which a string takes a unit for each of its characters and a
value two: one for itself and one for the list it is an item of. Every reader leaves less than it
begins with, so twice the length of a text bounds what its values take, however they are nested.
Any two amounts of fuel beyond that read the same (`units?_eq_of_lt`, `value?_eq_of_lt`), and what
`parse?` answers does not depend on the amount it chooses (`parse?_eq_some_iff`).
-/

namespace ComponentInsight.Config.Json

variable {fuel fuel' : Nat} {cs rest : List Char}

/-! ### What is left behind -/

private theorem length_skipSpace_le (cs : List Char) : (skipSpace cs).length ≤ cs.length :=
  (List.dropWhile_sublist _).length_le

private theorem length_lt_of_digits? (h : digits? cs = some rest) : rest.length < cs.length := by
  unfold digits? at h
  split at h
  · obtain ⟨-, h⟩ := Option.ite_none_right_eq_some.1 h
    cases h
    exact Nat.lt_succ_of_le (List.dropWhile_sublist _).length_le
  · cases h

private theorem length_lt_of_whole? (h : whole? cs = some rest) : rest.length < cs.length := by
  unfold whole? at h
  split at h
  · cases h
    exact Nat.lt_succ_self _
  · exact length_lt_of_digits? h

private theorem length_le_of_fraction? (h : fraction? cs = some rest) :
    rest.length ≤ cs.length := by
  unfold fraction? at h
  split at h
  · exact Nat.le_succ_of_le (Nat.le_of_lt (length_lt_of_digits? h))
  · cases h
    exact Nat.le_refl _

private theorem length_le_of_exponent? (h : exponent? cs = some rest) :
    rest.length ≤ cs.length := by
  unfold exponent? at h
  split at h
  · split at h
    · split at h <;> grind [length_lt_of_digits? h]
    · cases h
      exact Nat.le_refl _
  · cases h
    exact Nat.le_refl _

private theorem length_lt_of_unsigned? (h : unsigned? cs = some rest) :
    rest.length < cs.length := by
  simp only [unsigned?, Option.bind_eq_bind, Option.bind_eq_some_iff] at h
  obtain ⟨fraction, ⟨whole, hwhole, hfraction⟩, hexponent⟩ := h
  calc rest.length ≤ fraction.length := length_le_of_exponent? hexponent
    _ ≤ whole.length := length_le_of_fraction? hfraction
    _ < cs.length := length_lt_of_whole? hwhole

private theorem length_lt_of_number? (h : number? cs = some rest) : rest.length < cs.length := by
  unfold number? at h
  split at h
  · exact Nat.lt_succ_of_lt (length_lt_of_unsigned? h)
  · exact length_lt_of_unsigned? h

private theorem length_lt_of_codeUnit? {n : Nat} (h : codeUnit? cs = some (n, rest)) :
    rest.length < cs.length := by
  unfold codeUnit? at h
  split at h
  · simp only [Option.bind_eq_bind, Option.bind_eq_some_iff] at h
    obtain ⟨_, -, _, -, _, -, _, -, h⟩ := h
    cases h
    simp only [List.length_cons]
    omega
  · cases h

private theorem length_lt_of_units? {us us' : List StringUnit}
    (h : units? fuel cs us = some (us', rest)) : rest.length < cs.length := by
  fun_induction units? fuel cs us with
  | case1 | case5 | case7 => cases h
  | case2 =>
    cases h
    exact Nat.lt_succ_self _
  | case3 fuel us cs ih =>
    obtain ⟨⟨n, behind⟩, hn, h⟩ := Option.bind_eq_some_iff.1 h
    calc rest.length < behind.length := ih n behind h
      _ < cs.length := length_lt_of_codeUnit? hn
      _ ≤ cs.length + 2 := Nat.le_add_right _ _
  | case4 fuel us c cs hc ih =>
    obtain ⟨a, -, h⟩ := Option.bind_eq_some_iff.1 h
    exact Nat.lt_add_right 2 (ih a h)
  | case6 fuel us c cs _ _ _ _ ih => exact Nat.lt_succ_of_lt (ih h)

private theorem length_lt_of_string? {s : Option String} (h : string? cs = some (s, rest)) :
    rest.length < cs.length := by
  obtain ⟨⟨us, behind⟩, hus, h⟩ := Option.bind_eq_some_iff.1 h
  cases h
  exact length_lt_of_units? hus

mutual

/-- Behind a value, an item or a member, less is left than what it was read from. -/
private theorem length_lt_of_value? : ∀ {fuel : Nat} {cs rest : List Char} {v : Json},
    value? fuel cs = some (v, rest) → rest.length < cs.length
  | fuel + 1, cs, rest, v, h => by
    refine Nat.lt_of_lt_of_le ?_ (length_skipSpace_le cs)
    unfold value? at h
    split at h
    case h_1 inside hcs =>
      obtain ⟨⟨s, behind⟩, hs, hrest⟩ := Option.map_eq_some_iff.1 h
      cases hrest
      rw [hcs]
      exact Nat.lt_succ_of_lt (length_lt_of_string? hs)
    case h_2 inside hcs =>
      have hinside := length_skipSpace_le inside
      rw [hcs]
      split at h
      · cases h
        grind
      · obtain ⟨⟨vs, behind⟩, hvs, hrest⟩ := Option.map_eq_some_iff.1 h
        cases hrest
        grind [length_lt_of_items? hvs]
    case h_3 inside hcs =>
      have hinside := length_skipSpace_le inside
      rw [hcs]
      split at h
      · cases h
        grind
      · obtain ⟨⟨ms, behind⟩, hms, hrest⟩ := Option.map_eq_some_iff.1 h
        cases hrest
        grind [length_lt_of_members? hms]
    case h_7 =>
      obtain ⟨behind, hnumber, hrest⟩ := Option.map_eq_some_iff.1 h
      cases hrest
      exact length_lt_of_number? hnumber
    -- the three words
    all_goals
      cases h
      grind

private theorem length_lt_of_items? : ∀ {fuel : Nat} {cs rest : List Char} {vs : List Json},
    items? fuel cs = some (vs, rest) → rest.length < cs.length
  | fuel + 1, cs, rest, vs, h => by
    unfold items? at h
    split at h
    case h_2 => cases h
    next v behind hv =>
    have hbehind := length_lt_of_value? hv
    have hspace := length_skipSpace_le behind
    split at h
    case h_1 =>
      cases h
      grind
    case h_2 =>
      obtain ⟨⟨vs, _⟩, hvs, hrest⟩ := Option.map_eq_some_iff.1 h
      cases hrest
      grind [length_lt_of_items? hvs]
    case h_3 => cases h

private theorem length_lt_of_members? : ∀ {fuel : Nat} {cs rest : List Char}
    {ms : List (Option String × Json)}, members? fuel cs = some (ms, rest) →
      rest.length < cs.length
  | fuel + 1, cs, rest, ms, h => by
    have hspace := length_skipSpace_le cs
    unfold members? at h
    split at h
    case h_2 => cases h
    next quoted _ =>
    split at h
    case h_2 => cases h
    next name behind hname =>
    have hbehind := length_lt_of_string? hname
    have hspace' := length_skipSpace_le behind
    split at h
    case h_2 => cases h
    next colon _ =>
    split at h
    case h_2 => cases h
    next v behind' hv =>
    have hbehind' := length_lt_of_value? hv
    have hspace'' := length_skipSpace_le behind'
    split at h
    case h_1 =>
      cases h
      grind
    case h_2 =>
      obtain ⟨⟨ms, _⟩, hms, hrest⟩ := Option.map_eq_some_iff.1 h
      cases hrest
      grind [length_lt_of_members? hms]
    case h_3 => cases h

end

/-! ### Any two amounts of fuel -/

/-- A string takes a unit of fuel for each of its characters. -/
theorem units?_eq_of_lt {us : List StringUnit} (h : cs.length < fuel) (h' : cs.length < fuel') :
    units? fuel cs us = units? fuel' cs us := by
  induction fuel generalizing fuel' cs us with
  | zero => omega
  | succ fuel ih =>
    obtain ⟨fuel', rfl⟩ := Nat.exists_eq_succ_of_ne_zero (Nat.ne_zero_of_lt h')
    unfold units?
    split
    case h_2 rest =>
      refine Option.bind_congr fun (n, behind) hn => ?_
      have hbehind := length_lt_of_codeUnit? hn
      exact ih (by grind) (by grind)
    case h_3 c rest _ => exact Option.bind_congr fun _ _ => ih (by grind) (by grind)
    case h_4 c rest _ _ _ =>
      have hrest (us) : units? fuel rest us = units? fuel' rest us := ih (by grind) (by grind)
      rw [hrest]
    all_goals rfl

mutual

/-- A value takes at most two units of fuel for each of its characters. -/
theorem value?_eq_of_lt : ∀ {fuel fuel' : Nat} {cs : List Char}, 2 * cs.length < fuel →
    2 * cs.length < fuel' → value? fuel cs = value? fuel' cs
  | fuel + 1, fuel' + 1, cs, h, h' => by
    have hspace := length_skipSpace_le cs
    unfold value?
    split
    case h_2 inside hcs =>
      have hinside := length_skipSpace_le inside
      have hitems : items? fuel (skipSpace inside) = items? fuel' (skipSpace inside) :=
        items?_eq_of_lt (by grind) (by grind)
      split
      · rfl
      · rw [hitems]
    case h_3 inside hcs =>
      have hinside := length_skipSpace_le inside
      have hmembers : members? fuel (skipSpace inside) = members? fuel' (skipSpace inside) :=
        members?_eq_of_lt (by grind) (by grind)
      split
      · rfl
      · rw [hmembers]
    all_goals rfl

/-- The items of an array take one more, for the first of them. -/
theorem items?_eq_of_lt : ∀ {fuel fuel' : Nat} {cs : List Char}, 2 * cs.length + 1 < fuel →
    2 * cs.length + 1 < fuel' → items? fuel cs = items? fuel' cs
  | fuel + 1, fuel' + 1, cs, h, h' => by
    have hvalue : value? fuel cs = value? fuel' cs := value?_eq_of_lt (by omega) (by omega)
    unfold items?
    rw [hvalue]
    split
    case h_2 => rfl
    next v behind hv =>
    have hbehind := length_lt_of_value? hv
    have hspace := length_skipSpace_le behind
    split
    case h_2 rest _ =>
      have hitems : items? fuel rest = items? fuel' rest :=
        items?_eq_of_lt (by grind) (by grind)
      rw [hitems]
    all_goals rfl

/-- So do the members of an object. -/
theorem members?_eq_of_lt : ∀ {fuel fuel' : Nat} {cs : List Char}, 2 * cs.length + 1 < fuel →
    2 * cs.length + 1 < fuel' → members? fuel cs = members? fuel' cs
  | fuel + 1, fuel' + 1, cs, h, h' => by
    have hspace := length_skipSpace_le cs
    unfold members?
    split
    case h_2 => rfl
    next quoted _ =>
    split
    case h_2 => rfl
    next name behind hname =>
    have hbehind := length_lt_of_string? hname
    have hspace' := length_skipSpace_le behind
    split
    case h_2 => rfl
    next inside _ =>
    have hvalue : value? fuel inside = value? fuel' inside :=
      value?_eq_of_lt (by grind) (by grind)
    rw [hvalue]
    split
    case h_2 => rfl
    next v behind' hv =>
    have hbehind' := length_lt_of_value? hv
    have hspace'' := length_skipSpace_le behind'
    split
    case h_2 rest _ =>
      have hmembers : members? fuel rest = members? fuel' rest :=
        members?_eq_of_lt (by grind) (by grind)
      rw [hmembers]
    all_goals rfl

end

/-- A text is JSON exactly if a value is read, by any amount of fuel beyond twice the length of the
text, with nothing but white space behind it. -/
theorem parse?_eq_some_iff {text : String} {v : Json} (h : 2 * text.toList.length < fuel) :
    parse? text = some v ↔
      ∃ rest, value? fuel text.toList = some (v, rest) ∧ skipSpace rest = [] := by
  have hvalue : value? (2 * text.toList.length + 2) text.toList = value? fuel text.toList :=
    value?_eq_of_lt (by omega) h
  simp only [parse?, hvalue]
  cases value? fuel text.toList with
  | none => simp
  | some read => simp [Prod.ext_iff, and_comm]

end ComponentInsight.Config.Json

import ComponentInsight.Script.Lexer
import Mathlib.Tactic.SplitIfs

/-!
# Tokens lie in order

Whatever the text, the lexer goes forward. Two things are shown of it.

* **Loops**: each loop of the lexer is bounded by fuel, one unit for each character of the text and
  one more. A round either ends the loop or goes on further behind in the text (`Lexer.Scans`), so
  the bound is never felt: any two amounts of fuel that exceed what is left of the text give the
  same result (`Lexer.Scans.eq_of_lt`).
* **Tokens**: a token begins where the gap in front of it ends, at or behind the position it is read
  from (`Lexer.le_token`), and unless it is the end of the script or invalid, it has characters of
  its own (`Lexer.fits_token`). A reader that goes on from the end of such a token leaves at least
  one character behind.
-/

namespace ComponentInsight.Script

/-- The token has characters of its own. -/
@[reducible]
def TokenKind.covers : TokenKind → Bool
  | .eof | .invalid => false
  | _ => true

/-- A token as it may stand in a text: it does not end before it begins, and it has characters of
the text if its kind says so. -/
structure Token.Fits (cs : Array Char) (t : Token) : Prop where
  ordered : t.start ≤ t.stop
  covered : t.kind.covers = true → t.start < cs.size ∧ t.start < t.stop

namespace Lexer

variable {cs : Array Char} {i : Nat} {c : Char}

/-! ### Loops with fuel -/

section Scans

variable {σ ρ : Type}

/-- A loop `run` over `size` characters, of which each round either goes on in a state that is
further behind, or ends with a result that lies behind the place of the round. -/
structure Scans (size : Nat) (run : Nat → σ → ρ) (place : σ → Nat) (Behind : Nat → ρ → Prop) :
    Prop where
  antitone : ∀ {i j r}, i ≤ j → Behind j r → Behind i r
  round : ∀ s,
    (∃ s', place s < size ∧ place s < place s' ∧ ∀ fuel, run (fuel + 1) s = run fuel s') ∨
      ∃ r, Behind (place s) r ∧ ∀ fuel, run (fuel + 1) s = r

variable {size : Nat} {run : Nat → σ → ρ} {place : σ → Nat} {Behind : Nat → ρ → Prop}

/-- **Fuel is never felt**: any two amounts that exceed what is left of the text do the same. -/
theorem Scans.eq_of_lt (h : Scans size run place Behind) {fuel fuel' : Nat} {s : σ}
    (hfuel : size - place s < fuel) (hfuel' : size - place s < fuel') :
    run fuel s = run fuel' s := by
  induction fuel generalizing fuel' s with
  | zero => omega
  | succ fuel ih =>
    obtain ⟨fuel', rfl⟩ : ∃ k, fuel' = k + 1 := ⟨fuel' - 1, by omega⟩
    obtain ⟨s', hsize, hs', hrun⟩ | ⟨r, -, hrun⟩ := h.round s
    · rw [hrun, hrun]
      exact ih (by omega) (by omega)
    · rw [hrun, hrun]

/-- With enough fuel the result of a loop lies behind the place where it began. -/
theorem Scans.behind (h : Scans size run place Behind) {fuel : Nat} {s : σ}
    (hfuel : size - place s < fuel) : Behind (place s) (run fuel s) := by
  induction fuel generalizing s with
  | zero => omega
  | succ fuel ih =>
    obtain ⟨s', hsize, hs', hrun⟩ | ⟨r, hr, hrun⟩ := h.round s
    · rw [hrun]
      exact h.antitone (Nat.le_of_lt hs') (ih (by omega))
    · rwa [hrun]

end Scans

private theorem lt_size (h : cs[i]? = some c) : i < cs.size :=
  (Array.getElem?_eq_some_iff.mp h).1

/-! ### White space and comments -/

private theorem le_skipWhile (p : Char → Bool) (cs : Array Char) (i : Nat) :
    i ≤ skipWhile p cs i := by
  fun_induction skipWhile p cs i with
  | case1 i _ _ ih => omega
  | case2 | case3 => exact Nat.le_refl _

private theorem lt_skipWhile {p : Char → Bool} (hc : cs[i]? = some c) (hp : p c = true) :
    i < skipWhile p cs i := by
  obtain ⟨hi, rfl⟩ := Array.getElem?_eq_some_iff.mp hc
  rw [skipWhile, dif_pos hi, if_pos hp]
  exact le_skipWhile p cs (i + 1)

private theorem skipWhile_eq_self {p : Char → Bool} (hc : cs[i]? = some c) (hp : p c = false) :
    skipWhile p cs i = i := by
  obtain ⟨hi, rfl⟩ := Array.getElem?_eq_some_iff.mp hc
  rw [skipWhile, dif_pos hi, hp]
  rfl

private theorem le_of_blockEnd {newline newline' : Bool} {j : Nat}
    (h : blockEnd cs i newline = some (j, newline')) : i + 2 ≤ j := by
  fun_induction blockEnd cs i newline with
  | case1 =>
    simp only [Option.some.injEq, Prod.mk.injEq] at h
    omega
  | case2 i _ _ _ ih =>
    have := ih h
    omega
  | case3 => cases h

private theorem eq_of_startsAt {rest : List Char} (h : startsAt cs i (c :: rest) = true) :
    cs[i]? = some c := by
  simp only [startsAt, Bool.and_eq_true, beq_iff_eq] at h
  exact h.1

/-- The loop over white space and comments goes forward. -/
theorem scans_gap (cs : Array Char) :
    Scans cs.size (gap cs) Gap.stop fun i g => i ≤ g.stop where
  antitone := Nat.le_trans
  round g := by
    cases hc : cs[g.stop]? with
    | none => exact .inr ⟨g, Nat.le_refl _, fun fuel => by simp only [gap, hc]⟩
    | some c =>
      have hlt := lt_size hc
      by_cases hspace : isSpace c = true
      · exact .inl ⟨{ g with stop := g.stop + 1 }, hlt, Nat.lt_succ_self _, fun fuel => by
          simp [gap, hc, hspace]⟩
      by_cases hend : isLineEnd c = true
      · exact .inl ⟨{ g with stop := g.stop + 1, newline := true }, hlt, Nat.lt_succ_self _,
          fun fuel => by simp [gap, hc, hspace, hend]⟩
      by_cases hline : startsAt cs g.stop ['/', '/'] = true
      · exact .inl ⟨{ g with stop := skipWhile (!isLineEnd ·) cs g.stop }, hlt,
          lt_skipWhile (eq_of_startsAt hline) (by decide), fun fuel => by
            simp [gap, hc, hspace, hend, hline]⟩
      by_cases hblock : startsAt cs g.stop ['/', '*'] = true
      · cases hstop : blockEnd cs (g.stop + 2) g.newline with
        | none => exact .inr ⟨{ g with stop := cs.size, flawed := true }, Nat.le_of_lt hlt,
            fun fuel => by simp [gap, hc, hspace, hend, hline, hblock, hstop]⟩
        | some p =>
          have hp : g.stop < p.1 := by
            have := le_of_blockEnd hstop
            omega
          exact .inl ⟨{ g with stop := p.1, newline := p.2 }, hlt, hp,
            fun fuel => by simp [gap, hc, hspace, hend, hline, hblock, hstop]⟩
      · exact .inr ⟨g, Nat.le_refl _, fun fuel => by simp [gap, hc, hspace, hend, hline, hblock]⟩

/-! ### Words -/

private theorem le_of_hexDigits {n acc : Nat} {r : Nat × Nat}
    (h : hexDigits cs n i acc = some r) : i + n ≤ r.2 := by
  induction n generalizing i acc with
  | zero =>
    cases h
    exact Nat.le_refl _
  | succ n ih =>
    simp only [hexDigits, Option.bind_eq_bind, Option.bind_eq_some_iff] at h
    obtain ⟨d, -, h⟩ := h
    have := ih h
    omega

private theorem lt_of_bracedHex {acc : Nat} {some? : Bool} {r : Nat × Nat}
    (h : bracedHex cs i acc some? = some r) : i < r.2 := by
  fun_induction bracedHex cs i acc some? with
  | case1 =>
    cases h
    exact Nat.lt_succ_self _
  | case3 i acc _ hi _ d _ ih =>
    have := ih h
    omega
  | case2 | case4 | case5 => cases h

private theorem lt_of_unicodeEscape {r : Nat × Nat} (h : unicodeEscape cs i = some r) :
    i < r.2 := by
  unfold unicodeEscape at h
  split at h
  · have := lt_of_bracedHex h
    omega
  · have := le_of_hexDigits h
    omega

/-- The loop over a word goes forward. -/
theorem scans_wordFrom (cs : Array Char) :
    Scans cs.size (wordFrom cs) Word.stop fun i w => i ≤ w.stop where
  antitone := Nat.le_trans
  round w := by
    cases hc : cs[w.stop]? with
    | none => exact .inr ⟨w, Nat.le_refl _, fun fuel => by simp [wordFrom, hc]⟩
    | some c =>
      have hlt := lt_size hc
      by_cases hescape : c = '\\'
      · subst hescape
        cases hu : (if cs[w.stop + 1]? == some 'u' then unicodeEscape cs (w.stop + 2) else none)
          with
        | none => exact .inr ⟨{ w with stop := w.stop + 1, escaped := true, flawed := true },
            Nat.le_succ _, fun fuel => by simp only [wordFrom, hc, hu]⟩
        | some r =>
          have hr : w.stop < r.2 := by
            split at hu
            · have := lt_of_unicodeEscape hu
              omega
            · cases hu
          exact .inl ⟨⟨Char.ofNat r.1 :: w.reversed, r.2, true, _⟩, hlt, hr, fun fuel => by
            simp only [wordFrom, hc, hu]
            rfl⟩
      by_cases hfits : (if w.reversed.isEmpty then isNameStart c else isNamePart c) = true
      · exact .inl ⟨{ w with reversed := c :: w.reversed, stop := w.stop + 1 }, hlt,
          Nat.lt_succ_self _, fun fuel => by simp only [wordFrom, hc, hfits, if_true]⟩
      · exact .inr ⟨w, Nat.le_refl _, fun fuel => by
          simp only [wordFrom, hc, hfits]
          rfl⟩

private theorem le_word (cs : Array Char) (i : Nat) : i ≤ (word cs i).stop :=
  (scans_wordFrom cs).behind (s := ⟨[], i, false, false⟩)
    (show cs.size - i < cs.size + 1 by omega)

private theorem lt_word (hc : cs[i]? = some c) (h : (isNameStart c || c == '\\') = true) :
    i < (word cs i).stop := by
  have hlt := lt_size hc
  have hgo : ∀ w : Word, i < w.stop → i < (wordFrom cs cs.size w).stop := fun w hw =>
    Nat.lt_of_lt_of_le hw ((scans_wordFrom cs).behind (by omega))
  unfold word wordFrom
  simp only [hc, List.isEmpty_nil, if_true]
  split
  · split
    · next r heq =>
      refine hgo _ ?_
      split at heq
      · have := lt_of_unicodeEscape heq
        dsimp only
        omega
      · cases heq
    · exact Nat.lt_succ_self i
  · next c' hne heq =>
    obtain rfl := Option.some.inj heq
    have hstart : isNameStart c = true := by
      simpa [show c ≠ '\\' from fun h => hne (by rw [h])] using h
    rw [if_pos hstart]
    exact hgo _ (Nat.lt_succ_self i)
  · next heq => cases heq

/-! ### Numbers -/

/-- The loop over digits goes forward. -/
theorem scans_digitsFrom (p : Char → Bool) (cs : Array Char) :
    Scans cs.size (digitsFrom p cs) Digits.stop fun i d => i ≤ d.stop where
  antitone := Nat.le_trans
  round d := by
    cases hc : cs[d.stop]? with
    | none => exact .inr ⟨d, Nat.le_refl _, fun fuel => by simp only [digitsFrom, hc]⟩
    | some c =>
      have hlt := lt_size hc
      by_cases hseparator : c = '_'
      · subst hseparator
        exact .inl ⟨⟨d.reversed, d.stop + 1, _⟩, hlt, Nat.lt_succ_self _, fun fuel => by
          simp only [digitsFrom, hc]
          rfl⟩
      by_cases hp : p c = true
      · exact .inl ⟨{ d with reversed := c :: d.reversed, stop := d.stop + 1 }, hlt,
          Nat.lt_succ_self _, fun fuel => by simp only [digitsFrom, hc, hp, if_true]⟩
      · exact .inr ⟨d, Nat.le_refl _, fun fuel => by
          simp only [digitsFrom, hc, hp]
          rfl⟩

private theorem le_digits (p : Char → Bool) (cs : Array Char) (i : Nat) :
    i ≤ (digits p cs i).stop :=
  (scans_digitsFrom p cs).behind (s := ⟨[], i, false⟩)
    (show cs.size - i < cs.size + 1 by omega)

private theorem lt_digits {p : Char → Bool} (hc : cs[i]? = some c) (hp : p c = true) :
    i < (digits p cs i).stop := by
  have hlt := lt_size hc
  have hgo : ∀ d : Digits, i < d.stop → i < (digitsFrom p cs cs.size d).stop := fun d hd =>
    Nat.lt_of_lt_of_le hd ((scans_digitsFrom p cs).behind (by omega))
  unfold digits digitsFrom
  simp only [hc]
  split
  · exact hgo _ (Nat.lt_succ_self i)
  · next heq =>
    cases heq
    rw [if_pos hp]
    exact hgo _ (Nat.lt_succ_self i)
  · next heq => cases heq

@[simp]
private theorem stop_endNumber (cs : Array Char) (l : Lexeme) :
    (endNumber cs l).stop = l.stop := by
  unfold endNumber
  split
  · split <;> rfl
  · rfl

private theorem le_basedNumber (base exactTo : Nat) (p : Char → Bool) (cs : Array Char) (i : Nat) :
    i ≤ (basedNumber base exactTo p cs i).stop := by
  have hdigits := le_digits p cs i
  unfold basedNumber
  dsimp only
  split
  · rw [stop_endNumber]
    exact Nat.le_succ_of_le hdigits
  · rwa [stop_endNumber]

private theorem le_exponent (cs : Array Char) (i : Nat) : i ≤ (exponent cs i).stop := by
  unfold exponent
  dsimp only
  refine Nat.le_trans ?_ (le_digits ..)
  split <;> omega

private theorem le_exponent? {e : Exponent} (h : exponent? cs i = some e) : i ≤ e.stop := by
  unfold exponent? at h
  split at h
  · cases h
    exact Nat.le_trans (Nat.le_succ i) (le_exponent ..)
  · cases h

private theorem lt_fractional {d : Digits} (h : i ≤ d.stop) : i < (fractional cs d).stop := by
  have hdigits := le_digits Char.isDigit cs (d.stop + 1)
  unfold fractional
  rw [stop_endNumber]
  dsimp only
  cases he : exponent? cs (digits Char.isDigit cs (d.stop + 1)).stop with
  | none => exact Nat.lt_of_lt_of_le (Nat.lt_succ_of_le h) hdigits
  | some e =>
    exact Nat.lt_of_lt_of_le (Nat.lt_succ_of_le h) (Nat.le_trans hdigits (le_exponent? he))

private theorem lt_decimalRest {d : Digits} (h : i < d.stop) : i < (decimalRest cs d).stop := by
  unfold decimalRest
  split
  · exact lt_fractional (Nat.le_of_lt h)
  · cases he : exponent? cs d.stop with
    | none => simpa [integral]
    | some e => simpa [scientific] using Nat.lt_of_lt_of_le h (le_exponent? he)

private theorem lt_legacyNumber (h : i < (digits Char.isDigit cs i).stop) :
    i < (legacyNumber cs i).stop := by
  unfold legacyNumber
  dsimp only
  split_ifs
  · rwa [stop_endNumber]
  · exact lt_fractional (Nat.le_of_lt h)
  · exact Nat.lt_trans h (le_exponent ..)
  · simpa [integral]

private theorem lt_number (hc : cs[i]? = some c)
    (h : (c.isDigit || (c == '.' && (cs[i + 1]?.map Char.isDigit).getD false)) = true) :
    i < (number cs i).stop := by
  unfold number
  split
  iterate 6 exact Nat.lt_of_lt_of_le (by omega) (le_basedNumber ..)
  iterate 2 exact Nat.lt_of_lt_of_le (by omega) (le_exponent ..)
  · next hzero _ =>
    have hdigits : i < (digits Char.isDigit cs i).stop := lt_digits hzero (by decide)
    split_ifs
    · exact lt_legacyNumber hdigits
    · rw [stop_endNumber]
      exact Nat.lt_add_of_pos_right (by decide)
    · exact lt_decimalRest hdigits
  · dsimp only
    have hle := le_digits Char.isDigit cs i
    split
    · rw [stop_endNumber]
      exact Nat.lt_succ_of_le hle
    by_cases hdigit : c.isDigit = true
    · exact lt_decimalRest (lt_digits hc hdigit)
    -- a point with no digit in front of it
    have hpoint : c = '.' := by simp_all
    subst hpoint
    rcases Nat.lt_or_eq_of_le hle with hlt | heq
    · exact lt_decimalRest hlt
    · unfold decimalRest
      rw [← heq, hc, if_pos (by decide)]
      exact lt_fractional hle

/-! ### Strings -/

private theorem le_octalDigits (cs : Array Char) (n i acc : Nat) :
    i ≤ (octalDigits cs n i acc).2 := by
  induction n generalizing i acc with
  | zero => exact Nat.le_refl _
  | succ n ih =>
    unfold octalDigits
    split
    · split
      · exact Nat.le_trans (Nat.le_succ i) (ih ..)
      · exact Nat.le_refl _
    · exact Nat.le_refl _

private theorem le_of_codePointEscape {r : Nat × Nat} (h : codePointEscape cs i = some r) :
    i ≤ r.2 := by
  simp only [codePointEscape, Option.bind_eq_bind, Option.bind_eq_some_iff] at h
  obtain ⟨⟨n, j⟩, hn, h⟩ := h
  have hj : i < j := lt_of_unicodeEscape hn
  dsimp only at h
  split at h
  · split at h
    · next m k hm =>
      have hk : j + 2 + 4 ≤ k := le_of_hexDigits hm
      split at h <;> obtain rfl := Option.some.inj h <;> dsimp only <;> omega
    · obtain rfl := Option.some.inj h
      exact Nat.le_of_lt hj
  · obtain rfl := Option.some.inj h
    exact Nat.le_of_lt hj

private theorem le_escape (cs : Array Char) (i : Nat) : i ≤ (escape cs i).stop := by
  unfold escape
  dsimp only
  split
  case h_1 => exact Nat.le_refl _
  case h_8 => split <;> exact Nat.le_add_right ..
  case h_9 =>
    split
    · next n stop h =>
      have hstop : i + 1 + 2 ≤ stop := le_of_hexDigits h
      dsimp only
      omega
    · exact Nat.le_succ i
  case h_10 =>
    split
    · next n stop h =>
      have hstop : i + 1 ≤ stop := le_of_codePointEscape h
      dsimp only
      omega
    · exact Nat.le_succ i
  case h_11 =>
    split
    · exact Nat.le_succ i
    · split
      · exact le_octalDigits ..
      · exact Nat.le_succ i
  all_goals exact Nat.le_succ i

/-- The loop over a string goes forward. -/
theorem scans_stringFrom (quote : Char) (cs : Array Char) :
    Scans cs.size (fun fuel s => stringFrom quote cs fuel s.1 s.2.1 s.2.2)
      (Prod.fst : Nat × List TextUnit × Bool → Nat) fun i r => i ≤ r.2.1 where
  antitone := Nat.le_trans
  round := by
    rintro ⟨i, units, flawed⟩
    dsimp only
    cases hc : cs[i]? with
    | none =>
      exact .inr ⟨(units, i, true), Nat.le_refl _, fun fuel => by simp only [stringFrom, hc]⟩
    | some c =>
      have hlt := lt_size hc
      by_cases hescape : c = '\\'
      · subst hescape
        exact .inl ⟨((escape cs (i + 1)).stop, _, _), hlt, le_escape cs (i + 1), fun fuel => by
          simp only [stringFrom, hc]
          rfl⟩
      by_cases hquote : (c == quote) = true
      · exact .inr ⟨(units, i + 1, flawed), Nat.le_succ i, fun fuel => by
          simp only [stringFrom, hc, hquote, if_true]⟩
      by_cases hline : (c == '\n' || c == '\r') = true
      · exact .inr ⟨(units, i, true), Nat.le_refl i, fun fuel => by
          simp only [stringFrom, hc, hquote, hline, if_true]
          rfl⟩
      · exact .inl ⟨(i + 1, .char c :: units, flawed), hlt, Nat.lt_succ_self i, fun fuel => by
          simp only [stringFrom, hc, hquote, hline]
          rfl⟩

private theorem lt_string (quote : Char) (cs : Array Char) (i : Nat) :
    i < (string quote cs i).stop :=
  (scans_stringFrom quote cs).behind (s := (i + 1, [], false))
    (show cs.size - (i + 1) < cs.size + 1 by omega)

/-! ### Templates and regular expressions -/

/-- The loop over a part of a template goes forward. -/
theorem scans_templateFrom (cs : Array Char) :
    Scans cs.size (fun fuel s => templateFrom cs fuel s.1 s.2.1 s.2.2)
      (Prod.fst : Nat × List Char × Bool → Nat) fun i l => i ≤ l.stop where
  antitone := Nat.le_trans
  round := by
    rintro ⟨i, raw, valid⟩
    dsimp only
    cases hc : cs[i]? with
    | none => exact .inr ⟨_, Nat.le_refl _, fun fuel => by simp only [templateFrom, hc]; rfl⟩
    | some c =>
      have hlt := lt_size hc
      by_cases hescape : c = '\\'
      · subst hescape
        cases hd : cs[i + 1]? with
        | none =>
          exact .inl ⟨(i + 1, _, _), hlt, Nat.lt_succ_self i, fun fuel => by
            simp only [templateFrom, hc, hd]
            rfl⟩
        | some d =>
          by_cases hreturn : d = '\r'
          · subst hreturn
            exact .inl ⟨(if cs[i + 2]? == some '\n' then i + 3 else i + 2, _, _), hlt,
              by dsimp only; split <;> omega, fun fuel => by
                simp only [templateFrom, hc, hd]
                rfl⟩
          · exact .inl ⟨(i + 2, _, _), hlt, by dsimp only; omega, fun fuel => by
              simp only [templateFrom, hc, hd]
              rfl⟩
      by_cases hreturn : c = '\r'
      · subst hreturn
        exact .inl ⟨(if cs[i + 1]? == some '\n' then i + 2 else i + 1, _, _), hlt,
          by dsimp only; split <;> omega, fun fuel => by
            simp only [templateFrom, hc]
            rfl⟩
      by_cases hdollar : c = '$'
      · subst hdollar
        by_cases hbrace : (cs[i + 1]? == some '{') = true
        · exact .inr ⟨_, Nat.le_add_right i 2, fun fuel => by
            simp only [templateFrom, hc, hbrace, if_true]
            rfl⟩
        · exact .inl ⟨(i + 1, _, _), hlt, Nat.lt_succ_self i, fun fuel => by
            simp only [templateFrom, hc, hbrace]
            rfl⟩
      by_cases htick : (c.toNat == 0x60) = true
      · exact .inr ⟨_, Nat.le_succ i, fun fuel => by
          simp only [templateFrom, hc, htick, if_true]
          rfl⟩
      · exact .inl ⟨(i + 1, _, _), hlt, Nat.lt_succ_self i, fun fuel => by
          simp only [templateFrom, hc, htick]
          rfl⟩

/-- A piece of a template has the character that begins it. -/
theorem lt_template (cs : Array Char) (i : Nat) : i < (template cs i).stop :=
  (scans_templateFrom cs).behind (s := (i + 1, [], true))
    (show cs.size - (i + 1) < cs.size + 1 by omega)

/-- The loop that looks for the end of a regular expression goes forward. -/
theorem scans_regexEnd (cs : Array Char) :
    Scans cs.size (fun fuel s => regexEnd cs fuel s.1 s.2) (Prod.fst : Nat × Bool → Nat)
      fun i r => ∀ j ∈ r, i ≤ j where
  antitone hle h j hj := Nat.le_trans hle (h j hj)
  round := by
    rintro ⟨i, inClass⟩
    dsimp only
    cases hc : cs[i]? with
    | none => exact .inr ⟨none, nofun, fun fuel => by simp only [regexEnd, hc]⟩
    | some c =>
      have hlt := lt_size hc
      by_cases hline : isLineEnd c = true
      · exact .inr ⟨none, nofun, fun fuel => by simp only [regexEnd, hc, hline, if_true]⟩
      by_cases hescape : (c == '\\') = true
      · cases hd : cs[i + 1]? with
        | none =>
          exact .inr ⟨none, nofun, fun fuel => by
            simp only [regexEnd, hc, hline, hescape, hd]
            rfl⟩
        | some d =>
          by_cases hbreak : isLineEnd d = true
          · exact .inr ⟨none, nofun, fun fuel => by
              simp only [regexEnd, hc, hline, hescape, hd, hbreak]
              rfl⟩
          · exact .inl ⟨(i + 2, inClass), hlt, Nat.lt_add_of_pos_right (by decide), fun fuel => by
              simp only [regexEnd, hc, hline, hescape, hd, hbreak]
              rfl⟩
      by_cases hopen : (c == '[') = true
      · exact .inl ⟨(i + 1, true), hlt, Nat.lt_succ_self i, fun fuel => by
          simp only [regexEnd, hc, hline, hescape, hopen]
          rfl⟩
      by_cases hclose : (c == ']') = true
      · exact .inl ⟨(i + 1, false), hlt, Nat.lt_succ_self i, fun fuel => by
          simp only [regexEnd, hc, hline, hescape, hopen, hclose]
          rfl⟩
      by_cases hend : (c == '/' && !inClass) = true
      · exact .inr ⟨some (i + 1), by rintro j ⟨⟩; exact Nat.le_succ i, fun fuel => by
          simp only [regexEnd, hc, hline, hescape, hopen, hclose, hend]
          rfl⟩
      · exact .inl ⟨(i + 1, inClass), hlt, Nat.lt_succ_self i, fun fuel => by
          simp only [regexEnd, hc, hline, hescape, hopen, hclose, hend]
          rfl⟩

/-- A regular expression has the slash that begins it. -/
theorem lt_regex (hi : i < cs.size) : i < (regex cs i).stop := by
  have hend : ∀ j ∈ regexEnd cs (cs.size + 1) (i + 1) false, i + 1 ≤ j :=
    (scans_regexEnd cs).behind (s := (i + 1, false))
      (show cs.size - (i + 1) < cs.size + 1 by omega)
  unfold regex
  split
  · exact hi
  · next j hj => exact Nat.lt_of_lt_of_le (hend j hj) (le_skipWhile ..)

/-! ### Punctuators -/

private theorem lt_punctuator (cs : Array Char) (i : Nat) : i < (punctuator cs i).stop := by
  have hlength : ∀ p ∈ punctuatorTable, 0 < p.2.length := by decide
  unfold punctuator
  split
  · exact Nat.lt_add_of_pos_right (by decide)
  · split
    · next p hp => exact Nat.lt_add_of_pos_right (hlength p (List.mem_of_find?_eq_some hp))
    · exact Nat.lt_succ_self i

/-! ### Tokens -/

/-- A lexeme has a character, if there is one. -/
private theorem lt_lexeme (hc : cs[i]? = some c) : i < (lexeme cs i).stop := by
  unfold lexeme
  rw [hc]
  dsimp only
  split_ifs with hword hnumber
  · exact lt_word hc hword
  · exact lt_number hc hnumber
  · exact lt_string c cs i
  · exact lt_template cs i
  · exact Nat.lt_succ_self i
  · exact le_word cs (i + 1)
  · exact lt_punctuator cs i

private theorem fits_lexeme (cs : Array Char) (i : Nat) (newline flawed : Bool) :
    Token.Fits cs ⟨(lexeme cs i).kind, i, (lexeme cs i).stop, newline, flawed⟩ := by
  cases hc : cs[i]? with
  | none =>
    have heof : lexeme cs i = ⟨.eof, i, false⟩ := by rw [lexeme, hc]
    rw [heof]
    exact ⟨Nat.le_refl i, nofun⟩
  | some c => exact ⟨Nat.le_of_lt (lt_lexeme hc), fun _ => ⟨lt_size hc, lt_lexeme hc⟩⟩

/-- A token lies in the text, and has characters unless it is the end. -/
theorem fits_token (cs : Array Char) (i : Nat) : (token cs i).Fits cs :=
  fits_lexeme cs _ _ _

/-- So does the first one. -/
theorem fits_firstToken (cs : Array Char) : (firstToken cs).Fits cs :=
  fits_lexeme cs _ _ _

/-- A token does not begin before the position it is read from. -/
theorem le_token (cs : Array Char) (i : Nat) : i ≤ (token cs i).start :=
  (scans_gap cs).behind (s := ⟨i, false, false⟩)
    (show cs.size - i < cs.size + 1 by omega)

/-! ### Tokens of markup -/

theorem start_markupChild (cs : Array Char) (i : Nat) : (markupChild cs i).start = i := by
  unfold markupChild
  split <;> rfl

/-- A token between the tags of markup lies in the text. -/
theorem fits_markupChild (cs : Array Char) (i : Nat) : (markupChild cs i).Fits cs := by
  unfold markupChild
  split
  · exact ⟨Nat.le_refl i, nofun⟩
  · next h => exact ⟨Nat.le_succ i, fun _ => ⟨lt_size h, Nat.lt_succ_self i⟩⟩
  · next h => exact ⟨Nat.le_succ i, fun _ => ⟨lt_size h, Nat.lt_succ_self i⟩⟩
  · next c hangle hbrace h =>
    refine ⟨le_skipWhile .., fun hcovers => ⟨lt_size h, ?_⟩⟩
    by_cases hspecial : (c == '<' || c == '{' || c == '>' || c == '}') = true
    · -- the text is empty, and the character in the way makes it invalid
      have hstop : skipWhile (fun c => !(c == '<' || c == '{' || c == '>' || c == '}')) cs i = i :=
        skipWhile_eq_self h (by rw [hspecial]; rfl)
      have hbad : c = '>' ∨ c = '}' := by
        simpa [show c ≠ '<' from fun h => hangle (by rw [h]),
          show c ≠ '{' from fun h => hbrace (by rw [h])] using hspecial
      dsimp only at hcovers
      rw [hstop, h] at hcovers
      rcases hbad with rfl | rfl <;> cases hcovers
    · exact lt_skipWhile h (by simpa using hspecial)

theorem start_attributeValue (cs : Array Char) (i : Nat) :
    (attributeValue cs i).start = (token cs i).start := by
  unfold attributeValue
  dsimp only
  split
  · split <;> rfl
  · rfl

/-- The value of an attribute lies in the text. -/
theorem fits_attributeValue (cs : Array Char) (i : Nat) : (attributeValue cs i).Fits cs := by
  unfold attributeValue
  dsimp only
  split
  · next c hc =>
    split
    · have hstop := le_skipWhile (· != c) cs ((token cs i).start + 1)
      exact ⟨by simp only [reread]; omega, fun _ => ⟨lt_size hc, by simp only [reread]; omega⟩⟩
    · exact fits_token cs i
  · exact fits_token cs i

/-- The longer operator at a `>` is one token, from the same character on. -/
theorem start_rightAngle (cs : Array Char) (t : Token) : (rightAngle cs t).start = t.start := by
  unfold rightAngle
  split <;> rfl

/-- A closing angle that is read again has a character. -/
theorem lt_rightAngle {t : Token} (h : t.start < t.stop) :
    t.start < (rightAngle cs t).stop := by
  have hlength : ∀ p ∈ rightAngles, 0 < p.2.length := by decide
  unfold rightAngle
  split
  · next p hp => exact Nat.lt_add_of_pos_right (hlength p (List.mem_of_find?_eq_some hp))
  · exact h

/-- A name of markup extends the word it begins with. -/
theorem le_markupName (cs : Array Char) (t : Token) : t.stop ≤ (markupName cs t).stop :=
  le_skipWhile ..

end Lexer

end ComponentInsight.Script

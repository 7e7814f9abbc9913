import ComponentInsight.Proofs.Document.Reading

/-!
# The scanner step by step

The scanner looks at one position after another. `Cursor.look` is one such look: it finds the block
that begins there, or passes a character or a comment. `Cursor.scan` are the blocks found from a
position on, without a bound on the number of looks, and `Cursor.scan_induction` goes through them
look by look.

`Cursor.Scans` relates two positions of one scan with the blocks found between them, so that facts
about a position the scanner comes to are facts about the whole document (`Cursor.Scans.scan_eq`).
-/

namespace ComponentInsight.Document

private theorem commentLength_pos {cs : List Char} (h : cs ≠ []) : 0 < commentLength cs := by
  unfold commentLength
  split
  · omega
  · exact List.length_pos_of_ne_nil h

private theorem head?_of_commentOpening {cs : List Char} (h : commentOpening.isPrefixOf cs = true) :
    cs.head? = some '<' := by
  obtain ⟨rest, rfl⟩ := List.isPrefixOf_iff_prefix.mp h
  rfl

namespace Cursor

/-- One look of the scanner: the block that begins at the cursor, if one does, and where the scan
goes on. -/
def look (c : Cursor) : Option Block × Cursor :=
  if c.rest.head? = some '<' then
    if commentOpening.isPrefixOf c.rest then (none, c.advance (commentLength c.rest))
    else
      match block? c with
      | some (b, rest) => (some b, rest)
      | none => (none, c.step)
  else (none, c.step)

/-- The blocks from a position on. -/
def scan (c : Cursor) : List Block := blocksFrom c.rest.length c

variable {c d : Cursor} {b : Block} {bs : List Block}

/-- At a character that begins no tag, the scan takes a step. -/
theorem look_of_ne (h : c.rest.head? ≠ some '<') : c.look = (none, c.step) := by
  rw [look, if_neg h]

theorem look_of_comment (h : commentOpening.isPrefixOf c.rest = true) :
    c.look = (none, c.advance (commentLength c.rest)) := by
  rw [look, if_pos (head?_of_commentOpening h), if_pos h]

/-- A block is found, and left behind whole. -/
theorem look_of_block (hlt : c.rest.head? = some '<')
    (hcomment : commentOpening.isPrefixOf c.rest = false) (h : block? c = some (b, d)) :
    c.look = (some b, d) := by
  rw [look, if_pos hlt, hcomment, h]
  rfl

theorem look_of_none (hlt : c.rest.head? = some '<')
    (hcomment : commentOpening.isPrefixOf c.rest = false) (h : block? c = none) :
    c.look = (none, c.step) := by
  rw [look, if_pos hlt, hcomment, h]
  rfl

/-- What a look finds: no `<`, a comment, a block or a `<` at which no block begins. -/
theorem look_cases (c : Cursor) :
    (c.rest.head? ≠ some '<' ∧ c.look = (none, c.step)) ∨
    (commentOpening.isPrefixOf c.rest = true ∧
      c.look = (none, c.advance (commentLength c.rest))) ∨
    (c.rest.head? = some '<' ∧ commentOpening.isPrefixOf c.rest = false ∧
      ((∃ b d, block? c = some (b, d) ∧ c.look = (some b, d)) ∨
        (block? c = none ∧ c.look = (none, c.step)))) := by
  by_cases hlt : c.rest.head? = some '<'
  · cases hcomment : commentOpening.isPrefixOf c.rest with
    | true => exact .inr (.inl ⟨rfl, look_of_comment hcomment⟩)
    | false =>
      refine .inr (.inr ⟨hlt, rfl, ?_⟩)
      cases hblock : block? c with
      | none => exact .inr ⟨rfl, look_of_none hlt hcomment hblock⟩
      | some found => exact .inl ⟨_, _, rfl, look_of_block hlt hcomment hblock⟩
  · exact .inl ⟨hlt, look_of_ne hlt⟩

/-- A block is found at its `<`, and behind it the scan goes on. -/
theorem look_eq_some (h : (c.look).1 = some b) :
    c.rest.head? = some '<' ∧ block? c = some (b, c.look.2) := by
  rcases look_cases c with ⟨-, hlook⟩ | ⟨-, hlook⟩ | ⟨hlt, -, ⟨b', d, hblock, hlook⟩ | ⟨-, hlook⟩⟩
  · simp [hlook] at h
  · simp [hlook] at h
  · rw [hlook] at h ⊢
    obtain rfl : b' = b := Option.some.inj h
    exact ⟨hlt, hblock⟩
  · simp [hlook] at h

theorem ne_nil_of_look (h : (c.look).1 = some b) : c.rest ≠ [] := by
  intro hnil
  have hhead := (look_eq_some h).1
  rw [hnil] at hhead
  cases hhead

/-- Each look goes on by at least one character. -/
theorem exists_reads_look (h : c.rest ≠ []) : ∃ s, s ≠ [] ∧ c.Reads s c.look.2 := by
  obtain ⟨x, cs, hc⟩ := List.exists_cons_of_ne_nil h
  rcases look_cases c with ⟨-, hlook⟩ | ⟨-, hlook⟩ | ⟨hlt, -, ⟨b, d, hblock, hlook⟩ | ⟨-, hlook⟩⟩
  · exact ⟨[x], List.cons_ne_nil x [], by rw [hlook]; exact reads_step hc⟩
  · refine ⟨_, fun hnil => ?_, by rw [hlook]; exact reads_advance _ c⟩
    rcases List.take_eq_nil_iff.mp hnil with hzero | hnil
    · exact absurd hzero (commentLength_pos h).ne'
    · exact h hnil
  · obtain ⟨opening, closing, hspans⟩ := block?_spans hblock hlt
    refine ⟨_, fun hnil => ?_, by rw [hlook]; exact hspans.reads⟩
    obtain ⟨hopening, -⟩ := List.append_eq_nil_iff.mp hnil
    cases hspans.tags <;> cases hopening
  · exact ⟨[x], List.cons_ne_nil x [], by rw [hlook]; exact reads_step hc⟩

/-- Every look goes on. -/
theorem length_rest_look_lt (h : c.rest ≠ []) : c.look.2.rest.length < c.rest.length := by
  obtain ⟨s, hs, hreads⟩ := exists_reads_look h
  rw [hreads.rest, List.length_append]
  have := List.length_pos_of_ne_nil hs
  omega

/-- Each look of a scan takes a unit of fuel. -/
private theorem blocksFrom_succ (h : c.rest ≠ []) (fuel : Nat) :
    blocksFrom (fuel + 1) c = c.look.1.toList ++ blocksFrom fuel c.look.2 := by
  obtain ⟨x, cs, hc⟩ := List.exists_cons_of_ne_nil h
  rw [blocksFrom]
  rcases look_cases c with ⟨hne, hlook⟩ | ⟨hcomment, hlook⟩ |
    ⟨hlt, hcomment, ⟨b, d, hblock, hlook⟩ | ⟨hblock, hlook⟩⟩
  · rw [hlook, hc]
    rw [hc] at hne
    exact if_neg fun hx : x = '<' => hne (congrArg some hx)
  · have hx : x = '<' := by simpa [hc] using head?_of_commentOpening hcomment
    rw [hlook, hc]
    dsimp only
    rw [if_pos hx, ← hc, if_pos hcomment]
    rfl
  · have hx : x = '<' := by simpa [hc] using hlt
    rw [hlook, hc]
    dsimp only
    rw [if_pos hx, ← hc, hcomment, hblock]
    rfl
  · have hx : x = '<' := by simpa [hc] using hlt
    rw [hlook, hc]
    dsimp only
    rw [if_pos hx, ← hc, hcomment, hblock]
    rfl

/-- More looks than there are characters find nothing more. -/
private theorem blocksFrom_eq_scan {fuel : Nat} (h : c.rest.length ≤ fuel) :
    blocksFrom fuel c = c.scan := by
  induction fuel using Nat.strong_induction_on generalizing c with
  | _ fuel ih =>
    by_cases hnil : c.rest = []
    · rw [scan, hnil]
      cases fuel with
      | zero => rfl
      | succ fuel => rw [blocksFrom, hnil]; rfl
    · have hlt := length_rest_look_lt hnil
      obtain ⟨m, hm⟩ :=
        Nat.exists_eq_succ_of_ne_zero (Nat.ne_of_gt (List.length_pos_of_ne_nil hnil))
      obtain ⟨k, rfl⟩ : ∃ k, fuel = k + 1 := ⟨fuel - 1, by omega⟩
      rw [scan, hm, blocksFrom_succ hnil, blocksFrom_succ hnil, ih k (by omega) (by omega)]
      rcases Nat.lt_or_ge m (k + 1) with hmk | hmk
      · rw [ih m hmk (by omega)]
      · omega

theorem scan_eq_nil (h : c.rest = []) : c.scan = [] := by
  rw [scan, h]
  rfl

/-- A scan is a look and the scan behind it. -/
theorem scan_eq (h : c.rest ≠ []) : c.scan = c.look.1.toList ++ c.look.2.scan := by
  rw [← blocksFrom_eq_scan (Nat.le_succ c.rest.length), blocksFrom_succ h,
    blocksFrom_eq_scan (length_rest_look_lt h).le]

/-- The scan look by look: nothing is left, a look that finds no block, one that finds a block. -/
@[elab_as_elim]
theorem scan_induction {motive : Cursor → List Block → Prop}
    (nil : ∀ c, c.rest = [] → motive c [])
    (pass : ∀ c, c.rest ≠ [] → c.look.1 = none → motive c.look.2 c.look.2.scan →
      motive c c.look.2.scan)
    (block : ∀ c b, c.look.1 = some b → motive c.look.2 c.look.2.scan →
      motive c (b :: c.look.2.scan))
    (c : Cursor) : motive c c.scan := by
  induction hn : c.rest.length using Nat.strong_induction_on generalizing c with
  | _ n ih =>
    subst hn
    by_cases hnil : c.rest = []
    · rw [scan_eq_nil hnil]
      exact nil c hnil
    · have hmore := ih _ (length_rest_look_lt hnil) c.look.2 rfl
      rw [scan_eq hnil]
      cases hlook : c.look.1 with
      | none => exact pass c hnil hlook hmore
      | some b => exact block c b hlook hmore

/-- A scan comes from one cursor to another and finds some blocks on its way. -/
inductive Scans : Cursor → List Block → Cursor → Prop
  | refl (c : Cursor) : Scans c [] c
  | look {c d : Cursor} {bs : List Block} : c.rest ≠ [] → Scans c.look.2 bs d →
      Scans c (c.look.1.toList ++ bs) d

/-- The blocks found on the way are followed by those found from there on. -/
theorem Scans.scan_eq (h : Scans c bs d) : c.scan = bs ++ d.scan := by
  induction h with
  | refl c => rfl
  | look hne _ ih => rw [Cursor.scan_eq hne, ih, List.append_assoc]

theorem Scans.exists_reads (h : c.Scans bs d) : ∃ s, c.Reads s d := by
  induction h with
  | refl c => exact ⟨[], .refl c⟩
  | look hne _ ih =>
    obtain ⟨s, -, hs⟩ := exists_reads_look hne
    obtain ⟨t, ht⟩ := ih
    exact ⟨s ++ t, hs.trans ht⟩

/-- The scanner comes to the place of each block it finds. -/
theorem exists_scans {found after : List Block} (h : c.scan = found ++ b :: after) :
    ∃ d, c.Scans found d ∧ d.look.1 = some b ∧ d.look.2.scan = after := by
  revert h
  induction c using scan_induction generalizing found with
  | nil c hc => simp
  | pass c hne hlook ih =>
    intro h
    obtain ⟨d, hscans, hb⟩ := ih h
    have := Scans.look hne hscans
    rw [hlook] at this
    exact ⟨d, this, hb⟩
  | block c a hlook ih =>
    intro h
    cases found with
    | nil =>
      obtain ⟨rfl, hafter⟩ := List.cons.inj h
      exact ⟨c, .refl c, hlook, hafter⟩
    | cons a' found =>
      obtain ⟨rfl, hmore⟩ := List.cons.inj h
      obtain ⟨d, hscans, hb⟩ := ih hmore
      have := Scans.look (ne_nil_of_look hlook) hscans
      rw [hlook] at this
      exact ⟨d, this, hb⟩

end Cursor

/-- The blocks of a text are found by a scan from its beginning. -/
theorem blocks_eq_scan (text : String) : blocks text = (Cursor.ofText text).scan := rfl

end ComponentInsight.Document

import ComponentInsight.Proofs.Script.Progress.Statements
import ComponentInsight.Script.Parse

/-!
# The depth of scripts

A production nests itself only behind something that was read, so the length of a script bounds its
depth (`reads_grammar`). The depth that the reading of a script chooses is one of those that are
enough: `read_ne_exhausted` says of every text and dialect that no bound is exhausted, neither on
recursion nor on loops. What `parse` turns away is turned away because its tokens do not fit or
because it is flawed (`parse_eq_none_iff`).
-/

namespace ComponentInsight.Script

open Script.Parser

/-- At the place where it begins itself, a production nests nonterminals of a lower rank only. -/
def Nonterminal.rank : Nonterminal → Nat
  | .leftHand | .callee | .type | .typeOperand | .pattern | .markup _ => 0
  | .unary => 1
  | .binary _ => 2
  | .assignment _ => 3
  | .expression => 4
  | .statement _ => 5

/-- There are six ranks. -/
private theorem Nonterminal.rank_lt (N : Nonterminal) : N.rank < 6 := by
  cases N <;> simp only [rank] <;> decide

variable {n : Nat} {m c : Bool}

/-- What was read leaves fewer characters ahead. -/
theorem Parser.Reads.of_moved {α : Type} {pace : α → Pace} {p : Parser α}
    (h : Reads n false c pace p) : Reads (n + 1) true c pace p where
  meets e s hs := h.meets e s ⟨hs.fits, Nat.le_of_succ_le_succ hs.ahead, hs.covers⟩

/-- With nothing ahead, nothing can have been read. -/
theorem Grammar.serves_zero (g : Grammar) : g.Serves 0 :=
  ⟨fun _ _ => ⟨fun _ _ hs => absurd hs.ahead (Nat.not_succ_le_zero _)⟩⟩

/-- A production goes on if the nonterminals do that it nests: all of them behind something that was
read, and those of a lower rank anywhere. -/
theorem reads_production {g : Grammar} [g.Serves n] (N : Nonterminal)
    (hlower : ∀ N', N'.rank < N.rank → ∀ m c, Reads n m c advancing (g N')) :
    Reads n m c advancing (production g N) := by
  cases N with
  | leftHand => exact Expressions.reads_leftHand
  | callee => exact Expressions.reads_callee
  | type => exact Types.reads_type
  | typeOperand => exact Types.reads_operand
  | pattern => exact Patterns.reads_pattern
  | markup child => exact Markup.reads_element
  | unary =>
    have hleftHand : ∀ m c, Reads n m c advancing g.leftHand := hlower .leftHand (by decide)
    have hmarkup : ∀ m c child, Reads n m c advancing (g.markup child) := fun m c child =>
      hlower (.markup child) Nat.zero_lt_one m c
    exact Expressions.reads_unary
  | binary level =>
    have hunary : ∀ m c, Reads n m c advancing g.unary := hlower .unary (Nat.lt_succ_self 1)
    exact Expressions.reads_binary
  | assignment returnType =>
    have hbinary : ∀ m c level, Reads n m c advancing (g.binary level) := fun m c level =>
      hlower (.binary level) (Nat.lt_succ_self 2) m c
    exact Expressions.reads_assignment
  | expression =>
    have hassignment : ∀ m c returnType, Reads n m c advancing (g.assignment returnType) :=
      fun m c returnType => hlower (.assignment returnType) (Nat.lt_succ_self 3) m c
    exact Expressions.reads_expression
  | statement place =>
    have hexpression : ∀ m c, Reads n m c advancing g.expression := fun m c =>
      have := hlower .expression (Nat.lt_succ_self 4) m c
      reads_within
    have hvalue : ∀ m c, Reads n m c advancing g.value := fun m c =>
      have := hlower (.assignment true) (Nat.lt_add_of_pos_right Nat.two_pos) m c
      reads_within
    exact Statements.reads_statement

/-- With at most `n` characters ahead, a nonterminal goes on if the depth allows for every rank at
each of them. -/
theorem reads_grammar {depth : Nat} (N : Nonterminal) (h : 6 * n + N.rank < depth) :
    Reads n m c advancing (grammar depth N) := by
  induction depth generalizing n N m c with
  | zero => omega
  | succ depth ih =>
    have hserves : (grammar depth).Serves n := by
      cases n with
      | zero => exact Grammar.serves_zero _
      | succ n => exact ⟨fun N' c => .of_moved (ih N' (by have := N'.rank_lt; omega))⟩
    exact reads_production N fun N' hN' m c => ih N' (by omega)

/-- A script is read to its end or to where it does not fit. -/
theorem reads_script {g : Grammar} (hexpression : ∀ m c, Reads n m c advancing g.expression)
    (hstatement : ∀ m c place, Reads n m c advancing (g.statement place)) :
    Reads n m c staying (script g) := by
  unfold script
  refine .loop fun a => .rest_bind fun atEnd => ?_
  split
  · infer_instance
  · refine .and_test_bind (.advance_bind fun e => .stay_bind fun _ => ?_) inferInstance
    split <;> infer_instance

/-- No script exhausts a bound. -/
theorem read_ne_exhausted (text : Array Char) (dialect : Dialect) :
    read text dialect ≠ .exhausted := by
  have hgrammar (N : Nonterminal) (m c : Bool) :
      Reads text.size m c advancing (grammar (16 * (text.size + 4)) N) :=
    reads_grammar N (by have := N.rank_lt; omega)
  have hexpression (m c : Bool) :
      Reads text.size m c advancing (grammar (16 * (text.size + 4))).expression :=
    have := hgrammar .expression m c
    reads_within
  have hscript : Reads text.size false false staying (script (grammar (16 * (text.size + 4)))) :=
    reads_script hexpression fun m c place => hgrammar (.statement place) m c
  have hread := hscript.meets ⟨text, dialect, topLevel dialect⟩ (.initial text)
    ⟨Lexer.fits_firstToken text, Nat.sub_le _ _, fun h => absurd h Bool.false_ne_true⟩
  intro h
  rw [read] at h
  rwa [h] at hread

/-- A script has no module exactly if its tokens do not fit or it is flawed. -/
theorem parse_eq_none_iff {text : String} {dialect : Dialect} :
    parse text dialect = none ↔
      (∃ notArrow, read text.toList.toArray dialect = .fail notArrow) ∨
      ∃ statements s, read text.toList.toArray dialect = .ok statements s ∧
        s.isValid dialect = false := by
  simp only [parse]
  cases h : read text.toList.toArray dialect with
  | ok statements s =>
    refine ⟨fun hnone => .inr ⟨statements, s, rfl, by simpa using hnone⟩, ?_⟩
    rintro (⟨_, ⟨⟩⟩ | ⟨_, _, ⟨⟩, hvalid⟩)
    simp [hvalid]
  | fail notArrow => simp
  | exhausted => exact absurd h (read_ne_exhausted _ _)

end ComponentInsight.Script

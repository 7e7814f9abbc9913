import ComponentInsight.Proofs.Script.Progress.Functions
import ComponentInsight.Script.Grammar.Expressions

/-!
# Progress of expressions

An expression nests assignments, an assignment binary operators, these unary ones and so on, at the
place where it begins itself. So the instances for these productions ask more of the grammar: that
the nonterminal they begin with goes on wherever it is read.
-/

namespace ComponentInsight.Script.Expressions

open Script.Parser Script.Modifiers Script.Patterns Script.Types Script.Functions Script.Classes

set_option synthInstance.maxSize 1000000

variable {g : Grammar} {n : Nat} {m c : Bool} {i : Nat} {returnType : Bool}

/-! ### Primary expressions -/

instance reads_superExpression : Reads n m c advancing superExpression := by
  unfold superExpression
  infer_instance

instance reads_atExpression : Reads n m c resting atExpression := by
  unfold atExpression
  refine .kind_bind fun k => ?_
  split <;> infer_instance

section Primary

variable [g.Serves n]

instance reads_item : Reads n true c advancing (item g) := by
  unfold item
  infer_instance

instance reads_callArguments : Reads n m c advancing (callArguments g) := by
  unfold callArguments
  dsimp only
  infer_instance

instance reads_arrayLiteral : Reads n m c advancing (arrayLiteral g) := by
  unfold arrayLiteral
  dsimp only
  infer_instance

instance reads_parenthesized : Reads n m c advancing (parenthesized g) := by
  unfold parenthesized
  infer_instance

instance reads_templateLiteral : Reads n m c advancing (templateLiteral g) := by
  unfold templateLiteral
  refine .rest_bind fun _ => .rest_bind fun k => .advance_bind fun _ => .rest_bind fun _ => ?_
  split <;> infer_instance

instance reads_importExpression : Reads n m c advancing (importExpression g) := by
  unfold importExpression
  dsimp only
  infer_instance

instance reads_newExpression : Reads n m c advancing (newExpression g) := by
  unfold newExpression
  dsimp only
  have hcallee : ∀ (callee : Expr) (p q : Parser Expr) [Reads n true false staying p]
      [Reads n true false staying q], Reads n true false staying (match callee with
        | .importCall .. => p
        | _ => q) := fun callee p q _ _ => by
    split <;> infer_instance
  infer_instance

instance reads_wordExpression {w : String} {escaped : Bool} :
    Reads n m true advancing (wordExpression g w escaped) := by
  unfold wordExpression
  dsimp only
  refine .rest_bind fun i => ?_
  split
  · split <;> infer_instance
  · infer_instance

instance reads_decoratedClass : Reads n m c advancing (decoratedClass g) := by
  unfold decoratedClass
  infer_instance

/-- A slash is read again as a regular expression, which may turn out to be invalid. -/
instance reads_primary : Reads n m c advancing (primary g) := by
  have hregex : ∀ i, Reads n m true advancing (do
      let t ← token
      setToken (Lexer.reread t (Lexer.regex (← environment).text t.start))
      unless (← kind) == .regex do fail
      bump
      return Expr.other (← spanFrom i)) := fun i => by
    refine .reread_bind Lexer.lt_regex (.kind_bind fun k => ?_)
    dsimp only
    split
    · next h =>
      obtain rfl := eq_of_beq h
      infer_instance
    · infer_instance
  unfold primary
  refine .rest_bind fun i => .kind_bind fun k => ?_
  split <;> infer_instance

/-! ### Members and calls -/

instance reads_expressionTypeArguments : Reads n m c advancing (expressionTypeArguments g) := by
  unfold expressionTypeArguments
  dsimp only
  infer_instance

instance reads_memberStep {optionalAllowed : Bool} {chain : Chain} :
    Reads n m c repeating (memberStep g i optionalAllowed chain) := by
  unfold memberStep
  refine .kind_bind fun k => ?_
  split
  case h_6 | h_7 =>
    refine .rest_bind fun _ => ?_
    split
    · infer_instance
    · exact .find_bind (fun _ => inferInstance) inferInstance
  all_goals infer_instance

instance reads_members {optionalAllowed : Bool} {chain : Chain} :
    Reads n m c staying (members g i optionalAllowed chain) := by
  unfold members
  infer_instance

instance reads_callee : Reads n m c advancing (callee g) := by
  unfold callee
  infer_instance

instance reads_leftHand : Reads n m c advancing (leftHand g) := by
  unfold leftHand
  dsimp only
  infer_instance

end Primary

/-! ### Operators -/

instance reads_atOperand {operators : List String} :
    Reads n m c testing (atOperand operators) := by
  unfold atOperand
  infer_instance

instance reads_atAwait : Reads n m c testing atAwait := by
  unfold atAwait
  infer_instance

instance reads_atYield : Reads n m c testing atYield := by
  unfold atYield
  infer_instance

section Operators

variable [g.Serves n]

instance reads_typeAssertion : Reads n m c advancing (typeAssertion g) := by
  unfold typeAssertion
  infer_instance

instance reads_unary [∀ m c, Reads n m c advancing g.leftHand]
    [∀ m c child, Reads n m c advancing (g.markup child)] :
    Reads n m c advancing (unary g) := by
  unfold unary
  dsimp only
  infer_instance

/-- A token with a precedence has characters of its own. -/
private theorem covers_of_precedence? {k : TokenKind} {p : Nat} (h : precedence? k = some p) :
    k.covers = true := by
  cases k with
  | eof | invalid => cases h
  | _ => rfl

/-- An operator is a token that is known, also when it is read again as a longer one. -/
instance reads_binaryStep {level : Nat} {left : Operand} :
    Reads n m c repeating (binaryStep g i level left) := by
  unfold binaryStep
  dsimp only
  refine .rest_bind fun typed => .and_test_bind inferInstance fun c => .of_token fun e s hs => ?_
  rw [bind_apply]
  dsimp only [environment]
  generalize ht : (if (s.token.kind == .punct ">") = true then Lexer.rightAngle e.text s.token
    else s.token) = t
  have hstart : t.start = s.token.start := by
    rw [← ht]
    split
    · exact Lexer.start_rightAngle ..
    · rfl
  cases hp : precedence? t.kind with
  | none => exact reads_pure_done.meets e s hs
  | some p =>
    have hcovers : s.token.kind.covers = true := by
      split at ht
      · next h => rw [eq_of_beq h]
      · exact ht ▸ covers_of_precedence? hp
    have hs' : s.Stands e.text n m true := ⟨hs.fits, hs.ahead, fun _ => hcovers⟩
    have hstop : t.start < t.stop := by
      have hlt := (hs.fits.covered hcovers).2
      rw [hstart, ← ht]
      split
      · exact Lexer.lt_rightAngle hlt
      · exact hlt
    dsimp only
    split
    · exact reads_pure_done.meets e s hs
    obtain ⟨b, hb⟩ : ∃ b, atWord "in" e s = .ok b s := ⟨_, rfl⟩
    rw [bind_apply, hb]
    dsimp only
    rw [bind_apply]
    dsimp only [context]
    split
    · exact reads_pure_done.meets e s hs
    · exact meets_setToken_bind (c := true) hs' hstart hstop (fun _ => covers_of_precedence? hp)
        inferInstance

instance reads_binary [∀ m c, Reads n m c advancing g.unary] {level : Nat} :
    Reads n m c advancing (binary g level) := by
  unfold binary
  dsimp only
  infer_instance

end Operators

/-! ### Arrow functions -/

instance reads_guessParenthesis : Reads n m c staying guessParenthesis := by
  unfold guessParenthesis
  infer_instance

instance reads_guessAngle : Reads n m c staying guessAngle := by
  unfold guessAngle
  infer_instance

instance reads_guessArrow : Reads n m c resting guessArrow := by
  unfold guessArrow
  dsimp only
  infer_instance

section Arrows

variable [g.Serves n]

instance reads_arrowHead : Reads n m c advancing (arrowHead g) := by
  unfold arrowHead
  infer_instance

instance reads_arrowBody {async : Bool} :
    Reads n true c advancing (arrowBody g i async returnType) := by
  unfold arrowBody
  infer_instance

instance reads_possibleArrow : Reads n m c finding (possibleArrow g returnType) := by
  unfold possibleArrow
  dsimp only
  refine .rest_bind fun i => .rest_bind fun s => ?_
  split
  · infer_instance
  refine .find_bind (fun read => ?_) ?_
  · cases read <;> infer_instance
  · have : Reads n m false resting
        (modifyState fun s => { s with notArrow := i :: s.notArrow }) := .modifyState fun _ => rfl
    infer_instance

instance reads_parenthesizedArrow : Reads n m c finding (parenthesizedArrow g returnType) := by
  unfold parenthesizedArrow
  refine .rest_bind fun guess => ?_
  split <;> infer_instance

instance reads_asyncArrow : Reads n m c finding (asyncArrow g returnType) := by
  unfold asyncArrow
  infer_instance

/-! ### Assignments -/

instance reads_yieldExpression : Reads n m true advancing (yieldExpression g) := by
  unfold yieldExpression
  dsimp only
  infer_instance

instance reads_assignmentRest {left : Expr} :
    Reads n m c staying (assignmentRest g i returnType left) := by
  unfold assignmentRest
  dsimp only
  refine .test_bind (.rest_bind fun e => .of_token fun _ s hs => ?_) inferInstance
  have hstop : s.token.start < s.token.stop := (hs.fits.covered (hs.covers rfl)).2
  split
  · have hstart := Lexer.start_rightAngle e.text s.token
    exact meets_setToken_bind (c := false) hs hstart (hstart ▸ Lexer.lt_rightAngle hstop) nofun
      inferInstance
  · exact Reads.meets _ s hs

instance reads_assignment [∀ m c level, Reads n m c advancing (g.binary level)] :
    Reads n m c advancing (assignment g returnType) := by
  unfold assignment
  dsimp only
  refine .test_bind inferInstance ?_
  refine .find_bind (fun _ => inferInstance) (.find_bind (fun _ => inferInstance)
    (.rest_bind fun i => .advance_bind fun left => ?_))
  split <;> infer_instance

instance reads_expression [∀ m c returnType, Reads n m c advancing (g.assignment returnType)] :
    Reads n m c advancing (expression g) := by
  unfold expression
  infer_instance

end Arrows

end ComponentInsight.Script.Expressions

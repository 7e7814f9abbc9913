import ComponentInsight.Proofs.Script.Progress.Expressions
import ComponentInsight.Script.Grammar.Statements

/-!
# Progress of statements

Declarations, imports and exports nest other productions behind their words. A statement may begin
with an expression, so its instance asks that expressions and assignments go on wherever they are
read. Statements that begin with a word are read once the word is known.
-/

namespace ComponentInsight.Script

open Script.Parser Script.Modifiers Script.Patterns Script.Types Script.Functions Script.Classes

set_option synthInstance.maxSize 1000000

variable {g : Grammar} {n : Nat} {m c : Bool}

/-! ### Declarations -/

namespace Declarations

variable {kind : VariableKind} {ms : List String}

instance reads_checkValues {bound : List Bound} : Reads n m c resting (checkValues kind bound) := by
  unfold checkValues
  infer_instance

instance reads_atUsing : Reads n m c testing atUsing := by
  unfold atUsing
  infer_instance

instance reads_atAwaitUsing : Reads n m c testing atAwaitUsing := by
  unfold atAwaitUsing
  infer_instance

instance reads_aliasTarget : Reads n m c staying aliasTarget := by
  unfold aliasTarget
  dsimp only
  infer_instance

instance reads_aliasDeclaration : Reads n m c advancing aliasDeclaration := by
  unfold aliasDeclaration
  dsimp only
  infer_instance

instance reads_atTypedDeclaration : Reads n m c resting atTypedDeclaration := by
  unfold atTypedDeclaration
  refine .ahead (.loop fun _ => .keyword_bind fun w c hc => ?_)
  split
  case h_13 =>
    by_cases hw : ofMembers.contains w = true
    · cases hc fun h => absurd hw (by rw [h]; decide)
      infer_instance
    · have : Decided (ofMembers.contains w) false := ⟨by simpa using hw⟩
      infer_instance
  all_goals infer_instance

variable [g.Serves n]

instance reads_declarator : Reads n true c advancing (declarator g kind) := by
  unfold declarator
  dsimp only
  infer_instance

instance reads_declarators : Reads n true c advancing (declarators g kind) := by
  unfold declarators
  infer_instance

instance reads_variableStatement : Reads n m true advancing (variableStatement g kind) := by
  unfold variableStatement
  infer_instance

instance reads_variableStatement_moved : Reads n true c advancing (variableStatement g kind) := by
  unfold variableStatement
  infer_instance

instance reads_memberName : Reads n m c advancing (memberName g) := by
  unfold memberName
  refine .kind_bind fun k => ?_
  split
  case h_3 =>
    refine .advance_bind fun _ => .advance_bind fun e => ?_
    split <;> infer_instance
  all_goals infer_instance

instance reads_enumeration : Reads n m c advancing (enumeration g) := by
  unfold enumeration
  infer_instance

instance reads_extended : Reads n m c advancing (extended g) := by
  unfold extended
  infer_instance

instance reads_interface : Reads n m c advancing (interface g) := by
  unfold interface
  dsimp only
  infer_instance

instance reads_typeAlias : Reads n m c advancing (typeAlias g) := by
  unfold typeAlias
  dsimp only
  infer_instance

instance reads_namespaceDeclaration : Reads n m true advancing (namespaceDeclaration g) := by
  unfold namespaceDeclaration
  dsimp only
  infer_instance

instance reads_typedDeclaration : Reads n m c advancing (typedDeclaration g) := by
  unfold typedDeclaration
  refine .keyword_bind fun w c hc => ?_
  split
  case h_8 => infer_instance
  all_goals
    cases hc (by decide)
    infer_instance

instance reads_functionStatement {async : Bool} :
    Reads n m c advancing (functionStatement g ms async) := by
  unfold functionStatement
  refine .advance_bind fun d => .rest_bind fun _ => .rest_bind fun _ => ?_
  split <;> infer_instance

instance reads_classStatement : Reads n m c advancing (classStatement g ms) := by
  unfold classStatement
  infer_instance

instance reads_declaration : Reads n m c advancing (declaration g ms) := by
  unfold declaration
  refine .keyword_bind fun w c hc => ?_
  split
  case h_7 =>
    dsimp only
    infer_instance
  all_goals
    cases hc (by decide)
    infer_instance

instance reads_modifiedDeclaration : Reads n m c advancing (modifiedDeclaration g) := by
  unfold modifiedDeclaration
  dsimp only
  infer_instance

end Declarations

open Script.Declarations

/-! ### Imports and exports -/

namespace Modules

section Imports

instance reads_atListedName : Reads n m c testing atListedName := by
  unfold atListedName
  infer_instance

instance reads_listedName : Reads n m c advancing listedName := by
  unfold listedName
  refine .kind_bind fun k => ?_
  split <;> infer_instance

instance reads_plainSpecifier {typeOnly : Bool} :
    Reads n m c advancing (plainSpecifier typeOnly) := by
  unfold plainSpecifier
  infer_instance

instance reads_typeSpecifier {word : ListedName} :
    Reads n m c staying (typeSpecifier word) := by
  unfold typeSpecifier
  infer_instance

instance reads_specifier {typesOnly : Bool} : Reads n m c advancing (specifier typesOnly) := by
  unfold specifier
  dsimp only
  infer_instance

instance reads_attributes : Reads n m c staying attributes := by
  unfold attributes
  dsimp only
  infer_instance

instance reads_source : Reads n m c advancing source := by
  unfold source
  infer_instance

instance reads_importSpecifier {typesOnly : Bool} :
    Reads n m c advancing (importSpecifier typesOnly) := by
  unfold importSpecifier
  infer_instance

instance reads_importList {typesOnly : Bool} : Reads n m c advancing (importList typesOnly) := by
  unfold importList
  dsimp only
  infer_instance

instance reads_marksTypes : Reads n m c resting marksTypes := by
  unfold marksTypes
  infer_instance

instance reads_marksSource : Reads n m c resting marksSource := by
  unfold marksSource
  infer_instance

instance reads_phaseOf {first : String} : Reads n m c resting (phaseOf first) := by
  unfold phaseOf
  infer_instance

instance reads_importLead : Reads n m c staying importLead := by
  unfold importLead
  refine .test_bind (.advance_bind fun first => .rest_bind fun phase => ?_) inferInstance
  split <;> infer_instance

instance reads_moreBindings {phase : Phase} {default? : Option String} :
    Reads n m c staying (moreBindings phase default?) := by
  unfold moreBindings
  infer_instance

instance reads_importDeclaration : Reads n m c advancing importDeclaration := by
  unfold importDeclaration
  dsimp only
  infer_instance

end Imports

section Exports

variable {decorated : Bool}

instance reads_record {names : List String} : Reads n m c resting (record names) := by
  unfold record
  exact .modifyState fun _ => rfl

instance reads_exportAll : Reads n m c advancing exportAll := by
  unfold exportAll
  dsimp only
  infer_instance

instance reads_atLiteral : Reads n m c testing atLiteral := by
  unfold atLiteral
  infer_instance

instance reads_exportList {typesOnly : Bool} : Reads n m c advancing (exportList typesOnly) := by
  unfold exportList
  dsimp only
  infer_instance

instance reads_atInterface : Reads n m c testing atInterface := by
  unfold atInterface
  infer_instance

instance reads_atAbstractClass : Reads n m c testing atAbstractClass := by
  unfold atAbstractClass
  infer_instance

variable [g.Serves n]

instance reads_exportDefault : Reads n m c advancing (exportDefault g decorated) := by
  unfold exportDefault
  dsimp only
  infer_instance

instance reads_exportedDeclaration :
    Reads n m c advancing (exportedDeclaration g decorated) := by
  unfold exportedDeclaration
  dsimp only
  infer_instance

instance reads_typedExport? : Reads n true c staying (typedExport? g) := by
  unfold typedExport?
  dsimp only
  infer_instance

instance reads_exported : Reads n m c advancing (exported g decorated) := by
  unfold exported
  dsimp only
  have hmatch : ∀ (r : Option Exported) (p : Exported → Parser Exported) (q : Parser Exported)
      [∀ e, Reads n true false staying (p e)] [Reads n true false staying q],
      Reads n true false staying (match r with
        | some e => p e
        | _ => q) := fun r p q _ _ => by
    split <;> infer_instance
  infer_instance

instance reads_exportDeclaration {place : Place} :
    Reads n m c advancing (exportDeclaration g place decorated) := by
  unfold exportDeclaration
  dsimp only
  infer_instance

end Exports

end Modules

/-! ### Statements -/

namespace Statements

variable {awaits : Bool} {place : Place}

instance reads_atLoopLet : Reads n m c resting atLoopLet := by
  unfold atLoopLet
  infer_instance

instance reads_jump : Reads n m true advancing jump := by
  unfold jump
  dsimp only
  infer_instance

variable [h : g.Serves n]

instance reads_condition : Reads n m c advancing (condition g) := by
  unfold condition
  infer_instance

instance reads_conditional : Reads n m true advancing (conditional g) := by
  unfold conditional
  infer_instance

instance reads_doLoop : Reads n m true advancing (doLoop g) := by
  unfold doLoop
  infer_instance

instance reads_countingHead : Reads n m c advancing (countingHead g awaits) := by
  unfold countingHead
  dsimp only
  infer_instance

instance reads_iterationHead : Reads n m c advancing (iterationHead g awaits) := by
  unfold iterationHead
  infer_instance

instance reads_declaringHead {kind : VariableKind} :
    Reads n true c advancing (declaringHead g kind awaits) := by
  unfold declaringHead
  infer_instance

instance reads_expressionHead : Reads n true c staying (expressionHead g awaits) := by
  unfold expressionHead
  dsimp only
  have := h.reads .expression
  infer_instance

instance reads_loopHead : Reads n true c staying (loopHead g awaits) := by
  unfold loopHead
  infer_instance

instance reads_forLoop : Reads n m true advancing (forLoop g) := by
  unfold forLoop
  infer_instance

instance reads_caseStatements : Reads n true c staying (caseStatements g) := by
  unfold caseStatements
  infer_instance

instance reads_switchCases : Reads n m c advancing (switchCases g) := by
  unfold switchCases
  infer_instance

instance reads_tryStatement : Reads n m true advancing (tryStatement g) := by
  unfold tryStatement
  dsimp only
  infer_instance

instance reads_returnStatement : Reads n m true advancing (returnStatement g) := by
  unfold returnStatement
  dsimp only
  infer_instance

instance reads_throwStatement : Reads n m true advancing (throwStatement g) := by
  unfold throwStatement
  dsimp only
  infer_instance

/-- A keyword is read if it is one. -/
theorem reads_keywordStatement {word : String} (hword : word ≠ "" → c = true) :
    Reads n m c consuming (keywordStatement g word) := by
  unfold keywordStatement
  split
  case h_13 => infer_instance
  all_goals
    cases hword (by decide)
    infer_instance

instance reads_decorated : Reads n m true advancing (decorated g place) := by
  unfold decorated
  infer_instance

instance reads_functionStatement {async : Bool} :
    Reads n m c advancing (functionStatement g place async) := by
  unfold functionStatement
  infer_instance

section Statement

variable [∀ m c, Reads n m c advancing g.expression] [∀ m c, Reads n m c advancing g.value]

instance reads_expressionStatement : Reads n m c advancing (expressionStatement g) := by
  unfold expressionStatement
  refine .advance_bind fun e => ?_
  split <;> infer_instance

instance reads_letStatement : Reads n m true advancing (letStatement g place) := by
  unfold letStatement
  refine .rest_bind fun following => ?_
  dsimp only
  split <;> infer_instance

instance reads_plainDeclaration? : Reads n m c finding (plainDeclaration? g place) := by
  unfold plainDeclaration?
  refine .keyword_bind fun w c hc => ?_
  split
  case h_9 => infer_instance
  all_goals
    cases hc (by decide)
    infer_instance

instance reads_typedDeclaration? : Reads n m c finding (typedDeclaration? g) := by
  unfold typedDeclaration?
  infer_instance

instance reads_statement : Reads n m c advancing (statement g place) := by
  unfold statement
  refine .test_bind inferInstance ?_
  refine .eatPunct_bind inferInstance ?_
  refine .test_bind inferInstance ?_
  refine .keyword_bind fun word c hword => .rest_bind fun _ => ?_
  split
  · infer_instance
  split
  · infer_instance
  refine .consume_bind (reads_keywordStatement hword) inferInstance ?_
  exact .find_bind (fun _ => inferInstance) (.find_bind (fun _ => inferInstance) inferInstance)

end Statement

end Statements

end ComponentInsight.Script

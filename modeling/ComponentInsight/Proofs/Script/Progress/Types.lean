import ComponentInsight.Proofs.Script.Progress
import ComponentInsight.Script.Grammar.Types

/-!
# Progress of modifiers, patterns and types

Each production reads as `Parser.Reads` says, given that everything it nests does. What that means
is `Grammar.Serves`: behind something that was read, with fewer than `n` characters ahead, every
nonterminal goes on. So a production that nests a nonterminal only where something was read before
needs to know nothing else of it.

The instances are in the order of the productions. Most are found along the production; where a
production looks at what it read, its cases are told apart first.
-/

namespace ComponentInsight.Script

open Script.Parser

/-- With fewer than `n` characters ahead, every nonterminal goes on. -/
class Grammar.Serves (n : Nat) (g : Grammar) : Prop where
  reads : ∀ N c, Reads n true c advancing (g N)

-- the derivation of a long production has more steps than the search allows for
set_option synthInstance.maxSize 1000000

variable {g : Grammar} {n : Nat} {m c : Bool}

namespace Grammar

variable [h : g.Serves n]

instance reads_expression : Reads n true c advancing g.expression :=
  have := h.reads .expression c
  reads_within

instance reads_value : Reads n true c advancing g.value :=
  have := h.reads (.assignment true) c
  reads_within

instance reads_assignment {returnType : Bool} :
    Reads n true c advancing (g.assignment returnType) :=
  h.reads (.assignment returnType) c

instance reads_binary {level : Nat} : Reads n true c advancing (g.binary level) :=
  h.reads (.binary level) c

instance reads_unary : Reads n true c advancing g.unary := h.reads .unary c

instance reads_leftHand : Reads n true c advancing g.leftHand := h.reads .leftHand c

instance reads_callee : Reads n true c advancing g.callee := h.reads .callee c

instance reads_statement {place : Place} : Reads n true c advancing (g.statement place) :=
  h.reads (.statement place) c

instance reads_type : Reads n true c advancing g.type := h.reads .type c

instance reads_nestedType : Reads n true c advancing g.nestedType :=
  have := h.reads .type c
  reads_within

instance reads_typeOperand : Reads n true c advancing g.typeOperand := h.reads .typeOperand c

instance reads_pattern : Reads n true c advancing g.pattern := h.reads .pattern c

instance reads_markup {child : Bool} : Reads n true c advancing (g.markup child) :=
  h.reads (.markup child) c

end Grammar

/-! ### Keys, templates and decorators -/

namespace Parser

instance reads_resumeTemplate : Reads n m c staying resumeTemplate := by
  unfold resumeTemplate
  refine .test_bind ?_ inferInstance
  exact ⟨fun e s hs => meets_setToken
    (t := Lexer.reread s.token (Lexer.template e.text s.token.start)) hs rfl
    (Lexer.lt_template ..)⟩

instance reads_templatePieces {tagged : Bool} {substitution : Parser Unit}
    [∀ c, Reads n true c staying substitution] :
    Reads n m c advancing (templatePieces tagged substitution) := by
  unfold templatePieces
  refine .loop_of_advancing fun _ => .kind_bind fun k => ?_
  split <;> infer_instance

instance reads_atPropertyKey : Reads n m c resting atPropertyKey := by
  unfold atPropertyKey
  refine .kind_bind fun k => ?_
  split <;> infer_instance

instance reads_canFollowModifier : Reads n m c resting canFollowModifier := by
  unfold canFollowModifier
  infer_instance

instance reads_importAttributes : Reads n m c advancing importAttributes := by
  unfold importAttributes
  dsimp only
  infer_instance

variable [g.Serves n]

instance reads_propertyKey : Reads n m c advancing (propertyKey g) := by
  unfold propertyKey
  refine .kind_bind fun k => ?_
  split
  case h_5 =>
    refine .advance_bind fun _ => .advance_bind fun e => .advance_bind fun _ => ?_
    split <;> infer_instance
  all_goals infer_instance

instance reads_decorators : Reads n m c staying (decorators g) := by
  unfold decorators
  infer_instance

end Parser

/-! ### Modifiers -/

namespace Modifiers

instance reads_modifies {w : String} : Reads n m c resting (modifies w) := by
  unfold modifies
  split <;> infer_instance

/-- A word is a modifier only if it is there. -/
theorem reads_modifiers {words : List String} (hwords : words.contains "" = false) :
    Reads n m c staying (modifiers words) := by
  unfold modifiers
  refine .loop fun ms => .keyword_bind fun w c hc => ?_
  dsimp only
  by_cases hw : words.contains w = true
  · cases hc fun h => by rw [h, hwords] at hw; cases hw
    infer_instance
  · have : Decided (words.contains w) false := ⟨by simpa using hw⟩
    infer_instance

instance reads_modifiers_ofMembers : Reads n m c staying (modifiers ofMembers) :=
  reads_modifiers (by decide)

instance reads_modifiers_ofTypeMembers : Reads n m c staying (modifiers ofTypeMembers) :=
  reads_modifiers (by decide)

instance reads_modifiers_ofParameters : Reads n m c staying (modifiers ofParameters) :=
  reads_modifiers (by decide)

instance reads_modifiers_ofTypeParameters : Reads n m c staying (modifiers ofTypeParameters) :=
  reads_modifiers (by decide)

instance reads_permit {allowed ms : List String} : Reads n m c resting (permit allowed ms) := by
  unfold permit
  infer_instance

end Modifiers

/-! ### Patterns and parameters -/

namespace Patterns

instance reads_endRest {close : String} : Reads n m c resting (endRest close) := by
  unfold endRest
  infer_instance

instance reads_checkGetter {ps : Parameters} : Reads n m c resting (checkGetter ps) := by
  unfold checkGetter
  infer_instance

instance reads_checkSetter {ps : Parameters} : Reads n m c resting (checkSetter ps) := by
  unfold checkSetter
  split <;> infer_instance

variable [g.Serves n]

instance reads_annotation : Reads n m c staying ( annotation g) := by
  unfold annotation
  infer_instance

instance reads_initializer : Reads n m c staying (initializer g) := by
  unfold initializer
  infer_instance

instance reads_element : Reads n true c advancing (element g) := by
  unfold element
  infer_instance

instance reads_arrayPattern : Reads n true c staying (arrayPattern g) := by
  unfold arrayPattern
  dsimp only
  infer_instance

instance reads_property : Reads n true c staying (property g) := by
  unfold property
  dsimp only
  infer_instance

instance reads_objectPattern : Reads n true c staying (objectPattern g) := by
  unfold objectPattern
  dsimp only
  infer_instance

instance reads_pattern : Reads n m c advancing (pattern g) := by
  unfold pattern
  infer_instance

instance reads_thisParameter : Reads n m c staying (thisParameter g) := by
  unfold thisParameter
  infer_instance

instance reads_parameterDecorators {owner : Owner} :
    Reads n m c staying (parameterDecorators g owner) := by
  unfold parameterDecorators
  infer_instance

instance reads_parameter {owner : Owner} : Reads n true c advancing (parameter g owner) := by
  unfold parameter
  dsimp only
  infer_instance

instance reads_parameters {owner : Owner} : Reads n m c advancing (parameters g owner) := by
  unfold parameters
  dsimp only
  infer_instance

end Patterns

/-! ### Types -/

namespace Types

open Script.Modifiers Script.Patterns

instance reads_openAngle : Reads n m c advancing openAngle := by
  unfold openAngle
  refine .test_bind ?_ inferInstance
  exact .of_token fun _ _ hs =>
    meets_setToken_bind (c := false) hs rfl (Nat.lt_succ_self _) nofun reads_expectPunct

instance reads_atNameOrThis : Reads n m c testing atNameOrThis := by
  unfold atNameOrThis
  infer_instance

instance reads_qualifiers : Reads n m c staying qualifiers := by
  unfold qualifiers
  infer_instance

instance reads_importOptions : Reads n m c advancing importOptions := by
  unfold importOptions
  infer_instance

instance reads_atMappedType : Reads n m c resting atMappedType := by
  unfold atMappedType
  dsimp only
  infer_instance

instance reads_memberEnd : Reads n m c staying memberEnd := by
  unfold memberEnd
  infer_instance

instance reads_atIndexSignature : Reads n m c resting atIndexSignature := by
  unfold atIndexSignature
  infer_instance

instance reads_keywordType {escaped : Bool} : Reads n m true advancing (keywordType escaped) := by
  unfold keywordType
  infer_instance

instance reads_atType : Reads n m c resting atType := by
  unfold atType
  infer_instance

variable [g.Serves n]

instance reads_arguments : Reads n m c advancing (arguments g) := by
  unfold arguments
  dsimp only
  infer_instance

instance reads_optionalArguments : Reads n m c staying (optionalArguments g) := by
  unfold optionalArguments
  infer_instance

instance reads_argumentsOnLine : Reads n m c staying (argumentsOnLine g) := by
  unfold argumentsOnLine
  infer_instance

instance reads_typeParameter : Reads n true c advancing (typeParameter g) := by
  unfold typeParameter
  dsimp only
  infer_instance

instance reads_typeParameters : Reads n m c staying (typeParameters g) := by
  unfold typeParameters
  dsimp only
  infer_instance

instance reads_returnType : Reads n true c advancing (returnType g) := by
  unfold returnType
  dsimp only
  infer_instance

instance reads_returnAnnotation : Reads n m c staying ( returnAnnotation g) := by
  unfold returnAnnotation
  infer_instance

instance reads_signature {owner : Owner} : Reads n m c advancing (signature g owner) := by
  unfold signature
  infer_instance

instance reads_atFunctionParameters : Reads n m true resting (atFunctionParameters g) := by
  unfold atFunctionParameters
  dsimp only
  infer_instance

instance reads_atFunctionType : Reads n m c resting (atFunctionType g) := by
  unfold atFunctionType
  infer_instance

instance reads_functionType : Reads n m c advancing (functionType g) := by
  unfold functionType
  infer_instance

instance reads_reference : Reads n m c advancing (reference g) := by
  unfold reference
  infer_instance

instance reads_importType : Reads n m c advancing (importType g) := by
  unfold importType
  dsimp only
  infer_instance

instance reads_typeQuery : Reads n m c advancing (typeQuery g) := by
  unfold typeQuery
  infer_instance

instance reads_mappedType : Reads n m c advancing (mappedType g) := by
  unfold mappedType
  dsimp only
  infer_instance

instance reads_indexSignature : Reads n m c advancing (indexSignature g) := by
  unfold indexSignature
  infer_instance

instance reads_accessorSignature : Reads n m true advancing (accessorSignature g) := by
  unfold accessorSignature
  infer_instance

instance reads_typeMember : Reads n m c advancing (typeMember g) := by
  unfold typeMember
  infer_instance

instance reads_typeMembers : Reads n m c advancing (typeMembers g) := by
  unfold typeMembers
  infer_instance

instance reads_tupleElement : Reads n true c advancing (tupleElement g) := by
  unfold tupleElement
  infer_instance

instance reads_assertion : Reads n true c staying (assertion g) := by
  unfold assertion
  infer_instance

instance reads_wordType {w : String} {escaped : Bool} :
    Reads n m true advancing (wordType g w escaped) := by
  unfold wordType
  dsimp only
  infer_instance

instance reads_unmarked : Reads n m c advancing (unmarked g) := by
  unfold unmarked
  refine .kind_bind fun k => ?_
  split <;> infer_instance

instance reads_primary : Reads n m c advancing (primary g) := by
  unfold primary
  infer_instance

instance reads_withPostfixes : Reads n m c advancing (withPostfixes g) := by
  unfold withPostfixes
  dsimp only
  infer_instance

instance reads_inferConstraint : Reads n true c staying (inferConstraint g) := by
  unfold inferConstraint
  dsimp only
  infer_instance

instance reads_operand : Reads n m c advancing (operand g) := by
  unfold operand
  infer_instance

instance reads_joined {operator : String} {part : Parser TypeShape}
    [∀ c, Reads n m c advancing part] [∀ c, Reads n true c advancing part] :
    Reads n m c advancing (joined operator part) := by
  unfold joined
  infer_instance

instance reads_type : Reads n m c advancing (type g) := by
  unfold type
  dsimp only
  infer_instance

end Types

end ComponentInsight.Script

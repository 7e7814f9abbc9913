import ComponentInsight.Proofs.Script.Progress.Types
import ComponentInsight.Script.Grammar.Classes
import ComponentInsight.Script.Grammar.Markup
import ComponentInsight.Script.Grammar.Objects
import ComponentInsight.Script.Grammar.Targets

/-!
# Progress of functions, classes, objects and markup

As for types: each production goes on or does not go back, given that what it nests behind something
that was read goes on.
-/

namespace ComponentInsight.Script

open Script.Parser Script.Modifiers Script.Patterns Script.Types

set_option synthInstance.maxSize 1000000

variable {g : Grammar} {n : Nat} {m c : Bool}

/-! ### Assignment targets -/

namespace Parser

variable {e : Expr}

instance reads_asTarget : Reads n m c resting (asTarget e) := by
  unfold asTarget
  refine .rest_bind fun s => ?_
  split
  · exact .modifyState fun _ => rfl
  · infer_instance

instance reads_asSimpleTarget : Reads n m c resting (asSimpleTarget e) := by
  unfold asSimpleTarget
  infer_instance

end Parser

/-! ### Functions -/

namespace Functions

variable {owner : Owner} {async generator bodiless : Bool}

instance reads_atNameless : Reads n m c testing atNameless := by
  unfold atNameless
  infer_instance

instance reads_atAsyncFunction : Reads n m c testing atAsyncFunction := by
  unfold atAsyncFunction
  infer_instance

variable [g.Serves n]

instance reads_statements : Reads n true c staying (statements g) := by
  unfold statements
  infer_instance

instance reads_block : Reads n m c advancing (block g) := by
  unfold block
  infer_instance

instance reads_functionBody : Reads n m c advancing (functionBody g async generator) := by
  unfold functionBody
  infer_instance

instance reads_functionRest :
    Reads n m c advancing (functionRest g owner async generator bodiless) := by
  unfold functionRest
  infer_instance

instance reads_functionExpression : Reads n m c advancing (functionExpression g async) := by
  unfold functionExpression
  dsimp only
  infer_instance

instance reads_functionDeclaration : Reads n m c advancing (functionDeclaration g async) := by
  unfold functionDeclaration
  dsimp only
  infer_instance

end Functions

open Script.Functions

/-! ### Classes -/

namespace Classes

variable {ms : List String} {key : Option String}

instance reads_checkStatic : Reads n m c resting (checkStatic ms key) := by
  unfold checkStatic
  infer_instance

instance reads_checkBody {f : Callable} : Reads n m c resting (checkBody ms f) := by
  unfold checkBody
  infer_instance

instance reads_checkConstructor {async generator : Bool} {s : Signature} :
    Reads n m c resting (checkConstructor async generator s) := by
  unfold checkConstructor
  infer_instance

variable [g.Serves n]

instance reads_memberKey : Reads n m c advancing (memberKey g ms) := by
  unfold memberKey
  refine .kind_bind fun k => ?_
  split <;> infer_instance

instance reads_accessor : Reads n m true advancing (accessor g ms) := by
  unfold accessor
  dsimp only
  infer_instance

instance reads_method {generator : Bool} : Reads n m c advancing (method g ms key generator) := by
  unfold method
  dsimp only
  infer_instance

instance reads_accessorField {optional : Bool} :
    Reads n m c staying (accessorField g ms optional) := by
  unfold accessorField
  infer_instance

instance reads_field : Reads n m c staying (field g ms) := by
  unfold field
  dsimp only
  infer_instance

instance reads_propertyOrMethod : Reads n m c advancing (propertyOrMethod g ms) := by
  unfold propertyOrMethod
  infer_instance

instance reads_staticBlock : Reads n m c advancing (staticBlock g) := by
  unfold staticBlock
  infer_instance

instance reads_classMember : Reads n m c advancing (classMember g) := by
  unfold classMember
  dsimp only
  infer_instance

instance reads_classBody : Reads n m c advancing (classBody g) := by
  unfold classBody
  infer_instance

instance reads_implementedTypes : Reads n m c advancing (implementedTypes g) := by
  unfold implementedTypes
  infer_instance

instance reads_heritage : Reads n m c staying (heritage g) := by
  unfold heritage
  infer_instance

instance reads_classRest : Reads n m c advancing (classRest g) := by
  unfold classRest
  dsimp only
  infer_instance

end Classes

/-! ### Object literals -/

namespace Objects

variable [g.Serves n]

instance reads_methodValue {async generator : Bool} :
    Reads n m c advancing (methodValue g async generator) := by
  unfold methodValue
  infer_instance

instance reads_accessorEntry : Reads n true c advancing (accessorEntry g) := by
  unfold accessorEntry
  dsimp only
  infer_instance

instance reads_shorthand {i : Nat} {name : String} :
    Reads n m c staying (shorthand g i name) := by
  unfold shorthand
  dsimp only
  have hdefaults : ∀ c, Reads n true c resting
      (modifyState fun s => { s with defaults := i :: s.defaults }) :=
    fun _ => .modifyState fun _ => rfl
  infer_instance

instance reads_entry : Reads n true c staying (entry g) := by
  unfold entry
  dsimp only
  have hrest : ∀ i plain (key : Key), Reads n true false staying (match plain, key with
      | true, .static name => shorthand g i name
      | _, _ => fail) := fun i plain key => by
    split <;> infer_instance
  infer_instance

instance reads_objectLiteral : Reads n m c advancing (objectLiteral g) := by
  unfold objectLiteral
  dsimp only
  infer_instance

end Objects

/-! ### Markup elements -/

namespace Markup

/-- The name is read again with the hyphens behind it. -/
instance reads_hyphenated : Reads n m c advancing hyphenated := by
  unfold hyphenated
  refine .test_bind ?_ inferInstance
  refine .rest_bind fun e => .of_token fun _ s hs => ?_
  have hstop : s.token.start < s.token.stop := (hs.fits.covered (hs.covers rfl)).2
  exact meets_setToken_bind (c := true) hs rfl
    (Nat.lt_of_lt_of_le hstop (Lexer.le_markupName ..)) (fun _ => hs.covers rfl) inferInstance

instance reads_elementName : Reads n m c advancing elementName := by
  unfold elementName
  infer_instance

instance reads_closeTag {inside : Bool} : Reads n m c advancing (closeTag inside) := by
  unfold closeTag
  dsimp only
  infer_instance

variable [g.Serves n]

instance reads_braced : Reads n m c advancing (braced g) := by
  unfold braced
  infer_instance

instance reads_markupAttribute : Reads n true c advancing (markupAttribute g) := by
  unfold markupAttribute
  dsimp only
  infer_instance

instance reads_children : Reads n true c staying (children g) := by
  unfold children
  refine .loop fun _ => .kind_bind fun k => ?_
  split <;> infer_instance

instance reads_element {child : Bool} : Reads n m c advancing (element g child) := by
  unfold element
  dsimp only
  infer_instance

end Markup

end ComponentInsight.Script

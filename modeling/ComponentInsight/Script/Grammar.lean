import ComponentInsight.Script.Parser

/-!
# The shape of the grammar

The productions of the script grammar refer to each other in circles. Each is written as an
ordinary function of a `Grammar` `g`, which it uses to read the parts it nests; the circle is closed
once, in `ComponentInsight.Script.Parse`, by recursion on a depth bound.
-/

namespace ComponentInsight.Script

/-- A binding target of a declaration or parameter. -/
inductive Pattern where
  /-- A plain name. -/
  | name (s : String)
  /-- A destructuring pattern, with the names it binds. -/
  | nested (names : List String)

/-- The names a pattern binds. -/
def Pattern.names : Pattern → List String
  | .name s => [s]
  | .nested names => names

/-- The name of a plain pattern. -/
def Pattern.name? : Pattern → Option String
  | .name s => some s
  | .nested _ => none

/-- A logical operator at the top of an expression without parentheses. -/
inductive Joint where
  /-- `&&` or `||` -/
  | andOr
  /-- `??` -/
  | coalesce
  deriving DecidableEq

/-- An expression without commas and assignments, with the logical operator it is made by. -/
structure Operand where
  expr : Expr
  joint : Option Joint

/-- Where a statement stands. -/
inductive Place where
  /-- At the top level of the script. -/
  | top
  /-- In a list of statements elsewhere. -/
  | list
  /-- Where a single statement is expected. -/
  | single
  deriving DecidableEq

/-- What a type looks like, as far as its surroundings ask. -/
inductive TypeShape where
  /-- `T[]` -/
  | array
  /-- `[T, U]` -/
  | tuple
  /-- `T?` -/
  | nullable
  /-- A string literal. -/
  | text
  | other
  deriving DecidableEq

/-- What productions nest. -/
inductive Nonterminal where
  /-- Expressions separated by commas. -/
  | expression
  /-- An expression without commas; an arrow function in it may have a return type unless a colon
  may follow for another reason. -/
  | assignment (returnType : Bool)
  /-- Operands joined by operators that bind tighter than `level`. -/
  | binary (level : Nat)
  /-- An operand with the unary operators in front of and behind it. -/
  | unary
  /-- A primary expression with the members and calls behind it. -/
  | leftHand
  /-- A primary expression with the members behind it. -/
  | callee
  | statement (place : Place)
  | type
  /-- A type without unions, intersections and conditions. -/
  | typeOperand
  | pattern
  /-- A markup element; `child` when it stands between the tags of another. -/
  | markup (child : Bool)

/-- What a nonterminal reads. -/
abbrev Nonterminal.Result : Nonterminal → Type
  | .expression | .assignment _ | .unary | .leftHand | .callee => Expr
  | .binary _ => Operand
  | .statement _ => Statement
  | .type | .typeOperand => TypeShape
  | .markup _ => Unit
  | .pattern => Pattern

/-- A parser for every nonterminal. -/
abbrev Grammar := (n : Nonterminal) → Parser n.Result

namespace Grammar

open Script.Parser

/-- A context as it is inside brackets of any kind. -/
def bracketed (c : Context) : Context :=
  { c with allowIn := true, conditionalTypes := true, decorator := false }

variable (g : Grammar)

def expression : Parser Expr := within bracketed (g .expression)

/-- An expression without commas, inside brackets. -/
def value : Parser Expr := within bracketed (g (.assignment true))

def assignment (returnType : Bool) : Parser Expr := g (.assignment returnType)

def binary (level : Nat) : Parser Operand := g (.binary level)

def unary : Parser Expr := g .unary

def leftHand : Parser Expr := g .leftHand

def callee : Parser Expr := g .callee

def statement (place : Place) : Parser Statement := g (.statement place)

def type : Parser TypeShape := g .type

/-- A type inside brackets. -/
def nestedType : Parser TypeShape := within bracketed (g .type)

def typeOperand : Parser TypeShape := g .typeOperand

def pattern : Parser Pattern := g .pattern

def markup (child : Bool) : Parser Unit := g (.markup child)

end Grammar

namespace Parser

/-- Record that a comma follows the spread at the end of a literal. -/
def noteOpenSpread (position : Nat) : Parser Unit :=
  modifyState fun s => { s with openSpreads := position :: s.openSpreads }

/-- Read the closing brace of a substitution as the beginning of the next template piece. -/
def resumeTemplate : Parser Unit := do
  unless ← atPunct closeBrace do fail
  let t ← token
  setToken (Lexer.reread t (Lexer.template (← environment).text t.start))

/-- The pieces of a template from the current one on, with what stands between them. -/
def templatePieces (tagged : Bool) (substitution : Parser Unit) : Parser Unit :=
  loop (fun (_ : Unit) => do
    match ← kind with
    | .template _ last valid =>
      flawIf (!tagged && !valid)
      bump
      if last then return .done ()
      substitution
      resumeTemplate
      return .again ()
    | _ => fail) ()

/-- The key of an object entry, class member or type member. Private names are none. -/
def propertyKey (g : Grammar) : Parser Key := do
  match ← kind with
  | .word v _ => bump; return .static v
  | .string v _ => bump; return .static v
  | .number _ | .bigint => bump; return .dynamic
  | .punct "[" =>
    bump
    let e ← g.value
    expectPunct "]"
    match e with
    | .string _ v => return .static v
    | _ => return .dynamic
  | _ => fail

/-- Whether a property key or private name begins here. -/
def atPropertyKey : Parser Bool := do
  match ← kind with
  | .word .. | .string .. | .number _ | .bigint | .privateName _ | .punct "[" => return true
  | _ => return false

/-- Whether what follows makes the word before it a modifier. -/
def canFollowModifier : Parser Bool := do
  if ← atPropertyKey then return true
  atAnyPunct [openBrace, "*", "..."]

/-- Decorators, if any. Their expressions do not stop at a missing value. -/
def decorators (g : Grammar) : Parser Bool :=
  loop (fun (any : Bool) => do
    if ← eatPunct "@" then
      let e ← within (fun c => { c with decorator := true }) g.leftHand
      flawIf (e matches .chain _)
      return .again true
    else return .done any) false

/-- Attributes of an imported module, in braces. No key occurs twice. -/
def importAttributes : Parser Unit := do
  expectPunct openBrace
  let (keys, _) ← commaList closeBrace (do
    let key ← if ← atString then stringLiteral else name
    expectPunct ":"
    let _ ← stringLiteral
    return key)
  flawIf (keys.eraseDups.length != keys.length)
  expectPunct closeBrace

end Parser

end ComponentInsight.Script

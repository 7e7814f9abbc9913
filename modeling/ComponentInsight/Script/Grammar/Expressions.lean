import ComponentInsight.Script.Grammar.Classes
import ComponentInsight.Script.Grammar.Markup
import ComponentInsight.Script.Grammar.Objects
import ComponentInsight.Script.Grammar.Targets

/-!
# Expressions
-/

namespace ComponentInsight.Script.Expressions

open Script.Parser Script.Modifiers Script.Types Script.Functions Script.Classes

variable (g : Grammar)

/-! ### Primary expressions -/

/-- An argument of a call, or an element of an array. -/
def item : Parser Item := do
  if ← eatPunct "..." then return .spread (← g.value) else return .value (← g.value)

/-- The arguments of a call, in parentheses. -/
def callArguments : Parser (List Item) := do
  expectPunct "("
  let (items, _) ← commaList ")" (item g)
  expectPunct ")"
  return items

/-- An array literal. Commas without an element before them leave holes. -/
def arrayLiteral : Parser Expr := do
  let i ← start
  expectPunct "["
  let items ← loop (fun (items : List Item) => do
    if ← eatPunct "]" then return .done items.reverse
    if ← eatPunct "," then return .again (.hole :: items)
    let e ← item g
    unless ← atPunct "]" do
      expectPunct ","
      if e.isSpread && (← atPunct "]") then noteOpenSpread i
    return .again (e :: items)) []
  return .array (← spanFrom i) items

/-- Expressions in parentheses. -/
def parenthesized : Parser Expr := do
  let i ← start
  expectPunct "("
  let inner ← g.expression
  expectPunct ")"
  return .wrapped (← spanFrom i) .parentheses inner

/-- A template literal. -/
def templateLiteral : Parser Expr := do
  let i ← start
  let first ← kind
  templatePieces false (do let _ ← g.expression)
  let s ← spanFrom i
  match first with
  | .template raw true _ => return .template s raw
  | _ => return .other s

/-- `import(source, options)`, `import.meta`, and imports in a phase. -/
def importExpression : Parser Expr := do
  let i ← start
  expectWord "import"
  if ← eatPunct "." then
    if ← eatWord "meta" then return .other (← spanFrom i)
    unless ← atAnyWord ["source", "defer"] do fail
    bump
  expectPunct "("
  let source ← g.value
  if ← eatPunct "," then
    unless ← atPunct ")" do
      let _ ← g.value
      let _ ← eatPunct ","
  expectPunct ")"
  return .importCall (← spanFrom i) source

/-- `new` with its callee and arguments, or `new.target`. -/
def newExpression : Parser Expr := do
  let i ← start
  expectWord "new"
  if ← eatPunct "." then
    expectWord "target"
    return .other (← spanFrom i)
  let callee ← g.callee
  match callee with
  | .importCall .. => flaw
  | _ => pure ()
  flawIf (← atPunct "?.")
  if ← atPunct "(" then
    let _ ← callArguments g
  return .other (← spanFrom i)

/-- `super`, which only stands before a member or arguments. -/
def superExpression : Parser Expr := do
  let i ← start
  expectWord "super"
  flawIf !(← atAnyPunct [".", "(", "["])
  return .other (← spanFrom i)

/-- An expression that consists of a word, or begins with one. -/
def wordExpression (w : String) (escaped : Bool) : Parser Expr := do
  let i ← start
  if !escaped then
    match w with
    | "null" => bump; return .null (← spanFrom i)
    | "true" => bump; return .boolean (← spanFrom i) true
    | "false" => bump; return .boolean (← spanFrom i) false
    | "this" => bump; return .other (← spanFrom i)
    | "function" =>
      functionExpression g false
      return .other (← spanFrom i)
    | "class" =>
      let _ ← classRest g
      return .other (← spanFrom i)
    | "new" => return ← newExpression g
    | "import" => return ← importExpression g
    | "super" => return ← superExpression
    | _ => pure ()
  if ← atAsyncFunction then
    bump
    functionExpression g true
    return .other (← spanFrom i)
  let name ← identifier
  return .identifier (← spanFrom i) name

/-- A class behind decorators, as an expression. -/
def decoratedClass : Parser Expr := do
  let i ← start
  let _ ← decorators g
  permit ["abstract", "declare"] (← modifiers ofMembers)
  let _ ← classRest g
  return .other (← spanFrom i)

/-- A primary expression. -/
def primary : Parser Expr := do
  let i ← start
  match ← kind with
  | .word w escaped => wordExpression g w escaped
  | .number v => bump; return .number (← spanFrom i) v
  | .bigint => bump; return .other (← spanFrom i)
  | .string v _ => bump; return .string (← spanFrom i) v
  | .template .. => templateLiteral g
  | .punct "(" => parenthesized g
  | .punct "[" => arrayLiteral g
  | .punct "/" | .punct "/=" =>
    let t ← token
    setToken (Lexer.reread t (Lexer.regex (← environment).text t.start))
    unless (← kind) == .regex do fail
    bump
    return .other (← spanFrom i)
  | .punct "@" => decoratedClass g
  | .punct _ => if ← atPunct openBrace then Objects.objectLiteral g else fail
  | _ => fail

/-! ### Members and calls -/

/-- An expression in front of further members. -/
structure Chain where
  expr : Expr
  /-- An optional access occurs in it. -/
  optional : Bool
  /-- It ends with type arguments that no call has taken. -/
  instantiated : Bool

/-- Whether a word, literal or bracket begins an expression here. -/
def atExpression : Parser Bool := do
  match ← kind with
  | .word w escaped =>
    return escaped || !isReserved w ||
      ["class", "delete", "false", "function", "import", "new", "null", "super", "this", "true",
       "typeof", "void"].contains w
  | .number _ | .bigint | .string .. | .template .. | .privateName _ => return true
  | .punct _ =>
    atAnyPunct ["(", "[", openBrace, "/", "/=", "+", "-", "~", "!", "++", "--", "<", "@"]
  | _ => return false

/-- The precedence of the binary operators, from loose to tight. -/
def precedence? : TokenKind → Option Nat
  | .punct "??" => some 1
  | .punct "||" => some 2
  | .punct "&&" => some 3
  | .punct "|" => some 4
  | .punct "^" => some 5
  | .punct "&" => some 6
  | .punct "==" | .punct "!=" | .punct "===" | .punct "!==" => some 7
  | .punct "<" | .punct ">" | .punct "<=" | .punct ">=" => some 8
  | .word "instanceof" false | .word "in" false => some 8
  | .punct "<<" | .punct ">>" | .punct ">>>" => some 9
  | .punct "+" | .punct "-" => some 10
  | .punct "*" | .punct "/" | .punct "%" => some 11
  | .punct "**" => some 12
  | _ => none

/-- Type arguments behind an expression. They are taken for such only when what follows cannot
continue a comparison. -/
def expressionTypeArguments : Parser Unit := do
  openAngle
  let (items, _) ← commaList ">" g.nestedType
  flawIf items.isEmpty
  let closing := Lexer.rightAngle (← environment).text (← token)
  if closing.kind == .punct ">=" then fail
  expectPunct ">"
  if ← atPunct "(" then return ()
  if ← atTemplate then return ()
  if ← atAnyPunct ["<", ">", "+", "-"] then fail
  if ← onNewLine then return ()
  if (precedence? (← kind)).isSome then return ()
  if ← atAnyWord ["as", "satisfies"] then return ()
  if ← atExpression then fail

/-- One member behind an expression, if there is one. -/
def memberStep (i : Nat) (optionalAllowed : Bool) (c : Chain) : Parser (Step Chain Chain) := do
  match ← kind with
  | .punct "." =>
    flawIf c.instantiated
    bump
    if ← atPrivate then
      bump
      return .again ⟨.element (← spanFrom i), c.optional, false⟩
    let _ ← name
    return .again ⟨.member (← spanFrom i), c.optional, false⟩
  | .punct "?." =>
    if !optionalAllowed then return .done c
    if ← next (atAnyPunct ["(", "<", "<<"]) then return .done c
    flawIf c.instantiated
    bump
    if ← eatPunct "[" then
      let _ ← g.expression
      expectPunct "]"
    else if ← atPrivate then bump
    else
      let _ ← name
    return .again ⟨.other (← spanFrom i), true, false⟩
  | .punct "[" =>
    if (← context).decorator then return .done c
    flawIf c.instantiated
    bump
    let _ ← g.expression
    expectPunct "]"
    return .again ⟨.element (← spanFrom i), c.optional, false⟩
  | .punct "!" =>
    if !(← isTyped) || (← onNewLine) then return .done c
    bump
    return .again ⟨.wrapped (← spanFrom i) .nonNull c.expr, c.optional, false⟩
  | .template .. =>
    flawIf c.optional
    templatePieces true (do let _ ← g.expression)
    return .again ⟨.other (← spanFrom i), c.optional, false⟩
  | .punct "<" | .punct "<<" =>
    if !(← isTyped) then return .done c
    match ← attempt (expressionTypeArguments g) with
    | some () => return .again ⟨.other (← spanFrom i), c.optional, true⟩
    | none => return .done c
  | _ => return .done c

/-- The members behind an expression that begins at `i`. -/
def members (i : Nat) (optionalAllowed : Bool) (c : Chain) : Parser Chain :=
  loop (memberStep g i optionalAllowed) c

/-- A primary expression with the members behind it. -/
def callee : Parser Expr := do
  let i ← start
  let e ← primary g
  return (← members g i false ⟨e, false, false⟩).expr

/-- A primary expression with the members and calls behind it. -/
def leftHand : Parser Expr := do
  let i ← start
  let e ← primary g
  let c ← loop (fun (c : Chain) => do
    let c ← members g i true c
    let optional ← eatPunct "?."
    if optional && (← isTyped) && (← atAnyPunct ["<", "<<"]) then arguments g
    if ← atPunct "(" then
      let items ← callArguments g
      return .again ⟨.call (← spanFrom i) items, c.optional || optional, false⟩
    else if optional then fail
    else return .done c) ⟨e, false, false⟩
  if c.optional && !c.instantiated then return .chain (← spanFrom i) else return c.expr

/-! ### Operators -/

/-- At a word or literal that can only be an operand of the word before it, being none of the
operators `operators`. -/
def atOperand (operators : List String) : Parser Bool := do
  if ← atName then return !(← atAnyWord operators)
  if ← atString then return true
  atNumber

/-- `await` as an operator: always where it is permitted, elsewhere (as a flaw) when an operand
follows on the line. -/
def atAwait : Parser Bool := do
  if !(← atWord "await") then return false
  if (← context).awaits then return true
  nextOnLine (atOperand ["in", "instanceof", "of"])

/-- `<T>x`, where the dialect has it. -/
def typeAssertion : Parser Expr := do
  let i ← start
  flawIf !(← environment).dialect.angleAssertions
  expectPunct "<"
  let _ ← g.nestedType
  expectPunct ">"
  let inner ← g.unary
  return .assertion (← spanFrom i) inner

/-- An operand with its unary operators. -/
def unary : Parser Expr := do
  let i ← start
  if (← atAnyPunct ["+", "-", "!", "~"]) || (← atAnyWord ["typeof", "void", "delete"]) then
    bump
    let _ ← g.unary
    flawIf (← atPunct "**")
    return .other (← spanFrom i)
  if ← atAnyPunct ["++", "--"] then
    bump
    asSimpleTarget (← g.unary)
    return .other (← spanFrom i)
  if ← atPunct "<" then
    if ← isMarkup then
      g.markup false
      return .other (← spanFrom i)
    if ← isTyped then return ← typeAssertion g
    fail
  if ← atAwait then
    flawIf !(← context).awaits
    bump
    let _ ← g.unary
    flawIf (← atPunct "**")
    return .other (← spanFrom i)
  let e ← g.leftHand
  if !(← onNewLine) && (← atAnyPunct ["++", "--"]) then
    asSimpleTarget e
    bump
    return .other (← spanFrom i)
  return e

/-- The logical operator a token is. -/
def joint? : TokenKind → Option Joint
  | .punct "??" => some .coalesce
  | .punct "||" | .punct "&&" => some .andOr
  | _ => none

/-- Whether `??` meets another logical operator without parentheses. -/
def mixes (operator left right : Option Joint) : Bool :=
  match operator with
  | some .coalesce => left == some .andOr || right == some .andOr
  | some .andOr => left == some .coalesce || right == some .coalesce
  | none => false

/-- One binary operator with its right operand, or one `as` or `satisfies` with its type. -/
def binaryStep (i level : Nat) (left : Operand) : Parser (Step Operand Operand) := do
  if (← isTyped) && (← atAnyWord ["as", "satisfies"]) then
    if level ≥ 8 || (← onNewLine) then return .done left
    let wrapper : Wrapper := if ← atWord "as" then .cast else .satisfaction
    bump
    let _ ← within (fun c => { c with conditionalTypes := true }) g.type
    return .again ⟨.wrapped (← spanFrom i) wrapper left.expr, none⟩
  let current ← token
  let text := (← environment).text
  let t := if current.kind == .punct ">" then Lexer.rightAngle text current else current
  match precedence? t.kind with
  | none => return .done left
  | some p =>
    if p < level || (p == level && p != 12) then return .done left
    if (← atWord "in") && !(← context).allowIn then return .done left
    setToken t
    bump
    let right ← g.binary p
    let operator := joint? t.kind
    flawIf (mixes operator left.joint right.joint)
    return .again ⟨.other (← spanFrom i), operator⟩

/-- Operands joined by operators that bind tighter than `level`. A private name is an operand in
front of `in` only. -/
def binary (level : Nat) : Parser Operand := do
  let i ← start
  let first ←
    if (← context).allowIn && level < 8 && (← atPrivate) then
      bump
      unless ← atWord "in" do fail
      pure (Expr.other (← spanFrom i))
    else g.unary
  loop (binaryStep g i level) ⟨first, none⟩

/-! ### Arrow functions -/

/-- What a look at the first tokens tells about a parenthesis. -/
inductive Guess where
  | yes
  | no
  | maybe
  deriving DecidableEq

/-- Guess from behind an opening parenthesis. -/
def guessParenthesis : Parser Guess := do
  if ← eatPunct ")" then
    return if ← atAnyPunct ["=>", ":", openBrace] then .yes else .no
  if ← atAnyPunct ["[", openBrace] then return .maybe
  if ← eatPunct "..." then
    if ← atAnyPunct ["[", openBrace] then return .maybe
    return if ← atName then .yes else .no
  if (← atAnyWord ofParameters) && (← next atIdentifier) then
    return if ← next (atWord "as") then .no else .yes
  unless (← atIdentifier) || (← atWord "this") do return .no
  bump
  if ← atPunct ":" then return .yes
  if ← eatPunct "?" then
    return if ← atAnyPunct [":", ",", "=", ")"] then .yes else .no
  return if ← atAnyPunct [",", "=", ")"] then .maybe else .no

/-- Guess from behind an opening angle bracket. -/
def guessAngle : Parser Guess := do
  unless (← atIdentifier) || (← atWord "const") do return .no
  if ← isMarkup then
    if ← eatWord "const" then
      unless ← atIdentifier do return .no
    bump
    if ← eatWord "extends" then
      if ← atAnyPunct ["=", ">", "/"] then return .no
      return if ← atIdentifier then .maybe else .yes
    return if ← atAnyPunct [",", "="] then .yes else .no
  return .maybe

/-- Whether an arrow function with parentheses begins here. -/
def guessArrow : Parser Guess := do
  let guess ← lookahead do
    if ← eatWord "async" then
      if ← onNewLine then return .no
    if ← eatPunct "(" then guessParenthesis
    else if ← eatPunct "<" then guessAngle
    else return .no
  return guess.getD .no

/-- The parameters of an arrow function up to and with its arrow: whether it is asynchronous and
whether it has a return type. -/
def arrowHead : Parser (Bool × Bool) := do
  let async ← eatWord "async"
  let typed ← within (fun c => { c with awaits := c.awaits || async }) do
    return (← signature g .arrow).returns
  flawIf (← onNewLine)
  expectPunct "=>"
  return (async, typed)

/-- The body of an arrow function that begins at `i`. -/
def arrowBody (i : Nat) (async returnType : Bool) : Parser Expr := do
  if ← atPunct openBrace then
    functionBody g async false
    return .arrow (← spanFrom i) none
  let result ← within (functionContext async false) (g.assignment returnType)
  return .arrow (← spanFrom i) (some result)

/-- An arrow function that may turn out to be something else. Where a colon may follow for another
reason, a return type is one only if the colon is still there. -/
def possibleArrow (returnType : Bool) : Parser (Option Expr) := do
  let i ← start
  if (← getState).notArrow.contains i then return none
  let read ← attempt do
    let (async, typed) ← arrowHead g
    if returnType || !typed then return Sum.inl async
    let e ← arrowBody g i async returnType
    unless ← atPunct ":" do fail
    return Sum.inr e
  match read with
  | some (.inl async) => return some (← arrowBody g i async returnType)
  | some (.inr e) => return some e
  | none =>
    modifyState fun s => { s with notArrow := i :: s.notArrow }
    return none

/-- An arrow function with parentheses, if one begins here. -/
def parenthesizedArrow (returnType : Bool) : Parser (Option Expr) := do
  match ← guessArrow with
  | .no => return none
  | .maybe => possibleArrow g returnType
  | .yes =>
    let i ← start
    let (async, _) ← arrowHead g
    return some (← arrowBody g i async returnType)

/-- `async x => …`, if it begins here. The parameter is not `await`. -/
def asyncArrow (returnType : Bool) : Parser (Option Expr) := do
  let begins ← ahead do
    unless ← eatWord "async" do return false
    if ← onNewLine then return false
    unless ← atIdentifier do return false
    bump
    if ← onNewLine then return false
    atPunct "=>"
  if !begins then return none
  let i ← start
  bump
  let parameter ← identifier
  flawIf (parameter == "await")
  bump
  return some (← arrowBody g i true returnType)

/-! ### Assignments -/

def assignmentOperators : List String :=
  ["=", "+=", "-=", "*=", "/=", "%=", "**=", "<<=", ">>=", ">>>=", "&=", "|=", "^=", "&&=", "||=",
   "??="]

/-- `yield` as an operator: always where it is permitted, elsewhere (as a flaw) when an operand
follows on the line. -/
def atYield : Parser Bool := do
  if !(← atWord "yield") then return false
  if (← context).yields then return true
  nextOnLine (atOperand ["in", "instanceof"])

/-- A `yield` with its operand. -/
def yieldExpression : Parser Expr := do
  let i ← start
  flawIf !(← context).yields
  bump
  unless ← onNewLine do
    let delegate ← eatPunct "*"
    let ends ← do
      if ← atAnyPunct [")", "]", closeBrace, ",", ";", ":"] then pure true
      else if ← atWord "in" then pure true
      else atEnd
    if delegate || !ends then
      let _ ← g.assignment true
  return .other (← spanFrom i)

/-- What may follow an operand: an assignment, a condition or nothing. -/
def assignmentRest (i : Nat) (returnType : Bool) (left : Expr) : Parser Expr := do
  if ← atPunct ">" then
    let t := Lexer.rightAngle (← environment).text (← token)
    if t.kind == .punct ">>=" || t.kind == .punct ">>>=" then setToken t
  if ← atAnyPunct assignmentOperators then
    let plain ← atPunct "="
    asTarget left
    bump
    let _ ← g.assignment returnType
    let span ← spanFrom i
    return if plain then .assignment span else .other span
  if ← eatPunct "?" then
    let _ ← within Grammar.bracketed (g.assignment false)
    expectPunct ":"
    let _ ← g.assignment returnType
    return .other (← spanFrom i)
  return left

/-- An expression without commas. -/
def assignment (returnType : Bool) : Parser Expr := do
  if ← atYield then return ← yieldExpression g
  if let some e ← parenthesizedArrow g returnType then return e
  if let some e ← asyncArrow g returnType then return e
  let i ← start
  let left := (← g.binary 0).expr
  match left with
  | .identifier .. =>
    if ← atPunct "=>" then
      flawIf (← onNewLine)
      bump
      return ← arrowBody g i false returnType
  | _ => pure ()
  assignmentRest g i returnType left

/-- Expressions separated by commas. -/
def expression : Parser Expr := do
  let i ← start
  let first ← g.assignment true
  loop (fun (e : Expr) => do
    if ← eatPunct "," then
      let _ ← g.assignment true
      return .again (.other (← spanFrom i))
    else return .done e) first

end ComponentInsight.Script.Expressions

import ComponentInsight.Script.Grammar.Expressions
import ComponentInsight.Script.Grammar.Modules

/-!
# Statements
-/

namespace ComponentInsight.Script.Statements

open Script.Parser Script.Modifiers Script.Functions Script.Declarations

variable (g : Grammar)

/-! ### Statements with a keyword -/

/-- An expression in parentheses, as the condition of a statement. -/
def condition : Parser Unit := do
  expectPunct "("
  let _ ← g.expression
  expectPunct ")"

/-- `if`, with the word `else` belonging to the nearest one. -/
def conditional : Parser Unit := do
  bump
  condition g
  let _ ← g.statement .single
  if ← eatWord "else" then
    let _ ← g.statement .single

/-- `do … while`, behind which no semicolon is needed. -/
def doLoop : Parser Unit := do
  bump
  let _ ← g.statement .single
  expectWord "while"
  condition g
  let _ ← eatPunct ";"

/-- The rest of a head `for (init; test; step)`, from the first semicolon on. It awaits nothing. -/
def countingHead (awaits : Bool) : Parser Unit := do
  flawIf awaits
  expectPunct ";"
  unless ← atPunct ";" do
    let _ ← g.expression
  expectPunct ";"
  unless ← atPunct ")" do
    let _ ← g.expression

/-- The rest of a head `for (x of e)` or `for (x in e)`, from its word on. Only the former
awaits. -/
def iterationHead (awaits : Bool) : Parser Unit := do
  if ← eatWord "of" then
    let _ ← g.value
  else
    flawIf awaits
    expectWord "in"
    let _ ← g.expression

/-- A context in which `in` is no operator. -/
def withoutIn (c : Context) : Context := { c with allowIn := false }

/-- The head of a `for` that declares variables, from their word on. A resource is no key. -/
def declaringHead (kind : VariableKind) (awaits : Bool) : Parser Unit := do
  bump
  let bound ← within withoutIn (declarators g kind)
  if ← atAnyWord ["of", "in"] then
    flawIf (kind == .resource && (← atWord "in"))
    iterationHead g awaits
  else
    checkValues kind bound
    countingHead g awaits

/-- The head of a `for` that begins with an expression. In front of `of` it does not begin with
`let`, and it is not `async` alone unless the loop awaits. -/
def expressionHead (awaits : Bool) : Parser Unit := do
  let startsLet ← atWord "let"
  let asyncOf ← if ← atWord "async" then next (atWord "of") else pure false
  let left ← within withoutIn (g .expression)
  if ← atAnyWord ["of", "in"] then
    flawIf ((← atWord "of") && (startsLet || (asyncOf && !awaits)))
    asTarget left
    iterationHead g awaits
  else countingHead g awaits

/-- Whether the `let` here declares variables of a loop. -/
def atLoopLet : Parser Bool := next (do
  if ← atWord "in" then return false
  if ← atName then return true
  atAnyPunct ["[", openBrace])

/-- The head of a `for`, between its parentheses. -/
def loopHead (awaits : Bool) : Parser Unit := do
  if ← atPunct ";" then return ← countingHead g awaits
  if ← atWord "var" then return ← declaringHead g .plain awaits
  if ← atWord "const" then return ← declaringHead g .constant awaits
  if (← atWord "let") && (← atLoopLet) then return ← declaringHead g .plain awaits
  if (← atUsing) && !(← next (atWord "of")) then return ← declaringHead g .resource awaits
  if ← atAwaitUsing then
    bump
    return ← declaringHead g .resource awaits
  expressionHead g awaits

/-- `for`. -/
def forLoop : Parser Unit := do
  bump
  let awaits ← eatWord "await"
  flawIf (awaits && !(← context).awaits)
  expectPunct "("
  within Grammar.bracketed (loopHead g awaits)
  expectPunct ")"
  let _ ← g.statement .single

/-- The statements of a case, which declare no resources. -/
def caseStatements : Parser Unit :=
  loop (fun (_ : Unit) => do
    if ← atPunct closeBrace then return .done ()
    if ← atAnyWord ["case", "default"] then return .done ()
    flawIf (← atUsing)
    flawIf (← atAwaitUsing)
    let _ ← g.statement .list
    return .again ()) ()

/-- The cases of a `switch`, in braces. -/
def switchCases : Parser Unit := do
  expectPunct openBrace
  within Grammar.bracketed <| loop (fun (_ : Unit) => do
    if ← atPunct closeBrace then return .done ()
    if ← eatWord "case" then
      let _ ← g.expression
    else expectWord "default"
    expectPunct ":"
    caseStatements g
    return .again ()) ()
  expectPunct closeBrace

/-- `try` with its handlers, one at least. -/
def tryStatement : Parser Unit := do
  bump
  block g
  let caught ← eatWord "catch"
  if caught then
    if ← eatPunct "(" then
      let _ ← g.pattern
      let _ ← Patterns.annotation g
      expectPunct ")"
    block g
  let ended ← eatWord "finally"
  if ended then block g
  unless caught || ended do fail

/-- `return`, only inside functions. -/
def returnStatement : Parser Unit := do
  flawIf !(← context).returns
  bump
  unless ← canEnd do
    let _ ← g.expression
  semicolon

/-- `throw`, with its expression on the same line. -/
def throwStatement : Parser Unit := do
  bump
  if ← onNewLine then fail
  let _ ← g.expression
  semicolon

/-- `break` or `continue`, with a label on the same line. -/
def jump : Parser Unit := do
  bump
  unless ← canEnd do
    let _ ← identifier
  semicolon

/-- A statement that begins with a keyword of all dialects, if one does. -/
def keywordStatement (word : String) : Parser Bool := do
  match word with
  | "if" => conditional g; return true
  | "for" => forLoop g; return true
  | "while" | "with" =>
    bump
    condition g
    let _ ← g.statement .single
    return true
  | "do" => doLoop g; return true
  | "switch" =>
    bump
    condition g
    switchCases g
    return true
  | "try" => tryStatement g; return true
  | "return" => returnStatement g; return true
  | "throw" => throwStatement g; return true
  | "break" | "continue" => jump; return true
  | "debugger" =>
    bump
    semicolon
    return true
  | _ => return false

/-! ### Expressions and declarations -/

/-- An expression as a statement, or a label with its statement. -/
def expressionStatement : Parser Statement := do
  let e ← g.expression
  match e with
  | .identifier .. =>
    if ← eatPunct ":" then
      let _ ← g.statement .single
      return .other
  | _ => pure ()
  semicolon
  return .other

/-- What the token behind a `let` makes of it. -/
inductive LetUse where
  /-- The left operand of an operator. -/
  | operand
  /-- The beginning of a member or call. -/
  | callee
  /-- A statement of its own. -/
  | alone
  | declaration

/-- What a `let` at the beginning of a statement is. -/
def letUse (single : Bool) (following : TokenKind) : LetUse :=
  match following with
  | .punct "." | .punct "(" => .callee
  | .punct ";" => .alone
  | .punct p =>
    if Expressions.assignmentOperators.contains p then .operand
    else if (Expressions.precedence? following).isSome && (Expressions.joint? following).isNone then
      .operand
    else if single && p != "[" then .alone
    else .declaration
  | .word "in" false | .word "instanceof" false => .operand
  | _ => if single then .alone else .declaration

/-- A statement that begins with `let`. A member or call needs nothing to end it. -/
def letStatement (place : Place) : Parser Statement := do
  let following := ((← lookahead (do bump; kind))).getD .eof
  match letUse (place == .single) following with
  | .operand =>
    let _ ← g.value
    semicolon
    return .other
  | .callee =>
    let _ ← g.expression
    return .other
  | .alone =>
    bump
    semicolon
    return .other
  | .declaration =>
    flawIf (place == .single)
    return (← variableStatement g .plain).statement

/-- A function as a statement. A generator or asynchronous function is no single statement. -/
def functionStatement (place : Place) (async : Bool) : Parser Statement := do
  let f ← functionDeclaration g async
  flawIf f.name.isNone
  flawIf (place == .single && (async || f.generator))
  return .other

/-- A class, or an export, behind decorators. -/
def decorated (place : Place) : Parser Statement := do
  let _ ← decorators g
  if ← atWord "export" then return ← Modules.exportDeclaration g place true
  let ms ← modifiers ofMembers
  flawIf (place == .single)
  return (← classStatement g ms).statement

/-- A declaration that any dialect knows, if one begins here. -/
def plainDeclaration? (place : Place) : Parser (Option Statement) := do
  match ← keyword with
  | "var" => return some (← variableStatement g .plain).statement
  | "let" => return some (← letStatement g place)
  | "const" =>
    flawIf (place == .single && !((← isTyped) && (← next (atWord "enum"))))
    return some (← declaration g []).statement
  | "class" =>
    flawIf (place == .single)
    return some (← classStatement g []).statement
  | "function" => return some (← functionStatement g place false)
  | "async" =>
    unless ← atAsyncFunction do return none
    bump
    return some (← functionStatement g place true)
  | "using" =>
    unless ← atUsing do return none
    flawIf (place == .single)
    return some (← variableStatement g .resource).statement
  | "await" =>
    unless ← atAwaitUsing do return none
    flawIf (place == .single)
    bump
    return some (← variableStatement g .resource).statement
  | _ => return none

/-- The words that a declaration of typed dialects begins with. -/
def typedWords : List String :=
  ["interface", "type", "module", "namespace", "declare", "enum", "private", "protected", "public",
   "abstract", "accessor", "static", "readonly", "global"]

/-- A declaration of typed dialects, if one begins here. Nothing is awaited in it. -/
def typedDeclaration? : Parser (Option Statement) := do
  if !(← isTyped) || !(← atAnyWord typedWords) then return none
  within (fun c => { c with awaits := false }) do
    if ← atTypedDeclaration then return some (← modifiedDeclaration g).statement
    return none

/-- A statement. -/
def statement (place : Place) : Parser Statement := do
  if ← atPunct openBrace then
    block g
    return .other
  if ← eatPunct ";" then return .other
  if ← atPunct "@" then return ← decorated g place
  let word ← keyword
  if word == "import" && !(← next (atAnyPunct ["(", "."])) then
    return ← Modules.importDeclaration
  if word == "export" then return ← Modules.exportDeclaration g place false
  if ← keywordStatement g word then return .other
  if let some s ← plainDeclaration? g place then return s
  if let some s ← typedDeclaration? g then return s
  expressionStatement g

end ComponentInsight.Script.Statements

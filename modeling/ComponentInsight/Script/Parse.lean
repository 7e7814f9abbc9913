import ComponentInsight.Script.Grammar.Statements

/-!
# Parsing scripts

The circle of productions is closed here: `grammar n` reads everything nested at most `n`
productions deep, and `read` chooses `n` by the length of the script. `parse` yields the module
of a valid script and nothing otherwise.
-/

namespace ComponentInsight.Script

/-- The production of each nonterminal. -/
def production (g : Grammar) : Grammar
  | .expression => Expressions.expression g
  | .assignment returnType => Expressions.assignment g returnType
  | .binary level => Expressions.binary g level
  | .unary => Expressions.unary g
  | .leftHand => Expressions.leftHand g
  | .callee => Expressions.callee g
  | .statement place => Statements.statement g place
  | .type => Types.type g
  | .typeOperand => Types.operand g
  | .pattern => Patterns.pattern g
  | .markup child => Markup.element g child

/-- The grammar down to a depth. -/
def grammar : Nat → Grammar
  | 0 => fun _ => Parser.exhausted
  | depth + 1 => fun n => production (grammar depth) n

/-- The statements of a script. Strings at the very beginning are directives and no statements. -/
def script (g : Grammar) : Parser (List Statement) :=
  Parser.loop (fun ((directives, statements) : Bool × List Statement) => do
    if ← Parser.atEnd then return .done statements.reverse
    if directives && (← Parser.atString) then
      let e ← g.expression
      Parser.semicolon
      match e with
      | .string .. => return .again (true, statements)
      | _ => return .again (false, .other :: statements)
    return .again (false, (← g.statement .top) :: statements)) (true, [])

/-- The context at the top level of a module. -/
def topLevel (dialect : Dialect) : Context :=
  { allowIn := true, yields := false, awaits := true, returns := false
    ambient := dialect.ambient, conditionalTypes := true, decorator := false }

/-- Whether what was read makes up a valid script: no flaw, no entry `name = value` outside a
pattern, and no name exported twice. Exports of typed dialects may repeat, for overloads. -/
def State.isValid (s : State) (dialect : Dialect) : Bool :=
  !s.flawed && s.defaults.isEmpty &&
    (dialect.typed || s.exports.eraseDups.length == s.exports.length)

/-- Where the reading of a script begins. -/
def State.initial (text : Array Char) : State :=
  let first := Lexer.firstToken text
  { token := first, lastStop := 0, flawed := first.flawed, defaults := []
    openSpreads := [], exports := [], notArrow := [] }

/-- The reading of a script, to a depth that no script exhausts (`read_ne_exhausted`). -/
def read (text : Array Char) (dialect : Dialect) : Reply (List Statement) :=
  let depth := 16 * (text.size + 4)
  script (grammar depth) ⟨text, dialect, topLevel dialect⟩ (.initial text)

/-- The module of a script. -/
def parse (text : String) (dialect : Dialect) : Option Program :=
  let chars := text.toList.toArray
  match read chars dialect with
  | .ok statements s => if s.isValid dialect then some ⟨chars, statements⟩ else none
  | .fail _ | .exhausted => none

end ComponentInsight.Script

import ComponentInsight.Script.Grammar.Types

/-!
# Markup elements

Elements and fragments inside scripts of a markup dialect. They are read for where they end; a
closing tag must repeat the name of its opening tag.
-/

namespace ComponentInsight.Script.Markup

open Script.Parser Script.Types

variable (g : Grammar)

/-- A name that may hold hyphens, as written. -/
def hyphenated : Parser String := do
  unless ← atName do fail
  let text := (← environment).text
  let t := Lexer.markupName text (← token)
  setToken t
  bump
  return String.ofList (text.extract t.start t.stop).toList

/-- The name of an element: `a`, `a:b` or `a.b.c`, as written. A member has no hyphens. -/
def elementName : Parser (List String) := do
  let first ← hyphenated
  if ← eatPunct ":" then return [first, ":", ← hyphenated]
  loop (fun (parts : List String) => do
    if ← eatPunct "." then
      let part ← name
      return .again (parts ++ [".", part])
    else return .done parts) [first]

/-- An expression in braces, without commas, as the value of an attribute. -/
def braced : Parser Unit := do
  expectPunct openBrace
  let _ ← g.value
  expectPunct closeBrace

/-- One attribute. -/
def markupAttribute : Parser Unit := do
  if ← eatPunct openBrace then
    expectPunct "..."
    let _ ← g.expression
    expectPunct closeBrace
    return ()
  let _ ← hyphenated
  if ← eatPunct ":" then
    let _ ← hyphenated
  if ← atPunct "=" then
    bumpWith Lexer.attributeValue
    if ← atString then bump
    else if ← atPunct openBrace then braced g
    else if ← atPunct "<" then g.markup false
    else fail

/-- Read the `>` that ends a tag; behind it comes text when the tag stands in an element. -/
def closeTag (inside : Bool) : Parser Unit := do
  unless ← atPunct ">" do fail
  bumpWith (if inside then Lexer.markupChild else Lexer.token)

/-- What stands between an opening tag and its closing tag, which is not read. -/
def children : Parser Unit :=
  loop (fun (_ : Unit) => do
    match ← kind with
    | .markupText =>
      bumpWith Lexer.markupChild
      return .again ()
    | .punct "<" =>
      if ← next (atPunct "/") then return .done ()
      g.markup true
      return .again ()
    | .punct _ =>
      expectPunct openBrace
      if ← eatPunct "..." then
        let _ ← g.expression
      else unless ← atPunct closeBrace do
        let _ ← g.value
      unless ← atPunct closeBrace do fail
      bumpWith Lexer.markupChild
      return .again ()
    | _ => fail) ()

/-- An element or fragment. -/
def element (child : Bool) : Parser Unit := do
  expectPunct "<"
  if ← atPunct ">" then
    closeTag true
    children g
    expectPunct "<"
    expectPunct "/"
    closeTag child
    return ()
  let opening ← elementName
  if ← isTyped then optionalArguments g
  loop (fun (_ : Unit) => do
    if ← atAnyPunct [">", "/"] then return .done ()
    markupAttribute g
    return .again ()) ()
  if ← eatPunct "/" then
    closeTag child
    return ()
  closeTag true
  children g
  expectPunct "<"
  expectPunct "/"
  let closing ← elementName
  flawIf (opening != closing)
  closeTag child

end ComponentInsight.Script.Markup

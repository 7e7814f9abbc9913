import ComponentInsight.Script.Grammar.Functions

/-!
# Object literals
-/

namespace ComponentInsight.Script.Objects

open Script.Parser Script.Patterns Script.Functions

variable (g : Grammar)

/-- A method of an object, from its signature on. -/
def methodValue (async generator : Bool) : Parser Expr := do
  let i ← start
  let _ ← functionRest g .function async generator false
  return .other (← spanFrom i)

/-- A getter or setter, from its word on: its key and its function. -/
def accessorEntry : Parser (Key × Expr) := do
  let setter ← atWord "set"
  bump
  let key ← propertyKey g
  let i ← start
  let f ← functionRest g .function false false false
  if setter then checkSetter f.signature.parameters else checkGetter f.signature.parameters
  return (key, .other (← spanFrom i))

/-- An entry `name` or `name = value`; the latter has to become a pattern later on. -/
def shorthand (i : Nat) (name : String) : Parser Entry := do
  let s ← spanFrom i
  if ← eatPunct "=" then
    let _ ← g.value
    modifyState fun st => { st with defaults := i :: st.defaults }
  return .property (← spanFrom i) (.static name) (.identifier s name) true false

/-- One entry of an object literal. -/
def entry : Parser Entry := do
  let i ← start
  if ← eatPunct "..." then return .spread (← g.value)
  let async ← if ← atWord "async" then nextOnLine canFollowModifier else pure false
  if async then bump
  if !async && (← atAnyWord ["get", "set"]) && (← next atPropertyKey) then
    let (key, value) ← accessorEntry g
    return .property (← spanFrom i) key value false false
  let generator ← eatPunct "*"
  let plain ← atIdentifier
  let key ← propertyKey g
  if async || generator || (← atNameless) then
    let value ← methodValue g async generator
    return .property (← spanFrom i) key value false true
  if ← eatPunct ":" then
    let value ← g.value
    return .property (← spanFrom i) key value false false
  match plain, key with
  | true, .static name => shorthand g i name
  | _, _ => fail

/-- An object literal. -/
def objectLiteral : Parser Expr := do
  let i ← start
  expectPunct openBrace
  let (entries, trailing) ← commaList closeBrace (entry g)
  if trailing && entries.getLast?.any Entry.isSpread then noteOpenSpread i
  expectPunct closeBrace
  return .object (← spanFrom i) entries

end ComponentInsight.Script.Objects

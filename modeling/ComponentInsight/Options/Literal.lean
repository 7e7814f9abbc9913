import ComponentInsight.Number.Shortest
import ComponentInsight.Options.Object
import ComponentInsight.Table

/-!
# Literal values

Option values are read without running anything. Object and array literals, strings, numbers,
booleans, `null` and `undefined` have a value; a name or a path of members stands for something
defined elsewhere; every other expression is kept as its source text.
-/

namespace ComponentInsight

open Script

/-- The value of an expression as far as it can be read off. -/
inductive Literal where
  | null
  | undefined
  | boolean (value : Bool)
  | number (value : Magnitude)
  | string (value : String)
  /-- A name or path of members. -/
  | reference (path : String)
  | array (items : List Literal)
  | object (entries : List (String × Literal))
  /-- The source text of any other expression. -/
  | verbatim (source : String)

namespace Literal

mutual

/-- The value of an expression. -/
def evaluate (m : Program) : Expr → Literal
  | .wrapped _ _ inner => evaluate m inner
  | .null _ => .null
  | .boolean _ b => .boolean b
  | .number _ v => .number v
  | .string _ s => .string s
  | .template _ raw => .string raw
  | .identifier _ name => if name = "undefined" then .undefined else .reference name
  | .member span => .reference (m.slice span)
  | .array _ items => .array (evaluateItems m items)
  | .object _ entries => .object (evaluateEntries m entries [])
  | .element span | .call span _ | .arrow span _ | .importCall span _ | .assertion span _
  | .assignment span | .chain span | .other span => .verbatim (m.slice span)

/-- The values of the elements of an array, without holes and spreads. -/
def evaluateItems (m : Program) : List Item → List Literal
  | [] => []
  | .value e :: rest => evaluate m e :: evaluateItems m rest
  | .hole :: rest | .spread _ :: rest => evaluateItems m rest

/-- The values of the entries of an object with static keys, added to a table. -/
def evaluateEntries (m : Program) : List Entry → Table String Literal → Table String Literal
  | [], table => table
  | .property span (.static key) e _ method :: rest, table =>
    let value := if method then .verbatim (m.slice span) else evaluate m e
    evaluateEntries m rest (table.put key value)
  | .property _ .dynamic _ _ _ :: rest, table | .spread _ :: rest, table =>
    evaluateEntries m rest table

end

/-- An entry of an object. -/
def get? : Literal → String → Option Literal
  | .object entries, key => Table.find? entries key
  | _, _ => none

def asBoolean? : Literal → Option Bool
  | .boolean b => some b
  | _ => none

def asString? : Literal → Option String
  | .string s => some s
  | _ => none

def asReference? : Literal → Option String
  | .reference path => some path
  | _ => none

mutual

/-- The text of a value, close to how it would be written. -/
def text : Literal → String
  | .null => "null"
  | .undefined => "undefined"
  | .boolean b => if b then "true" else "false"
  | .number v => v.text
  | .string s => "'" ++ s ++ "'"
  | .reference path => path
  | .verbatim source => source
  | .array items => "[" ++ ", ".intercalate (itemTexts items) ++ "]"
  | .object [] => "\x7b\x7d"
  | .object (e :: rest) => "\x7b " ++ ", ".intercalate (entryTexts (e :: rest)) ++ " \x7d"

/-- The texts of several values. -/
def itemTexts : List Literal → List String
  | [] => []
  | v :: rest => v.text :: itemTexts rest

/-- The texts of several entries. -/
def entryTexts : List (String × Literal) → List String
  | [] => []
  | (key, v) :: rest => (key ++ ": " ++ v.text) :: entryTexts rest

end

end Literal

end ComponentInsight

import ComponentInsight.Script.Grammar

/-!
# Modifiers

Words such as `static` or `readonly` in front of a declaration, a member or a parameter. A word is a
modifier only when something follows that it can modify, so most of them are names elsewhere. Some
exclude each other and some have a fixed order: `barred` tells for each modifier which others may
not stand before it.
-/

namespace ComponentInsight.Script.Modifiers

open Script.Parser

/-- The modifiers that may not stand before a modifier. -/
def barred : String → List String
  | "public" | "private" | "protected" =>
    ["public", "private", "protected", "override", "static", "accessor", "readonly", "async",
     "abstract"]
  | "override" => ["override", "declare", "readonly", "accessor", "async"]
  | "static" => ["static", "readonly", "async", "accessor", "abstract", "override"]
  | "accessor" => ["accessor", "readonly", "declare"]
  | "readonly" => ["readonly", "accessor"]
  | "declare" => ["declare", "async", "override", "accessor"]
  | "abstract" => ["abstract", "static", "private", "async", "override", "accessor"]
  | "async" => ["async", "declare", "abstract"]
  | "in" => ["in", "out"]
  | w => [w]

/-- Modifiers of class members. -/
def ofMembers : List String :=
  ["abstract", "accessor", "async", "declare", "override", "private", "protected", "public",
   "readonly", "static"]

/-- Modifiers that are read in front of the members of an object type. -/
def ofTypeMembers : List String := ofMembers ++ ["export", "in", "out"]

/-- Modifiers of parameters that are also fields. -/
def ofParameters : List String := ["override", "private", "protected", "public", "readonly"]

/-- Modifiers of type parameters. -/
def ofTypeParameters : List String := ["const", "in", "out"]

/-- Whether the word here has something to modify, for most words on the same line. -/
def modifies (w : String) : Parser Bool :=
  if w == "static" then next canFollowModifier else nextOnLine canFollowModifier

/-- Modifiers among `words`, in order. A second `static` is a name, and a `static` in front of a
brace begins a block. -/
def modifiers (words : List String) : Parser (List String) :=
  loop (fun (ms : List String) => do
    let w ← keyword
    let begins ←
      if !words.contains w then pure false
      else if w == "static" && ms.contains w then pure false
      else if w == "static" && (← next (atPunct openBrace)) then pure false
      else modifies w
    if begins then
      flawIf ((barred w).any ms.contains)
      bump
      return .again (ms ++ [w])
    else return .done ms) []

/-- Require that all modifiers are permitted ones. -/
def permit (allowed ms : List String) : Parser Unit := flawIf (ms.any (!allowed.contains ·))

end ComponentInsight.Script.Modifiers

import ComponentInsight.Number.Binary64

/-!
# Tokens of a script

A token is a kind and the range of characters it covers. Keywords are words; which words are
reserved depends on where they stand, so a token does not say.
-/

namespace ComponentInsight.Script

/-- What a token is. -/
inductive TokenKind where
  /-- The end of the script. -/
  | eof
  /-- An identifier or keyword, decoded; `escaped` when it was written with an escape. -/
  | word (name : String) (escaped : Bool)
  /-- `#name` -/
  | privateName (name : String)
  /-- A punctuator, by its spelling. -/
  | punct (spelling : String)
  | number (value : Magnitude)
  | bigint
  /-- A string literal, decoded; `wellFormed` when it holds no half of a surrogate pair. -/
  | string (value : String) (wellFormed : Bool)
  /-- A piece of a template literal: `last` when it ends the literal, `valid` when its escapes may
  stand in an untagged one. -/
  | template (raw : String) (last valid : Bool)
  | regex
  /-- Text between markup tags. -/
  | markupText
  /-- A character that begins no token, or an unfinished literal. -/
  | invalid
  deriving DecidableEq, Repr

/-- A token of a script. -/
structure Token where
  kind : TokenKind
  start : Nat
  stop : Nat
  /-- A line ends between the token before and this one. -/
  newline : Bool
  /-- The token, or a comment in front of it, is malformed. -/
  flawed : Bool
  deriving Repr

/-- The spelling of an opening brace. -/
def openBrace : String := "\x7b"

/-- The spelling of a closing brace. -/
def closeBrace : String := "\x7d"

/-- Words that are never identifiers. -/
def reservedWords : List String :=
  ["break", "case", "catch", "class", "const", "continue", "debugger", "default", "delete", "do",
   "else", "enum", "export", "extends", "false", "finally", "for", "function", "if", "import", "in",
   "instanceof", "new", "null", "return", "super", "switch", "this", "throw", "true", "try",
   "typeof", "var", "void", "while", "with"]

def isReserved (name : String) : Bool := reservedWords.contains name

end ComponentInsight.Script

/-!
# JSON text

A reader for JSON as far as configuration needs it. Numbers are checked and dropped, since no
setting is a number. A string whose escapes do not form Unicode text (half a surrogate pair) is
still JSON; it has no text, and only where its text is needed does that matter. Members keep their
order, repeated names included.
-/

namespace ComponentInsight.Config

/-- A JSON value. -/
inductive Json where
  | null
  | boolean
  | number
  /-- A string, with its text if it has one. -/
  | string (text : Option String)
  | array (items : List Json)
  | object (members : List (Option String × Json))

namespace Json

/-- White space of JSON. -/
def isSpace (c : Char) : Bool := c == ' ' || c == '\t' || c == '\n' || c == '\r'

def skipSpace (cs : List Char) : List Char := cs.dropWhile isSpace

/-! ### Strings -/

/-- The value of a hexadecimal digit. -/
def hexValue? (c : Char) : Option Nat :=
  if c.isDigit then some (c.toNat - '0'.toNat)
  else if 'a' ≤ c ∧ c ≤ 'f' then some (c.toNat - 'a'.toNat + 10)
  else if 'A' ≤ c ∧ c ≤ 'F' then some (c.toNat - 'A'.toNat + 10)
  else none

/-- Four hexadecimal digits. -/
def codeUnit? : List Char → Option (Nat × List Char)
  | a :: b :: c :: d :: rest => do
    let n := (← hexValue? a) * 4096 + (← hexValue? b) * 256 + (← hexValue? c) * 16 + (← hexValue? d)
    return (n, rest)
  | _ => none

/-- A unit of a string: a character, or an escaped half of a surrogate pair. -/
abbrev StringUnit := Char ⊕ Nat

/-- The unit of an escaped code. -/
def unitOf (n : Nat) : StringUnit :=
  if 0xD800 ≤ n ∧ n ≤ 0xDFFF then .inr n else .inl (Char.ofNat n)

/-- The character a letter behind a backslash stands for. -/
def simpleEscape? : Char → Option Char
  | '"' => some '"'
  | '\\' => some '\\'
  | '/' => some '/'
  | 'b' => some (Char.ofNat 8)
  | 'f' => some (Char.ofNat 12)
  | 'n' => some '\n'
  | 'r' => some '\r'
  | 't' => some '\t'
  | _ => none

/-- The units of a string from behind its opening quote, in reverse, and the text behind it. -/
def units? : Nat → List Char → List StringUnit → Option (List StringUnit × List Char)
  | 0, _, _ => none
  | fuel + 1, cs, units =>
    match cs with
    | '"' :: rest => some (units, rest)
    | '\\' :: 'u' :: rest => do
      let (n, rest) ← codeUnit? rest
      units? fuel rest (unitOf n :: units)
    | '\\' :: c :: rest => do units? fuel rest (.inl (← simpleEscape? c) :: units)
    | c :: rest => if c.toNat < 0x20 then none else units? fuel rest (.inl c :: units)
    | [] => none

/-- The text of units; two halves of a surrogate pair make one character. -/
def textOf? : List StringUnit → Option (List Char)
  | [] => some []
  | .inl c :: rest => (textOf? rest).map (c :: ·)
  | .inr hi :: .inr lo :: rest =>
    if hi < 0xDC00 ∧ 0xDC00 ≤ lo then
      (textOf? rest).map (Char.ofNat (0x10000 + (hi - 0xD800) * 0x400 + (lo - 0xDC00)) :: ·)
    else none
  | .inr _ :: _ => none

/-- A string from behind its opening quote. -/
def string? (cs : List Char) : Option (Option String × List Char) := do
  let (units, rest) ← units? (cs.length + 1) cs []
  return ((textOf? units.reverse).map String.ofList, rest)

/-! ### Numbers -/

/-- Digits, one at least; the text behind them. -/
def digits? : List Char → Option (List Char)
  | c :: rest => if c.isDigit then some (rest.dropWhile Char.isDigit) else none
  | [] => none

/-- The whole part of a number: no zero in front of another digit. -/
def whole? : List Char → Option (List Char)
  | '0' :: rest => some rest
  | cs => digits? cs

/-- The fraction of a number, if there is one; the text behind it. -/
def fraction? : List Char → Option (List Char)
  | '.' :: rest => digits? rest
  | cs => some cs

/-- The exponent of a number, if there is one; the text behind it. -/
def exponent? : List Char → Option (List Char)
  | e :: rest =>
    if e = 'e' ∨ e = 'E' then
      match rest with
      | '+' :: rest | '-' :: rest => digits? rest
      | _ => digits? rest
    else some (e :: rest)
  | [] => some []

/-- A number without its sign; the text behind it. -/
def unsigned? (cs : List Char) : Option (List Char) :=
  whole? cs >>= fraction? >>= exponent?

/-- A number; the text behind it. -/
def number? : List Char → Option (List Char)
  | '-' :: rest => unsigned? rest
  | cs => unsigned? cs

/-! ### Values -/

mutual

/-- The value at the head of a text, white space skipped, and the text behind it. -/
def value? : Nat → List Char → Option (Json × List Char)
  | 0, _ => none
  | fuel + 1, cs =>
    match skipSpace cs with
    | '"' :: rest => (string? rest).map fun (s, rest) => (.string s, rest)
    | '[' :: rest =>
      match skipSpace rest with
      | ']' :: rest => some (.array [], rest)
      | rest => (items? fuel rest).map fun (items, rest) => (.array items, rest)
    | '{' :: rest =>
      match skipSpace rest with
      | '}' :: rest => some (.object [], rest)
      | rest => (members? fuel rest).map fun (members, rest) => (.object members, rest)
    | 'n' :: 'u' :: 'l' :: 'l' :: rest => some (.null, rest)
    | 't' :: 'r' :: 'u' :: 'e' :: rest => some (.boolean, rest)
    | 'f' :: 'a' :: 'l' :: 's' :: 'e' :: rest => some (.boolean, rest)
    | cs => (number? cs).map fun rest => (.number, rest)

/-- Values separated by commas, up to and with the closing bracket. -/
def items? : Nat → List Char → Option (List Json × List Char)
  | 0, _ => none
  | fuel + 1, cs =>
    match value? fuel cs with
    | some (v, rest) =>
      match skipSpace rest with
      | ']' :: rest => some ([v], rest)
      | ',' :: rest => (items? fuel rest).map fun (vs, rest) => (v :: vs, rest)
      | _ => none
    | none => none

/-- Members separated by commas, up to and with the closing brace. -/
def members? : Nat → List Char → Option (List (Option String × Json) × List Char)
  | 0, _ => none
  | fuel + 1, cs =>
    match skipSpace cs with
    | '"' :: rest =>
      match string? rest with
      | some (name, rest) =>
        match skipSpace rest with
        | ':' :: rest =>
          match value? fuel rest with
          | some (v, rest) =>
            match skipSpace rest with
            | '}' :: rest => some ([(name, v)], rest)
            | ',' :: rest => (members? fuel rest).map fun (ms, rest) => ((name, v) :: ms, rest)
            | _ => none
          | none => none
        | _ => none
      | none => none
    | _ => none

end

/-- The value a text consists of, with white space around it. -/
def parse? (text : String) : Option Json :=
  let cs := text.toList
  match value? (2 * cs.length + 2) cs with
  | some (v, rest) => if (skipSpace rest).isEmpty then some v else none
  | none => none

/-! ### Decoding -/

/-- The text of a string. -/
def asText? : Json → Option String
  | .string text => text
  | _ => none

/-- The texts of an array of strings. -/
def asTexts? : Json → Option (List String)
  | .array items => items.mapM asText?
  | _ => none

/-- A text or `null`. -/
def asNullable? : Json → Option (Option String)
  | .null => some none
  | j => (asText? j).map some

/-- The members of an object, decoded. -/
def asEntries? {α : Type} (decode : Json → Option α) : Json → Option (List (String × α))
  | .object members => members.mapM fun (name, v) => do return (← name, ← decode v)
  | _ => none

/-- The value of a field that occurs at most once among members whose names all have a text. -/
def field? (members : List (String × Json)) (name : String) : Option (Option Json) :=
  match members.filter fun m => m.1 == name with
  | [] => some none
  | [m] => some (some m.2)
  | _ => none

/-- The fields of a record, each of which may be missing. A record is an object, in which other
members are ignored, or an array of the fields in order. -/
def asRecord? (names : List String) : Json → Option (List (Option Json))
  | .object members => do
    let members ← members.mapM fun (name, v) => do return (← name, v)
    names.mapM (field? members)
  | .array items =>
    if items.length ≤ names.length then
      some (items.map some ++ List.replicate (names.length - items.length) none)
    else none
  | _ => none

/-- A field of a record: its decoded value, or a default when it is missing. -/
def fieldOr {α : Type} (fallback : α) (decode : Json → Option α) : Option Json → Option α
  | none => some fallback
  | some j => decode j

end Json

end ComponentInsight.Config

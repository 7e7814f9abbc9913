import ComponentInsight.Script.Token
import ComponentInsight.Text.CharClass

/-!
# Reading tokens

`Lexer.token` reads the token at a position, with the white space and comments in front of it. The
meaning of some characters depends on what the parser expects, so a token can also be read again in
another way: a `/` as a regular expression (`Lexer.regex`), a `}` as the continuation of a template
(`Lexer.templateTail`), a `>` as a longer operator (`Lexer.rightAngle`), a `<<` as a single `<`
(`Lexer.leftAngle`), and markup text, names and attribute values.

Malformed input never stops the lexer: it marks the token as flawed.
-/

namespace ComponentInsight.Script.Lexer

open Text (isLetter isLetterOrMark inRanges)

/-! ### Characters -/

def isLineEnd (c : Char) : Bool :=
  c == '\n' || c == '\r' || c.toNat == 0x2028 || c.toNat == 0x2029

/-- White space within a line. -/
def isSpace (c : Char) : Bool :=
  c == ' ' || c == '\t' ||
    inRanges [(0xB, 0xC), (0x85, 0x85), (0xA0, 0xA0), (0x1680, 0x1680), (0x2000, 0x200B),
      (0x202F, 0x202F), (0x205F, 0x205F), (0x3000, 0x3000), (0xFEFF, 0xFEFF)] c.toNat

def isNameStart (c : Char) : Bool := c == '$' || c == '_' || isLetter c

def isNamePart (c : Char) : Bool :=
  c == '$' || isLetterOrMark c || c.toNat == 0x200C || c.toNat == 0x200D

/-- The value of a hexadecimal digit. -/
def hexValue? (c : Char) : Option Nat :=
  if c.isDigit then some (c.toNat - '0'.toNat)
  else if 'a' ≤ c ∧ c ≤ 'f' then some (c.toNat - 'a'.toNat + 10)
  else if 'A' ≤ c ∧ c ≤ 'F' then some (c.toNat - 'A'.toNat + 10)
  else none

def isOctal (c : Char) : Bool := '0' ≤ c && c ≤ '7'

/-! ### White space and comments -/

/-- The first position from `i` on whose character fails `p`. -/
def skipWhile (p : Char → Bool) (cs : Array Char) (i : Nat) : Nat :=
  if h : i < cs.size then
    if p cs[i] then skipWhile p cs (i + 1) else i
  else i
termination_by cs.size - i

/-- Whether the characters from `i` on begin with a text. -/
def startsAt (cs : Array Char) (i : Nat) : List Char → Bool
  | [] => true
  | c :: rest => cs[i]? == some c && startsAt cs (i + 1) rest

/-- The position behind the end of a block comment, and whether a line ends inside it. -/
def blockEnd (cs : Array Char) (i : Nat) (newline : Bool) : Option (Nat × Bool) :=
  if h : i < cs.size then
    if cs[i] == '*' && cs[i + 1]? == some '/' then some (i + 2, newline)
    else blockEnd cs (i + 1) (newline || isLineEnd cs[i])
  else none
termination_by cs.size - i

/-- Where the white space and comments at a position end. -/
structure Gap where
  stop : Nat
  newline : Bool
  flawed : Bool

/-- Skip white space and comments. -/
def gap (cs : Array Char) : Nat → Gap → Gap
  | 0, g => g
  | fuel + 1, g =>
    match cs[g.stop]? with
    | none => g
    | some c =>
      if isSpace c then gap cs fuel { g with stop := g.stop + 1 }
      else if isLineEnd c then gap cs fuel { g with stop := g.stop + 1, newline := true }
      else if startsAt cs g.stop ['/', '/'] then
        gap cs fuel { g with stop := skipWhile (!isLineEnd ·) cs g.stop }
      else if startsAt cs g.stop ['/', '*'] then
        match blockEnd cs (g.stop + 2) g.newline with
        | some (stop, newline) => gap cs fuel { g with stop, newline }
        | none => { g with stop := cs.size, flawed := true }
      else g

/-! ### Escapes -/

/-- Exactly `n` hexadecimal digits: their value and the position behind them. -/
def hexDigits (cs : Array Char) : Nat → Nat → Nat → Option (Nat × Nat)
  | 0, i, acc => some (acc, i)
  | n + 1, i, acc => do
    let d ← cs[i]? >>= hexValue?
    hexDigits cs n (i + 1) (acc * 16 + d)

/-- Hexadecimal digits up to a closing brace. -/
def bracedHex (cs : Array Char) (i acc : Nat) (some? : Bool) : Option (Nat × Nat) :=
  if h : i < cs.size then
    if cs[i] == '}' then (if some? && acc ≤ 0x10FFFF then some (acc, i + 1) else none)
    else
      match hexValue? cs[i] with
      | some d => bracedHex cs (i + 1) (min (acc * 16 + d) 0x110000) true
      | none => none
  else none
termination_by cs.size - i

/-- The code point of an escape, read from behind its `u`. -/
def unicodeEscape (cs : Array Char) (i : Nat) : Option (Nat × Nat) :=
  if cs[i]? == some '{' then bracedHex cs (i + 1) 0 false else hexDigits cs 4 i 0

def isLeadSurrogate (n : Nat) : Bool := 0xD800 ≤ n && n ≤ 0xDBFF
def isTrailSurrogate (n : Nat) : Bool := 0xDC00 ≤ n && n ≤ 0xDFFF

/-- The code point of an escape, read from behind its `u`; two surrogates escaped with four digits
each make one. -/
def codePointEscape (cs : Array Char) (i : Nat) : Option (Nat × Nat) := do
  let (n, j) ← unicodeEscape cs i
  if isLeadSurrogate n && cs[i]? != some '{' && startsAt cs j ['\\', 'u'] then
    match hexDigits cs 4 (j + 2) 0 with
    | some (m, k) =>
      if isTrailSurrogate m then return (0x10000 + (n - 0xD800) * 0x400 + (m - 0xDC00), k)
      else return (n, j)
    | none => return (n, j)
  else return (n, j)

/-! ### Words -/

/-- A word in reading: its characters in reverse, where it ends, and how it was written. -/
structure Word where
  reversed : List Char
  stop : Nat
  escaped : Bool
  flawed : Bool

/-- Read the characters of a word. -/
def wordFrom (cs : Array Char) : Nat → Word → Word
  | 0, w => w
  | fuel + 1, w =>
    let fits (c : Char) : Bool := if w.reversed.isEmpty then isNameStart c else isNamePart c
    match cs[w.stop]? with
    | some '\\' =>
      match (if cs[w.stop + 1]? == some 'u' then unicodeEscape cs (w.stop + 2) else none) with
      | some (n, stop) =>
        let c := Char.ofNat n
        wordFrom cs fuel
          { reversed := c :: w.reversed, stop, escaped := true, flawed := w.flawed || !fits c }
      | none => { w with stop := w.stop + 1, escaped := true, flawed := true }
    | some c =>
      if fits c then wordFrom cs fuel { w with reversed := c :: w.reversed, stop := w.stop + 1 }
      else w
    | none => w

/-- The word at a position. -/
def word (cs : Array Char) (i : Nat) : Word := wordFrom cs (cs.size + 1) ⟨[], i, false, false⟩

def Word.name (w : Word) : String := String.ofList w.reversed.reverse

/-! ### Numbers -/

/-- A run of digits with separators between them: the digits, where it ends, and whether a
separator is misplaced. -/
structure Digits where
  reversed : List Char
  stop : Nat
  flawed : Bool

/-- Read digits of the class `p`. -/
def digitsFrom (p : Char → Bool) (cs : Array Char) : Nat → Digits → Digits
  | 0, d => d
  | fuel + 1, d =>
    match cs[d.stop]? with
    | some '_' =>
      let before := !d.reversed.isEmpty && cs[d.stop - 1]? != some '_'
      let after := (cs[d.stop + 1]?.map p).getD false
      digitsFrom p cs fuel
        { d with stop := d.stop + 1, flawed := d.flawed || !before || !after }
    | some c =>
      if p c then digitsFrom p cs fuel { d with reversed := c :: d.reversed, stop := d.stop + 1 }
      else d
    | none => d

def digits (p : Char → Bool) (cs : Array Char) (i : Nat) : Digits :=
  digitsFrom p cs (cs.size + 1) ⟨[], i, false⟩

/-- The values of digits, first digit first. -/
def Digits.values (d : Digits) : List Nat := (d.reversed.filterMap hexValue?).reverse

/-- The digits read in a base. -/
def natOf (base : Nat) (values : List Nat) : Nat := values.foldl (fun acc d => acc * base + d) 0

/-- The value of the digits of a literal with a base. When at most `exactTo` characters are written
it is the nearest value; longer ones are rounded after every digit. -/
def basedValue (base exactTo : Nat) (d : Digits) (start : Nat) : Magnitude :=
  if d.stop - start ≤ exactTo then Magnitude.ofNat (natOf base d.values)
  else Magnitude.ofDigits base d.values

/-- A token kind with its end, before the white space around it is known. -/
structure Lexeme where
  kind : TokenKind
  stop : Nat
  flawed : Bool

/-- A number may not run into a word or another digit. -/
def endNumber (cs : Array Char) (l : Lexeme) : Lexeme :=
  match cs[l.stop]? with
  | some c => if isNameStart c || c.isDigit then { l with flawed := true } else l
  | none => l

/-- A literal with a base prefix, from behind the prefix. -/
def basedNumber (base exactTo : Nat) (p : Char → Bool) (cs : Array Char) (i : Nat) : Lexeme :=
  let d := digits p cs i
  let flawed := d.flawed || d.reversed.isEmpty
  if cs[d.stop]? == some 'n' then endNumber cs ⟨.bigint, d.stop + 1, flawed⟩
  else endNumber cs ⟨.number (basedValue base exactTo d i), d.stop, flawed⟩

/-- The value of a decimal literal. -/
def decimalValue (whole fraction : List Nat) (exponent : Int) : Magnitude :=
  Magnitude.ofDecimal (natOf 10 (whole ++ fraction)) (exponent - fraction.length)

/-- An exponent: its value, end and flaws. -/
structure Exponent where
  value : Int
  stop : Nat
  flawed : Bool

/-- The exponent from behind its letter. -/
def exponent (cs : Array Char) (i : Nat) : Exponent :=
  let negative := cs[i]? == some '-'
  let j := if negative || cs[i]? == some '+' then i + 1 else i
  let d := digits Char.isDigit cs j
  let n : Int := (natOf 10 d.values : Nat)
  ⟨if negative then -n else n, d.stop, d.flawed || d.reversed.isEmpty⟩

/-- The exponent at a position, if one begins there. -/
def exponent? (cs : Array Char) (i : Nat) : Option Exponent :=
  if cs[i]? == some 'e' || cs[i]? == some 'E' then some (exponent cs (i + 1)) else none

/-- A decimal literal from its point on. -/
def fractional (cs : Array Char) (whole : Digits) : Lexeme :=
  let fraction := digits Char.isDigit cs (whole.stop + 1)
  let e := (exponent? cs fraction.stop).getD ⟨0, fraction.stop, false⟩
  endNumber cs ⟨.number (decimalValue whole.values fraction.values e.value), e.stop,
    whole.flawed || fraction.flawed || e.flawed⟩

/-- A decimal literal without a point, from its exponent on. -/
def scientific (whole : Digits) (e : Exponent) : Lexeme :=
  ⟨.number (decimalValue whole.values [] e.value), e.stop, whole.flawed || e.flawed⟩

/-- A decimal literal without point and exponent. -/
def integral (cs : Array Char) (whole : Digits) : Lexeme :=
  endNumber cs ⟨.number (Magnitude.ofNat (natOf 10 whole.values)), whole.stop, whole.flawed⟩

/-- Fraction and exponent behind the whole digits of a decimal literal. -/
def decimalRest (cs : Array Char) (whole : Digits) : Lexeme :=
  if cs[whole.stop]? == some '.' then fractional cs whole
  else
    match exponent? cs whole.stop with
    | some e => endNumber cs (scientific whole e)
    | none => integral cs whole

/-- A number that begins with a zero and another digit: octal when all its digits are. Behind other
digits an exponent begins with a small letter, and a word may follow it directly. -/
def legacyNumber (cs : Array Char) (i : Nat) : Lexeme :=
  let d := digits Char.isDigit cs i
  let separated := d.stop - i != d.reversed.length
  let d := { d with flawed := d.flawed || separated }
  if d.reversed.all isOctal then
    endNumber cs ⟨.number (basedValue 8 22 d i), d.stop, d.flawed⟩
  else if cs[d.stop]? == some '.' then fractional cs d
  else if cs[d.stop]? == some 'e' then scientific d (exponent cs (d.stop + 1))
  else integral cs d

/-- The number at a position. Behind the exponent of a bare zero a word may follow directly. -/
def number (cs : Array Char) (i : Nat) : Lexeme :=
  match cs[i]?, cs[i + 1]? with
  | some '0', some 'x' | some '0', some 'X' =>
    basedNumber 16 16 (fun c => (hexValue? c).isSome) cs (i + 2)
  | some '0', some 'o' | some '0', some 'O' => basedNumber 8 21 isOctal cs (i + 2)
  | some '0', some 'b' | some '0', some 'B' =>
    basedNumber 2 64 (fun c => c == '0' || c == '1') cs (i + 2)
  | some '0', some 'e' | some '0', some 'E' =>
    scientific ⟨['0'], i + 1, false⟩ (exponent cs (i + 2))
  | some '0', some c =>
    if c.isDigit || c == '_' then legacyNumber cs i
    else if c == 'n' then endNumber cs ⟨.bigint, i + 2, false⟩
    else decimalRest cs (digits Char.isDigit cs i)
  | _, _ =>
    let d := digits Char.isDigit cs i
    if cs[d.stop]? == some 'n' && !d.reversed.isEmpty then
      endNumber cs ⟨.bigint, d.stop + 1, d.flawed⟩
    else decimalRest cs d

/-! ### Strings -/

/-- A unit of a decoded string. -/
inductive TextUnit where
  | char (c : Char)
  /-- A character behind a backslash that stands for itself. -/
  | bare (c : Char)
  /-- Half of a surrogate pair. -/
  | surrogate (n : Nat)

/-- The unit of a code point. -/
def unitOf (n : Nat) : TextUnit :=
  if isLeadSurrogate n || isTrailSurrogate n then .surrogate n else .char (Char.ofNat n)

/-- A decoded escape: the units it stands for, where it ends, and whether it is malformed. -/
structure Escape where
  units : List TextUnit
  stop : Nat
  flawed : Bool

/-- Up to `n` octal digits. -/
def octalDigits (cs : Array Char) : Nat → Nat → Nat → Nat × Nat
  | 0, i, acc => (acc, i)
  | n + 1, i, acc =>
    match cs[i]? with
    | some c => if isOctal c then octalDigits cs n (i + 1) (acc * 8 + (c.toNat - 48)) else (acc, i)
    | none => (acc, i)

/-- The escape whose backslash stands before `i`. -/
def escape (cs : Array Char) (i : Nat) : Escape :=
  let plain (c : Char) : Escape := ⟨[.char c], i + 1, false⟩
  match cs[i]? with
  | none => ⟨[], i, true⟩
  | some 'n' => plain '\n'
  | some 't' => plain '\t'
  | some 'r' => plain '\r'
  | some 'b' => plain (Char.ofNat 8)
  | some 'v' => plain (Char.ofNat 11)
  | some 'f' => plain (Char.ofNat 12)
  | some '\r' => ⟨[], if cs[i + 1]? == some '\n' then i + 2 else i + 1, false⟩
  | some 'x' =>
    match hexDigits cs 2 (i + 1) 0 with
    | some (n, stop) => ⟨[.char (Char.ofNat n)], stop, false⟩
    | none => ⟨[], i + 1, true⟩
  | some 'u' =>
    match codePointEscape cs (i + 1) with
    | some (n, stop) => ⟨[unitOf n], stop, false⟩
    | none => ⟨[], i + 1, true⟩
  | some c =>
    if isLineEnd c then ⟨[], i + 1, false⟩
    else if isOctal c then
      let (n, stop) := octalDigits cs (if c ≤ '3' then 3 else 2) i 0
      ⟨[.char (Char.ofNat n)], stop, false⟩
    else ⟨[.bare c], i + 1, false⟩

/-- Lower-case hexadecimal text of a code unit, in four digits. -/
def unitHex (n : Nat) : List Char :=
  let d := Nat.toDigits 16 n
  List.replicate (4 - d.length) '0' ++ d

def TextUnit.isSurrogate : TextUnit → Bool
  | .surrogate _ => true
  | _ => false

/-- The character that marks half of a surrogate pair in a text. -/
def replacement : Char := Char.ofNat 0xFFFD

/-- A unit in a text without halves of surrogate pairs. -/
def TextUnit.plain : TextUnit → List Char
  | .char c | .bare c => [c]
  | .surrogate n => replacement :: unitHex n

/-- A unit in a text with halves of surrogate pairs, where the mark itself has to be told apart. -/
def TextUnit.marked : TextUnit → List Char
  | .char c | .bare c => if c == replacement then replacement :: unitHex 0xFFFD else [c]
  | .surrogate n => replacement :: unitHex n

/-- The text of decoded units. A text cannot hold half a surrogate pair: it is written as the
replacement character and its four digits. When one occurs, so is every replacement character,
except a bare one behind the first half. -/
def textOf (units : List TextUnit) : String :=
  let head := units.takeWhile (!·.isSurrogate)
  let tail := units.dropWhile (!·.isSurrogate)
  if tail.isEmpty then String.ofList (head.flatMap TextUnit.plain)
  else
    String.ofList (head.flatMap TextUnit.marked ++ tail.flatMap fun
      | .bare c => [c]
      | u => u.marked)

/-- The rest of a string literal: its units in reverse, its end and its flaws. -/
def stringFrom (quote : Char) (cs : Array Char) :
    Nat → Nat → List TextUnit → Bool → List TextUnit × Nat × Bool
  | 0, i, units, _ => (units, i, true)
  | fuel + 1, i, units, flawed =>
    match cs[i]? with
    | none => (units, i, true)
    | some '\\' =>
      let e := escape cs (i + 1)
      stringFrom quote cs fuel e.stop (e.units.reverse ++ units) (flawed || e.flawed)
    | some c =>
      if c == quote then (units, i + 1, flawed)
      else if c == '\n' || c == '\r' then (units, i, true)
      else stringFrom quote cs fuel (i + 1) (.char c :: units) flawed

/-- The string literal whose opening quote stands at `i`. -/
def string (quote : Char) (cs : Array Char) (i : Nat) : Lexeme :=
  let (units, stop, flawed) := stringFrom quote cs (cs.size + 1) (i + 1) [] false
  ⟨.string (textOf units.reverse) (!units.any TextUnit.isSurrogate), stop, flawed⟩

/-! ### Templates and regular expressions -/

/-- Whether the escape behind a backslash may stand in an untagged template. -/
def templateEscapeValid (cs : Array Char) (i : Nat) : Bool :=
  match cs[i]? with
  | some '0' => !((cs[i + 1]?.map Char.isDigit).getD false)
  | some c => !c.isDigit && !(escape cs i).flawed
  | none => true

/-- A piece of a template from `i` on: its raw characters in reverse, with line ends as `\n`. -/
def templateFrom (cs : Array Char) : Nat → Nat → List Char → Bool → Lexeme
  | 0, i, raw, valid => ⟨.template (String.ofList raw.reverse) true valid, i, true⟩
  | fuel + 1, i, raw, valid =>
    match cs[i]? with
    | none => ⟨.template (String.ofList raw.reverse) true valid, i, true⟩
    | some '\\' =>
      let valid := valid && templateEscapeValid cs (i + 1)
      match cs[i + 1]? with
      | some '\r' =>
        let next := if cs[i + 2]? == some '\n' then i + 3 else i + 2
        templateFrom cs fuel next ('\n' :: '\\' :: raw) valid
      | some c => templateFrom cs fuel (i + 2) (c :: '\\' :: raw) valid
      | none => templateFrom cs fuel (i + 1) ('\\' :: raw) valid
    | some '\r' =>
      let next := if cs[i + 1]? == some '\n' then i + 2 else i + 1
      templateFrom cs fuel next ('\n' :: raw) valid
    | some '$' =>
      if cs[i + 1]? == some '{' then
        ⟨.template (String.ofList raw.reverse) false valid, i + 2, false⟩
      else templateFrom cs fuel (i + 1) ('$' :: raw) valid
    | some c =>
      if c.toNat == 0x60 then ⟨.template (String.ofList raw.reverse) true valid, i + 1, false⟩
      else templateFrom cs fuel (i + 1) (c :: raw) valid

/-- The piece of a template behind the character at `i`, a back quote or a closing brace. -/
def template (cs : Array Char) (i : Nat) : Lexeme := templateFrom cs (cs.size + 1) (i + 1) [] true

/-- The end of a regular expression body; the flag tells whether a character class is open. -/
def regexEnd (cs : Array Char) : Nat → Nat → Bool → Option Nat
  | 0, _, _ => none
  | fuel + 1, i, inClass =>
    match cs[i]? with
    | none => none
    | some c =>
      if isLineEnd c then none
      else if c == '\\' then
        match cs[i + 1]? with
        | some d => if isLineEnd d then none else regexEnd cs fuel (i + 2) inClass
        | none => none
      else if c == '[' then regexEnd cs fuel (i + 1) true
      else if c == ']' then regexEnd cs fuel (i + 1) false
      else if c == '/' && !inClass then some (i + 1)
      else regexEnd cs fuel (i + 1) inClass

/-- Characters that belong to the flags of a regular expression. -/
def isFlag (c : Char) : Bool := c.isAlphanum || c == '$' || c == '_'

/-- The regular expression whose opening slash stands at `i`. Its flags are known and distinct, and
`u` and `v` exclude each other. -/
def regex (cs : Array Char) (i : Nat) : Lexeme :=
  match regexEnd cs (cs.size + 1) (i + 1) false with
  | none => ⟨.invalid, cs.size, true⟩
  | some j =>
    let stop := skipWhile isFlag cs j
    let flags := (cs.extract j stop).toList
    let known := flags.all fun c => ['d', 'g', 'i', 'm', 's', 'u', 'v', 'y'].contains c
    let clash := flags.contains 'u' && flags.contains 'v'
    ⟨.regex, stop, !known || clash || flags.eraseDups.length != flags.length⟩

/-! ### Punctuators -/

/-- The punctuators, longer ones before those they begin with. A `>` always stands alone. -/
def punctuators : List String :=
  ["...", "===", "!==", "**=", "<<=", "&&=", "||=", "??=",
   "=>", "==", "!=", "<=", "++", "--", "**", "<<", "&&", "||", "??", "+=", "-=", "*=", "/=", "%=",
   "&=", "|=", "^=",
   openBrace, closeBrace, "(", ")", "[", "]", ";", ",", "<", ">", "+", "-", "*", "/", "%", "&", "|",
   "^", "!", "~", "?", ":", "=", ".", "@"]

/-- The punctuators with their characters. -/
def punctuatorTable : List (String × List Char) := punctuators.map fun p => (p, p.toList)

/-- The punctuator at a position. -/
def punctuator (cs : Array Char) (i : Nat) : Lexeme :=
  if startsAt cs i ['?', '.'] && !((cs[i + 2]?.map Char.isDigit).getD false) then
    ⟨.punct "?.", i + 2, false⟩
  else
    match punctuatorTable.find? fun p => startsAt cs i p.2 with
    | some p => ⟨.punct p.1, i + p.2.length, false⟩
    | none => ⟨.invalid, i + 1, true⟩

/-- The operators that begin with a `>`. -/
def rightAngles : List (String × List Char) :=
  [">>>=", ">>>", ">>=", ">>", ">=", ">"].map fun p => (p, p.toList)

/-! ### Tokens -/

/-- The token at a position that is no white space or comment. -/
def lexeme (cs : Array Char) (i : Nat) : Lexeme :=
  match cs[i]? with
  | none => ⟨.eof, i, false⟩
  | some c =>
    if isNameStart c || c == '\\' then
      let w := word cs i
      ⟨.word w.name w.escaped, w.stop, w.flawed⟩
    else if c.isDigit || (c == '.' && (cs[i + 1]?.map Char.isDigit).getD false) then number cs i
    else if c == '"' || c == '\'' then string c cs i
    else if c.toNat == 0x60 then template cs i
    else if c == '#' then
      let w := word cs (i + 1)
      if w.reversed.isEmpty then ⟨.invalid, i + 1, true⟩
      else ⟨.privateName w.name, w.stop, w.flawed⟩
    else punctuator cs i

/-- The token behind a position, with white space and comments skipped. -/
def token (cs : Array Char) (i : Nat) : Token :=
  let g := gap cs (cs.size + 1) ⟨i, false, false⟩
  let l := lexeme cs g.stop
  ⟨l.kind, g.stop, l.stop, g.newline, g.flawed || l.flawed⟩

/-- The first token: a byte order mark or a `#!` line may stand in front of it, and it counts as
being on a new line. -/
def firstToken (cs : Array Char) : Token :=
  let i :=
    if (cs[0]?.map Char.toNat) == some 0xFEFF then 1
    else if startsAt cs 0 ['#', '!'] then skipWhile (!isLineEnd ·) cs 0
    else 0
  let g := gap cs (cs.size + 1) ⟨i, true, false⟩
  let l := lexeme cs g.stop
  ⟨l.kind, g.stop, l.stop, g.newline, g.flawed || l.flawed⟩

/-! ### Reading a token again -/

/-- Replace a token by another reading from its first character on. -/
def reread (t : Token) (l : Lexeme) : Token :=
  { t with kind := l.kind, stop := l.stop, flawed := l.flawed }

/-- The longest operator at a `>`. -/
def rightAngle (cs : Array Char) (t : Token) : Token :=
  match rightAngles.find? fun p => startsAt cs t.start p.2 with
  | some p => { t with kind := .punct p.1, stop := t.start + p.2.length }
  | none => t

/-- A `<` alone. -/
def leftAngle (t : Token) : Token := { t with kind := .punct "<", stop := t.start + 1 }

/-- What follows a markup tag or a braced expression between tags: a `<`, a `{` or text. Text holds
no `>` and no `}`. -/
def markupChild (cs : Array Char) (i : Nat) : Token :=
  match cs[i]? with
  | none => ⟨.eof, i, i, false, false⟩
  | some '<' => ⟨.punct "<", i, i + 1, false, false⟩
  | some '{' => ⟨.punct openBrace, i, i + 1, false, false⟩
  | some _ =>
    let special (c : Char) : Bool := c == '<' || c == '{' || c == '>' || c == '}'
    let stop := skipWhile (!special ·) cs i
    let bad := cs[stop]? == some '>' || cs[stop]? == some '}'
    ⟨if bad then .invalid else .markupText, i, stop, false, bad⟩

/-- The value of a markup attribute: a quoted text without escapes, or any other token. -/
def attributeValue (cs : Array Char) (i : Nat) : Token :=
  let t := token cs i
  match cs[t.start]? with
  | some c =>
    if c == '"' || c == '\'' then
      let stop := skipWhile (· != c) cs (t.start + 1)
      let text := String.ofList (cs.extract (t.start + 1) stop).toList
      reread t ⟨.string text true, stop + 1, stop == cs.size⟩
    else t
  | none => t

/-- A markup name: a word that may go on with hyphens. -/
def markupName (cs : Array Char) (t : Token) : Token :=
  { t with stop := skipWhile (fun c => c == '-' || isNamePart c) cs t.stop }

end ComponentInsight.Script.Lexer

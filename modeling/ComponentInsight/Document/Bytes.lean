import ComponentInsight.Document.Regions

/-!
# Splitting by bytes

The splitter over the UTF-8 bytes of a document, where positions are byte offsets. It does what
`Outline.ofText` does, with nothing taken for granted: a byte that is read has to be there, the
bounds of a range have to be in order and in the document, a text that is cut out has to begin and
end between characters, and a loop has to come to its end. What does not hold is a `Fault`.

Bytes are searched and compared by themselves, so a delimiter is found at its byte, whatever
characters stand around it.
-/

namespace ComponentInsight.Document

/-- Why the bytes of a document cannot be read as asked. -/
inductive Fault where
  | outOfRange
  | insideCharacter
  /-- A position in front of the document. -/
  | underflow
  /-- A loop that takes more rounds than the document has bytes. -/
  | endless
  deriving DecidableEq, Repr

/-- What is read if nothing is read that should not be. -/
abbrev Checked (α : Type) := Except Fault α

namespace Bytes

/-! ### Bytes and ranges -/

/-- The bytes of a text. -/
def ofText (text : String) : List UInt8 := text.toUTF8.data.toList

/-- The bytes of ASCII characters. -/
def ascii (cs : List Char) : List UInt8 := cs.map Char.toUInt8

/-- The byte at a position. -/
def byteAt (text : String) (i : Nat) : Checked UInt8 :=
  match (ofText text)[i]? with
  | some b => .ok b
  | none => .error .outOfRange

/-- The bytes from one position to another. -/
def range (text : String) (i j : Nat) : Checked (List UInt8) :=
  if i ≤ j ∧ j ≤ text.utf8ByteSize then .ok (((ofText text).drop i).take (j - i))
  else .error .outOfRange

/-- The bytes from a position on. -/
def tail (text : String) (i : Nat) : Checked (List UInt8) := range text i text.utf8ByteSize

/-- The text between two positions. -/
def slice (text : String) (i j : Nat) : Checked Slice :=
  if i ≤ j ∧ j ≤ text.utf8ByteSize then
    if String.Pos.Raw.isValid text ⟨i⟩ && String.Pos.Raw.isValid text ⟨j⟩ then
      .ok ⟨String.Pos.Raw.extract text ⟨i⟩ ⟨j⟩, i⟩
    else .error .insideCharacter
  else .error .outOfRange

/-- The position some bytes in front of another. -/
def before (i n : Nat) : Checked Nat := if n ≤ i then .ok (i - n) else .error .underflow

/-! ### Loops -/

/-- What a round of a loop leads to. -/
inductive Round (σ α : Type) where
  | again (s : σ)
  | done (a : α)

/-- Repeat a round, at most `fuel` times. -/
def repeatFor {σ α : Type} (round : σ → Checked (Round σ α)) : Nat → σ → Checked α
  | 0, _ => .error .endless
  | fuel + 1, s => do
    match ← round s with
    | .again s => repeatFor round fuel s
    | .done a => return a

/-- A loop over a text goes on by a byte in each round but the last. -/
def loop {σ α : Type} (text : String) (round : σ → Checked (Round σ α)) (s : σ) : Checked α :=
  repeatFor round (text.utf8ByteSize + 1) s

/-- Whether there is a byte at a position and it satisfies `p`. -/
def holds (text : String) (p : UInt8 → Bool) (i : Nat) : Checked Bool :=
  if i < text.utf8ByteSize then do return p (← byteAt text i) else return false

/-- Pass a byte that satisfies `p`. -/
def skipRound (text : String) (p : UInt8 → Bool) (i : Nat) : Checked (Round Nat Nat) := do
  if ← holds text p i then return .again (i + 1) else return .done i

/-- The position behind the bytes that satisfy `p`. -/
def skip (text : String) (p : UInt8 → Bool) (i : Nat) : Checked Nat :=
  loop text (skipRound text p) i

/-- Where a byte occurs next. -/
def next (text : String) (b : UInt8) (i : Nat) : Checked (Option Nat) := do
  return ((← tail text i).idxOf? b).map (i + ·)

/-- Where some bytes first occur in others. -/
def search (pattern : List UInt8) : List UInt8 → Option Nat
  | [] => if pattern.isEmpty then some 0 else none
  | b :: bs => if pattern.isPrefixOf (b :: bs) then some 0 else (search pattern bs).map (· + 1)

/-! ### Kinds of bytes -/

/-- The lower case of an ASCII letter. -/
def toLower (b : UInt8) : UInt8 := if 65 ≤ b ∧ b ≤ 90 then b + 32 else b

/-- Whether two byte sequences are equal in any ASCII letter case. -/
def equalFolded (bs cs : List UInt8) : Bool := bs.map toLower == cs.map toLower

/-- Whether some bytes begin with others, in any ASCII letter case. -/
def startsFolded (bs pattern : List UInt8) : Bool :=
  pattern.length ≤ bs.length && equalFolded (bs.take pattern.length) pattern

def isTagByte (b : UInt8) : Bool :=
  (97 ≤ b && b ≤ 122) || (65 ≤ b && b ≤ 90) || (48 ≤ b && b ≤ 57) || b == '-'.toUInt8 ||
    b == '_'.toUInt8

def isSpace (b : UInt8) : Bool :=
  b == ' '.toUInt8 || b == '\t'.toUInt8 || b == '\n'.toUInt8 || b == '\r'.toUInt8

def isBlank (b : UInt8) : Bool := b == ' '.toUInt8 || b == '\t'.toUInt8

def isQuote (b : UInt8) : Bool := b == '"'.toUInt8 || b == '\''.toUInt8

def isNameByte (b : UInt8) : Bool :=
  !(b == '='.toUInt8 || b == '>'.toUInt8 || b == '/'.toUInt8) && !isSpace b

def isBareByte (b : UInt8) : Bool := !(b == '>'.toUInt8 || b == '/'.toUInt8) && !isSpace b

/-! ### Opening tags -/

/-- The value of an attribute, from behind its name, and the position behind it. -/
def attributeValue (text : String) (i : Nat) : Checked (Slice × Nat) := do
  let i ← skip text isBlank i
  if ← holds text (· == '='.toUInt8) i then
    let i ← skip text isBlank (i + 1)
    if ← holds text isQuote i then
      let quote ← byteAt text i
      let stop := (← next text quote (i + 1)).getD text.utf8ByteSize
      return (← slice text (i + 1) stop, min (stop + 1) text.utf8ByteSize)
    else
      let stop ← skip text isBareByte i
      return (← slice text i stop, stop)
  else return (⟨"", i⟩, i)

/-- One attribute, or the end of the opening tag: its `>`, or the end of the text. -/
def attributeRound (text : String) :
    Nat × List Attribute → Checked (Round (Nat × List Attribute) (List Attribute × Nat))
  | (i, found) => do
    if ← holds text (· != '>'.toUInt8) i then
      let i ← skip text isSpace i
      if ← holds text (· != '>'.toUInt8) i then
        if (← byteAt text i) == '/'.toUInt8 then
          if ← holds text (· == '>'.toUInt8) (i + 1) then return .done (found, i + 1)
          else return .again (i + 1, found)
        else
          let stop ← skip text isNameByte i
          let name ← slice text i stop
          let (value, next) ← attributeValue text stop
          return .again (next, if name.text.isEmpty then found else found ++ [⟨name, value⟩])
      else return .done (found, i)
    else return .done (found, i)

/-- The attributes of an opening tag and the position of the `>` that ends it. -/
def attributes (text : String) (i : Nat) : Checked (List Attribute × Nat) :=
  loop text (attributeRound text) (i, [])

/-! ### Ends of contents -/

/-- Look at the next `<` from a position on, if there is one. -/
def atTag {σ α : Type} (text : String) (i : Nat)
    (look : Nat → Checked (Round σ (Option α))) : Checked (Round σ (Option α)) := do
  if i < text.utf8ByteSize then
    match ← next text '<'.toUInt8 i with
    | none => return .done none
    | some i => look i
  else return .done none

/-- The tag of a nested template, from behind its name: it opens one more or closes itself. -/
def enterTemplate (text : String) (depth i : Nat) : Checked (Round (Nat × Nat) (Option Nat)) := do
  match ← next text '>'.toUInt8 i with
  | none => return .done none
  | some stop =>
    if (← byteAt text (← before stop 1)) == '/'.toUInt8 then return .again (stop, depth)
    else return .again (stop, depth + 1)

/-- What a `<` means inside a template when some templates are open. -/
def lookTemplate (text : String) (depth i : Nat) : Checked (Round (Nat × Nat) (Option Nat)) := do
  if startsFolded (← tail text i) (ascii (closingTag templateTag)) then
    let depth ← before depth 1
    if depth == 0 then return .done (some i)
    else return .again (i + (closingTag templateTag).length, depth)
  else
    let inner := i + 1 + templateTag.length
    if startsFolded (← tail text (i + 1)) (ascii templateTag) then
      if ← holds text (fun b => isSpace b || b == '>'.toUInt8) inner then
        enterTemplate text depth inner
      else return .again (i + 1, depth)
    else return .again (i + 1, depth)

/-- The next tag of a template, from a position with some open templates. -/
def templateRound (text : String) : Nat × Nat → Checked (Round (Nat × Nat) (Option Nat))
  | (i, depth) => atTag text i (lookTemplate text depth)

/-- Where the content of a template ends. -/
def templateEnd (text : String) (i : Nat) : Checked (Option Nat) :=
  loop text (templateRound text) (i, 1)

/-- The next `<`: the closing tag, told by `isClosing`, or none. -/
def closingRound (text : String) (isClosing : Nat → Checked Bool) (i : Nat) :
    Checked (Round Nat (Option Nat)) :=
  atTag text i fun i => do
    if ← isClosing i then return .done (some i) else return .again (i + 1)

/-- Where the first closing tag stands. -/
def closingEnd (text : String) (isClosing : Nat → Checked Bool) (i : Nat) : Checked (Option Nat) :=
  loop text (closingRound text isClosing) i

/-- Whether the closing tag of a known block stands at a position. -/
def isKnownClosing (text : String) (tag : List Char) (i : Nat) : Checked Bool := do
  return startsFolded (← tail text i) (ascii (closingTag tag))

/-- Whether the closing tag of a block with a tag of its own stands at a position. -/
def isCustomClosing (text : String) (tag : List UInt8) (i : Nat) : Checked Bool := do
  let stop := i + 2 + tag.length
  if (ofText text)[i + 1]? == some '/'.toUInt8 && stop < text.utf8ByteSize then
    if equalFolded (← range text (i + 2) stop) tag then
      return (← byteAt text stop) == '>'.toUInt8
    else return false
  else return false

def scriptTag : List Char := ['s', 'c', 'r', 'i', 'p', 't']

def styleTag : List Char := ['s', 't', 'y', 'l', 'e']

/-- Where the content of a block ends, and how long its closing tag is. -/
def contentEnd (text : String) (tag : List UInt8) (i : Nat) : Checked (Option (Nat × Nat)) := do
  if equalFolded tag (ascii templateTag) then
    return (← templateEnd text i).map (·, (closingTag templateTag).length)
  else if equalFolded tag (ascii scriptTag) then
    return (← closingEnd text (isKnownClosing text scriptTag) i).map
      (·, (closingTag scriptTag).length)
  else if equalFolded tag (ascii styleTag) then
    return (← closingEnd text (isKnownClosing text styleTag) i).map
      (·, (closingTag styleTag).length)
  else return (← closingEnd text (isCustomClosing text tag) i).map (·, tag.length + 3)

/-! ### Blocks -/

/-- How far the scanner has come. -/
structure Scanner where
  offset : Nat
  line : Nat
  deriving DecidableEq, Repr

/-- Move on to a position, at most to the end, and count the lines on the way. -/
def Scanner.advanceTo (text : String) (s : Scanner) (i : Nat) : Checked Scanner := do
  let stop := min i text.utf8ByteSize
  return ⟨stop, s.line + (← range text s.offset stop).count '\n'.toUInt8⟩

/-- Whether an opening tag closes itself: its `>` is at a position and a `/` in front of it. -/
def closesItself (text : String) (i : Nat) : Checked Bool := do
  if 0 < i && i < text.utf8ByteSize then
    if (← byteAt text (← before i 1)) == '/'.toUInt8 then
      return (← byteAt text i) == '>'.toUInt8
    else return false
  else return false

/-- The block behind its opening tag, of which the name ends at `nameStop` and the attributes at
`i`, and how far the scanner has come then. -/
def blockBody (text : String) (s : Scanner) (nameStop : Nat) (tag : Slice) (found : List Attribute)
    (i : Nat) : Checked (Option (Block × Scanner)) := do
  if ← closesItself text i then
    let next ← s.advanceTo text (i + 1)
    return some (⟨tag, found, ← slice text (i + 1) (i + 1), s.offset, next.offset, s.line,
      next.line⟩, next)
  else if ← holds text (· == '>'.toUInt8) i then
    match ← contentEnd text (← range text (s.offset + 1) nameStop) (i + 1) with
    | none => return none
    | some (stop, length) =>
      let next ← s.advanceTo text (stop + length)
      return some (⟨tag, found, ← slice text (i + 1) stop, s.offset, next.offset, s.line,
        next.line⟩, next)
  else return none

/-- The block that begins at a `<`, and how far the scanner has come then. -/
def block (text : String) (s : Scanner) : Checked (Option (Block × Scanner)) := do
  let nameStop ← skip text isTagByte (s.offset + 1)
  if nameStop == s.offset + 1 then return none
  else
    let (found, i) ← attributes text nameStop
    blockBody text s nameStop (← slice text (s.offset + 1) nameStop) found i

/-- The end of the comment that begins at a position. -/
def commentEnd (text : String) (i : Nat) : Checked Nat := do
  return ((search (ascii commentClosing) (← tail text i)).map (i + · + 3)).getD text.utf8ByteSize

/-- What stands at a `<`: a comment is passed, a block is found, anything else is passed too. -/
def scanTag (text : String) (s : Scanner) :
    Checked (Round Scanner (Option (Block × Scanner))) := do
  if (ascii commentOpening).isPrefixOf (← tail text s.offset) then
    return .again (← s.advanceTo text (← commentEnd text s.offset))
  else
    match ← block text s with
    | some found => return .done (some found)
    | none => return .again (← s.advanceTo text (s.offset + 1))

/-- The next `<`, if there is one. -/
def scanRound (text : String) (s : Scanner) :
    Checked (Round Scanner (Option (Block × Scanner))) := do
  match ← next text '<'.toUInt8 s.offset with
  | none => return .done none
  | some i => scanTag text (← s.advanceTo text i)

/-- The next block, and how far the scanner has come then. -/
def nextBlock (text : String) (s : Scanner) : Checked (Option (Block × Scanner)) :=
  loop text (scanRound text) s

/-- The next block is added to the outline. -/
def outlineRound (text : String) : Scanner × Outline →
    Checked (Round (Scanner × Outline) (Except SplitError Outline))
  | (s, o) => do
    match ← nextBlock text s with
    | none => return .done (.ok o)
    | some (b, s) =>
      match o.add b with
      | .error e => return .done (.error e)
      | .ok o => return .again (s, o)

/-- The outline of a document, or the first block that should not be there. -/
def outline (text : String) : Checked (Except SplitError Outline) :=
  loop text (outlineRound text) (⟨0, 1⟩, Outline.empty)

end Bytes

end ComponentInsight.Document

import ComponentInsight.Document.Cursor

/-!
# Blocks of a document

A component document is a sequence of blocks `<tag attributes>content</tag>` with arbitrary text
between them. Comments between blocks hide what they hold. Only the top level is read: contents are
taken as they are, up to the first closing tag of the same name in any letter case; in a `template`
nested templates are counted.

Main functions: `closingIndex?` and `templateIndex?` find the end of a content, `block?` reads one
block, `blocks` all of them.
-/

namespace ComponentInsight.Document

/-! ### Characters -/

def isTagChar (c : Char) : Bool := c.isAlphanum || c == '-' || c == '_'

def isTagSpace (c : Char) : Bool := c == ' ' || c == '\t' || c == '\n' || c == '\r'

/-- Space between an attribute name, its `=` and its value. -/
def isInnerSpace (c : Char) : Bool := c == ' ' || c == '\t'

/-- Whether a text begins with another, in any ASCII letter case. -/
def startsFolded : List Char → List Char → Bool
  | _, [] => true
  | [], _ :: _ => false
  | c :: cs, p :: ps => c.toLower == p.toLower && startsFolded cs ps

/-- Whether two texts agree up to ASCII letter case. -/
def equalFolded (s t : List Char) : Bool := s.map Char.toLower == t.map Char.toLower

/-- The position of a text in another one. -/
def indexOf? (pattern : List Char) : List Char → Option Nat
  | [] => if pattern.isEmpty then some 0 else none
  | c :: cs =>
    if pattern.isPrefixOf (c :: cs) then some 0 else (indexOf? pattern cs).map (· + 1)

/-! ### Ends of contents -/

/-- The closing tag of a block. -/
def closingTag (tag : List Char) : List Char := '<' :: '/' :: (tag ++ ['>'])

/-- The length of a content: the position of its closing tag. -/
def closingIndex? (tag : List Char) : List Char → Option Nat
  | [] => none
  | c :: cs =>
    if startsFolded (c :: cs) (closingTag tag) then some 0
    else (closingIndex? tag cs).map (· + 1)

def templateTag : List Char := ['t', 'e', 'm', 'p', 'l', 'a', 't', 'e']

/-- Whether a text begins with the opening tag of a template. -/
def opensTemplate (cs : List Char) : Bool :=
  startsFolded cs ('<' :: templateTag) &&
    match cs.drop 9 with
    | c :: _ => isTagSpace c || c == '>'
    | [] => false

/-- The length of what is left of a template's content when `depth` templates are open. A nested
template that closes itself does not count. -/
def templateIndex? (depth : Nat) (cs : List Char) : Option Nat :=
  match cs with
  | [] => none
  | c :: rest =>
    if startsFolded (c :: rest) (closingTag templateTag) then
      if depth ≤ 1 then some 0
      else (templateIndex? (depth - 1) (rest.drop 10)).map (· + 11)
    else if opensTemplate (c :: rest) then
      let inner := (rest.drop 8).takeWhile (· != '>')
      if (rest.drop 8).length ≤ inner.length then none
      else
        let depth := if inner.getLast? = some '/' then depth else depth + 1
        (templateIndex? depth (rest.drop (8 + inner.length))).map (· + (9 + inner.length))
    else (templateIndex? depth rest).map (· + 1)
termination_by cs.length

/-! ### Opening tags -/

/-- An attribute of an opening tag; one without a value has the empty value. -/
structure Attribute where
  name : Slice
  value : Slice
  deriving DecidableEq, Repr

/-- How an opening tag ends, with what comes behind it. -/
inductive TagEnd where
  /-- With `>`. -/
  | opened (rest : Cursor)
  /-- With `/>`. -/
  | closed (rest : Cursor)
  /-- Not at all. -/
  | missing

/-- The value of an attribute, from behind its name, and what comes behind it. -/
def attributeValue (c : Cursor) : Slice × Cursor :=
  let c := c.skip isInnerSpace
  match c.rest with
  | '=' :: _ =>
    let c := (c.advance 1).skip isInnerSpace
    match c.rest with
    | q :: _ =>
      if q = '"' ∨ q = '\'' then
        let c := c.advance 1
        let n := c.run (· != q)
        (c.slice n, c.advance (n + 1))
      else
        let n := c.run fun x => x != '>' && x != '/' && !isTagSpace x
        (c.slice n, c.advance n)
    | [] => (c.slice 0, c)
  | _ => (c.slice 0, c)

/-- The characters of an attribute name. -/
def isAttributeNameChar (c : Char) : Bool := c != '=' && c != '>' && c != '/' && !isTagSpace c

/-- Reading the value of an attribute does not go back. -/
theorem length_attributeValue_le (c : Cursor) :
    (attributeValue c).2.rest.length ≤ c.rest.length := by
  have h := Cursor.length_rest_skip_le isInnerSpace c
  have h' := Cursor.length_rest_skip_le isInnerSpace ((c.skip isInnerSpace).advance 1)
  simp only [Cursor.rest_advance, List.length_drop] at h'
  unfold attributeValue
  grind [Cursor.rest_advance]

/-- A value that begins with `=` takes up at least that character. -/
theorem length_attributeValue_lt {c : Cursor} {rest : List Char} (h : c.rest = '=' :: rest) :
    (attributeValue c).2.rest.length < c.rest.length := by
  have hs : c.skip isInnerSpace = c := by
    simp [Cursor.skip, Cursor.run, h, isInnerSpace, Cursor.advance]
  have h' := Cursor.length_rest_skip_le isInnerSpace (c.advance 1)
  simp only [Cursor.rest_advance, List.length_drop] at h'
  have hl : 0 < c.rest.length := by simp [h]
  unfold attributeValue
  simp only [hs]
  grind [Cursor.rest_advance]

/-- One attribute, from the first character of its name on, takes up at least that character. -/
theorem length_attribute_lt {c : Cursor} {x : Char} {rest : List Char} (h : c.rest = x :: rest)
    (hs : isTagSpace x = false) (hgt : x ≠ '>') (hslash : x ≠ '/') :
    (attributeValue (c.skip isAttributeNameChar)).2.rest.length < c.rest.length := by
  by_cases hx : x = '='
  · have hskip : c.skip isAttributeNameChar = c := by
      simp [Cursor.skip, Cursor.run, h, hx, isAttributeNameChar, Cursor.advance]
    rw [hskip]
    exact length_attributeValue_lt (hx ▸ h)
  · have hname : isAttributeNameChar x = true := by
      simp [isAttributeNameChar, hx, hgt, hslash, hs]
    have hle := length_attributeValue_le (c.skip isAttributeNameChar)
    have hlt : (c.skip isAttributeNameChar).rest.length < c.rest.length := by
      simp only [Cursor.skip, Cursor.run, Cursor.rest_advance, List.length_drop, h,
        List.takeWhile_cons, hname, if_true, List.length_cons]
      omega
    omega

/-- The attributes from a position inside an opening tag on, and how the tag ends. Attributes
without a name are dropped, and so is a `/` that does not end the tag. -/
def attributes (c : Cursor) : List Attribute × TagEnd :=
  let inner := c.skip isTagSpace
  match _h : inner.rest with
  | [] => ([], .missing)
  | x :: rest =>
    if _hgt : x = '>' then ([], .opened (inner.advance 1))
    else if _hslash : x = '/' then
      if rest.head? = some '>' then ([], .closed (inner.advance 2))
      else attributes (inner.advance 1)
    else
      let name := inner.slice (inner.run isAttributeNameChar)
      let found := attributeValue (inner.skip isAttributeNameChar)
      let more := attributes found.2
      if name.text.isEmpty then more else (⟨name, found.1⟩ :: more.1, more.2)
termination_by c.rest.length
decreasing_by
  · have hle := Cursor.length_rest_skip_le isTagSpace c
    have hp : 0 < (c.skip isTagSpace).rest.length := by
      simp only [inner] at _h
      rw [_h]
      exact Nat.succ_pos _
    simp only [Cursor.rest_advance, List.length_drop]
    omega
  · have hle := Cursor.length_rest_skip_le isTagSpace c
    have hs : isTagSpace x = false := by
      have hhead := List.head?_dropWhile_not isTagSpace c.rest
      simp only [inner, Cursor.rest_skip] at _h
      simp_all
    have hlt := length_attribute_lt _h hs _hgt _hslash
    simp only [inner] at hlt
    exact Nat.lt_of_lt_of_le hlt hle

/-! ### Blocks -/

/-- A block of a document. -/
structure Block where
  tag : Slice
  attributes : List Attribute
  content : Slice
  /-- The offset of the `<` the block begins with. -/
  start : Nat
  /-- The offset behind the block. -/
  stop : Nat
  startLine : Nat
  endLine : Nat
  deriving DecidableEq, Repr

/-- The tag in lower case. -/
def Block.kind (b : Block) : String := b.tag.text.toLower

/-- The length of the content of a block with the given tag. -/
def contentLength? (tag content : List Char) : Option Nat :=
  if equalFolded tag templateTag then templateIndex? 1 content else closingIndex? tag content

/-- The block that begins at a `<`, and what comes behind it. -/
def block? (c : Cursor) : Option (Block × Cursor) :=
  let inner := c.advance 1
  let nameLength := inner.run isTagChar
  if nameLength = 0 then none
  else
    let tag := inner.slice nameLength
    match attributes (inner.advance nameLength) with
    | (_, .missing) => none
    | (attributes, .closed rest) =>
      some (⟨tag, attributes, rest.slice 0, c.offset, rest.offset, c.line, rest.line⟩, rest)
    | (attributes, .opened body) => do
      let n ← contentLength? (inner.rest.take nameLength) body.rest
      let rest := body.advance (n + (nameLength + 3))
      return (⟨tag, attributes, body.slice n, c.offset, rest.offset, c.line, rest.line⟩, rest)

/-- The beginning of a comment. -/
def commentOpening : List Char := ['<', '!', '-', '-']

/-- The end of a comment. -/
def commentClosing : List Char := ['-', '-', '>']

/-- How many characters the comment at the head of a text takes up. -/
def commentLength (cs : List Char) : Nat :=
  match indexOf? commentClosing cs with
  | some n => n + 3
  | none => cs.length

/-- The blocks from a position on, at most `fuel` characters looked at. -/
def blocksFrom : Nat → Cursor → List Block
  | 0, _ => []
  | fuel + 1, c =>
    match c.rest with
    | [] => []
    | x :: _ =>
      if x = '<' then
        if commentOpening.isPrefixOf c.rest then
          blocksFrom fuel (c.advance (commentLength c.rest))
        else
          match block? c with
          | some (b, rest) => b :: blocksFrom fuel rest
          | none => blocksFrom fuel c.step
      else blocksFrom fuel c.step

/-- The blocks of a document, in order. -/
def blocks (text : String) : List Block :=
  let c := Cursor.ofText text
  blocksFrom c.rest.length c

end ComponentInsight.Document

import ComponentInsight.Text.Ranges

/-!
# Character classes

The classes that identifiers, the event scan and white space in scripts are made of. ASCII is
decided directly; everything else by the ranges of `ComponentInsight.Text.Ranges`.
-/

namespace ComponentInsight.Text

/-- Whether a code point lies in one of the ranges. -/
def inRanges (ranges : List (Nat × Nat)) (n : Nat) : Bool :=
  ranges.any fun r => r.1 ≤ n && n ≤ r.2

/-- Whether a character may begin an identifier by its Unicode properties. -/
def isLetter (c : Char) : Bool :=
  c.isAlpha || (c.toNat ≥ 0x80 &&
    (letterRanges.any (inRanges · c.toNat) || inRanges recentLetters c.toNat))

/-- Whether a character may continue an identifier by its Unicode properties. -/
def isLetterOrMark (c : Char) : Bool :=
  c.isAlphanum || c == '_' || isLetter c || (c.toNat ≥ 0x80 &&
    (markRanges.any (inRanges · c.toNat) || inRanges recentMarks c.toNat))

/-- Symbols that may continue an identifier without being word characters. -/
def identifierOnly : List (Nat × Nat) :=
  [(0xB7, 0xB7), (0x387, 0x387), (0x1369, 0x1371), (0x19DA, 0x19DA), (0x2118, 0x2118),
   (0x212E, 0x212E), (0x309B, 0x309C), (0x30FB, 0x30FB), (0xFF65, 0xFF65)]

/-- Word characters that no identifier may hold: enclosing marks, joiners, enclosed letters. -/
def wordOnly : List (Nat × Nat) :=
  [(0x488, 0x489), (0x1ABE, 0x1ABE), (0x200C, 0x200D), (0x20DD, 0x20E0), (0x20E2, 0x20E4),
   (0x24B6, 0x24E9), (0x2E2F, 0x2E2F), (0xA670, 0xA672), (0x1F130, 0x1F149), (0x1F150, 0x1F169),
   (0x1F170, 0x1F189)]

/-- Whether a character is new in the last editions of the standard. -/
def isRecent (c : Char) : Bool := inRanges recentLetters c.toNat || inRanges recentMarks c.toNat

/-- A word character: an alphabetic character, a mark, a decimal digit, connector punctuation or a
joiner. -/
def isWordChar (c : Char) : Bool :=
  (isLetterOrMark c && !isRecent c && !inRanges identifierOnly c.toNat)
    || inRanges wordOnly c.toNat

/-- White space in the sense of the Unicode property `White_Space`. -/
def isBlank (c : Char) : Bool :=
  inRanges [(0x9, 0xD), (0x20, 0x20), (0x85, 0x85), (0xA0, 0xA0), (0x1680, 0x1680),
    (0x2000, 0x200A), (0x2028, 0x2029), (0x202F, 0x202F), (0x205F, 0x205F), (0x3000, 0x3000)]
    c.toNat

end ComponentInsight.Text

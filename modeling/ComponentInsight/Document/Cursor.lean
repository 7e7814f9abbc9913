/-!
# Positions in a document

A `Cursor` is what is left of a document together with where that is: the offset in UTF-8 bytes and
the line, counted from 1. A `Slice` is a piece of the document with the offset it begins at.
-/

namespace ComponentInsight.Document

/-- The number of UTF-8 bytes of some characters. -/
def byteLength : List Char → Nat
  | [] => 0
  | c :: cs => c.utf8Size + byteLength cs

/-- A piece of a document. -/
structure Slice where
  text : String
  start : Nat
  deriving DecidableEq, Repr

/-- The offset behind a slice. -/
def Slice.stop (s : Slice) : Nat := s.start + byteLength s.text.toList

/-- The rest of a document and where it begins. -/
structure Cursor where
  rest : List Char
  offset : Nat
  line : Nat
  deriving Repr

namespace Cursor

/-- The beginning of a document. -/
def ofText (text : String) : Cursor := ⟨text.toList, 0, 1⟩

/-- The cursor behind one more character. -/
def step (c : Cursor) : Cursor :=
  match c.rest with
  | [] => c
  | x :: rest => ⟨rest, c.offset + x.utf8Size, if x = '\n' then c.line + 1 else c.line⟩

/-- The cursor `n` characters further on, or at the end. -/
def advance : Nat → Cursor → Cursor
  | 0, c => c
  | n + 1, c => advance n c.step

/-- The next `n` characters. -/
def slice (n : Nat) (c : Cursor) : Slice := ⟨String.ofList (c.rest.take n), c.offset⟩

/-- How many characters in a row satisfy `p`. -/
def run (p : Char → Bool) (c : Cursor) : Nat := (c.rest.takeWhile p).length

/-- Skip the characters that satisfy `p`. -/
def skip (p : Char → Bool) (c : Cursor) : Cursor := c.advance (c.run p)

@[simp] theorem rest_step (c : Cursor) : c.step.rest = c.rest.drop 1 := by
  unfold step
  split <;> simp_all

@[simp] theorem rest_advance (n : Nat) (c : Cursor) : (c.advance n).rest = c.rest.drop n := by
  induction n generalizing c with
  | zero => rfl
  | succ n ih => simp [advance, ih]

/-- Behind its front, the text goes on with what follows the front. -/
theorem rest_advance_append {c : Cursor} {xs ys : List Char} (h : c.rest = xs ++ ys) :
    (c.advance xs.length).rest = ys := by
  rw [rest_advance, h, List.drop_left]

@[simp] theorem rest_skip (p : Char → Bool) (c : Cursor) :
    (c.skip p).rest = c.rest.dropWhile p := by
  simp only [skip, run, rest_advance]
  induction c.rest with
  | nil => rfl
  | cons x rest ih => by_cases h : p x <;> simp [h, ih]

/-- Skipping does not go back. -/
theorem length_rest_skip_le (p : Char → Bool) (c : Cursor) :
    (c.skip p).rest.length ≤ c.rest.length := by
  rw [rest_skip]
  exact (List.dropWhile_suffix p).length_le

end Cursor

end ComponentInsight.Document

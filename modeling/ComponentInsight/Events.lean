import ComponentInsight.Table
import ComponentInsight.Text.CharClass

/-!
# Emitted events

Event names are often computed, so emitted events are found by a scan of the text and not by
evaluating anything: every call `emit('name'`, whatever stands before `emit`, contributes `name`.
The scan goes from left to right; after a call it continues behind the closing quote, otherwise at
the next character.
-/

namespace ComponentInsight.Events

open Text (isWordChar isBlank)

/-- The three quotes a name may be written in. -/
def isQuote (c : Char) : Bool := c == '\'' || c == '"' || c.toNat == 0x60

/-- The characters of an event name. -/
def isNameChar (c : Char) : Bool := isWordChar c || c == ':' || c == '.' || c == '-'

/-- Remove one quote. -/
def quote? : List Char → Option (List Char)
  | c :: cs => if isQuote c then some cs else none
  | [] => none

/-- Remove the letters and the parenthesis that open a call. -/
def opening? : List Char → Option (List Char)
  | 'e' :: 'm' :: 'i' :: 't' :: '(' :: cs => some cs
  | _ => none

/-- A call at the head of the text: the name it emits and the text behind the closing quote. The
two quotes need not be the same. -/
def call? (cs : List Char) : Option (String × List Char) := do
  let afterOpening ← opening? cs
  let afterQuote ← quote? (afterOpening.dropWhile isBlank)
  let name := afterQuote.takeWhile isNameChar
  let rest ← quote? (afterQuote.dropWhile isNameChar)
  if name.isEmpty then none else some (String.ofList name, rest)

/-- A quote that is read leaves less behind it. -/
theorem length_quote? {cs rest : List Char} (h : quote? cs = some rest) :
    rest.length < cs.length := by
  unfold quote? at h
  split at h
  · split at h <;> simp_all
  · simp at h

/-- An opening that is read leaves less behind it. -/
theorem length_opening? {cs rest : List Char} (h : opening? cs = some rest) :
    rest.length < cs.length := by
  unfold opening? at h
  split at h
  · simp at h; subst h; simp; omega
  · simp at h

theorem length_dropWhile_le (p : Char → Bool) (cs : List Char) :
    (cs.dropWhile p).length ≤ cs.length :=
  (List.dropWhile_suffix p).length_le

/-- A call takes up at least one character. -/
theorem length_call? {cs rest : List Char} {name : String} (h : call? cs = some (name, rest)) :
    rest.length < cs.length := by
  simp only [call?, Option.bind_eq_bind, Option.bind_eq_some_iff] at h
  obtain ⟨a, ha, b, hb, c, hc, hr⟩ := h
  have h1 := length_opening? ha
  have h2 := length_quote? hb
  have h3 := length_quote? hc
  have h4 := length_dropWhile_le isBlank a
  have h5 := length_dropWhile_le isNameChar b
  split at hr
  · simp at hr
  · obtain ⟨_, rfl⟩ := Prod.mk.inj (Option.some.inj hr)
    omega

/-- The names of the calls in a text, in order, repeats included. The flag tells whether a word
character stands in front of the text: a call begins at a word boundary. -/
def callsFrom (inWord : Bool) (cs : List Char) : List String :=
  match cs with
  | [] => []
  | c :: rest =>
    match _hc : call? (c :: rest) with
    | some (name, after) =>
      if inWord then callsFrom (isWordChar c) rest else name :: callsFrom false after
    | none => callsFrom (isWordChar c) rest
termination_by cs.length
decreasing_by
  · simp
  · exact length_call? _hc
  · simp

/-- The names emitted in a text, each at its first occurrence. -/
def scan (text : String) : List String := Distinct.ofList (callsFrom false text.toList)

end ComponentInsight.Events

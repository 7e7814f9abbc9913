/-!
# Spellings of a name

A component registered as `UserCard` is written `<user-card>` in a template, and a prop declared
as `modelValue` is bound as `:model-value`. This module converts between the three spellings:

* `Name.pascal` : `user-card`, `user_card` and `userCard` become `UserCard`;
* `Name.camel` : `model-value` becomes `modelValue`;
* `Name.kebab` : `UserCard` becomes `user-card`.

Only ASCII letters change case; every other character is kept.
-/

namespace ComponentInsight.Name

/-- The characters of a PascalCase name: hyphens and underscores are dropped, and the character
after one is capitalised. The flag tells whether the next character is to be capitalised. -/
def pascalChars : Bool → List Char → List Char
  | _, [] => []
  | capital, c :: cs =>
    if c = '-' ∨ c = '_' then pascalChars true cs
    else (if capital then c.toUpper else c) :: pascalChars false cs

/-- The characters of a camelCase name: hyphens are dropped, and the character after one is
capitalised. -/
def camelChars : Bool → List Char → List Char
  | _, [] => []
  | capital, c :: cs =>
    if c = '-' then camelChars true cs
    else (if capital then c.toUpper else c) :: camelChars false cs

/-- One character after the first of a kebab-case name: a capital is written in lower case after
a hyphen. -/
def kebabChar (c : Char) : List Char :=
  if c.isUpper then ['-', c.toLower] else [c]

/-- The characters of a kebab-case name. A leading capital gets no hyphen. -/
def kebabChars : List Char → List Char
  | [] => []
  | c :: cs => c.toLower :: cs.flatMap kebabChar

/-- PascalCase spelling, the one components are registered under. -/
def pascal (s : String) : String := String.ofList (pascalChars true s.toList)

/-- camelCase spelling, the one props are declared under. -/
def camel (s : String) : String := String.ofList (camelChars false s.toList)

/-- kebab-case spelling, the one used for attributes in templates. -/
def kebab (s : String) : String := String.ofList (kebabChars s.toList)

end ComponentInsight.Name

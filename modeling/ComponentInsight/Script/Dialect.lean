import ComponentInsight.Path

/-!
# Script dialects

A script is read as an ES module in one of several dialects: with or without type annotations, with
or without markup. The file name chooses.
-/

namespace ComponentInsight.Script

/-- Which extensions of the language a script may use. -/
structure Dialect where
  /-- Type annotations are understood. -/
  typed : Bool
  /-- Markup elements are expressions. -/
  markup : Bool
  /-- The script holds declarations only, so bodies and initializers may be missing. -/
  ambient : Bool
  /-- A type assertion may be written in angle brackets, `<T>x`. -/
  angleAssertions : Bool
  deriving DecidableEq, Repr

namespace Dialect

def plain : Dialect := ⟨false, false, false, true⟩

/-- Every dialect. -/
def all : List Dialect :=
  [false, true].flatMap fun typed => [false, true].flatMap fun markup =>
    [false, true].flatMap fun ambient => [false, true].map fun angleAssertions =>
      ⟨typed, markup, ambient, angleAssertions⟩

theorem mem_all (d : Dialect) : d ∈ all := by
  obtain ⟨_ | _, _ | _, _ | _, _ | _⟩ := d <;> decide

/-- Whether one of the last two parts of a file name before its extension is `d`, as in `x.d.ts` or
`x.d.y.ts`. -/
def isDeclarationName (name : String) : Bool :=
  (((name.splitOn ".").reverse.drop 1).take 2).contains "d"

/-- Whether a file name with a part before it ends in `d` and its extension, as in `x.d.mts`. -/
def isModuleDeclarationName (name : String) : Bool :=
  match (name.splitOn ".").reverse with
  | _ :: "d" :: _ :: _ => true
  | _ => false

/-- The dialect of a file, by the extension of its last component; plain when it says nothing. -/
def ofFileName (fileName : String) : Dialect :=
  let path : Path := ⟨fileName⟩
  let name := path.fileName?.getD ""
  match path.extension? with
  | some "ts" => ⟨true, false, isDeclarationName name, true⟩
  | some "mts" | some "cts" => ⟨true, false, isModuleDeclarationName name, false⟩
  | some "tsx" => ⟨true, true, false, true⟩
  | some "jsx" => ⟨false, true, false, true⟩
  | _ => plain

end Dialect

end ComponentInsight.Script

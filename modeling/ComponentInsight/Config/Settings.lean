import ComponentInsight.Config.Json
import ComponentInsight.Table

/-!
# Editor settings

The settings section of an editor, as JSON: `aliases` maps prefixes of import specifiers to roots,
`exclude` is carried for the editor's own use.
-/

namespace ComponentInsight

/-- Aliases: prefixes of import specifiers and what they stand for. -/
abbrev Aliases := Table String String

/-- Editor settings. -/
structure Settings where
  aliases : Aliases
  exclude : Option String
  deriving DecidableEq, Repr

namespace Settings

def empty : Settings := ⟨[], none⟩

/-- The settings of a JSON value. -/
def ofJson? (j : Config.Json) : Option Settings := do
  match ← j.asRecord? ["aliases", "exclude"] with
  | [aliases, exclude] =>
    let entries ← Config.Json.fieldOr [] (Config.Json.asEntries? Config.Json.asText?) aliases
    return ⟨Table.ofEntries entries, ← Config.Json.fieldOr none Config.Json.asNullable? exclude⟩
  | _ => none

/-- Read settings from JSON text. -/
def parse? (text : String) : Option Settings := Config.Json.parse? text >>= ofJson?

/-- Settings with one more alias. -/
def withAlias (s : Settings) (key root : String) : Settings :=
  { s with aliases := s.aliases.put key root }

end Settings

end ComponentInsight

import ComponentInsight.Config.Settings

/-!
# Alias tables

The aliases of the editor settings and of the project, merged: on a shared prefix the project wins.
Entries are ordered from the longest prefix to the shortest, so the first one that fits a specifier
is the longest that does.
-/

namespace ComponentInsight

/-- Aliases ordered by falling length of the prefix. -/
structure AliasTable where
  entries : List (String × String)
  deriving DecidableEq, Repr

namespace AliasTable

/-- Longer prefixes first; prefixes of one length stay in order. -/
def sortByLength (entries : List (String × String)) : List (String × String) :=
  entries.mergeSort fun a b => b.1.utf8ByteSize ≤ a.1.utf8ByteSize

/-- The aliases of the settings and of the project. Empty prefixes do not count. -/
def merged (settings project : Aliases) : AliasTable :=
  ⟨sortByLength (Table.ofEntries ((settings ++ project).filter fun e => e.1 != ""))⟩

/-- The alias that fits a specifier. -/
def lookup? (t : AliasTable) (specifier : String) : Option (String × String) :=
  t.entries.find? fun e => e.1.toList.isPrefixOf specifier.toList

end AliasTable

end ComponentInsight

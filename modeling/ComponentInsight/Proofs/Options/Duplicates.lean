import ComponentInsight.Options.Literal
import ComponentInsight.Proofs.Table

/-!
# Repeated keys of an object literal

An object literal is read in three ways: a single option is searched from the end
(`OptionsObject.value?`), entries are enumerated in order (`OptionsObject.staticEntries`), and the
whole object is evaluated into a table, where a repeated key keeps its place and takes the new value
(`Literal.evaluate`). Each is to mean that of two entries with one key the last counts.

The entries in order are taken for the truth. `OptionsObject.declared?` is the last of them with a
key, and the two other readers are compared with it: the search finds it
(`OptionsObject.lastWith?_eq_declared?`), and the table is the one of the entries and their values
(`Literal.evaluate_object`). Together this is `OptionsObject.agreesWith_evaluate`.
-/

namespace ComponentInsight

open Script

/-! ### Values -/

/-- Wrappers do not matter for the value of an expression. -/
private theorem Literal.evaluate_unwrap (m : Program) (e : Expr) :
    evaluate m e.unwrap = evaluate m e :=
  e.apply_unwrap (evaluate m) fun span wrapper inner => by rw [evaluate]

namespace OptionsObject

variable (o : OptionsObject)

/-- The value of an entry in an evaluated object: methods are kept as their source text. -/
def entryValue (e : OptionEntry) : Literal :=
  if e.method then .verbatim (o.entrySource e) else Literal.evaluate o.program e.value

/-- The last of the entries with a key. -/
def declared? (key : String) : Option OptionEntry :=
  (o.staticEntries.filter fun e => e.key == key).getLast?

/-! ### Single options -/

/-- An option is declared exactly if some static entry has its key. -/
private theorem isSome_declared? (key : String) :
    (o.declared? key).isSome ↔ ∃ e ∈ o.staticEntries, e.key = key := by
  simp [declared?]

/-- The search from the end finds the last entry. -/
theorem lastWith?_eq_declared? (key : String) : o.lastWith? key = o.declared? key := by
  rw [declared?, staticEntries, List.filter_filterMap, List.getLast?_filterMap]
  rfl

private theorem value?_eq (key : String) :
    o.value? key = (o.declared? key).map OptionEntry.value := by
  rw [value?, lastWith?_eq_declared?]

/-! ### The evaluated object -/

/-- The entries with static keys are stored with their values, one after another. -/
private theorem evaluateEntries_eq (entries : List Entry) (table : Table String Literal) :
    Literal.evaluateEntries o.program entries table =
      table.putAll ((entries.filterMap asStatic?).map fun e => (e.key, o.entryValue e)) := by
  induction entries generalizing table with
  | nil => rfl
  | cons entry rest ih =>
    match entry with
    | .spread _ | .property _ .dynamic _ _ _ =>
      rw [Literal.evaluateEntries, ih]
      rfl
    | .property span (.static key) value shorthand method =>
      have hvalue : o.entryValue ⟨key, span, value, shorthand, method⟩ =
          if method then .verbatim (o.program.slice span)
          else Literal.evaluate o.program value := by
        cases method <;> rfl
      rw [Literal.evaluateEntries, ih, ← hvalue]
      rfl

/-- An object is evaluated to the table of its entries. -/
private theorem evaluate_object (span : Span) :
    Literal.evaluate o.program (.object span o.entries) =
      .object (Table.ofEntries (o.staticEntries.map fun e => (e.key, o.entryValue e))) := by
  rw [Literal.evaluate, evaluateEntries_eq]
  rfl

/-- Of the evaluated object's entry what counts is the value of the last entry. -/
private theorem get?_evaluate (span : Span) (key : String) :
    (Literal.evaluate o.program (.object span o.entries)).get? key =
      (o.declared? key).map o.entryValue := by
  have hvalues : (o.staticEntries.map fun e => (e.key, o.entryValue e)).filterMap
      (fun a => if a.1 = key then some a.2 else none) =
        (o.staticEntries.filter fun e => e.key == key).map o.entryValue := by
    rw [List.filterMap_map, ← List.filterMap_eq_map, ← List.filterMap_eq_filter,
      List.filterMap_filterMap]
    congr 1
    funext e
    by_cases hkey : e.key = key <;> simp [Option.guard, hkey]
  rw [evaluate_object, Literal.get?, Table.find?_ofEntries, hvalues, List.getLast?_map]
  rfl

/-- The evaluated object has the keys of the entries, each where it occurs first. -/
private theorem keys_ofEntries_staticEntries :
    (Table.ofEntries (o.staticEntries.map fun e => (e.key, o.entryValue e))).keys =
      (o.staticEntries.map OptionEntry.key).eraseDups := by
  have hkeys : Table.keys (o.staticEntries.map fun e => (e.key, o.entryValue e)) =
      o.staticEntries.map OptionEntry.key := by
    simp [Table.keys, Function.comp_def]
  rw [Table.ofEntries, Table.keys_putAll, hkeys]
  exact Distinct.ofList_eq_eraseDups _

/-! ### Agreement -/

/-- An options object and the value of its literal tell the same of repeated keys: the last entry
with a key counts, and the first one gives it its place. -/
structure AgreesWith (o : OptionsObject) (v : Literal) : Prop where
  /-- An option is there if it is declared. -/
  isSome_value?_iff (key : String) :
    (o.value? key).isSome ↔ ∃ e ∈ o.staticEntries, e.key = key
  /-- The source of an option is the one of the last entry. -/
  source?_eq {key : String} {e : OptionEntry} (he : o.declared? key = some e)
    (hmethod : e.method = false) : o.source? key = some (o.entrySource e)
  /-- If the last entry is a method, its source is the value. -/
  get?_of_method {key : String} {e : OptionEntry} (he : o.declared? key = some e)
    (hmethod : e.method = true) : v.get? key = some (.verbatim (o.entrySource e))
  /-- Otherwise the value is that of the option without wrappers. -/
  get?_of_value {key : String} {e : OptionEntry} (he : o.declared? key = some e)
    (hmethod : e.method = false) :
    ∃ x, o.value? key = some x ∧ v.get? key = some (Literal.evaluate o.program x.unwrap)
  /-- Keys are in order of first occurrence. -/
  keys_eq : ∃ table : Table String Literal, v = .object table ∧
    table.keys = (o.staticEntries.map OptionEntry.key).eraseDups

/-- **Of repeated keys the last counts**, whichever way an object literal is read. -/
theorem agreesWith_evaluate (o : OptionsObject) (span : Span) :
    o.AgreesWith (Literal.evaluate o.program (.object span o.entries)) where
  isSome_value?_iff key := by rw [value?_eq, Option.isSome_map, isSome_declared?]
  source?_eq he hmethod := by
    rw [source?, value?_eq, he]
    simp [entrySource, hmethod]
  get?_of_method he hmethod := by
    rw [get?_evaluate, he]
    simp [entryValue, hmethod]
  get?_of_value {key e} he hmethod := by
    refine ⟨e.value, by rw [value?_eq, he]; rfl, ?_⟩
    rw [get?_evaluate, he, Literal.evaluate_unwrap]
    simp [entryValue, hmethod]
  keys_eq := ⟨_, o.evaluate_object span, o.keys_ofEntries_staticEntries⟩

/-- A repeated key has its first place and its last value. -/
example :
    let entry key value := Entry.property ⟨0, 0⟩ (.static key) value false false
    (Literal.evaluate ⟨#[], []⟩ (.object ⟨0, 0⟩ [entry "flat" (.boolean ⟨0, 0⟩ true),
      entry "round" (.null ⟨0, 0⟩), entry "flat" (.identifier ⟨0, 0⟩ "wide")])).text =
        "\x7b flat: wide, round: null \x7d" := by
  decide +kernel

end OptionsObject

end ComponentInsight

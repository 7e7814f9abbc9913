import ComponentInsight.Options.Registrations
import Mathlib.Data.List.Forall2

/-!
# Wrappers in the options

Parentheses, casts and non-null assertions do not change what an expression means, and so they are
not to change what a script is read as. `Program.WrapsTo` says that wrappers are put into a program:
around the exported value, around values of variables, options and registrations, around elements
and arguments, at any depth. `Program.ReadAlike` says that both programs export the same options,
which name the same base options, mixins, components and events.

A reader that takes the wrappers off first (`Expr.unwrap`) sees the same but for parts
(`Expr.WrapsTo.unwrap`), and goes on by recursion (`ComponentTarget.ofExpr?_eq_of_wrapsTo`). This
holds of each value that is read. It does not hold of items: elements of the lists of mixins and
events, and the argument of the exported call, are matched as they stand, so that a wrapper hides
them (`Item.IsPlainReader`). The programs are read alike exactly when no item that is read gets one
(`Program.readAlike_iff_spares`).
-/

namespace ComponentInsight

namespace Script

/-! ### Wrapping -/

/-- Items of a list are the same, or values that are related. -/
inductive Item.Lift (r : Expr → Expr → Prop) : Item → Item → Prop
  | refl (i : Item) : Lift r i i
  | value {e e' : Expr} : r e e' → Lift r (.value e) (.value e')

/-- Entries of an object are the same, or have related values under one key. An entry in shorthand
may be written out. -/
inductive Entry.Lift (r : Expr → Expr → Prop) : Entry → Entry → Prop
  | refl (x : Entry) : Lift r x x
  | property (span : Span) (key : Key) {e e' : Expr} (shorthand shorthand' method : Bool) :
    r e e' →
      Lift r (.property span key e shorthand method) (.property span key e' shorthand' method)

mutual

/-- Wrappers are put around an expression and around parts of it, in any number. -/
inductive Expr.WrapsTo : Expr → Expr → Prop
  | parts {e e' : Expr} : Expr.PartsWrapTo e e' → Expr.WrapsTo e e'
  | around (span : Span) (wrapper : Wrapper) {e e' : Expr} :
    Expr.WrapsTo e e' → Expr.WrapsTo e (.wrapped span wrapper e')
  | inside (span : Span) (wrapper : Wrapper) {e e' : Expr} :
    Expr.WrapsTo e e' → Expr.WrapsTo (.wrapped span wrapper e) (.wrapped span wrapper e')

/-- Wrappers are put around parts of an expression: elements of arrays, values of entries, arguments
of calls and results of arrow functions, at any depth. The source of a dynamic import is no such
part. -/
inductive Expr.PartsWrapTo : Expr → Expr → Prop
  | refl (e : Expr) : Expr.PartsWrapTo e e
  | array (span : Span) {items items' : List Item} :
    List.Forall₂ (Item.Lift Expr.WrapsTo) items items' →
      Expr.PartsWrapTo (.array span items) (.array span items')
  | object (span : Span) {entries entries' : List Entry} :
    List.Forall₂ (Entry.Lift Expr.WrapsTo) entries entries' →
      Expr.PartsWrapTo (.object span entries) (.object span entries')
  | call (span : Span) {arguments arguments' : List Item} :
    List.Forall₂ (Item.Lift Expr.WrapsTo) arguments arguments' →
      Expr.PartsWrapTo (.call span arguments) (.call span arguments')
  | arrow (span : Span) {result result' : Expr} : Expr.WrapsTo result result' →
      Expr.PartsWrapTo (.arrow span (some result)) (.arrow span (some result'))

end

namespace Expr

/-- What is not wrapped is left as it is. -/
private theorem unwrap_eq_self {e : Expr}
    (h : ∀ span wrapper inner, e ≠ .wrapped span wrapper inner) : e.unwrap = e := by
  cases e <;> first | rfl | exact absurd rfl (h _ _ _)

/-- Wrapped parts stay wrapped when the wrappers around the whole are taken off. -/
private theorem PartsWrapTo.unwrap {e e' : Expr} (h : e.PartsWrapTo e') :
    e.unwrap.PartsWrapTo e'.unwrap := by
  cases h with
  | refl => exact .refl _
  | array span h => exact .array span h
  | object span h => exact .object span h
  | call span h => exact .call span h
  | arrow span h => exact .arrow span h

/-- Without the wrappers around it, an expression differs from what it was in parts. -/
theorem WrapsTo.unwrap {e e' : Expr} (h : e.WrapsTo e') : e.unwrap.PartsWrapTo e'.unwrap := by
  fun_induction Expr.unwrap e' generalizing e with
  | case1 span wrapper inner ih =>
    cases h with
    | parts h => exact h.unwrap
    | around _ _ h => exact ih h
    | @inside _ _ core _ h => exact ih (e := core) h
  | case2 e' hbare =>
    cases h with
    | parts h => exact unwrap_eq_self hbare ▸ h.unwrap
    | around => exact absurd rfl (hbare _ _ _)
    | inside => exact absurd rfl (hbare _ _ _)

end Expr

end Script

open Script

/-! ### Components -/

private theorem importedModule?_eq_of_wrapsTo {e e' : Expr} (h : e.WrapsTo e') :
    importedModule? e' = importedModule? e := by
  have hcore := h.unwrap
  unfold importedModule?
  generalize e.unwrap = c, e'.unwrap = c' at hcore
  cases hcore <;> rfl

namespace ComponentTarget

private theorem ofExpr?_unwrap (e : Expr) : ofExpr? e.unwrap = ofExpr? e :=
  e.apply_unwrap ofExpr? fun span wrapper inner => by rw [ofExpr?]

/-- The value of a registration comes from the same place when it is wrapped, or when the argument
of an asynchronous component or the result of a function is. -/
theorem ofExpr?_eq_of_wrapsTo {e e' : Expr} (h : e.WrapsTo e') : ofExpr? e' = ofExpr? e := by
  suffices hcore : ∀ e', e.unwrap.PartsWrapTo e'.unwrap → ofExpr? e' = ofExpr? e from
    hcore e' h.unwrap
  refine ofExpr?.induct (fun e => ∀ e', e.unwrap.PartsWrapTo e'.unwrap → ofExpr? e' = ofExpr? e)
    (fun items => ∀ items', List.Forall₂ (Item.Lift Expr.WrapsTo) items items' →
      ofArguments? items' = ofArguments? items) ?wrapped ?identifier ?arrow ?call ?other ?value
    ?none e
  case wrapped =>
    intro span wrapper inner ih e' h
    rw [ih e' h, ofExpr?]
  case identifier =>
    intro span name e' h
    rw [← ofExpr?_unwrap e']
    generalize e'.unwrap = c' at h
    cases h
    rfl
  case arrow =>
    intro span result e' h
    rw [← ofExpr?_unwrap e']
    generalize e'.unwrap = c' at h
    cases h with
    | refl => rfl
    | arrow _ h => rw [ofExpr?, ofExpr?, importedModule?_eq_of_wrapsTo h]
  case call =>
    intro span items ih e' h
    rw [← ofExpr?_unwrap e']
    generalize e'.unwrap = c' at h
    cases h with
    | refl => rfl
    | call _ h => rw [ofExpr?, ofExpr?, ih _ h]
  case other =>
    intro t hwrapped _ harrow hcall e' h
    rw [← ofExpr?_unwrap e']
    rw [Expr.unwrap_eq_self hwrapped] at h
    generalize e'.unwrap = c' at h
    cases h with
    | refl | array | object => rfl
    | arrow => exact absurd rfl (harrow _ _)
    | call => exact absurd rfl (hcall _ _)
  case value =>
    intro e rest ih items' h
    cases h with
    | cons hfirst hrest =>
      cases hfirst with
      | refl => rfl
      | value h => rw [ofArguments?, ofArguments?, ih _ h.unwrap]
  case none =>
    intro items hnone items' h
    cases h with
    | nil => rfl
    | @cons i _ _ _ hfirst hrest =>
      cases hfirst with
      | refl =>
        cases i with
        | hole | spread => rfl
        | value => exact absurd rfl (hnone _ _)
      | value => exact absurd rfl (hnone _ _)

end ComponentTarget

/-! ### Items that are read -/

namespace Script

namespace Item

/-- The name an element is. -/
def name? : Item → Option String
  | .value (.identifier _ name) => some name
  | _ => none

/-- The text an element is. -/
def text? : Item → Option String
  | .value (.string _ s) => some s
  | _ => none

/-- The entries of the object an argument is. -/
def entries? : Item → Option (List Entry)
  | .value (.object _ entries) => some entries
  | _ => none

/-- Whether an item is a value in a wrapper. -/
def IsWrapped (i : Item) : Prop := ∃ span wrapper inner, i = .value (.wrapped span wrapper inner)

/-- An item that can be read gets no wrappers around it. -/
def Spares {α : Type} (read : Item → Option α) (i i' : Item) : Prop := i'.IsWrapped → read i = none

/-- An item that is in no wrapper differs from what it was in parts. -/
private theorem Lift.parts {i i' : Item} (h : Lift Expr.WrapsTo i i') (hbare : ¬ i'.IsWrapped) :
    Lift Expr.PartsWrapTo i i' := by
  cases h with
  | refl => exact .refl i
  | value h =>
    cases h with
    | parts h => exact .value h
    | around span wrapper => exact absurd ⟨span, wrapper, _, rfl⟩ hbare
    | inside span wrapper => exact absurd ⟨span, wrapper, _, rfl⟩ hbare

/-- A way to read items that does not look into wrappers, nor at parts of names and texts. -/
structure IsPlainReader {α : Type} (read : Item → Option α) : Prop where
  eq_none : ∀ i : Item, i.IsWrapped → read i = none
  eq_of_parts : ∀ i i' : Item, Lift Expr.PartsWrapTo i i' → read i' = read i

private theorem isPlainReader_name? : IsPlainReader name? where
  eq_none := by rintro _ ⟨span, wrapper, inner, rfl⟩; rfl
  eq_of_parts := by rintro _ _ (_ | h) <;> [rfl; cases h <;> rfl]

private theorem isPlainReader_text? : IsPlainReader text? where
  eq_none := by rintro _ ⟨span, wrapper, inner, rfl⟩; rfl
  eq_of_parts := by rintro _ _ (_ | h) <;> [rfl; cases h <;> rfl]

private theorem entries?_of_isWrapped {i : Item} (h : i.IsWrapped) : i.entries? = none := by
  obtain ⟨span, wrapper, inner, rfl⟩ := h
  rfl

variable {α : Type} {read : Item → Option α} {items items' : List Item}

/-- Wrappers around items do not make more of them readable. -/
private theorem IsPlainReader.length_filterMap_le (hread : IsPlainReader read)
    (h : List.Forall₂ (Lift Expr.WrapsTo) items items') :
    (items'.filterMap read).length ≤ (items.filterMap read).length := by
  induction h with
  | nil => exact Nat.le_refl _
  | @cons i i' items items' hitem _ ih =>
    by_cases hwrapped : i'.IsWrapped
    · rw [List.filterMap_cons_none (hread.eq_none i' hwrapped)]
      cases hi : read i with
      | none => rwa [List.filterMap_cons_none hi]
      | some a =>
        rw [List.filterMap_cons_some hi]
        exact Nat.le_trans ih (Nat.le_succ _)
    · have hsame := hread.eq_of_parts i i' (hitem.parts hwrapped)
      cases hi : read i with
      | none => rwa [List.filterMap_cons_none hi, List.filterMap_cons_none (hsame.trans hi)]
      | some a =>
        rw [List.filterMap_cons_some hi, List.filterMap_cons_some (hsame.trans hi)]
        exact Nat.succ_le_succ ih

/-- The same is read from items before and after, if and only if none that can be read is put into
a wrapper. -/
private theorem IsPlainReader.filterMap_eq_iff (hread : IsPlainReader read)
    (h : List.Forall₂ (Lift Expr.WrapsTo) items items') :
    items'.filterMap read = items.filterMap read ↔ List.Forall₂ (Spares read) items items' := by
  induction h with
  | nil => simp
  | @cons i i' items items' hitem hitems ih =>
    rw [List.forall₂_cons, ← ih]
    by_cases hwrapped : i'.IsWrapped
    · rw [List.filterMap_cons_none (hread.eq_none i' hwrapped)]
      cases hi : read i with
      | none => simp [List.filterMap_cons_none hi, Spares, hi]
      | some a =>
        -- one item less is read, and the others do not make up for it
        have hlength := hread.length_filterMap_le hitems
        refine iff_of_false (fun heq => ?_) fun hspares => ?_
        · rw [heq, List.filterMap_cons_some hi, List.length_cons] at hlength
          omega
        · cases hi.symm.trans (hspares.1 hwrapped)
    · have hsame := hread.eq_of_parts i i' (hitem.parts hwrapped)
      have hspares : Spares read i i' := fun h => absurd h hwrapped
      cases hi : read i with
      | none =>
        simp [List.filterMap_cons_none hi, List.filterMap_cons_none (hsame.trans hi), hspares]
      | some a =>
        simp [List.filterMap_cons_some hi, List.filterMap_cons_some (hsame.trans hi), hspares]

end Item

end Script

/-! ### Lists of related parts -/

section Lists

variable {α β : Type} {r : α → α → Prop} {s : β → β → Prop} {l l' : List α}

/-- The first findings in related lists are related if those at related elements are. -/
private theorem findSome?_rel {f : α → Option β} (hf : ∀ a a', r a a' → Option.Rel s (f a) (f a'))
    (h : List.Forall₂ r l l') : Option.Rel s (l.findSome? f) (l'.findSome? f) := by
  induction h with
  | nil => exact .none
  | @cons a a' _ _ ha _ ih =>
    have hfirst := hf a a' ha
    rw [List.findSome?_cons, List.findSome?_cons]
    generalize f a = b, f a' = b' at hfirst
    cases hfirst with
    | some hb => exact .some hb
    | none => exact ih

private theorem rel_refl (hr : ∀ a, r a a) (a? : Option α) : Option.Rel r a? a? := by
  cases a? with
  | none => exact .none
  | some a => exact .some (hr a)

/-- What does not tell related elements apart collects the same from related lists. -/
private theorem filterMap_eq_of_forall₂ {f : α → Option β} (hf : ∀ a a', r a a' → f a' = f a)
    (h : List.Forall₂ r l l') : l'.filterMap f = l.filterMap f := by
  have hrel : List.Forall₂ (· = ·) (l.filterMap f) (l'.filterMap f) :=
    List.rel_filterMap (fun a a' ha => hf a a' ha ▸ rel_refl (fun _ => rfl) _) h
  rw [List.forall₂_eq_eq_eq] at hrel
  exact hrel.symm

/-- Two values that are related or both missing are mapped alike if and only if `p` holds of
them. -/
private theorem map_eq_iff_of_rel {f : α → β} {p : α → α → Prop} {a? a'? : Option α}
    (hf : ∀ a a', r a a' → (f a' = f a ↔ p a a')) (h : Option.Rel r a? a'?) :
    a'?.map f = a?.map f ↔ ∀ a ∈ a?, ∀ a' ∈ a'?, p a a' := by
  cases h with
  | none => simp
  | some ha => simpa using hf _ _ ha

end Lists

/-! ### Options -/

namespace Script

/-- The elements of an array. -/
def Expr.elements (e : Expr) : List Item :=
  match e.unwrap with
  | .array _ items => items
  | _ => []

/-- The arguments of a call. -/
def Expr.arguments : Expr → List Item
  | .call _ arguments => arguments
  | _ => []

/-- The elements of a wrapped list are wrapped. -/
private theorem Expr.WrapsTo.elements {e e' : Expr} (h : e.WrapsTo e') :
    List.Forall₂ (Item.Lift Expr.WrapsTo) e.elements e'.elements := by
  have hcore := h.unwrap
  unfold Expr.elements
  generalize e.unwrap = c, e'.unwrap = c' at hcore
  cases hcore with
  | refl => exact List.forall₂_same.mpr fun i _ => .refl i
  | array _ hitems => exact hitems
  | object | call | arrow => exact .nil

end Script

namespace OptionsObject

variable {e e' : Expr}

private theorem baseOf?_eq_of_wrapsTo (h : e.WrapsTo e') : baseOf? e' = baseOf? e := by
  have hcore := h.unwrap
  unfold baseOf?
  generalize e.unwrap = c, e'.unwrap = c' at hcore
  cases hcore <;> rfl

private theorem registration?_eq_of_lift {x x' : Entry} (h : Entry.Lift Expr.WrapsTo x x') :
    registration? x' = registration? x := by
  cases h with
  | refl => rfl
  | property span key shorthand shorthand' method h =>
    cases key with
    | dynamic => rfl
    | static name =>
      simp [registration?, asStatic?, Key.name?, ComponentTarget.ofExpr?_eq_of_wrapsTo h]

/-- Registrations are read through wrappers. -/
private theorem registrationsOf_eq_of_wrapsTo (h : e.WrapsTo e') :
    registrationsOf e' = registrationsOf e := by
  have hcore := h.unwrap
  unfold registrationsOf
  generalize e.unwrap = c, e'.unwrap = c' at hcore
  cases hcore with
  | object _ hentries =>
    exact filterMap_eq_of_forall₂ (fun _ _ => registration?_eq_of_lift) hentries
  | refl | array | call | arrow => rfl

/-- Mixins are the names among the elements. -/
private theorem mixinsOf_eq (e : Expr) : mixinsOf e = e.elements.filterMap Item.name? := by
  unfold mixinsOf Expr.elements
  generalize e.unwrap = c
  cases c <;> rfl

/-- A list of mixins is read alike if and only if no name in it gets wrappers. -/
private theorem mixinsOf_eq_iff (h : e.WrapsTo e') :
    mixinsOf e' = mixinsOf e ↔ List.Forall₂ (Item.Spares Item.name?) e.elements e'.elements := by
  rw [mixinsOf_eq, mixinsOf_eq, Item.isPlainReader_name?.filterMap_eq_iff h.elements]

/-- A list of events is read alike if and only if no text in it gets wrappers. -/
private theorem eventsOf_eq_iff (h : e.WrapsTo e') :
    eventsOf e' = eventsOf e ↔ List.Forall₂ (Item.Spares Item.text?) e.elements e'.elements := by
  have hcore := h.unwrap
  have helements := h.elements
  unfold Expr.elements at helements ⊢
  unfold eventsOf
  generalize e.unwrap = c, e'.unwrap = c' at hcore helements ⊢
  cases hcore with
  | array _ hitems => exact Item.isPlainReader_text?.filterMap_eq_iff hitems
  | object _ hentries =>
    refine iff_of_true (filterMap_eq_of_forall₂ (fun x x' hx => ?_) hentries) .nil
    cases hx with
    | refl => rfl
    | property _ key => cases key <;> rfl
  | refl =>
    refine iff_of_true rfl (List.forall₂_same.mpr fun i _ hwrapped => ?_)
    exact Item.isPlainReader_text?.eq_none i hwrapped
  | call | arrow => exact iff_of_true rfl .nil

/-- Of related entries the same counts for a key, with a related value. -/
private theorem value?_rel {o o' : OptionsObject}
    (h : List.Forall₂ (Entry.Lift Expr.WrapsTo) o.entries o'.entries) (key : String) :
    Option.Rel Expr.WrapsTo (o.value? key) (o'.value? key) := by
  have hlast : Option.Rel (fun s s' : OptionEntry => s.value.WrapsTo s'.value)
      (o.lastWith? key) (o'.lastWith? key) := by
    refine findSome?_rel (fun x x' hx => ?_) (List.forall₂_reverse_iff.mpr h)
    cases hx with
    | refl => exact rel_refl (fun s => .parts (.refl s.value)) _
    | property span k shorthand shorthand' method hvalue =>
      cases k with
      | dynamic => exact .none
      | static name =>
        simp only [asStatic?, Key.name?, Option.map_some, Option.filter_some]
        split
        · exact .some hvalue
        · exact .none
  unfold value?
  generalize o.lastWith? key = a, o'.lastWith? key = a' at hlast
  cases hlast with
  | some hvalue => exact .some hvalue
  | none => exact .none

/-- Two options objects are read alike: one has the entries of the other with wrappers, and they
name the same base options, mixins, components and events. -/
structure ReadAlike (o o' : OptionsObject) : Prop where
  entries : List.Forall₂ (Entry.Lift Expr.WrapsTo) o.entries o'.entries
  base : o'.base? = o.base?
  mixins : o'.mixins? = o.mixins?
  registrations : o'.registrations? = o.registrations?
  events : o'.events? = o.events?

/-- No mixin and no event that can be read gets wrappers. -/
structure SparesElements (o o' : OptionsObject) : Prop where
  mixins : ∀ e ∈ o.value? "mixins", ∀ e' ∈ o'.value? "mixins",
    List.Forall₂ (Item.Spares Item.name?) e.elements e'.elements
  emits : ∀ e ∈ o.value? "emits", ∀ e' ∈ o'.value? "emits",
    List.Forall₂ (Item.Spares Item.text?) e.elements e'.elements

/-- Options whose entries are wrapped are read alike exactly if the wrappers spare the elements. -/
private theorem readAlike_iff {o o' : OptionsObject}
    (h : List.Forall₂ (Entry.Lift Expr.WrapsTo) o.entries o'.entries) :
    o.ReadAlike o' ↔ o.SparesElements o' := by
  have hmixins := map_eq_iff_of_rel (fun (e e' : Expr) (he : e.WrapsTo e') => mixinsOf_eq_iff he)
    (value?_rel h "mixins")
  have hevents := map_eq_iff_of_rel (fun (e e' : Expr) (he : e.WrapsTo e') => eventsOf_eq_iff he)
    (value?_rel h "emits")
  have hregistrations : o'.registrations? = o.registrations? :=
    (map_eq_iff_of_rel (fun (e e' : Expr) (he : e.WrapsTo e') =>
      iff_true_intro (registrationsOf_eq_of_wrapsTo he))
      (value?_rel h "components")).mpr fun _ _ _ _ => trivial
  have hbase : o'.base? = o.base? := by
    have hvalue := value?_rel h "extends"
    unfold base?
    generalize o.value? "extends" = v, o'.value? "extends" = v' at hvalue
    cases hvalue with
    | none => rfl
    | some he => exact baseOf?_eq_of_wrapsTo he
  constructor
  · exact fun halike => ⟨hmixins.mp halike.mixins, hevents.mp halike.events⟩
  · exact fun hspares => ⟨h, hbase, hmixins.mpr hspares.mixins, hregistrations,
      hevents.mpr hspares.emits⟩

end OptionsObject

/-! ### Programs -/

namespace Script

/-- Wrappers are put around exported values and the values of variables. -/
inductive Statement.WrapsTo : Statement → Statement → Prop
  | refl (s : Statement) : WrapsTo s s
  | exportDefault {e e' : Expr} :
    e.WrapsTo e' → WrapsTo (.exportDefault (some e)) (.exportDefault (some e'))
  | binding {declarators declarators' : List Declarator} :
    List.Forall₂ (fun d d' => d.name = d'.name ∧ Option.Rel Expr.WrapsTo d.value d'.value)
      declarators declarators' → WrapsTo (.binding declarators) (.binding declarators')

namespace Program

/-- Wrappers are put around values of a program and parts of them. The text is written anew. -/
def WrapsTo (m m' : Program) : Prop := List.Forall₂ Statement.WrapsTo m.statements m'.statements

/-- What the default export stands for, without wrappers: the value of a variable, if it is one. -/
def subject? (m : Program) : Option Expr :=
  m.exportedValue? >>= fun value =>
    match value.unwrap with
    | .identifier _ name => (m.variableValue? name).map Expr.unwrap
    | e => some e

private theorem ofProgram?_eq (m : Program) :
    OptionsObject.ofProgram? m =
      (m.subject? >>= OptionsObject.literalEntries?).map (OptionsObject.mk m) := by
  have hmap : ∀ entries? : Option (List Entry),
      (entries?.bind fun entries => pure (OptionsObject.mk m entries)) =
        entries?.map (OptionsObject.mk m) := by
    rintro (_ | _) <;> rfl
  unfold OptionsObject.ofProgram? subject? OptionsObject.entriesOf?
  cases m.exportedValue? with
  | none => rfl
  | some value =>
    simp only [Option.bind_eq_bind, Option.bind_some, hmap]
    generalize value.unwrap = c
    congr 1
    cases c with
    | identifier span name =>
      dsimp only
      rw [Option.bind_map]
      rfl
    | _ => rfl

variable {m m' : Program}

/-- What a wrapped script exports is wrapped. -/
private theorem WrapsTo.exportedValue?_rel (h : m.WrapsTo m') :
    Option.Rel Expr.WrapsTo m.exportedValue? m'.exportedValue? := by
  refine findSome?_rel (fun s s' hs => ?_) h
  cases hs with
  | refl => exact rel_refl (fun e => .parts (.refl e)) _
  | exportDefault he => exact .some he
  | binding => exact .none

private theorem WrapsTo.variableValue?_rel (h : m.WrapsTo m') (name : String) :
    Option.Rel Expr.WrapsTo (m.variableValue? name) (m'.variableValue? name) := by
  refine findSome?_rel (fun s s' hs => ?_) h
  cases hs with
  | refl => exact rel_refl (fun e => .parts (.refl e)) _
  | exportDefault => exact .none
  | binding hdeclarators =>
    refine findSome?_rel (fun d d' hd => ?_) hdeclarators
    rw [hd.1]
    split
    · exact hd.2
    · exact .none

/-- What a wrapped script is about has wrapped parts. -/
private theorem WrapsTo.subject?_rel (h : m.WrapsTo m') :
    Option.Rel Expr.PartsWrapTo m.subject? m'.subject? := by
  have hvalue := h.exportedValue?_rel
  unfold subject?
  generalize m.exportedValue? = v, m'.exportedValue? = v' at hvalue
  cases hvalue with
  | none => exact .none
  | @some e e' he =>
    have hcore := he.unwrap
    simp only [Option.bind_eq_bind, Option.bind_some]
    generalize e.unwrap = c, e'.unwrap = c' at hcore
    cases hcore with
    | array _ h => exact .some (.array _ h)
    | object _ h => exact .some (.object _ h)
    | call _ h => exact .some (.call _ h)
    | arrow _ h => exact .some (.arrow _ h)
    | refl =>
      split
      · next name =>
        have hvariable := h.variableValue?_rel name
        generalize m.variableValue? name = x, m'.variableValue? name = x' at hvariable
        cases hvariable with
        | none => exact .none
        | some hx => exact .some hx.unwrap
      · exact .some (.refl _)

end Program

end Script

namespace OptionsObject

/-- A call stands for the object that is its first argument. -/
private theorem literalEntries?_of_head? {e : Expr} {i : Item} (hi : i ∈ e.arguments.head?) :
    literalEntries? e = i.entries? := by
  cases e with
  | call span arguments =>
    cases arguments with
    | nil => cases hi
    | cons first rest =>
      obtain rfl : first = i := Option.some.inj hi
      cases first with
      | hole | spread => rfl
      | value e => cases e <;> rfl
  | _ => cases hi

/-- The object that is described is still found, unless it gets wrappers as an argument. -/
private theorem literalEntries?_rel {e e' : Expr} (h : e.PartsWrapTo e')
    (hspares : ∀ i ∈ e.arguments.head?, ∀ i' ∈ e'.arguments.head?,
      Item.Spares Item.entries? i i') :
    Option.Rel (List.Forall₂ (Entry.Lift Expr.WrapsTo)) (literalEntries? e)
      (literalEntries? e') := by
  cases h with
  | refl => exact rel_refl (fun entries => List.forall₂_same.mpr fun x _ => .refl x) _
  | array | arrow => exact .none
  | object _ hentries => exact .some hentries
  | call span hitems =>
    cases hitems with
    | nil => exact .none
    | @cons i i' _ _ hitem _ =>
      rw [literalEntries?_of_head? (i := i) rfl, literalEntries?_of_head? (i := i') rfl]
      by_cases hwrapped : i'.IsWrapped
      · rw [hspares i rfl i' rfl hwrapped, Item.entries?_of_isWrapped hwrapped]
        exact .none
      · cases hitem.parts hwrapped with
        | refl => exact rel_refl (fun entries => List.forall₂_same.mpr fun x _ => .refl x) _
        | value h =>
          cases h with
          | refl => exact rel_refl (fun entries => List.forall₂_same.mpr fun x _ => .refl x) _
          | object _ hentries => exact .some hentries
          | array | call | arrow => exact .none

end OptionsObject

namespace Script.Program

/-- Two programs are read alike: none of them exports options, or the options of both are read
alike. -/
def ReadAlike (m m' : Program) : Prop :=
  Option.Rel OptionsObject.ReadAlike (OptionsObject.ofProgram? m) (OptionsObject.ofProgram? m')

/-- No wrappers are put around an object that is the argument of the exported call, nor around names
of mixins and texts of events in their lists. -/
structure Spares (m m' : Program) : Prop where
  argument : ∀ e ∈ m.subject?, ∀ e' ∈ m'.subject?, ∀ i ∈ e.arguments.head?,
    ∀ i' ∈ e'.arguments.head?, Item.Spares Item.entries? i i'
  elements : ∀ o ∈ OptionsObject.ofProgram? m, ∀ o' ∈ OptionsObject.ofProgram? m',
    o.SparesElements o'

variable {m m' : Program}

/-- The options of a program that exports a call are in its first argument. -/
private theorem ofProgram?_of_head? {e : Expr} {i : Item} (he : e ∈ m.subject?)
    (hi : i ∈ e.arguments.head?) :
    OptionsObject.ofProgram? m = i.entries?.map (OptionsObject.mk m) := by
  rw [ofProgram?_eq, he, Option.bind_eq_bind, Option.bind_some,
    OptionsObject.literalEntries?_of_head? hi]

/-- The options of a wrapped script are wrapped, if the argument of a call is spared. -/
private theorem WrapsTo.options_rel (h : m.WrapsTo m')
    (hargument : ∀ e ∈ m.subject?, ∀ e' ∈ m'.subject?, ∀ i ∈ e.arguments.head?,
      ∀ i' ∈ e'.arguments.head?, Item.Spares Item.entries? i i') :
    Option.Rel (fun o o' : OptionsObject =>
        List.Forall₂ (Entry.Lift Expr.WrapsTo) o.entries o'.entries)
      (OptionsObject.ofProgram? m) (OptionsObject.ofProgram? m') := by
  have hsubject := h.subject?_rel
  rw [ofProgram?_eq, ofProgram?_eq]
  generalize m.subject? = x, m'.subject? = x' at hsubject hargument ⊢
  cases hsubject with
  | none => exact .none
  | @some e e' he =>
    have hentries := OptionsObject.literalEntries?_rel he (hargument e rfl e' rfl)
    simp only [Option.bind_eq_bind, Option.bind_some]
    generalize OptionsObject.literalEntries? e = y, OptionsObject.literalEntries? e' = y'
      at hentries
    cases hentries with
    | none => exact .none
    | some hentries => exact .some hentries

/-- **When wrappers do not matter.** -/
theorem readAlike_iff_spares (h : m.WrapsTo m') : m.ReadAlike m' ↔ m.Spares m' := by
  constructor
  · intro halike
    unfold ReadAlike at halike
    refine ⟨fun e he e' he' i hi i' hi' hwrapped => ?_, fun o ho o' ho' => ?_⟩
    · -- no options are found where the argument was put into wrappers
      rw [ofProgram?_of_head? he hi, ofProgram?_of_head? he' hi',
        Item.entries?_of_isWrapped hwrapped] at halike
      cases hentries : i.entries? with
      | none => rfl
      | some entries =>
        rw [hentries] at halike
        cases halike
    · rw [ho, ho'] at halike
      cases halike with
      | some halike => exact (OptionsObject.readAlike_iff halike.entries).mp halike
  · intro hspares
    have hoptions := h.options_rel hspares.argument
    have helements := hspares.elements
    unfold ReadAlike
    generalize OptionsObject.ofProgram? m = x, OptionsObject.ofProgram? m' = x'
      at hoptions helements
    cases hoptions with
    | none => exact .none
    | some hentries =>
      exact .some ((OptionsObject.readAlike_iff hentries).mpr (helements _ rfl _ rfl))

end Script.Program

/-! ### Samples -/

namespace Sample

/-- A place in no particular script. -/
def nowhere : Span := ⟨0, 0⟩

/-- A script that exports an expression. -/
def exportingValue (e : Expr) : Program := ⟨#[], [.exportDefault (some e)]⟩

/-- An option of an object. -/
def optionEntry (key : String) (value : Expr) : Entry :=
  .property nowhere (.static key) value false false

/-- A list with one element. -/
def listOf (e : Expr) : Expr := .array nowhere [.value e]

/-- A cast in parentheses. -/
def castEnclosed (e : Expr) : Expr := .wrapped nowhere .parentheses (.wrapped nowhere .cast e)

variable (wrap : Expr → Expr)

/-- A chart that is imported on demand. -/
def lazyChart : Expr :=
  wrap (.call nowhere [.value (wrap (.arrow nowhere
    (some (wrap (.importCall nowhere (.string nowhere "./Chart.vue"))))))])

/-- A form with every option that names something. -/
def formOptions : Expr :=
  .object nowhere [optionEntry "extends" (wrap (.identifier nowhere "base")),
    optionEntry "mixins" (wrap (listOf (.identifier nowhere "page"))),
    optionEntry "components" (wrap (.object nowhere [optionEntry "Chart" (lazyChart wrap)])),
    optionEntry "emits" (wrap (listOf (.string nowhere "close")))]

/-- The script of the form: its options are the value of a variable, and every value is wrapped in
some way, but not the elements of lists. -/
def formScript : Program :=
  ⟨#[], [.binding [⟨some "Form", some (wrap (formOptions wrap))⟩],
    .exportDefault (some (wrap (.identifier nowhere "Form")))]⟩

/-- A script with a mixin that is wrapped in some way. -/
def mixinScript : Program :=
  exportingValue (.object nowhere
    [optionEntry "mixins" (listOf (wrap (.identifier nowhere "page")))])

/-- A script with an event that is wrapped in some way. -/
def eventScript : Program :=
  exportingValue (.object nowhere [optionEntry "emits" (listOf (wrap (.string nowhere "close")))])

/-- A script that exports a call with an object that is wrapped in some way. -/
def callScript : Program := exportingValue (.call nowhere [.value (wrap (.object nowhere []))])

private theorem wrapsTo_castEnclosed {e e' : Expr} (h : e.WrapsTo e') :
    e.WrapsTo (castEnclosed e') :=
  .around _ _ (.around _ _ h)

private theorem wrapsTo_castEnclosed_self (e : Expr) : e.WrapsTo (castEnclosed e) :=
  wrapsTo_castEnclosed (.parts (.refl e))

private theorem lift_optionEntry (key : String) {e e' : Expr} (h : e.WrapsTo e') :
    Entry.Lift Expr.WrapsTo (optionEntry key e) (optionEntry key e') :=
  .property _ _ _ _ _ h

private theorem wrapsTo_listOf {e e' : Expr} (h : e.WrapsTo e') : (listOf e).WrapsTo (listOf e') :=
  .parts (.array _ (.cons (.value h) .nil))

private theorem wrapsTo_exportingValue {e e' : Expr} (h : e.WrapsTo e') :
    (exportingValue e).WrapsTo (exportingValue e') :=
  .cons (.exportDefault h) .nil

private theorem wrapsTo_formScript : (formScript id).WrapsTo (formScript castEnclosed) := by
  have hchart : (lazyChart id).WrapsTo (lazyChart castEnclosed) :=
    wrapsTo_castEnclosed (.parts (.call _ (.cons (.value (wrapsTo_castEnclosed
      (.parts (.arrow _ (wrapsTo_castEnclosed_self _))))) .nil)))
  have hcomponents := wrapsTo_castEnclosed
    (.parts (.object nowhere (.cons (lift_optionEntry "Chart" hchart) .nil)))
  have hoptions : (formOptions id).WrapsTo (formOptions castEnclosed) :=
    .parts (.object _ (.cons (lift_optionEntry _ (wrapsTo_castEnclosed_self _))
      (.cons (lift_optionEntry _ (wrapsTo_castEnclosed_self _))
        (.cons (lift_optionEntry _ hcomponents)
          (.cons (lift_optionEntry _ (wrapsTo_castEnclosed_self _)) .nil)))))
  exact .cons (.binding (.cons ⟨rfl, .some (wrapsTo_castEnclosed hoptions)⟩ .nil))
    (.cons (.exportDefault (wrapsTo_castEnclosed_self _)) .nil)

private theorem wrapsTo_mixinScript : (mixinScript id).WrapsTo (mixinScript castEnclosed) :=
  wrapsTo_exportingValue (.parts (.object _
    (.cons (lift_optionEntry _ (wrapsTo_listOf (wrapsTo_castEnclosed_self _))) .nil)))

private theorem wrapsTo_eventScript : (eventScript id).WrapsTo (eventScript castEnclosed) :=
  wrapsTo_exportingValue (.parts (.object _
    (.cons (lift_optionEntry _ (wrapsTo_listOf (wrapsTo_castEnclosed_self _))) .nil)))

private theorem wrapsTo_callScript : (callScript id).WrapsTo (callScript castEnclosed) :=
  wrapsTo_exportingValue (.parts (.call _ (.cons (.value (wrapsTo_castEnclosed_self _)) .nil)))

/-- A list whose element is not wrapped spares it. -/
private theorem spares_listOf {α : Type} (read : Item → Option α) {e : Expr}
    (h : ¬ (Item.value e).IsWrapped) :
    List.Forall₂ (Item.Spares read) (listOf e).elements (listOf e).elements :=
  .cons (fun hwrapped => absurd hwrapped h) .nil

/-- The entries of the form. -/
def formEntries : List Entry := (OptionsObject.literalEntries? (formOptions wrap)).getD []

private theorem spares_formScript : (formScript id).Spares (formScript castEnclosed) := by
  have hsubject : (formScript id).subject? = some (formOptions id) := rfl
  have hoptions : OptionsObject.ofProgram? (formScript id) =
      some ⟨formScript id, formEntries id⟩ := rfl
  have hoptions' : OptionsObject.ofProgram? (formScript castEnclosed) =
      some ⟨formScript castEnclosed, formEntries castEnclosed⟩ := rfl
  constructor
  case argument =>
    rw [hsubject]
    rintro _ ⟨⟩ _ _ _ ⟨⟩
  case elements =>
    rw [hoptions, hoptions']
    rintro _ ⟨⟩ _ ⟨⟩
    constructor
    · rintro _ ⟨⟩ _ ⟨⟩
      exact spares_listOf _ nofun
    · rintro _ ⟨⟩ _ ⟨⟩
      exact spares_listOf _ nofun

end Sample

/-- A form is read alike when all its values are put into parentheses and casts. -/
theorem readAlike_formScript :
    (Sample.formScript id).WrapsTo (Sample.formScript Sample.castEnclosed) ∧
      (Sample.formScript id).ReadAlike (Sample.formScript Sample.castEnclosed) :=
  ⟨Sample.wrapsTo_formScript,
    (Program.readAlike_iff_spares Sample.wrapsTo_formScript).mpr Sample.spares_formScript⟩

/-- In a list of mixins and a list of events an element in a wrapper is lost, and in a call the
whole object is. -/
theorem exists_not_readAlike :
    ((Sample.mixinScript id).WrapsTo (Sample.mixinScript Sample.castEnclosed) ∧
        ¬ (Sample.mixinScript id).ReadAlike (Sample.mixinScript Sample.castEnclosed)) ∧
      ((Sample.eventScript id).WrapsTo (Sample.eventScript Sample.castEnclosed) ∧
        ¬ (Sample.eventScript id).ReadAlike (Sample.eventScript Sample.castEnclosed)) ∧
      ((Sample.callScript id).WrapsTo (Sample.callScript Sample.castEnclosed) ∧
        ¬ (Sample.callScript id).ReadAlike (Sample.callScript Sample.castEnclosed)) := by
  refine ⟨⟨Sample.wrapsTo_mixinScript, fun h => ?mixin⟩,
    ⟨Sample.wrapsTo_eventScript, fun h => ?event⟩, ⟨Sample.wrapsTo_callScript, fun h => ?call⟩⟩
  case mixin =>
    have hread : Option.Rel OptionsObject.ReadAlike (some ⟨_, _⟩) (some ⟨_, _⟩) := h
    cases hread with
    | some hread =>
      have hlost : some [] = some ["page"] := hread.mixins
      cases hlost
  case event =>
    have hread : Option.Rel OptionsObject.ReadAlike (some ⟨_, _⟩) (some ⟨_, _⟩) := h
    cases hread with
    | some hread =>
      have hlost : some [] = some ["close"] := hread.events
      cases hlost
  case call =>
    have hread : Option.Rel OptionsObject.ReadAlike (some ⟨_, _⟩) none := h
    cases hread

end ComponentInsight

import ComponentInsight.Lookup
import ComponentInsight.Proofs.Mixins.Chains
import Mathlib.Data.Set.Finite.List
import Mathlib.Logic.Relation

/-!
# The calls of a lookup

A lookup that has to read a document looks up its mixins, which may have to be read in turn. A
`Call` is a document about to be read while the files of a stack are being read;
`Workspace.Calls` relates it to the calls it may lead to, whatever the cache holds. The recursion is
**well founded** (`Workspace.wellFounded_calls`) for two reasons:

* the stack never holds one path twice (`Workspace.pairwise_pushed`), and
* all that is put on it above the first document is within the finite reach of the workspace
  (`Workspace.finite_importable`).

`Workspace.Looks`, `Workspace.Reads` and `Workspace.Gathers` say what a lookup does, rule by rule,
and which stacks there are on the way. As rules they promise no result; that there always is exactly
one, the one of `Workspace.lookup`, is what the well-founded recursion gives
(`Workspace.exists_looks_iff`, `Workspace.exists_reads_iff`).
-/

namespace ComponentInsight

/-- A document that is about to be read while the files of a stack are being read. -/
structure Call where
  stack : List Path
  source : Source

namespace Call

/-- The stack while the document is being read. -/
def pushed (c : Call) : List Path := c.stack ++ [c.source.path]

end Call

namespace Workspace

variable {w : Workspace}

/-- Reading a document may lead to reading a mixin of it that is not on the stack. -/
inductive Calls (w : Workspace) : Call → Call → Prop where
  | mixin {c : Call} {p : Path} (hp : p ∈ w.mixinsOf c.source)
    (hnew : onStack c.pushed p = false) : w.Calls c ⟨c.pushed, w.source .mixin p⟩

/-! ### Paths that can be pushed -/

/-- The paths that the mixin imports of files lead to. -/
def importable (w : Workspace) : Set Path :=
  { p | ∃ importer f kind d specifier, w.tree.file? importer = some f ∧
    f.declarations? kind importer = some d ∧ specifier ∈ d.mixins ∧
    w.locate? specifier importer .mixin = some p }

/-- What is importable is among the finitely many paths that imports can reach. -/
theorem importable_subset_reach (w : Workspace) : w.importable ⊆ { p | p ∈ w.reach } := by
  rintro p ⟨importer, f, kind, d, specifier, hf, hd, hs, hlocate⟩
  exact mem_reach hf hd (List.mem_filterMap.mpr ⟨specifier, hs, hlocate⟩)

/-- Mixin imports lead to finitely many paths, however these are written. -/
theorem finite_importable (w : Workspace) : w.importable.Finite :=
  (List.finite_toSet w.reach).subset w.importable_subset_reach

/-- The mixins of a document are importable. -/
theorem mem_importable_of_mem_mixinsOf {kind : DocumentKind} {path p : Path}
    (h : p ∈ w.mixinsOf (w.source kind path)) : p ∈ w.importable := by
  unfold mixinsOf at h
  split at h
  · simp at h
  · next d hd =>
    obtain ⟨f, hf, hdeclared⟩ := Option.bind_eq_some_iff.mp hd
    obtain ⟨specifier, hs, hlocate⟩ := List.mem_filterMap.mp h
    exact ⟨path, f, kind, d, specifier, hf, hdeclared, hs, hlocate⟩

/-! ### Calls are well founded -/

/-- A file that is read can only lead to finitely many calls, one inside the other. -/
private theorem acc_file (w : Workspace) (stack : List Path) (kind : DocumentKind) (path : Path) :
    Acc (fun inner outer => w.Calls outer inner) ⟨stack, w.source kind path⟩ := by
  -- every call puts a path of the reach on the stack that was not there
  induction hn : w.unseen (stack ++ [path]) using Nat.strongRecOn
    generalizing stack kind path with
  | _ n ih =>
    refine .intro _ ?_
    rintro _ ⟨hp, hnew⟩
    refine ih _ ?_ _ _ _ rfl
    rw [← hn]
    exact unseen_concat_lt (w.importable_subset_reach (mem_importable_of_mem_mixinsOf hp)) hnew

/-- Calls cannot go on for ever: neither from a file nor from a document that is no file. -/
theorem wellFounded_calls (w : Workspace) :
    WellFounded fun inner outer => w.Calls outer inner := by
  refine ⟨fun c => .intro c ?_⟩
  rintro _ ⟨-, -⟩
  exact acc_file w _ _ _

/-- A call made, directly or not, on behalf of another one. -/
abbrev CallsStar (w : Workspace) : Call → Call → Prop := Relation.ReflTransGen w.Calls

/-- The stack never holds one path twice. -/
theorem pairwise_pushed {c c' : Call} (h : w.CallsStar c c')
    (hc : c.pushed.Pairwise fun p q => p.same q = false) :
    c'.pushed.Pairwise fun p q => p.same q = false := by
  induction h with
  | refl => exact hc
  | tail _ hstep ih =>
    obtain ⟨-, hnew⟩ := hstep
    refine List.pairwise_append.mpr ⟨ih, List.pairwise_singleton _ _, fun q hq p hp => ?_⟩
    rw [List.mem_singleton.mp hp]
    exact Bool.eq_false_iff.mpr fun hsame => by
      rw [onStack, List.any_eq_false] at hnew
      exact hnew q hq hsame

/-- Above the document that was asked for, the stack is a chain of mixins. -/
theorem exists_chain_pushed {c c' : Call} (h : w.CallsStar c c') :
    ∃ above, c'.pushed = c.pushed ++ above ∧ w.IsMixinChain c.source above ∧
      (c'.source = c.source ∧ above = [] ∨
        ∃ front p, above = front ++ [p] ∧ c'.source = w.source .mixin p) := by
  induction h with
  | refl => exact ⟨[], by simp, trivial, .inl ⟨rfl, rfl⟩⟩
  | tail _ hstep ih =>
    obtain ⟨above, hpushed, hchain, hlast⟩ := ih
    obtain ⟨hp, -⟩ := hstep
    refine ⟨above ++ [_], ?_, ?_, .inr ⟨above, _, rfl, rfl⟩⟩
    · rw [← List.append_assoc, ← hpushed]
      rfl
    · rcases hlast with ⟨hsource, rfl⟩ | ⟨front, q, rfl, hsource⟩
      · exact ⟨hsource ▸ hp, trivial⟩
      · exact isChain_append_pair.mpr ⟨hchain, hsource ▸ hp⟩

/-! ### What a lookup does, rule by rule -/

mutual

/-- Looking a file up, with the stacks of the documents that are read meanwhile. -/
inductive Looks (w : Workspace) : List Path → Path → DocumentKind → Cache Record →
    Option Found × Cache Record → List (List Path) → Prop where
  | missing {stack path kind cache} (hf : w.tree.file? path = none) :
    Looks w stack path kind cache (none, cache) []
  | hit {stack path kind cache f record cache'} (hf : w.tree.file? path = some f)
    (hprobe : cache.probe (f.key path kind) (Record.isCurrent w.tree) = (some record, cache')) :
    Looks w stack path kind cache (some ⟨f.key path kind, ⟨record, none⟩⟩, cache') []
  | miss {stack path kind cache f cache' r files pushes} (hf : w.tree.file? path = some f)
    (hprobe : cache.probe (f.key path kind) (Record.isCurrent w.tree) = (none, cache'))
    (hread : Reads w ⟨stack, w.source kind path⟩ cache' (r, files) pushes) :
    Looks w stack path kind cache
      (some ⟨f.key path kind, (r.keep w.tree (f.key path kind) stack.length files).1⟩,
        (r.keep w.tree (f.key path kind) stack.length files).2) pushes

/-- Reading a document, with the stacks of the documents that are read meanwhile. -/
inductive Reads (w : Workspace) : Call → Cache Record → Reading × Cache Record →
    List (List Path) → Prop where
  | silent {c cache} (hd : c.source.declarations = none) :
    Reads w c cache (.empty, cache) [c.pushed]
  | document {c cache d g pushes} (hd : c.source.declarations = some d)
    (hgather : Gathers w c.pushed (w.mixinPaths c.source.path d)
      (.start (w.lowestCut c.pushed c.source.path d) cache) g pushes) :
    Reads w c cache (w.conclude c.source.kind c.source.path d g, g.cache) (c.pushed :: pushes)

/-- Looking up mixins, one after another, with the stacks of the documents that are read
meanwhile. -/
inductive Gathers (w : Workspace) : List Path → List Path → Gathered → Gathered →
    List (List Path) → Prop where
  | done {stack g} : Gathers w stack [] g g []
  | skip {stack p rest g g' pushes} (hon : onStack stack p = true)
    (hrest : Gathers w stack rest g g' pushes) : Gathers w stack (p :: rest) g g' pushes
  | next {stack p rest g g' result pushes pushes'} (hoff : onStack stack p = false)
    (hlook : Looks w stack p .mixin g.cache result pushes)
    (hrest : Gathers w stack rest (g.add p result) g' pushes') :
    Gathers w stack (p :: rest) g g' (pushes ++ pushes')

end

/-- The rules give one result, that of the function, and pass through calls made on behalf of the
document. -/
structure Returns {α : Type} (w : Workspace) (c : Call) (result : α)
    (Rule : α → List (List Path) → Prop) (pushes : List (List Path)) : Prop where
  iff : ∀ a ps, Rule a ps ↔ a = result ∧ ps = pushes
  pushed : ∀ stack ∈ pushes, ∃ c', w.CallsStar c c' ∧ stack = c'.pushed

/-- Mixins can be looked up one after another if each of them can. -/
private theorem exists_gathers_iff {c : Call} {paths : List Path}
    (hmem : paths ⊆ w.mixinsOf c.source)
    (hlook : ∀ p ∈ paths, onStack c.pushed p = false → ∀ cache, ∃ pushes,
      w.Returns ⟨c.pushed, w.source .mixin p⟩ (w.lookup c.pushed p .mixin cache)
        (w.Looks c.pushed p .mixin cache) pushes) (g : Gathered) :
    ∃ pushes, w.Returns c
      ((paths.filter fun p => !onStack c.pushed p).foldl
        (fun g p => g.add p (w.lookup c.pushed p .mixin g.cache)) g)
      (w.Gathers c.pushed paths g) pushes := by
  induction paths generalizing g with
  | nil =>
    refine ⟨[], fun g' ps => ⟨?_, ?_⟩, by simp⟩
    · rintro ⟨⟩
      exact ⟨rfl, rfl⟩
    · rintro ⟨rfl, rfl⟩
      exact .done
  | cons p rest ih =>
    have ih := ih (fun q hq => hmem (List.mem_cons_of_mem _ hq))
      fun q hq => hlook q (List.mem_cons_of_mem _ hq)
    cases hon : onStack c.pushed p with
    | true =>
      obtain ⟨pushes, hiff, hpushed⟩ := ih g
      refine ⟨pushes, fun g' ps => ?_, hpushed⟩
      simp only [List.filter_cons, hon, Bool.not_true, Bool.false_eq_true, if_false]
      rw [← hiff]
      constructor
      · rintro (_ | ⟨-, hrest⟩ | ⟨hoff, -, -⟩)
        · exact hrest
        · simp [hon] at hoff
      · exact .skip hon
    | false =>
      obtain ⟨first, hfirst, hfirstPushed⟩ := hlook p List.mem_cons_self hon g.cache
      obtain ⟨others, hiff, hpushed⟩ := ih (g.add p (w.lookup c.pushed p .mixin g.cache))
      refine ⟨first ++ others, fun g' ps => ?_, fun stack hstack => ?_⟩
      · simp only [List.filter_cons, hon, Bool.not_false, if_true, List.foldl_cons]
        constructor
        · rintro (_ | ⟨hon', -⟩ | ⟨-, hlook, hrest⟩)
          · simp [hon] at hon'
          · obtain ⟨rfl, rfl⟩ := (hfirst _ _).mp hlook
            obtain ⟨rfl, rfl⟩ := (hiff _ _).mp hrest
            exact ⟨rfl, rfl⟩
        · rintro ⟨rfl, rfl⟩
          exact .next hon ((hfirst _ _).mpr ⟨rfl, rfl⟩) ((hiff _ _).mpr ⟨rfl, rfl⟩)
      · rcases List.mem_append.mp hstack with hstack | hstack
        · obtain ⟨c', hcalls, rfl⟩ := hfirstPushed stack hstack
          exact ⟨c', .head (.mixin (hmem List.mem_cons_self) hon) hcalls, rfl⟩
        · exact hpushed stack hstack

/-- A document can be read if its mixins can be looked up. -/
private theorem exists_reads_iff_of_looks {c : Call}
    (hlook : ∀ p ∈ w.mixinsOf c.source, onStack c.pushed p = false → ∀ cache, ∃ pushes,
      w.Returns ⟨c.pushed, w.source .mixin p⟩ (w.lookup c.pushed p .mixin cache)
        (w.Looks c.pushed p .mixin cache) pushes) (cache : Cache Record) :
    ∃ pushes, w.Returns c
      (w.read c.stack c.source.kind c.source.path c.source.declarations cache)
      (w.Reads c cache) pushes := by
  have hself : ∃ c', w.CallsStar c c' ∧ c.pushed = c'.pushed := ⟨c, .refl, rfl⟩
  cases hd : c.source.declarations with
  | none =>
    refine ⟨[c.pushed], fun r ps => ⟨?_, ?_⟩, by simpa using hself⟩
    · rintro (⟨-⟩ | ⟨hd', -⟩)
      · exact ⟨rfl, rfl⟩
      · simp [hd] at hd'
    · rintro ⟨rfl, rfl⟩
      exact .silent hd
  | some d =>
    have hmixins : w.mixinsOf c.source = w.mixinPaths c.source.path d := by simp [mixinsOf, hd]
    obtain ⟨pushes, hiff, hpushed⟩ := exists_gathers_iff (List.Subset.refl _) hlook
      (.start (w.lowestCut c.pushed c.source.path d) cache)
    rw [hmixins] at hiff
    refine ⟨c.pushed :: pushes, fun r ps => ⟨?_, ?_⟩, ?_⟩
    · rintro (⟨hd'⟩ | ⟨hd', hgather⟩)
      · simp [hd] at hd'
      · obtain rfl := Option.some.inj (hd.symm.trans hd')
        obtain ⟨rfl, rfl⟩ := (hiff _ _).mp hgather
        exact ⟨rfl, rfl⟩
    · rintro ⟨rfl, rfl⟩
      exact .document hd ((hiff _ _).mpr ⟨rfl, rfl⟩)
    · intro stack hstack
      rcases List.mem_cons.mp hstack with rfl | hstack
      · exact hself
      · exact hpushed stack hstack

/-- A file can be looked up if it can be read. -/
private theorem exists_looks_iff_of_reads {stack : List Path} {path : Path} {kind : DocumentKind}
    (hread : ∀ cache, ∃ pushes, w.Returns ⟨stack, w.source kind path⟩
      (w.read stack kind path (w.source kind path).declarations cache)
      (w.Reads ⟨stack, w.source kind path⟩ cache) pushes) (cache : Cache Record) :
    ∃ pushes, w.Returns ⟨stack, w.source kind path⟩ (w.lookup stack path kind cache)
      (w.Looks stack path kind cache) pushes := by
  rw [lookup_eq]
  cases hf : w.tree.file? path with
  | none =>
    refine ⟨[], fun result ps => ⟨?_, ?_⟩, by simp⟩
    · rintro (⟨-⟩ | ⟨hf', -⟩ | ⟨hf', -, -⟩)
      · exact ⟨rfl, rfl⟩
      · simp [hf] at hf'
      · simp [hf] at hf'
    · rintro ⟨rfl, rfl⟩
      exact .missing hf
  | some f =>
    dsimp only
    rcases hprobe : cache.probe (f.key path kind) (Record.isCurrent w.tree)
      with ⟨_ | record, cache'⟩
    · have hsource : (w.source kind path).declarations = f.declarations? kind path :=
        declarations_source hf kind
      obtain ⟨pushes, hiff, hpushed⟩ := hread cache'
      rw [hsource] at hiff
      refine ⟨pushes, fun result ps => ⟨?_, ?_⟩, hpushed⟩
      · rintro (⟨hf'⟩ | ⟨hf', hprobe'⟩ | ⟨hf', hprobe', hread⟩)
        · simp [hf] at hf'
        · obtain rfl := Option.some.inj (hf.symm.trans hf')
          simp [hprobe] at hprobe'
        · obtain rfl := Option.some.inj (hf.symm.trans hf')
          obtain ⟨-, rfl⟩ := Prod.mk.inj (hprobe.symm.trans hprobe')
          obtain ⟨heq, rfl⟩ := (hiff _ _).mp hread
          dsimp only
          rw [← heq]
          exact ⟨rfl, rfl⟩
      · rintro ⟨rfl, rfl⟩
        exact .miss hf hprobe ((hiff _ _).mpr ⟨rfl, rfl⟩)
    · refine ⟨[], fun result ps => ⟨?_, ?_⟩, by simp⟩
      · rintro (⟨hf'⟩ | ⟨hf', hprobe'⟩ | ⟨hf', hprobe', -⟩)
        · simp [hf] at hf'
        · obtain rfl := Option.some.inj (hf.symm.trans hf')
          obtain ⟨hrecord, rfl⟩ := Prod.mk.inj (hprobe.symm.trans hprobe')
          obtain rfl := Option.some.inj hrecord
          exact ⟨rfl, rfl⟩
        · obtain rfl := Option.some.inj (hf.symm.trans hf')
          simp [hprobe] at hprobe'
      · rintro ⟨rfl, rfl⟩
        exact .hit hf hprobe

/-- Every document can be read, with one result. -/
theorem exists_reads_iff (w : Workspace) (c : Call) (cache : Cache Record) :
    ∃ pushes, w.Returns c
      (w.read c.stack c.source.kind c.source.path c.source.declarations cache)
      (w.Reads c cache) pushes := by
  induction c using w.wellFounded_calls.induction generalizing cache with
  | _ c ih =>
    refine exists_reads_iff_of_looks (fun p hp hnew => ?_) cache
    exact exists_looks_iff_of_reads fun cache => ih _ (.mixin hp hnew) cache

/-- Every file can be looked up, with one result. -/
theorem exists_looks_iff (w : Workspace) (stack : List Path) (path : Path) (kind : DocumentKind)
    (cache : Cache Record) :
    ∃ pushes, w.Returns ⟨stack, w.source kind path⟩ (w.lookup stack path kind cache)
      (w.Looks stack path kind cache) pushes :=
  exists_looks_iff_of_reads (fun cache => w.exists_reads_iff ⟨stack, w.source kind path⟩ cache)
    cache

end Workspace

end ComponentInsight

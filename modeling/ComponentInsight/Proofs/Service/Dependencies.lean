import ComponentInsight.Proofs.Lookup.Stores
import ComponentInsight.Proofs.Service.Answers

/-!
# Dependencies are exact

A cached record lists the mixin files that went into it, and is used as long as these have their
keys. The list has to be complete, or an edit goes unnoticed; and it should name nothing else, or
records are made again for no reason.

`Service.Stores` tells which records a request puts into the cache of files: those for what it reads
first and for what has to be read on that behalf (`Service.all_ask`). In a run with fresh edits, the
dependencies of a script are, at the time its record is stored, **exactly** the other files that it
reaches (`dependencies_exact`). This holds in whatever cycles: a reading that lacks a file for the
sake of one below it on the stack is passed on, but not stored.
-/

namespace ComponentInsight

/-! ### What a request stores -/

namespace Service

/-- What looking up a document that is read first puts into the cache of files. -/
def StoresFor (s : Service) (w : Workspace) : Subject → Store → Prop
  | .file path kind, store => w.Stores [] path kind s.files store
  | .buffer text path, store =>
    (s.buffers.probe (bufferKey text path) (Record.isCurrent w.tree)).1 = none ∧
      w.StoresBelow [] path (Declarations.ofDocument .componentsOnly path text).toOption s.files
        store

/-- What a request puts into the cache of files. -/
def Stores (s : Service) (t : FileTree) (settings : Settings) (r : Request) (store : Store) :
    Prop :=
  let w := (s.workspace t settings).1
  let s' := (s.workspace t settings).2
  match r with
  | .file path kind => s'.StoresFor w (.file path kind) store
  | .buffer text path => s'.StoresFor w (.buffer text path) store
  | .componentPath text path _ => s'.StoresFor w (.buffer text path) store
  | .componentMetadata text path tag =>
    s'.StoresFor w (.buffer text path) store ∨
      ∃ p ∈ s.child? w text path tag,
        (s'.buffer w text path).2.StoresFor w (.file p (.forPath p)) store
  | .clear => False

variable {P : Fingerprint → Record → Prop} {s : Service} {w : Workspace}

private theorem all_file (hfiles : s.files.All P) {path : Path} {kind : DocumentKind}
    (hstores : ∀ store, s.StoresFor w (.file path kind) store → P store.key store.record) :
    (s.file w path kind).2.files.All P := by
  rw [file_eq]
  exact Workspace.all_lookup hfiles hstores

private theorem all_buffer (hfiles : s.files.All P) {text : String} {path : Path}
    (hstores : ∀ store, s.StoresFor w (.buffer text path) store → P store.key store.record) :
    (s.buffer w text path).2.files.All P := by
  rw [buffer_eq]
  unfold Workspace.lookupBuffer
  dsimp only
  rcases hprobe : s.buffers.probe (bufferKey text path) (Record.isCurrent w.tree)
    with ⟨_ | record, buffers⟩
  · exact Workspace.all_read hfiles fun store h => hstores store ⟨by rw [hprobe], h⟩
  · exact hfiles

/-- What holds of the cached records of files and of all that a request stores holds of the cached
records afterwards. -/
theorem all_ask {t : FileTree} {settings : Settings} {r : Request} (hfiles : s.files.All P)
    (hstores : ∀ store, s.Stores t settings r store → P store.key store.record) :
    (s.ask t settings r).2.files.All P := by
  -- the configuration is looked up first, which leaves the caches alone
  have hfiles' : (s.workspace t settings).2.files.All P := by
    rw [workspace_snd]
    exact hfiles
  cases r with
  | file path kind =>
    rw [ask_file]
    dsimp only
    exact all_file hfiles' hstores
  | buffer text path =>
    rw [ask_buffer]
    dsimp only
    exact all_buffer hfiles' hstores
  | componentPath text path tag =>
    rw [ask_componentPath]
    dsimp only
    exact all_buffer hfiles' hstores
  | componentMetadata text path tag =>
    have hbuffer := all_buffer hfiles' fun store h => hstores store (.inl h)
    rw [ask_componentMetadata]
    dsimp only
    split
    · exact hbuffer
    · next p hchild => exact all_file hbuffer fun store h => hstores store (.inr ⟨p, hchild, h⟩)
  | clear => exact Cache.all_clear _

/-- All that a request stores is stored for a document it reads first, while the invariants of the
service hold. -/
theorem StepInvariant.exists_storesFor {Holds : Service → Prop} {Admits : Subject → Prop}
    {t : FileTree} {settings : Settings} {r : Request} {store : Store}
    (h : StepInvariant (s.workspace t settings).1 Holds Admits) (hs : Holds s)
    (hx : ∀ x ∈ s.subjects (s.workspace t settings).1 r, Admits x)
    (hstore : s.Stores t settings r store) :
    ∃ s', Holds s' ∧ ∃ x, Admits x ∧ s'.StoresFor (s.workspace t settings).1 x store := by
  have hs' : Holds (s.workspace t settings).2 := h.workspace hs t settings
  cases r with
  | file path kind => exact ⟨_, hs', .file path kind, hx _ List.mem_cons_self, hstore⟩
  | buffer text path => exact ⟨_, hs', .buffer text path, hx _ List.mem_cons_self, hstore⟩
  | componentPath text path tag =>
    exact ⟨_, hs', .buffer text path, hx _ List.mem_cons_self, hstore⟩
  | componentMetadata text path tag =>
    have hbuffer : Admits (.buffer text path) := hx _ List.mem_cons_self
    rcases hstore with hstore | ⟨p, hchild, hstore⟩
    · exact ⟨_, hs', .buffer text path, hbuffer, hstore⟩
    · have hp : Admits (.file p (.forPath p)) :=
        hx _ (by simp [subjects, Option.mem_def.mp hchild])
      exact ⟨_, h.buffer hs' hbuffer, _, hp, hstore⟩
  | clear => exact hstore.elim

end Service

/-! ### What stored records tell -/

section StoresFor

variable {s : Service} {w : Workspace} {x : Subject} {store : Store}

private theorem Service.StoresFor.key?_eq (h : s.StoresFor w x store) :
    w.tree.key? store.path store.kind = some store.key := by
  cases x with
  | file path kind => exact Workspace.Stores.key?_eq h
  | buffer text path =>
    obtain ⟨-, d, -, front, p, back, -, h⟩ := h
    exact h.key?_eq

/-- All records that are stored for a document are faithful. -/
theorem Versions.Holds.faithful_of_storesFor {V : Versions} (h : V.Holds s)
    (hx : V.AdmitsSubject w x) (hstore : s.StoresFor w x store) :
    store.record.Faithful w (w.source store.kind store.path) := by
  cases x with
  | file path kind => exact Versions.faithful_of_stores hx h.files hstore
  | buffer text path => exact Versions.faithful_of_storesBelow hx.1 h.files hstore.2

end StoresFor

/-! ### Runs -/

namespace Moment

/-- What is put into the cache of files. -/
def Stores (settings : Settings) (m : Moment) (store : Store) : Prop :=
  m.service.Stores m.tree settings m.request store

/-- A script that is asked for is stored unless a current record of it is cached. -/
theorem exists_stores {settings : Settings} {m : Moment}
    (hkeys : Set.InjOn FileKey.fingerprint (m.fileKeys settings)) {p : Path} {f : File}
    (hrequest : m.request = .file p .mixin) (hf : m.tree.file? p = some f)
    (hcache : m.service.files.All fun key record => key = f.key p .mixin →
      record.isCurrent m.tree = false) :
    ∃ record, m.Stores settings ⟨p, .mixin, f.key p .mixin, record⟩ := by
  have hsubject : .file p .mixin ∈ m.subjects settings := by
    simp [Moment.subjects, hrequest, Service.subjects]
  have hfamily : (m.workspace settings).familyKeys p ⊆ m.fileKeys settings := by
    rintro ⟨modified, q, kind⟩ ⟨rfl, hq, hfile⟩
    rcases hq with rfl | hq
    · exact .inl ⟨hsubject, hfile⟩
    · exact .inr ⟨_, List.mem_map_of_mem hsubject, rfl, hq, hfile⟩
  have hfiles : (m.service.workspace m.tree settings).2.files = m.service.files := by
    rw [Service.workspace_snd]
  rw [← hfiles] at hcache
  unfold Stores
  rw [hrequest]
  exact Workspace.stores_self hf (hkeys.mono hfamily) hcache

end Moment

section Run

variable {options : ServiceOptions} {settings : Settings} {t : FileTree} {moves : List Move}

/-- **Dependencies.** All cached records of files that a request of a run leaves behind were there
before or are stored by it. A record is stored under the key its file has. If that is a script, the
dependencies are, with the keys they have, exactly the other files that the script reaches then, in
whatever cycles. -/
theorem dependencies_exact (hedits : FreshEdits options.root [] t moves)
    (hfiles : NoFileCollisions settings (moments settings (.start options) t moves)) {m : Moment}
    (hm : m ∈ moments settings (.start options) t moves) :
    (∀ e ∈ (m.service.ask m.tree settings m.request).2.files.entries,
      e ∈ m.service.files.entries ∨
        ∃ store, m.Stores settings store ∧ e = (store.key, store.record)) ∧
    ∀ store, m.Stores settings store →
      m.tree.key? store.path store.kind = some store.key ∧
      (store.kind = .mixin → store.record.ListsReached (m.workspace settings) store.path) := by
  obtain ⟨V, -, hV⟩ := exists_versions hedits hfiles
  obtain ⟨hholds, hadmits⟩ := hV m hm
  constructor
  · refine Service.all_ask (P := fun key record => (key, record) ∈ m.service.files.entries ∨
      ∃ store, m.Stores settings store ∧ (key, record) = (store.key, store.record))
      (fun e he => .inl he) fun store hstore => .inr ⟨store, hstore, rfl⟩
  · -- what is stored later in the request is stored by a service that has changed meanwhile
    intro store hstore
    obtain ⟨s, hs, x, hx, hstore⟩ :=
      (V.stepInvariant (m.workspace settings)).exists_storesFor hholds hadmits hstore
    refine ⟨hstore.key?_eq, fun hkind => ?_⟩
    have hfaithful := hs.faithful_of_storesFor hx hstore
    rw [hkind] at hfaithful
    exact hfaithful.listsReached

/-- The panel that a new service is asked for is stored with the other panel, of which it is a
mixin in turn, as a dependency. -/
theorem dependencies_exact_panels :
    ∃ key record,
      (Moment.mk (.start Sample.options) Sample.tree (.file Sample.left .mixin)).Stores .empty
        ⟨Sample.left, .mixin, key, record⟩ ∧
      record.ListsReached (Sample.options.workspace Sample.tree .empty) Sample.left ∧
      ∃ x ∈ record.mixins, x.path.same Sample.right = true := by
  have hm : Moment.mk (.start Sample.options) Sample.tree (.file Sample.left .mixin) ∈
      moments .empty (.start Sample.options) Sample.tree
        (Sample.editRun Sample.left Sample.right Sample.newRight) := List.mem_cons_self
  obtain ⟨f, hf⟩ : ∃ f, Sample.tree.file? Sample.left = some f :=
    Option.isSome_iff_exists.mp (by decide +kernel)
  have hkeys : Set.InjOn FileKey.fingerprint ((Moment.mk (.start Sample.options) Sample.tree
      (.file Sample.left .mixin)).fileKeys .empty) :=
    fun k hk k' hk' heq => Sample.noFileCollisions_left ⟨_, hm, hk⟩ ⟨_, hm, hk'⟩ heq
  obtain ⟨record, hstores⟩ := Moment.exists_stores hkeys rfl hf (Cache.all_empty _)
  obtain ⟨-, hexact⟩ :=
    dependencies_exact Sample.freshEdits_left Sample.noFileCollisions_left hm
  have hlists := (hexact _ hstores).2 rfl
  have hright : Sample.right ∈ (Sample.options.workspace Sample.tree .empty).mixinsOf
      ((Sample.options.workspace Sample.tree .empty).source .mixin Sample.left) := by
    simp [(Sample.mixinsOf_left (.inl rfl)).1]
  have hother : Sample.left.same Sample.right = false := by decide
  exact ⟨_, record, hstores, hlists, hlists.covers Sample.right (.direct hright) hother⟩

end Run

end ComponentInsight

import ComponentInsight.Proofs.Lookup.Visits
import ComponentInsight.Proofs.Service.Answers
import ComponentInsight.Proofs.Service.Recall
import Mathlib.Data.Finset.Card
import Mathlib.Data.Finset.Dedup

/-!
# Every file is read once

While no file changes, a record that was cached stays current. With room for all files that are
looked up, a run of requests therefore reads each of them once, however they are shared: as the
mixin of several documents, by way of several mixins, or by several requests (`misses_after`). Every
further lookup of it is a hit.

The visits of a run are listed by `Service.log`. A stretch of it is `ReadOnce` after some documents
if it reads others than these, none of them twice, and visits no further ones; the cache remembers
exactly the documents that were visited (`Workspace.Remembers`). Both are kept by lookups
(`Workspace.visitLaw_shares`). That no file is read a second time while it is being read is due to
the assumption that no chain of mixins comes back to a path.
-/

namespace ComponentInsight

/-! ### Lookups below a stack that leave nothing out -/

namespace Workspace

variable {w : Workspace}

/-- If no mixin is on the stack, nothing cuts the reading of a document. -/
private theorem cut_assemble {stack : List Path} {s : Source} {d : Declarations}
    {found : List (Path × Found)} (hclear : w.Clear stack s) (hd : s.declarations = some d)
    (hfound : ∀ e ∈ found, e.2.reading.cut = none) :
    (w.assemble (stack ++ [s.path]) s.kind s.path d found).cut = none := by
  have hlowest : w.lowestCut (stack ++ [s.path]) s.path d = none := by
    have hmixins : w.mixinPaths s.path d = w.mixinsOf s := by simp [mixinsOf, hd]
    have hfresh := hclear.freshMixins_eq hd
    rw [freshMixins, hmixins, List.filter_eq_self] at hfresh
    rw [lowestCut, hmixins, List.min?_eq_none_iff, List.filterMap_eq_nil_iff]
    intro p hp
    rw [List.findIdx?_eq_none_iff]
    intro q hq
    have hnew : onStack (stack ++ [s.path]) p = false := by simpa using hfresh p hp
    simpa using List.any_eq_false.mp hnew q hq
  have hfold : ∀ l : List (Path × Found), (∀ e ∈ l, e.2.reading.cut = none) →
      lowest none l = none := by
    intro l hl
    induction l with
    | nil => rfl
    | cons e rest ih =>
      have he := hl e List.mem_cons_self
      have hrest := ih fun e' he' => hl e' (List.mem_cons_of_mem _ he')
      simpa [lowest, he, Option.merge] using hrest
  rw [assemble, hlowest]
  exact hfold found hfound

/-- Lookups below such a stack are not cut. -/
private theorem lookupInvariant_cut (w : Workspace) :
    w.LookupInvariant (fun _ => True)
      (fun stack path kind => w.Clear stack (w.source kind path))
      (fun _ _ _ r => r.cut = none) where
  probe _ _ _ := trivial
  hit _ _ _ _ := rfl
  silent _ _ _ _ _ := rfl
  inner {stack path kind f d p} hpre hf hd hp := by
    have hdeclared : (w.source kind path).declarations = some d :=
      (declarations_source hf kind).trans hd
    exact hpre.of_mem (hpre.freshMixins_eq hdeclared ▸ hp)
  read {stack path kind f _ d found} hpre hf _ _ hd _ hfound := by
    have hdeclared : (w.source kind path).declarations = some d :=
      (declarations_source hf kind).trans hd
    exact cut_assemble hpre hdeclared fun e he => (hfound e he).2
  settle _ _ _ hr _ := ⟨trivial, hr⟩

/-- Reading a document below such a stack leaves nothing out. -/
theorem Clear.cut_read {stack : List Path} {s : Source} (h : w.Clear stack s)
    (cache : Cache Record) :
    (w.read stack s.kind s.path s.declarations cache).1.cut = none := by
  cases hd : s.declarations with
  | none => rfl
  | some d =>
    have hpre : ∀ p ∈ w.freshMixins (stack ++ [s.path]) s.path d,
        w.Clear (stack ++ [s.path]) (w.source .mixin p) :=
      fun p hp => h.of_mem (h.freshMixins_eq hd ▸ hp)
    obtain ⟨-, found, -, hfound, hread⟩ :=
      w.lookupInvariant_cut.read_document hpre (trivial : (fun _ => True) cache)
    rw [hread]
    exact cut_assemble h hd fun e he => (hfound e he).2

/-- A document below such a stack is not among the files it reaches. -/
theorem Clear.not_reaches_self {stack : List Path} {s : Source} (h : w.Clear stack s) :
    ¬ w.Reaches s s.path := by
  intro hreaches
  obtain ⟨c, hc⟩ := hreaches.exists_chain
  have hpairs := (List.pairwise_append.mp (h (c ++ [s.path]) hc)).2.1
  have hne := (List.pairwise_cons.mp hpairs).1 s.path (by simp)
  simp [Path.same] at hne

/-- Reading a file below such a stack does not read it a second time. -/
theorem Clear.notMem_readings {stack : List Path} {path : Path} {kind : DocumentKind}
    (h : w.Clear stack (w.source kind path)) (cache : Cache Record) :
    (path, kind) ∉
      readings (w.visitsBelow stack path (w.source kind path).declarations cache) := by
  intro hmem
  obtain ⟨v, hv, heq⟩ := List.mem_map.mp hmem
  obtain ⟨hpath, -⟩ := Prod.mk.inj heq
  have hreaches := (reaches_of_mem_visitsBelow (s := w.source kind path)
    (List.mem_of_mem_filter hv)).2
  exact h.not_reaches_self (hpath ▸ hreaches)

/-! ### What a cache remembers -/

/-- Files that are looked up, with their mixins, each under a key of its own. -/
structure Keyed (w : Workspace) (docs : Set (Path × DocumentKind)) : Prop where
  mixin {x} (hx : x ∈ docs) {p} (hp : p ∈ w.mixinsOf (w.source x.2 x.1)) : (p, .mixin) ∈ docs
  eq_of_key? {x y} (hx : x ∈ docs) (hy : y ∈ docs) {key} (hxkey : w.tree.key? x.1 x.2 = some key)
    (hykey : w.tree.key? y.1 y.2 = some key) : x = y

/-- A cache with room for some keys that remembers the documents seen so far and nothing else. -/
structure Remembers (w : Workspace) (docs : Set (Path × DocumentKind)) (keys : List Fingerprint)
    (seen : Set (Path × DocumentKind)) (c : Cache Record) : Prop where
  within : c.Within keys
  current : c.All fun _ r => r.isCurrent w.tree = true
  subset : seen ⊆ docs
  mem_keys (key) : key ∈ c.entries.keys ↔ ∃ x ∈ seen, w.tree.key? x.1 x.2 = some key


/-- Visits that read other documents than those seen before, none of them twice, and visit no
further ones. -/
structure ReadOnce (seen : Set (Path × DocumentKind)) (log : List Visit) : Prop where
  nodup : (readings log).Nodup
  fresh {x} (hx : x ∈ readings log) : x ∉ seen
  covered {v} (hv : v ∈ log) : v.document ∈ seen ∨ v.document ∈ readings log

/-- Visits, with room for the files visited, that read each document once and after which the cache
remembers all documents visited. -/
def Shares (w : Workspace) (docs : Set (Path × DocumentKind)) (keys : List Fingerprint)
    (c : Cache Record) (log : List Visit) (c' : Cache Record) : Prop :=
  ∀ seen, w.Remembers docs keys seen c →
    (∀ v ∈ log, ∀ key, w.tree.key? v.path v.kind = some key → key ∈ keys) →
    ReadOnce seen log ∧ w.Remembers docs keys (seen ∪ { x | x ∈ readings log }) c'

variable {docs : Set (Path × DocumentKind)} {keys : List Fingerprint}
  {seen : Set (Path × DocumentKind)} {c c' c'' : Cache Record} {a b : List Visit}

/-- Two traces that read each document once do so together, if the second reads none that was seen
before. -/
private theorem ReadOnce.append (ha : ReadOnce seen a)
    (hb : ReadOnce (seen ∪ { x | x ∈ readings a }) b) : ReadOnce seen (a ++ b) where
  nodup := by
    rw [readings_append]
    exact List.nodup_append.mpr ⟨ha.nodup, hb.nodup, fun x hx y hy heq =>
      hb.fresh hy (.inr (heq ▸ hx))⟩
  fresh {x} hx := by
    rw [readings_append, List.mem_append] at hx
    exact hx.elim ha.fresh fun hx hseen => hb.fresh hx (.inl hseen)
  covered {v} hv := by
    rw [readings_append, List.mem_append]
    rcases List.mem_append.mp hv with hv | hv
    · exact (ha.covered hv).imp id .inl
    · rcases hb.covered hv with (hseen | hread) | hread
      · exact .inl hseen
      · exact .inr (.inl hread)
      · exact .inr (.inr hread)

/-- A new document is read, which leads to other ones. -/
theorem ReadOnce.read {path : Path} {kind : DocumentKind} {log : List Visit}
    (h : ReadOnce seen log) (hnew : (path, kind) ∉ seen) (hother : (path, kind) ∉ readings log) :
    ReadOnce seen (⟨path, kind, false⟩ :: log) where
  nodup := List.nodup_cons.mpr ⟨hother, h.nodup⟩
  fresh {x} hx := by
    rcases List.mem_cons.mp hx with rfl | hx
    · exact hnew
    · exact h.fresh hx
  covered {v} hv := by
    rw [readings_read, List.mem_cons]
    rcases List.mem_cons.mp hv with rfl | hv
    · exact .inr (.inl rfl)
    · exact (h.covered hv).imp id .inr

/-- All documents that were visited were read. -/
theorem ReadOnce.card_toFinset {log : List Visit} (h : ReadOnce ∅ log) :
    (log.map Visit.document).toFinset.card = (readings log).length := by
  have hsame : (log.map Visit.document).toFinset = (readings log).toFinset := by
    ext x
    simp only [List.mem_toFinset, List.mem_map]
    constructor
    · rintro ⟨v, hv, rfl⟩
      exact (h.covered hv).resolve_left (Set.notMem_empty _)
    · intro hx
      obtain ⟨v, hv, rfl⟩ := List.mem_map.mp hx
      exact ⟨v, List.mem_of_mem_filter hv, rfl⟩
  rw [hsame, List.toFinset_card_of_nodup h.nodup]

private theorem Shares.nil (c : Cache Record) : w.Shares docs keys c [] c := by
  intro seen hseen _
  refine ⟨⟨List.nodup_nil, by simp, by simp⟩, ?_⟩
  simpa using hseen

/-- Caches that are shared along two parts of a trace are shared along both. -/
private theorem Shares.append (ha : w.Shares docs keys c a c') (hb : w.Shares docs keys c' b c'') :
    w.Shares docs keys c (a ++ b) c'' := by
  intro seen hseen hkeys
  obtain ⟨honce, hseen'⟩ := ha seen hseen fun v hv => hkeys v (List.mem_append_left b hv)
  obtain ⟨honce', hseen''⟩ := hb _ hseen' fun v hv => hkeys v (List.mem_append_right a hv)
  refine ⟨honce.append honce', ?_⟩
  have hunion : seen ∪ { x | x ∈ readings (a ++ b) } =
      seen ∪ { x | x ∈ readings a } ∪ { x | x ∈ readings b } := by
    ext x
    simp [or_assoc]
  rwa [hunion]

/-- A document is cached if it was seen. -/
theorem Remembers.mem_keys_iff (h : w.Remembers docs keys seen c) (hkeyed : w.Keyed docs)
    {path : Path} {kind : DocumentKind} (hx : (path, kind) ∈ docs) {key : Fingerprint}
    (hkey : w.tree.key? path kind = some key) : key ∈ c.entries.keys ↔ (path, kind) ∈ seen := by
  rw [h.mem_keys]
  constructor
  · rintro ⟨y, hy, hykey⟩
    obtain rfl := hkeyed.eq_of_key? hx (h.subset hy) hkey hykey
    exact hy
  · exact fun hseen => ⟨_, hseen, hkey⟩

/-- A document that is not found was not seen. -/
theorem Remembers.notMem_of_miss (h : w.Remembers docs keys seen c) (hkeyed : w.Keyed docs)
    {path : Path} {kind : DocumentKind} (hx : (path, kind) ∈ docs) {key : Fingerprint}
    (hkey : w.tree.key? path kind = some key)
    (hmiss : (c.probe key (Record.isCurrent w.tree)).1 = none) : (path, kind) ∉ seen := by
  rw [← h.mem_keys_iff hkeyed hx hkey, ← Table.isSome_find?]
  intro hsome
  obtain ⟨record, hrecord⟩ := Option.isSome_iff_exists.mp hsome
  rw [Cache.probe_fst, hrecord, Option.filter_some, if_pos (h.current.of_find? hrecord)] at hmiss
  cases hmiss

theorem Remembers.probe (h : w.Remembers docs keys seen c) (key : Fingerprint) :
    w.Remembers docs keys seen (c.probe key (Record.isCurrent w.tree)).2 where
  within := h.within.probe
  current := h.current.probe
  subset := h.subset
  mem_keys k := by
    rw [← h.mem_keys, ← Table.isSome_find?, ← Table.isSome_find?, Cache.find?_probe]

/-- Storing a current record of a document. -/
theorem Remembers.settle (h : w.Remembers docs keys seen c) {path : Path} {kind : DocumentKind}
    (hx : (path, kind) ∈ docs) {key : Fingerprint} (hkeys : key ∈ keys)
    (hkey : w.tree.key? path kind = some key) {record : Record}
    (hcurrent : record.isCurrent w.tree = true) :
    w.Remembers docs keys (seen ∪ {(path, kind)})
      (c.settle key (Record.isCurrent w.tree) record).2 where
  within := h.within.settle hkeys
  current := h.current.settle hcurrent
  subset := Set.union_subset h.subset (Set.singleton_subset_iff.mpr hx)
  mem_keys k := by
    rw [h.within.mem_keys_settle hkeys, h.mem_keys]
    constructor
    · rintro (⟨x, hx, hxkey⟩ | rfl)
      · exact ⟨x, .inl hx, hxkey⟩
      · exact ⟨_, .inr rfl, hkey⟩
    · rintro ⟨x, hx | rfl, hxkey⟩
      · exact .inl ⟨x, hx, hxkey⟩
      · exact .inr (Option.some.inj (hxkey.symm.trans hkey))

/-- Lookups of documents without cycles read each document once. -/
theorem visitLaw_shares (hkeyed : w.Keyed docs) (keys : List Fingerprint) :
    w.VisitLaw
      (fun stack path kind => (path, kind) ∈ docs ∧ w.Clear stack (w.source kind path))
      (w.Shares docs keys) where
  nil := Shares.nil
  append := Shares.append
  inner {stack path kind f d p} hpre hf hd hp := by
    have hdeclared : (w.source kind path).declarations = some d :=
      (declarations_source hf kind).trans hd
    replace hp : p ∈ w.mixinsOf (w.source kind path) := hpre.2.freshMixins_eq hdeclared ▸ hp
    exact ⟨hkeyed.mixin hpre.1 hp, hpre.2.of_mem hp⟩
  hit {stack path kind f cache record} hpre hf hhit := by
    intro seen hseen _
    have hkey : w.tree.key? path kind = some (f.key path kind) :=
      FileTree.key?_of_file? hf kind
    rw [Cache.probe_fst, Option.filter_eq_some_iff] at hhit
    have hmem : (path, kind) ∈ seen := by
      rw [← hseen.mem_keys_iff hkeyed hpre.1 hkey, ← Table.isSome_find?, hhit.1]
      rfl
    refine ⟨⟨by simp, by simp, fun hv => .inl ?_⟩, by simpa using hseen.probe _⟩
    rwa [List.mem_singleton.mp hv]
  miss {stack path kind f cache cache' r} hpre hf hprobe hread hbelow := by
    intro seen hseen hkeys
    have hkey : w.tree.key? path kind = some (f.key path kind) :=
      FileTree.key?_of_file? hf kind
    have hdeclared : (w.source kind path).declarations = f.declarations? kind path :=
      declarations_source hf kind
    have hroom : f.key path kind ∈ keys := hkeys _ List.mem_cons_self _ hkey
    have hprobed := hseen.probe (f.key path kind)
    rw [hprobe] at hprobed
    obtain ⟨honce, hseen'⟩ := hbelow seen hprobed fun v hv => hkeys v (List.mem_cons_of_mem _ hv)
    have hnew := hseen.notMem_of_miss hkeyed hpre.1 hkey (congrArg Prod.fst hprobe)
    have hother := hpre.2.notMem_readings cache'
    rw [hdeclared] at hother
    have hcut := hpre.2.cut_read cache'
    rw [hdeclared, kind_source, path_source, hread] at hcut
    have hwhole : r.1.isPartial stack.length = false := by simp [Reading.isPartial, hcut]
    have hcurrent : r.1.record.isCurrent w.tree = true :=
      hread ▸ w.isCurrent_read stack kind path (f.declarations? kind path) cache'
    refine ⟨honce.read hnew hother, ?_⟩
    have hsettled := hseen'.settle hpre.1 hroom hkey hcurrent
    have hunion : ∀ l : List (Path × DocumentKind), seen ∪ { x | x ∈ (path, kind) :: l } =
        seen ∪ { x | x ∈ l } ∪ {(path, kind)} := by
      intro l
      ext x
      simp only [Set.mem_union, Set.mem_ofPred_eq, List.mem_cons, Set.mem_singleton_iff, or_assoc]
      exact or_congr_right or_comm
    rw [readings_read, hunion]
    simpa only [Reading.keep, hwhole, Bool.false_eq_true, if_false] using hsettled

end Workspace

/-! ### Requests -/

namespace Service

/-- The visits of looking up what a request reads first. -/
def visits (s : Service) (w : Workspace) : Subject → List Visit
  | .file path kind => w.visits [] path kind s.files
  | .buffer text path =>
    match s.buffers.probe (bufferKey text path) (Record.isCurrent w.tree) with
    | (some _, _) => []
    | (none, _) =>
      w.visitsBelow [] path (Declarations.ofDocument .componentsOnly path text).toOption s.files

/-- The files that a request looks up, and those that are looked up on their behalf. -/
def visitsOf (s : Service) (t : FileTree) (settings : Settings) (r : Request) : List Visit :=
  let w := (s.workspace t settings).1
  match r with
  | .file path kind => s.visits w (.file path kind)
  | .buffer text path => s.visits w (.buffer text path)
  | .componentPath text path _ => s.visits w (.buffer text path)
  | .componentMetadata text path tag =>
    s.visits w (.buffer text path) ++
      match s.child? w text path tag with
      | none => []
      | some p => (s.buffer w text path).2.visits w (.file p (.forPath p))
  | .clear => []

/-- The files that are looked up by requests one after another, while no file changes. -/
def log (s : Service) (t : FileTree) (settings : Settings) : List Request → List Visit
  | [] => []
  | r :: rest => s.visitsOf t settings r ++ (s.ask t settings r).2.log t settings rest

/-- Looking the configuration up does not change what is visited. -/
theorem visits_workspace (s : Service) (t : FileTree) (settings : Settings) (w : Workspace)
    (x : Subject) : (s.workspace t settings).2.visits w x = s.visits w x := by
  rw [workspace_snd]
  cases x <;> rfl

end Service

/-- The condition under which files are looked up when a document is read first. -/
def Subject.Meets (w : Workspace) (Pre : List Path → Path → DocumentKind → Prop) : Subject → Prop
  | .file path kind => Pre [] path kind
  | .buffer text path =>
    ∀ d ∈ (Declarations.ofDocument .componentsOnly path text).toOption,
      ∀ p ∈ w.freshMixins ([] ++ [path]) path d, Pre ([] ++ [path]) p .mixin

private theorem Subject.meets_true (x : Subject) (w : Workspace) : x.Meets w fun _ _ _ => True := by
  cases x with
  | file path kind => trivial
  | buffer text path => exact fun _ _ _ _ => trivial

private theorem Subject.Meets.and {x : Subject} {w : Workspace}
    {Pre Pre' : List Path → Path → DocumentKind → Prop} (h : x.Meets w Pre) (h' : x.Meets w Pre') :
    x.Meets w fun stack path kind => Pre stack path kind ∧ Pre' stack path kind := by
  cases x with
  | file path kind => exact ⟨h, h'⟩
  | buffer text path => exact fun d hd p hp => ⟨h d hd p hp, h' d hd p hp⟩

namespace Workspace.VisitLaw

variable {w : Workspace} {Pre : List Path → Path → DocumentKind → Prop}
  {T : Cache Record → List Visit → Cache Record → Prop} {t : FileTree} {settings : Settings}

private theorem file (h : w.VisitLaw Pre T) (s : Service) {path : Path} {kind : DocumentKind}
    (hx : (Subject.file path kind).Meets w Pre) :
    T s.files (s.visits w (.file path kind)) (s.file w path kind).2.files := by
  rw [Service.file_eq]
  exact h.lookup hx s.files

private theorem buffer (h : w.VisitLaw Pre T) (s : Service) {text : String} {path : Path}
    (hx : (Subject.buffer text path).Meets w Pre) :
    T s.files (s.visits w (.buffer text path)) (s.buffer w text path).2.files := by
  rw [Service.buffer_eq, lookupBuffer, Service.visits]
  dsimp only
  rcases s.buffers.probe (bufferKey text path) (Record.isCurrent w.tree) with ⟨_ | record, buffers⟩
  · exact h.read .componentsOnly hx s.files
  · exact h.nil s.files

/-- What holds of lookups holds of requests. -/
theorem ask (h : w.VisitLaw Pre T) {s : Service} {r : Request}
    (hw : (s.workspace t settings).1 = w) (hclear : r ≠ .clear)
    (hx : ∀ x ∈ s.subjects w r, x.Meets w Pre) :
    T s.files (s.visitsOf t settings r) (s.ask t settings r).2.files := by
  have hfiles : (s.workspace t settings).2.files = s.files := by rw [Service.workspace_snd]
  rw [← hfiles]
  cases r with
  | file path kind =>
    rw [Service.ask_file, Service.visitsOf, hw, ← s.visits_workspace t settings]
    exact h.file _ (hx _ List.mem_cons_self)
  | buffer text path =>
    rw [Service.ask_buffer, Service.visitsOf, hw, ← s.visits_workspace t settings]
    exact h.buffer _ (hx _ List.mem_cons_self)
  | componentPath text path tag =>
    rw [Service.ask_componentPath, Service.visitsOf, hw, ← s.visits_workspace t settings]
    exact h.buffer _ (hx _ List.mem_cons_self)
  | componentMetadata text path tag =>
    have hbuffer := h.buffer (s.workspace t settings).2 (hx (.buffer text path) List.mem_cons_self)
    rw [Service.ask_componentMetadata, Service.visitsOf, hw, ← s.visits_workspace t settings]
    dsimp only
    cases hchild : s.child? w text path tag with
    | none => simpa using hbuffer
    | some p =>
      have hmeets := hx (.file p (.forPath p)) (by simp [Service.subjects, hchild])
      have hsame : (s.buffer w text path).2.files =
          ((s.workspace t settings).2.buffer w text path).2.files := by
        rw [Service.buffer_eq, Service.buffer_eq, Service.workspace_snd]
      have hchild := h.file ((s.workspace t settings).2.buffer w text path).2 hmeets
      rw [Service.visits, ← hsame] at hchild
      exact h.append hbuffer (hsame ▸ hchild)
  | clear => exact absurd rfl hclear

/-- What holds of requests holds of a run of requests that never clears the caches. -/
theorem after (h : w.VisitLaw Pre T) {s : Service} {requests : List Request}
    (hclear : .clear ∉ requests)
    (hw : ∀ m ∈ moments settings s t (requests.map .ask), m.workspace settings = w)
    (hx : ∀ m ∈ moments settings s t (requests.map .ask),
      ∀ x ∈ m.subjects settings, x.Meets w Pre) :
    T s.files (s.log t settings requests) (s.after t settings requests).files := by
  induction requests generalizing s with
  | nil => exact h.nil s.files
  | cons r rest ih =>
    rw [List.mem_cons, not_or] at hclear
    have hfirst : (s.workspace t settings).1 = w := hw ⟨s, t, r⟩ List.mem_cons_self
    have hmeets := hx ⟨s, t, r⟩ List.mem_cons_self
    rw [Moment.subjects, Moment.workspace, hfirst] at hmeets
    exact h.append (h.ask hfirst (Ne.symm hclear.1) hmeets)
      (ih hclear.2 (fun m hm => hw m (List.mem_cons_of_mem _ hm))
        fun m hm => hx m (List.mem_cons_of_mem _ hm))

end Workspace.VisitLaw

/-! ### Runs -/

/-- The files looked up by some requests, with all that these reach. -/
def lookedUp (settings : Settings) (w : Workspace) (ms : List Moment) :
    Set (Path × DocumentKind) :=
  { x | ∃ m ∈ ms, .file x.1 x.2 ∈ m.subjects settings ∨
    ∃ source ∈ m.sources settings, x.2 = .mixin ∧ w.Reaches source x.1 }

section Runs

variable {settings : Settings} {w : Workspace} {ms : List Moment}

/-- The mixins of a file that is looked up are among the files looked up. -/
theorem mixin_mem_lookedUp (hw : ∀ m ∈ ms, m.workspace settings = w) {x : Path × DocumentKind}
    (hx : x ∈ lookedUp settings w ms) {p : Path} (hp : p ∈ w.mixinsOf (w.source x.2 x.1)) :
    (p, .mixin) ∈ lookedUp settings w ms := by
  obtain ⟨m, hm, hsubject | ⟨source, hsource, hkind, hreaches⟩⟩ := hx
  · refine ⟨m, hm, .inr ⟨w.source x.2 x.1, ?_, rfl, .direct hp⟩⟩
    exact List.mem_map.mpr ⟨_, hsubject, by rw [hw m hm]; rfl⟩
  · rw [hkind] at hp
    exact ⟨m, hm, .inr ⟨source, hsource, rfl, .step hreaches hp⟩⟩

/-- The files of a run have keys of their own. -/
theorem keyed_lookedUp (hw : ∀ m ∈ ms, m.workspace settings = w)
    (hkeys : NoFileCollisions settings ms) : w.Keyed (lookedUp settings w ms) where
  mixin hx _ hp := mixin_mem_lookedUp hw hx hp
  eq_of_key? {x y} hx hy {key} hxkey hykey := by
    have hfileKey : ∀ {x : Path × DocumentKind}, x ∈ lookedUp settings w ms → ∀ {f : File},
        w.tree.file? x.1 = some f →
        ∃ m ∈ ms, FileKey.mk f.modified x.1 x.2 ∈ m.fileKeys settings := by
      rintro ⟨p, kind⟩ ⟨m, hm, hsubject | ⟨source, hsource, hkind, hreaches⟩⟩ f hf
      · refine ⟨m, hm, .inl ⟨hsubject, f, ?_, rfl⟩⟩
        have htree : m.tree = w.tree := by rw [← hw m hm]; rfl
        rwa [htree]
      · refine ⟨m, hm, .inr ⟨source, hsource, hkind, ?_⟩⟩
        rw [hw m hm]
        exact ⟨hreaches, f, hf, rfl⟩
    obtain ⟨f, hf, hfkey⟩ := Option.map_eq_some_iff.mp hxkey
    obtain ⟨g, hg, hgkey⟩ := Option.map_eq_some_iff.mp hykey
    have heq := hkeys (hfileKey hx hf) (hfileKey hy hg) (hfkey.trans hgkey.symm)
    obtain ⟨-, hpath, hkind⟩ := FileKey.mk.inj heq
    exact Prod.ext hpath hkind

/-- What the requests of a run read first leads to files that count as looked up. -/
theorem meets_lookedUp (hw : ∀ m ∈ ms, m.workspace settings = w) {m : Moment} (hm : m ∈ ms)
    {x : Subject} (hx : x ∈ m.subjects settings) :
    x.Meets w fun _ path kind => (path, kind) ∈ lookedUp settings w ms := by
  have hsource : x.source w ∈ m.sources settings := List.mem_map.mpr ⟨x, hx, by rw [hw m hm]⟩
  cases x with
  | file path kind => exact ⟨m, hm, .inl hx⟩
  | buffer text path =>
    intro d hd p hp
    have hmixin : p ∈ w.mixinsOf (bufferSource text path) :=
      Workspace.mem_mixinsOf_of_mem_freshMixins hd hp
    exact ⟨m, hm, .inr ⟨_, hsource, rfl, .direct hmixin⟩⟩

end Runs

/-- Mixins of a document without cycles are looked up below a stack that leaves nothing out. -/
theorem Subject.meets_clear {w : Workspace} {x : Subject} (h : w.Acyclic (x.source w)) :
    x.Meets w fun stack path kind => w.Clear stack (w.source kind path) := by
  cases x with
  | file path kind => exact h.clear
  | buffer text path =>
    intro d hd p hp
    have hmem : p ∈ w.mixinsOf (bufferSource text path) :=
      h.clear.freshMixins_eq (Option.mem_def.mp hd) ▸ hp
    exact h.clear.of_mem hmem

/-- Requests alone do not change a file. -/
theorem tree_of_mem_moments_asks {settings : Settings} {s : Service} {t : FileTree}
    {requests : List Request} {m : Moment}
    (hm : m ∈ moments settings s t (requests.map .ask)) : m.tree = t := by
  induction requests generalizing s with
  | nil => cases hm
  | cons r rest ih =>
    rcases List.mem_cons.mp hm with rfl | hm
    · rfl
    · exact ih hm

section Run

variable {options : ServiceOptions} {t : FileTree} {settings : Settings} {requests : List Request}

/-- The requests of a run meet one workspace. -/
theorem workspace_of_mem_moments_asks {m : Moment}
    (hm : m ∈ moments settings (.start options) t (requests.map .ask)) :
    m.workspace settings = options.workspace t settings := by
  rw [workspace_of_mem_moments (freshEdits_asks options.root [] t requests) hm,
    tree_of_mem_moments_asks hm]

/-- What is visited is read first by some request or reached from there. -/
theorem document_mem_lookedUp (hclear : .clear ∉ requests) {v : Visit}
    (hv : v ∈ (Service.start options).log t settings requests) :
    v.document ∈ lookedUp settings (options.workspace t settings)
      (moments settings (.start options) t (requests.map .ask)) :=
  (Workspace.visitLaw_mem fun _ hx _ hp =>
      mixin_mem_lookedUp (fun _ hm => workspace_of_mem_moments_asks hm) hx hp).after hclear
    (fun _ hm => workspace_of_mem_moments_asks hm)
    (fun _ hm _ hx => meets_lookedUp (fun _ hm => workspace_of_mem_moments_asks hm) hm hx) v hv

/-- **Each file is read once.** While no file changes and nothing is forgotten, if no chain of
mixins visits one path twice and there is room for all files that are looked up, the misses are as
many as these files, and every other lookup is a hit. -/
theorem misses_after (hclear : .clear ∉ requests)
    (hacyclic : ∀ m ∈ moments settings (.start options) t (requests.map .ask),
      ∀ source ∈ m.sources settings, (m.workspace settings).Acyclic source)
    (hkeys : NoFileCollisions settings (moments settings (.start options) t (requests.map .ask)))
    (hroom : (((Service.start options).log t settings requests).map Visit.document).toFinset.card ≤
      max options.fileCapacity 1) :
    let log := (Service.start options).log t settings requests
    let files := ((Service.start options).after t settings requests).files
    files.misses = (log.map Visit.document).toFinset.card ∧
      files.hits + (log.map Visit.document).toFinset.card = log.length ∧
      (readings log).Nodup := by
  intro log files
  have hw : ∀ m ∈ moments settings (.start options) t (requests.map .ask),
      m.workspace settings = options.workspace t settings :=
    fun m hm => workspace_of_mem_moments_asks hm
  have hcounts : Workspace.Counts (Service.start options).files log files :=
    (options.workspace t settings).visitLaw_counts.after hclear hw fun _ _ x _ => x.meets_true _
  -- the keys of the files that are looked up, for which there is room
  let documents := (log.map Visit.document).dedup
  let keys := documents.filterMap fun x => t.key? x.1 x.2
  have hlength : keys.length ≤ max options.fileCapacity 1 :=
    (List.length_filterMap_le _ _).trans
      ((List.card_toFinset (log.map Visit.document)).symm.trans_le hroom)
  have hshares : (options.workspace t settings).Shares (lookedUp settings _ _) keys
      (Service.start options).files log files :=
    (Workspace.visitLaw_shares (keyed_lookedUp hw hkeys) keys).after hclear hw fun m hm x hx =>
      have hacyclic : (options.workspace t settings).Acyclic (x.source _) :=
        hw m hm ▸ hacyclic m hm _ (List.mem_map_of_mem hx)
      (meets_lookedUp hw hm hx).and (Subject.meets_clear hacyclic)
  obtain ⟨honce, -⟩ := hshares ∅
    ⟨.empty hlength, Cache.all_empty _, Set.empty_subset _, by simp [Service.start, Cache.empty,
      Table.keys]⟩
    fun v hv key hkey => List.mem_filterMap.mpr
      ⟨v.document, List.mem_dedup.mpr (List.mem_map_of_mem hv), hkey⟩
  have hcard := honce.card_toFinset
  have hmisses : files.misses = (readings log).length := by
    rw [hcounts.misses]
    exact Nat.zero_add _
  have hhits : files.hits = log.countP Visit.cached := by
    rw [hcounts.hits]
    exact Nat.zero_add _
  exact ⟨hmisses.trans hcard.symm, by rw [hhits, hcard, countP_cached_add], honce.nodup⟩

end Run

/-! ### A list that is sorted and paged, where sorting is paged as well -/

namespace Sample

/-- The requests for the list and for sorting. -/
def listRequests : List Request := [.file list .mixin, .file sort .mixin]

private theorem request_listRequests {m : Moment}
    (hm : m ∈ moments .empty (.start options) tree (listRequests.map .ask)) :
    ∃ p ∈ [list, page, sort], (p = list ∨ p = sort) ∧ m.request = .file p .mixin := by
  rcases List.mem_cons.mp hm with rfl | hm
  · exact ⟨list, by simp, .inl rfl, rfl⟩
  · obtain rfl := List.mem_singleton.mp hm
    exact ⟨sort, by simp, .inr rfl, rfl⟩

private theorem sources_listRequests {m : Moment}
    (hm : m ∈ moments .empty (.start options) tree (listRequests.map .ask)) :
    ∃ p, (p = list ∨ p = sort) ∧ m.subjects .empty = [.file p .mixin] ∧
      m.sources .empty = [(options.workspace tree .empty).source .mixin p] := by
  obtain ⟨p, -, hp, hrequest⟩ := request_listRequests hm
  have hsubjects : m.subjects .empty = [.file p .mixin] := by
    simp [Moment.subjects, hrequest, Service.subjects]
  refine ⟨p, hp, hsubjects, ?_⟩
  rw [Moment.sources, hsubjects, workspace_of_mem_moments_asks hm]
  rfl

private theorem closed_list : ∀ q ∈ [list, page, sort],
    (options.workspace tree .empty).mixinsOf ((options.workspace tree .empty).source .mixin q) ⊆
      [list, page, sort] := by
  obtain ⟨hlist, hpage, hsort⟩ := mixinsOf_list (.inl rfl)
  simp [hlist, hpage, hsort]

/-- The files looked up are those three, read as scripts. -/
private theorem document_listRequests {x : Path × DocumentKind}
    (hx : x ∈ lookedUp .empty (options.workspace tree .empty)
      (moments .empty (.start options) tree (listRequests.map .ask))) :
    x.1 ∈ [list, page, sort] ∧ x.2 = .mixin := by
  obtain ⟨m, hm, hsubject | ⟨source, hsource, hkind, hreaches⟩⟩ := hx
  · obtain ⟨p, hp, hsubjects, -⟩ := sources_listRequests hm
    rw [hsubjects, List.mem_singleton] at hsubject
    obtain ⟨hpath, hkind⟩ := Subject.file.inj hsubject
    exact ⟨by rcases hp with rfl | rfl <;> simp [hpath], hkind⟩
  · obtain ⟨p, hp, -, hsources⟩ := sources_listRequests hm
    rw [hsources, List.mem_singleton] at hsource
    obtain rfl := hsource
    refine ⟨hreaches.mem_of_closed (closed_list p ?_) closed_list, hkind⟩
    rcases hp with rfl | rfl <;> simp

end Sample

open Sample in
/-- Paging is read once although both others have it as a mixin. -/
theorem misses_after_listRequests :
    let log := (Service.start options).log tree .empty listRequests
    let files := ((Service.start options).after tree .empty listRequests).files
    files.misses = (log.map Visit.document).toFinset.card ∧
      files.hits + (log.map Visit.document).toFinset.card = log.length ∧
      (readings log).Nodup := by
  have hacyclic := acyclic_of_mixinsOf (mixinsOf_list (.inl rfl))
  refine misses_after (by decide) (fun m hm source hsource => ?_) ?_ ?_
  · obtain ⟨p, hp, -, hsources⟩ := sources_listRequests hm
    rw [hsources, List.mem_singleton] at hsource
    rw [hsource, workspace_of_mem_moments_asks hm]
    rcases hp with rfl | rfl
    · exact hacyclic.1
    · exact hacyclic.2
  · refine noFileCollisions_of_scripts [list, page, sort] _ (fun m hm => ?_) (fun m hm => ?_)
      (fun m hm => ?_) (eq_of_fingerprint_eq (by decide : tree.scriptKeys [list, page, sort] ⊆ _))
    · obtain ⟨p, hp, -, hrequest⟩ := request_listRequests hm
      exact ⟨p, hp, hrequest⟩
    · rw [workspace_of_mem_moments_asks hm]
      exact closed_list
    · rw [tree_of_mem_moments_asks hm]
      exact List.Subset.refl _
  · have hsubset : (((Service.start options).log tree .empty listRequests).map
        Visit.document).toFinset ⊆ {(list, .mixin), (page, .mixin), (sort, .mixin)} := by
      intro x hx
      obtain ⟨v, hv, rfl⟩ := List.mem_map.mp (List.mem_toFinset.mp hx)
      obtain ⟨hmem, hkind⟩ := document_listRequests (document_mem_lookedUp (by decide) hv)
      rw [← Prod.eta v.document, hkind]
      simpa using hmem
    exact (Finset.card_le_card hsubset).trans (Finset.card_le_three.trans (by decide))

end ComponentInsight

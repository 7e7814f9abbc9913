import ComponentInsight.Proofs.Lookup.Reference
import ComponentInsight.Proofs.Service.Requests

/-!
# Records that outlive the request that made them

A service is asked one query after another, each with a file tree and settings of its own. A record
that it remembers was made for some document in the workspace of an **earlier** query, and is used
again for every document that is cached under the same key, as long as its mixins have their keys.
`CountsFor E u x w y` says that this is right: a record that tells of `x` in `u` what `E` asks for
tells it of `y` in `w` as well.

If it is right for the documents of every query and of every query before it, all answers are those
of a service that has read nothing yet (`answer_eq_start_of_countsFor`). Documents are assumed to
have no cycles of mixins, so that nothing is ever left out of a record.
-/

namespace ComponentInsight

/-! ### Stacks without cycles -/

namespace Workspace

variable {w : Workspace} {stack : List Path} {s : Source} {d : Declarations}

/-- No chain from the document comes to a path of the stack, or to one path twice. -/
def Clear (w : Workspace) (stack : List Path) (s : Source) : Prop :=
  ∀ c, w.IsMixinChain s c → (stack ++ s.path :: c).Pairwise fun p q => p.same q = false

/-- A document without cycles is clear of an empty stack. -/
theorem Acyclic.clear (h : w.Acyclic s) : w.Clear [] s := h

/-- The mixins of a document that is clear are clear of the stack with it. -/
theorem Clear.of_mem (h : w.Clear stack s) {p : Path} (hp : p ∈ w.mixinsOf s) :
    w.Clear (stack ++ [s.path]) (w.source .mixin p) := by
  intro c hc
  simpa using h (p :: c) ⟨hp, hc⟩

/-- No mixin of the document is left out. -/
theorem Clear.freshMixins_eq (h : w.Clear stack s) (hd : s.declarations = some d) :
    w.freshMixins (stack ++ [s.path]) s.path d = w.mixinsOf s := by
  have hmixins : w.mixinsOf s = w.mixinPaths s.path d := by simp [mixinsOf, hd]
  rw [hmixins]
  refine List.filter_eq_self.mpr fun p hp => ?_
  have hpairs : (stack ++ [s.path] ++ [p]).Pairwise fun p q => p.same q = false := by
    simpa using h [p] ⟨hmixins ▸ hp, trivial⟩
  have hnew : onStack (stack ++ [s.path]) p = false :=
    List.any_eq_false.mpr fun q hq => by
      simp [(List.pairwise_append.mp hpairs).2.2 q hq p List.mem_cons_self]
  simp [hnew]

end Workspace

/-! ### Records made earlier -/

section Coherent

variable {E : Workspace → Source → Record → Prop}

/-- A record of one document, read in some workspace, counts for another one that is cached under
the same key, if it is current. -/
def CountsFor (E : Workspace → Source → Record → Prop) (u : Workspace) (x : Subject)
    (w : Workspace) (y : Subject) : Prop :=
  x.isBuffer = y.isBuffer → ∀ key record, x.key? u.tree = some key → y.key? w.tree = some key →
    E u (x.source u) record → record.isCurrent w.tree = true → E w (y.source w) record

/-- A cached record tells what is asked for of a document read before. -/
def CachedFor (E : Workspace → Source → Record → Prop) (past : Set (Workspace × Subject))
    (isBuffer : Bool) (key : Fingerprint) (record : Record) : Prop :=
  ∃ u x, (u, x) ∈ past ∧ x.isBuffer = isBuffer ∧ x.key? u.tree = some key ∧
    E u (x.source u) record

/-- Some documents of a workspace, mixins included, can be read by way of what was cached for
documents read before or at the same time. -/
structure Coherent (E : Workspace → Source → Record → Prop) (past : Set (Workspace × Subject))
    (w : Workspace) (docs : Set Subject) : Prop where
  law : RecordLaw E
  present {x} (hx : x ∈ docs) : (w, x) ∈ past
  mixin {x} (hx : x ∈ docs) {p} (hp : p ∈ w.mixinsOf (x.source w)) : .file p .mixin ∈ docs
  acyclic {x} (hx : x ∈ docs) : w.Acyclic (x.source w)
  counts {u x} (hpast : (u, x) ∈ past) {y} (hy : y ∈ docs) : CountsFor E u x w y

namespace Coherent

variable {past : Set (Workspace × Subject)} {w : Workspace} {docs : Set Subject}

/-- A current record at the key of a document tells what is asked for of the document. -/
theorem of_cachedFor (h : Coherent E past w docs) {y : Subject} (hy : y ∈ docs)
    {key : Fingerprint} {record : Record} (hkey : y.key? w.tree = some key)
    (hcached : CachedFor E past y.isBuffer key record)
    (hcurrent : record.isCurrent w.tree = true) : E w (y.source w) record := by
  obtain ⟨u, x, hpast, hsort, hkey', hrecord⟩ := hcached
  exact h.counts hpast hy hsort key record hkey' hkey hrecord hcurrent

/-- The record of a document of the moment is one that was asked for. -/
private theorem cachedFor (h : Coherent E past w docs) {x : Subject} (hx : x ∈ docs)
    {key : Fingerprint}
    {record : Record} (hkey : x.key? w.tree = some key) (hrecord : E w (x.source w) record) :
    CachedFor E past x.isBuffer key record :=
  ⟨w, x, h.present hx, rfl, hkey, hrecord⟩

/-- Lookups keep the cached records of files meaningful and give what is asked for. -/
theorem lookupInvariant (h : Coherent E past w docs) :
    w.LookupInvariant (Cache.All (CachedFor E past false))
      (fun stack path kind => .file path kind ∈ docs ∧ w.Clear stack (w.source kind path))
      (fun _ path kind r => E w (w.source kind path) r.record) where
  probe _ _ hI := hI.probe
  hit hpre hf hI hhit := by
    obtain ⟨hcached, hcurrent⟩ := hI.of_probe hhit
    exact h.of_cachedFor hpre.1 (FileTree.key?_of_file? hf _) hcached hcurrent
  silent {_ _ kind _ _} _ hf _ _ hd :=
    h.law.silent ((Workspace.declarations_source hf kind).trans hd)
  inner {stack path kind f d p} hpre hf hd hp := by
    have hdeclared : (w.source kind path).declarations = some d :=
      (Workspace.declarations_source hf kind).trans hd
    replace hp : p ∈ w.mixinsOf (w.source kind path) := hpre.2.freshMixins_eq hdeclared ▸ hp
    exact ⟨h.mixin hpre.1 hp, hpre.2.of_mem hp⟩
  read {stack path kind f _ d found} hpre hf _ _ hd hpaths hfound := by
    have hdeclared : (w.source kind path).declarations = some d :=
      (Workspace.declarations_source hf kind).trans hd
    exact h.law.assemble hdeclared (hpaths.trans (hpre.2.freshMixins_eq hdeclared)) hfound
  settle {stack path kind f cache r} hpre hf hI hr _ := by
    have hkey : (Subject.file path kind).key? w.tree = some (f.key path kind) :=
      FileTree.key?_of_file? hf kind
    refine ⟨hI.settle (h.cachedFor hpre.1 hkey hr), ?_⟩
    rcases hI.of_settle with heq | ⟨hother, hcurrent⟩
    · rw [heq]
      exact hr
    · exact h.of_cachedFor hpre.1 hkey hother hcurrent

/-- A lookup keeps what is cached coherent, and what it finds is a record of the document. -/
private theorem lookup (h : Coherent E past w docs) {path : Path} {kind : DocumentKind}
    (hx : .file path kind ∈ docs) {files : Cache Record}
    (hfiles : files.All (CachedFor E past false)) :
    (w.lookup [] path kind files).2.All (CachedFor E past false) ∧
      ∀ found, (w.lookup [] path kind files).1 = some found →
        E w (w.source kind path) found.reading.record :=
  h.lookupInvariant.lookup ⟨hx, (h.acyclic hx).clear⟩ hfiles

private theorem read (h : Coherent E past w docs) {x : Subject} (hx : x ∈ docs)
    {files : Cache Record} (hfiles : files.All (CachedFor E past false)) :
    (w.read [] (x.source w).kind (x.source w).path (x.source w).declarations files).2.All
        (CachedFor E past false) ∧
      E w (x.source w)
        (w.read [] (x.source w).kind (x.source w).path (x.source w).declarations files).1.record
    := by
  have hclear : w.Clear [] (x.source w) := (h.acyclic hx).clear
  cases hd : (x.source w).declarations with
  | none => exact ⟨hfiles, h.law.silent hd⟩
  | some d =>
    have hfresh := hclear.freshMixins_eq hd
    obtain ⟨hkept, found, hpaths, hfound, hread⟩ := h.lookupInvariant.read_document
      (fun p hp => ⟨h.mixin hx (hfresh ▸ hp), hclear.of_mem (hfresh ▸ hp)⟩) hfiles
    refine ⟨hkept, ?_⟩
    rw [hread]
    exact h.law.assemble hd (hpaths.trans hfresh) hfound

private theorem lookupBuffer (h : Coherent E past w docs) {text : String} {path : Path}
    (hx : .buffer text path ∈ docs) {buffers files : Cache Record}
    (hbuffers : buffers.All (CachedFor E past true))
    (hfiles : files.All (CachedFor E past false)) :
    (w.lookupBuffer text path buffers files).2.1.All (CachedFor E past true) ∧
      (w.lookupBuffer text path buffers files).2.2.All (CachedFor E past false) ∧
      E w (bufferSource text path) (w.lookupBuffer text path buffers files).1 := by
  refine Workspace.lookupBuffer_spec (I := Cache.All (CachedFor E past false))
    (Q := E w (bufferSource text path)) (fun record hcached hcurrent => ?_)
    (fun r files' heq => ?_) hbuffers hfiles
  · exact h.of_cachedFor hx rfl hcached hcurrent
  · obtain ⟨hkept, hrecord⟩ := h.read hx hfiles
    replace heq : w.read [] ((Subject.buffer text path).source w).kind
      ((Subject.buffer text path).source w).path
      ((Subject.buffer text path).source w).declarations files = (r, files') := heq
    rw [heq] at hkept hrecord
    exact ⟨hkept, h.cachedFor hx rfl hrecord, hrecord⟩

end Coherent

/-! ### Services -/

/-- Every record that a service remembers tells what is asked for of a document read before. -/
structure Service.Remembers (s : Service) (E : Workspace → Source → Record → Prop)
    (past : Set (Workspace × Subject)) : Prop where
  files : s.files.All (CachedFor E past false)
  buffers : s.buffers.All (CachedFor E past true)

namespace Service.Remembers

variable {past : Set (Workspace × Subject)} {w : Workspace} {docs : Set Subject} {s : Service}

private theorem start (options : ServiceOptions) : (start options).Remembers E past :=
  ⟨Cache.all_empty _, Cache.all_empty _⟩

/-- What is remembered of the past is remembered of a longer one. -/
private theorem mono (h : s.Remembers E past) {past' : Set (Workspace × Subject)}
    (hsub : past ⊆ past') : s.Remembers E past' where
  files e he := by
    obtain ⟨u, x, hx, hrest⟩ := h.files e he
    exact ⟨u, x, hsub hx, hrest⟩
  buffers e he := by
    obtain ⟨u, x, hx, hrest⟩ := h.buffers e he
    exact ⟨u, x, hsub hx, hrest⟩

/-- The record that is answered for a document tells what is asked for. -/
theorem of_record? (h : s.Remembers E past) (hw : Coherent E past w docs) {x : Subject}
    (hx : x ∈ docs) {record : Record} (hrecord : s.record? w x = some record) :
    E w (x.source w) record := by
  cases x with
  | file path kind =>
    obtain ⟨found, hfound, rfl⟩ := Option.map_eq_some_iff.mp hrecord
    exact (hw.lookup hx h.files).2 found hfound
  | buffer text path =>
    obtain rfl := Option.some.inj hrecord
    exact (hw.lookupBuffer hx h.buffers h.files).2.2

end Service.Remembers

/-- Reading documents of a coherent workspace keeps what is remembered meaningful, and all services
that remember only what is meaningful tell the same. -/
theorem Coherent.sameAnswers {past : Set (Workspace × Subject)} {w : Workspace}
    {docs : Set Subject} (h : Coherent E past w docs) :
    Service.SameAnswers w (fun s => s.Remembers E past) (· ∈ docs) where
  config hs := ⟨hs.files, hs.buffers⟩
  file hs hx := by
    rw [Service.file_eq]
    exact ⟨(h.lookup hx hs.files).1, hs.buffers⟩
  buffer hs hx := by
    obtain ⟨hbuffers, hfiles, -⟩ := h.lookupBuffer hx hs.buffers hs.files
    rw [Service.buffer_eq]
    exact ⟨hfiles, hbuffers⟩
  clear _ := ⟨Cache.all_clear _, Cache.all_clear _⟩
  metadata_eq {s s' x} hs hs' hx := by
    cases hkey : x.key? w.tree with
    | none => rw [(s.record?_eq_none_iff w x).mpr hkey, (s'.record?_eq_none_iff w x).mpr hkey]
    | some key =>
      obtain ⟨record, hrecord⟩ := s.exists_record? hkey
      obtain ⟨record', hrecord'⟩ := s'.exists_record? hkey
      rw [hrecord, hrecord', Option.map_some, Option.map_some,
        h.law.metadata_eq (hs.of_record? h hx hrecord) (hs'.of_record? h hx hrecord')]

end Coherent

/-! ### Queries -/

/-- What a service is asked, with the file tree and the settings at the time. -/
structure Query where
  tree : FileTree
  settings : Settings
  request : Request

/-- A query, with the service that it meets. -/
structure Encounter extends Query where
  service : Service

/-- The queries that are put to a service one after another. -/
def encounters : Service → List Query → List Encounter
  | _, [] => []
  | s, q :: rest => ⟨q, s⟩ :: encounters (s.ask q.tree q.settings q.request).2 rest

/-- The answer of a service that has read nothing yet. -/
def ServiceOptions.answer (options : ServiceOptions) (q : Query) : Answer :=
  ((Service.start options).ask q.tree q.settings q.request).1

namespace Encounter

/-- The answer that is given. -/
def answer (e : Encounter) : Answer := (e.service.ask e.tree e.settings e.request).1

/-- The workspace of the query. -/
def workspace (e : Encounter) : Workspace := (e.service.workspace e.tree e.settings).1

/-- What the query reads first. -/
def subjects (e : Encounter) : List Subject := e.service.subjects e.workspace e.request

/-- What the query reads: first, and then by way of mixins. -/
def documents (e : Encounter) : Set Subject :=
  { x | x ∈ e.subjects ∨ ∃ y ∈ e.subjects, ∃ p, e.workspace.Reaches (y.source e.workspace) p ∧
    x = .file p .mixin }

/-- No chain of mixins from a document that is read first visits one path twice. -/
def Acyclic (e : Encounter) : Prop :=
  ∀ x ∈ e.subjects, e.workspace.Acyclic (x.source e.workspace)

/-- The keys of the files that are read. -/
def fileKeys (e : Encounter) : Set FileKey :=
  { k | .file k.path k.kind ∈ e.documents ∧
    ∃ f, e.tree.file? k.path = some f ∧ f.modified = k.modified }

/-- The keys of the buffers that are read. -/
def bufferKeys (e : Encounter) : Set BufferKey := { k | .buffer k.text k.path ∈ e.documents }

/-- Records of what is read at one query count at another one. -/
def CountsFor (E : Workspace → Source → Record → Prop) (e e' : Encounter) : Prop :=
  ∀ x ∈ e.documents, ∀ y ∈ e'.documents, ComponentInsight.CountsFor E e.workspace x e'.workspace y

variable {e : Encounter}

@[simp]
theorem tree_workspace (e : Encounter) : e.workspace.tree = e.tree := rfl

theorem mem_documents {x : Subject} (h : x ∈ e.subjects) : x ∈ e.documents := .inl h

/-- The mixins of what is read are read. -/
theorem mixin_mem_documents {x : Subject} (hx : x ∈ e.documents) {p : Path}
    (hp : p ∈ e.workspace.mixinsOf (x.source e.workspace)) : .file p .mixin ∈ e.documents := by
  rcases hx with hx | ⟨y, hy, q, hq, rfl⟩
  · exact .inr ⟨x, hx, p, .direct hp, rfl⟩
  · exact .inr ⟨y, hy, p, .step hq hp, rfl⟩

private theorem Acyclic.of_mem_documents (h : e.Acyclic) {x : Subject} (hx : x ∈ e.documents) :
    e.workspace.Acyclic (x.source e.workspace) := by
  rcases hx with hx | ⟨y, hy, q, hq, rfl⟩
  · exact h x hx
  · exact (h y hy).of_reaches hq

end Encounter

/-- Different keys of files, and of buffers, that are read at some queries have different
fingerprints. -/
structure NoCollisions (es : List Encounter) : Prop where
  files : Set.InjOn FileKey.fingerprint { k | ∃ e ∈ es, k ∈ e.fileKeys }
  buffers : Set.InjOn BufferKey.fingerprint { k | ∃ e ∈ es, k ∈ e.bufferKeys }

/-- Documents that are cached under the same key are the same, and files among them were modified at
the same time. -/
theorem NoCollisions.eq_of_key? {es : List Encounter} (h : NoCollisions es) {e e' : Encounter}
    (he : e ∈ es) (he' : e' ∈ es) {x y : Subject} (hx : x ∈ e.documents) (hy : y ∈ e'.documents)
    (hsort : x.isBuffer = y.isBuffer) {key : Fingerprint} (hkey : x.key? e.tree = some key)
    (hkey' : y.key? e'.tree = some key) :
    x = y ∧ ∀ path kind, x = .file path kind → ∃ f g, e.tree.file? path = some f ∧
      e'.tree.file? path = some g ∧ f.modified = g.modified := by
  cases x with
  | file path kind =>
    cases y with
    | buffer => cases hsort
    | file path' kind' =>
      obtain ⟨f, hf, rfl⟩ := Option.map_eq_some_iff.mp hkey
      obtain ⟨g, hg, hfg⟩ := Option.map_eq_some_iff.mp hkey'
      have hk : FileKey.mk f.modified path kind ∈ e.fileKeys := ⟨hx, f, hf, rfl⟩
      have hk' : FileKey.mk g.modified path' kind' ∈ e'.fileKeys := ⟨hy, g, hg, rfl⟩
      have heq := h.files ⟨e, he, hk⟩ ⟨e', he', hk'⟩ hfg.symm
      obtain ⟨hmodified, rfl, rfl⟩ := FileKey.mk.inj heq
      refine ⟨rfl, fun p k hp => ?_⟩
      obtain ⟨rfl, rfl⟩ := Subject.file.inj hp
      exact ⟨f, g, hf, hg, hmodified⟩
  | buffer text path =>
    cases y with
    | file => cases hsort
    | buffer text' path' =>
      have heq : BufferKey.mk text path = BufferKey.mk text' path' :=
        h.buffers ⟨e, he, hx⟩ ⟨e', he', hy⟩ (Option.some.inj (hkey.trans hkey'.symm))
      obtain ⟨rfl, rfl⟩ := BufferKey.mk.inj heq
      exact ⟨rfl, fun _ _ hp => nomatch hp⟩

/-! ### Runs of queries -/

section Run

variable {E : Workspace → Source → Record → Prop}

/-- Within one query there is nothing to compare. -/
theorem NoCollisions.countsFor_self {es : List Encounter} (h : NoCollisions es) {e : Encounter}
    (he : e ∈ es) : e.CountsFor E e := by
  intro x hx y hy hsort key record hkey hkey' hrecord _
  obtain ⟨rfl, -⟩ := h.eq_of_key? he he hx hy hsort hkey hkey'
  exact hrecord

/-- A service that has read nothing yet answers a document of a query by its record. -/
theorem NoCollisions.records_of_record? {es : List Encounter} (h : NoCollisions es) {e : Encounter}
    (he : e ∈ es) (hacyclic : e.Acyclic) {x : Subject} (hx : x ∈ e.documents)
    {options : ServiceOptions} {record : Record}
    (hrecord : (Service.start options).record? e.workspace x = some record) :
    e.workspace.Records (x.source e.workspace) record := by
  have hcoherent : Coherent Workspace.Records { r | r.1 = e.workspace ∧ r.2 ∈ e.documents }
      e.workspace e.documents := by
    refine ⟨Workspace.recordLaw_records, fun hx => ⟨rfl, hx⟩,
      fun hx _ hp => Encounter.mixin_mem_documents hx hp,
      fun hx => hacyclic.of_mem_documents hx, ?_⟩
    rintro _ x ⟨rfl, hx⟩ y hy
    exact h.countsFor_self he x hx y hy
  exact (Service.Remembers.start options).of_record? hcoherent hx hrecord

/-- If records count for all queries from the one that made them on, then at every query the service
remembers only what is meaningful, and what is read is coherent with it. -/
theorem exists_coherent (hlaw : RecordLaw E) {past : Set (Workspace × Subject)} {s : Service}
    {queries : List Query} (hs : s.Remembers E past)
    (hacyclic : ∀ e ∈ encounters s queries, e.Acyclic)
    (hpast : ∀ u x, (u, x) ∈ past → ∀ e ∈ encounters s queries, ∀ y ∈ e.documents,
      CountsFor E u x e.workspace y)
    (hself : ∀ e ∈ encounters s queries, e.CountsFor E e)
    (hlater : (encounters s queries).Pairwise (Encounter.CountsFor E)) {e : Encounter}
    (he : e ∈ encounters s queries) :
    ∃ past', e.service.Remembers E past' ∧ Coherent E past' e.workspace e.documents := by
  -- what was read so far grows with every query
  induction queries generalizing past s with
  | nil => simp [encounters] at he
  | cons q rest ih =>
    let first : Encounter := ⟨q, s⟩
    have hmem : first ∈ encounters s (q :: rest) := List.mem_cons_self
    let past' : Set (Workspace × Subject) :=
      past ∪ { e | e.1 = first.workspace ∧ e.2 ∈ first.documents }
    obtain ⟨hfirst, hrest⟩ := List.pairwise_cons.mp hlater
    have hs' : s.Remembers E past' := hs.mono Set.subset_union_left
    have hcoherent : Coherent E past' first.workspace first.documents := by
      refine ⟨hlaw, fun hx => .inr ⟨rfl, hx⟩, fun hx _ hp => Encounter.mixin_mem_documents hx hp,
        fun hx => (hacyclic first hmem).of_mem_documents hx, ?_⟩
      rintro u x (hx | ⟨rfl, hx⟩) y hy
      · exact hpast u x hx first hmem y hy
      · exact hself first hmem x hx y hy
    rcases List.mem_cons.mp he with rfl | he
    · exact ⟨past', hs', hcoherent⟩
    · refine ih (hcoherent.sameAnswers.ask hs' rfl fun x hx => Encounter.mem_documents hx)
        (fun e he => hacyclic e (List.mem_cons_of_mem _ he)) ?_
        (fun e he => hself e (List.mem_cons_of_mem _ he)) hrest he
      rintro u x (hx | ⟨rfl, hx⟩) e he y hy
      · exact hpast u x hx e (List.mem_cons_of_mem _ he) y hy
      · exact hfirst e he x hx y hy

/-- If the trees have the same configuration files, every query has the workspace of a service that
has read nothing yet. -/
theorem workspace_of_mem_encounters {t : FileTree} {s : Service} {queries : List Query}
    (hs : s.Configured t)
    (hconfig : ∀ q ∈ queries, FileTree.SameConfig s.options.root t q.tree) {e : Encounter}
    (he : e ∈ encounters s queries) :
    e.workspace = s.options.workspace e.tree e.settings := by
  induction queries generalizing s with
  | nil => simp [encounters] at he
  | cons q rest ih =>
    have hsame : FileTree.SameConfig s.options.root t q.tree := hconfig q List.mem_cons_self
    rcases List.mem_cons.mp he with rfl | he
    · exact (hs.congr hsame).workspace_eq q.settings
    · have hoptions := (s.options_config_ask q.tree q.settings q.request).1
      have hasked := ((hs.congr hsame).ask q.settings q.request).congr (u := t)
        (by rw [hoptions]; exact fun name hname => (hsame name hname).symm)
      rw [← hoptions] at hconfig ⊢
      exact ih hasked (fun q hq => hconfig q (List.mem_cons_of_mem _ hq)) he

/-- If records count for all queries from the one that made them on, every query is answered as by a
service that has read nothing yet. -/
theorem answer_eq_start_of_countsFor (hlaw : RecordLaw E) {options : ServiceOptions} {t : FileTree}
    {queries : List Query} (hconfig : ∀ q ∈ queries, FileTree.SameConfig options.root t q.tree)
    (hacyclic : ∀ e ∈ encounters (.start options) queries, e.Acyclic)
    (hself : ∀ e ∈ encounters (.start options) queries, e.CountsFor E e)
    (hlater : (encounters (.start options) queries).Pairwise (Encounter.CountsFor E))
    {e : Encounter} (he : e ∈ encounters (.start options) queries) :
    e.answer = options.answer e.toQuery := by
  obtain ⟨past, hremembers, hcoherent⟩ := exists_coherent hlaw
    (Service.Remembers.start options : (Service.start options).Remembers E ∅) hacyclic
    (by simp) hself hlater he
  have hworkspace : e.workspace = options.workspace e.tree e.settings :=
    workspace_of_mem_encounters (s := .start options) (.inl rfl) hconfig he
  exact hcoherent.sameAnswers.ask_fst hremembers (.start options) rfl hworkspace.symm
    fun x hx => Encounter.mem_documents hx

end Run

/-! ### What queries read -/

/-- The request of a document is about that document. -/
theorem Service.subjects_request (s : Service) (w : Workspace) (x : Subject) :
    s.subjects w x.request = [x] := by
  cases x <;> rfl

theorem Encounter.subjects_of_request {e : Encounter} {x : Subject} (h : e.request = x.request) :
    e.subjects = [x] := by
  rw [subjects, h, Service.subjects_request]

section Buffer

variable {text : String} {path : Path}

/-- A query for a buffer without mixins reads nothing else. -/
theorem Encounter.eq_of_mem_documents {e : Encounter}
    (hrequest : e.request = (Subject.buffer text path).request)
    (hmixins : e.workspace.mixinsOf (bufferSource text path) = []) {x : Subject}
    (hx : x ∈ e.documents) : x = .buffer text path := by
  have hsubjects := subjects_of_request hrequest
  rcases hx with hx | ⟨y, hy, p, hp, -⟩
  · exact List.mem_singleton.mp (hsubjects ▸ hx)
  · obtain rfl := List.mem_singleton.mp (hsubjects ▸ hy)
    exact absurd hp (Workspace.not_reaches_of_mixinsOf_eq_nil hmixins)

/-- A buffer without mixins has no cycle. -/
theorem Encounter.acyclic_of_buffer {e : Encounter}
    (hrequest : e.request = (Subject.buffer text path).request)
    (hmixins : e.workspace.mixinsOf (bufferSource text path) = []) : e.Acyclic := by
  intro x hx
  obtain rfl := List.mem_singleton.mp (subjects_of_request hrequest ▸ hx)
  exact .of_closed (l := []) (by simp [Subject.source, hmixins]) (by simp) (by simp)
    (by simp [Subject.source, hmixins])

/-- Queries that read one buffer do not collide. -/
theorem noCollisions_of_buffer {es : List Encounter}
    (h : ∀ e ∈ es, ∀ x ∈ e.documents, x = .buffer text path) : NoCollisions es where
  files := by
    rintro k ⟨e, he, hx, -⟩
    cases h e he _ hx
  buffers := by
    rintro ⟨text, path⟩ ⟨e, he, hx⟩ ⟨text', path'⟩ ⟨e', he', hx'⟩ -
    obtain ⟨rfl, rfl⟩ := Subject.buffer.inj ((h e he _ hx).trans (h e' he' _ hx').symm)
    rfl

end Buffer

/-- A query for a script reads files of every list that has the script and is closed under
mixins. -/
theorem Encounter.exists_path_of_mem_documents {e : Encounter} {paths : List Path} {p : Path}
    (hrequest : e.request = .file p .mixin) (hp : p ∈ paths)
    (hclosed : ∀ q ∈ paths, e.workspace.mixinsOf (e.workspace.source .mixin q) ⊆ paths)
    {x : Subject} (hx : x ∈ e.documents) : ∃ q ∈ paths, x = .file q .mixin := by
  have hsubjects : e.subjects = [.file p .mixin] := subjects_of_request hrequest
  rcases hx with hx | ⟨y, hy, q, hq, rfl⟩
  · exact ⟨p, hp, List.mem_singleton.mp (hsubjects ▸ hx)⟩
  · obtain rfl := List.mem_singleton.mp (hsubjects ▸ hy)
    exact ⟨q, hq.mem_of_closed (hclosed p hp) hclosed, rfl⟩

/-- Queries that read scripts do not collide if the keys of the scripts do not. -/
theorem noCollisions_of_scripts {es : List Encounter} (paths : List Path) (keys : List FileKey)
    (hdocuments : ∀ e ∈ es, ∀ x ∈ e.documents, ∃ q ∈ paths, x = .file q .mixin)
    (hsubset : ∀ e ∈ es, e.tree.scriptKeys paths ⊆ keys)
    (hkeys : ∀ k ∈ keys, ∀ k' ∈ keys, k.fingerprint = k'.fingerprint → k = k') :
    NoCollisions es := by
  have hmem : ∀ k, (∃ e ∈ es, k ∈ e.fileKeys) → k ∈ keys := by
    rintro ⟨modified, path, kind⟩ ⟨e, he, hx, f, hf, rfl⟩
    obtain ⟨q, hq, heq⟩ := hdocuments e he _ hx
    obtain ⟨rfl, rfl⟩ := Subject.file.inj heq
    exact hsubset e he (List.mem_filterMap.mpr ⟨path, hq, by rw [hf]; rfl⟩)
  refine ⟨fun k hk k' hk' heq => hkeys k (hmem k hk) k' (hmem k' hk') heq, ?_⟩
  rintro k ⟨e, he, hx⟩
  obtain ⟨q, -, heq⟩ := hdocuments e he _ hx
  cases heq

end ComponentInsight

import ComponentInsight.Proofs.Lookup.Order
import ComponentInsight.Proofs.Service.Answers

/-!
# When answers depend on earlier requests

While no file changes, a request should be answered in the same way whatever was asked for before
(`OrderIndependent`). It is for documents **without loops**, for which every answer is that of a new
service. It is not for others: readings that were cut short are not cached, but a file of a cycle
that is read as a whole is, and it has its own declarations last, behind those of the other files of
the cycle.

The condition is exact (`orderIndependent_iff_loopFree`) for scripts that, together with all the
files they reach, declare a prop each of their own: after a request for one file of a cycle and
after a request for another one, their props come in different orders.
-/

namespace ComponentInsight

/-- The fingerprints of all that some requests read differ. -/
def CollisionFree (options : ServiceOptions) (settings : Settings) (t : FileTree)
    (requests : List Request) : Prop :=
  NoFileCollisions settings (moments settings (.start options) t (requests.map .ask)) ∧
    NoBufferCollisions settings (moments settings (.start options) t (requests.map .ask))

/-- While no file changes and fingerprints do not collide, a request is answered in the same way
after any two histories. -/
def OrderIndependent (options : ServiceOptions) (settings : Settings) (t : FileTree)
    (r : Request) : Prop :=
  ∀ before before' : List Request, CollisionFree options settings t (before ++ [r]) →
    CollisionFree options settings t (before' ++ [r]) →
      (((Service.start options).after t settings before).ask t settings r).1 =
        (((Service.start options).after t settings before').ask t settings r).1

section

variable {options : ServiceOptions} {settings : Settings} {t : FileTree}

/-! ### Documents without loops -/

/-- Without loops, a request is answered as by a new service. -/
private theorem ask_after_eq {r : Request}
    (hloop : ∀ s ∈ (Moment.mk (.start options) t r).sources settings,
      (options.workspace t settings).LoopFree s)
    {before : List Request} (hkeys : CollisionFree options settings t (before ++ [r])) :
    (((Service.start options).after t settings before).ask t settings r).1 =
      ((Service.start options).ask t settings r).1 := by
  have hedits := freshEdits_asks options.root [] t (before ++ [r])
  have hm := mem_moments_after settings (.start options) t before r
  obtain ⟨V, hbufferKeys, hV⟩ := exists_versions hedits hkeys.1
  obtain ⟨hholds, hadmits⟩ := hV _ hm
  have hworkspace := workspace_of_mem_moments hedits hm
  have hstart := Versions.holds_start V options
  have hinj : Set.InjOn BufferKey.fingerprint V.bufferKeys := hbufferKeys ▸ hkeys.2
  rw [Moment.subjects, hworkspace] at hadmits
  -- the child component that a buffer registers does not depend on the history either
  have hsubjects := hholds.subjects_eq hstart hinj hadmits
    fun x hx => hloop _ (List.mem_map_of_mem hx)
  refine (V.sameAnswers _ hinj).ask_fst hholds hstart hworkspace rfl fun x hx =>
    ⟨hadmits x hx, ?_⟩
  rw [hsubjects] at hx
  exact hloop _ (List.mem_map_of_mem hx)

/-- Without loops, what was asked before makes no difference. -/
private theorem orderIndependent_of_loopFree {r : Request}
    (hloop : ∀ s ∈ (Moment.mk (.start options) t r).sources settings,
      (options.workspace t settings).LoopFree s) :
    OrderIndependent options settings t r :=
  fun _ _ hkeys hkeys' => (ask_after_eq hloop hkeys).trans (ask_after_eq hloop hkeys').symm

/-! ### Loops -/

/-- Files with marks are written in one way only. -/
private theorem eq_of_same {w : Workspace} {p a q : Path} {mark : Path → String}
    (hmarked : w.Marked p mark) (ha : a ∈ w.family p) (hq : q ∈ w.family p)
    (hafile : w.tree.isFile a = true) (hqfile : w.tree.isFile q = true)
    (hsame : a.same q = true) : a = q := by
  refine (hmarked a ha q hq).mp ?_
  rw [← Workspace.own_eq_of_same hsame hafile hqfile]
  exact (hmarked a ha a ha).mpr rfl

/-- A chain that comes back to a path it has left goes through two files that reach each other. -/
private theorem exists_cycle {w : Workspace} {p : Path} {mark : Path → String} {c : List Path}
    (hmarked : w.Marked p mark) (hc : w.IsProperChain (w.source .mixin p) c)
    (hloop : ¬ (p :: c).Pairwise fun a q => a.same q = false) :
    ∃ a ∈ w.family p, ∃ q ∈ w.family p, a ≠ q ∧ w.Reaches (w.source .mixin a) q ∧
      w.Reaches (w.source .mixin q) a := by
  induction c generalizing p with
  | nil => simp at hloop
  | cons q c ih =>
    obtain ⟨hmem, hne⟩ := Workspace.mem_otherMixins.mp hc.1
    have hreach : w.Reaches (w.source .mixin p) q := .direct hmem
    have hfamily : ∀ r ∈ w.family q, r ∈ w.family p := by
      rintro r (rfl | hr)
      · exact .inr hreach
      · exact .inr (hreach.trans hr)
    by_cases hrest : (q :: c).Pairwise fun a q => a.same q = false
    · -- the chain comes back to where it began
      obtain ⟨z, hz, hsame⟩ : ∃ z ∈ q :: c, p.same z = true := by
        by_contra hnone
        push Not at hnone
        exact hloop (List.pairwise_cons.mpr ⟨fun z hz => by simpa using hnone z hz, hrest⟩)
      rcases List.mem_cons.mp hz with rfl | hz
      · rw [Workspace.path_source] at hne
        simp [hne] at hsame
      obtain ⟨l, l', rfl⟩ := List.append_of_mem hz
      have hback : w.Reaches (w.source .mixin q) z :=
        ((Workspace.isChain_append.mp hc.2).1.mono w.otherMixins_subset).reaches
      obtain rfl : p = z := eq_of_same hmarked (w.self_mem_family p) (.inr (hreach.trans hback))
        hreach.isFile_source hback.isFile hsame
      refine ⟨p, w.self_mem_family p, q, .inr hreach, ?_, hreach, hback⟩
      rintro rfl
      simp at hne
    · have hmarked' : w.Marked q mark := fun r hr r' hr' =>
        hmarked r (hfamily r hr) r' (hfamily r' hr')
      obtain ⟨a, ha, r, hr, hrest⟩ := ih hmarked' hc.2 hrest
      exact ⟨a, hfamily a ha, r, hfamily r hr, hrest⟩

/-- Requests for files of a family read the files of the family. -/
private theorem collisionFree_of_family {p q : Path}
    (hkeys : Set.InjOn FileKey.fingerprint ((options.workspace t settings).familyKeys p))
    (hq : q ∈ (options.workspace t settings).family p) :
    CollisionFree options settings t ([.file q .mixin] ++ [.file p .mixin]) := by
  have hmoments : ∀ m ∈ moments settings (.start options) t
      [.ask (.file q .mixin), .ask (.file p .mixin)],
      ∃ r ∈ (options.workspace t settings).family p, m.request = .file r .mixin ∧
        m.workspace settings = options.workspace t settings := by
    intro m hm
    have hworkspace := workspace_of_mem_moments
      (freshEdits_asks options.root [] t [.file q .mixin, .file p .mixin]) hm
    rcases List.mem_cons.mp hm with rfl | hm
    · exact ⟨q, hq, rfl, hworkspace⟩
    · obtain rfl := List.mem_singleton.mp hm
      exact ⟨p, Workspace.self_mem_family _ p, rfl, hworkspace⟩
  refine ⟨hkeys.mono ?_, noBufferCollisions_of_files fun m hm => ?_⟩
  · rintro k ⟨m, hm, hk⟩
    obtain ⟨r, hr, hrequest, hworkspace⟩ := hmoments m hm
    obtain ⟨hkind, hpath, hfile⟩ := Moment.fileKeys_subset hrequest hk
    rw [hworkspace] at hpath hfile
    refine ⟨hkind, ?_, hfile⟩
    rcases hpath with hpath | hpath
    · exact hpath ▸ hr
    · exact Workspace.mem_family_of_reaches hr hpath
  · obtain ⟨r, -, hrequest, -⟩ := hmoments m hm
    exact ⟨r, .mixin, hrequest⟩

/-- After a request for one file of a family, the mark of a file that it reaches leads its own. -/
private theorem leads_ask {p q a : Path} {mark : Path → String} {keys : List Fingerprint}
    (hmarked : (options.workspace t settings).Marked p mark)
    (hcovers : (options.workspace t settings).CoversFamily p keys)
    (hkeys : Set.InjOn FileKey.fingerprint ((options.workspace t settings).familyKeys p))
    (hroom : keys.length ≤ options.fileCapacity)
    (hq : q ∈ (options.workspace t settings).family p)
    (ha : (options.workspace t settings).Reaches
      ((options.workspace t settings).source .mixin q) a) (hne : a ≠ q) :
    ∃ metadata : Metadata,
      (((Service.start options).after t settings [.file q .mixin]).ask t settings
        (.file p .mixin)).1 = .metadata metadata ∧
      Leads (mark a) (mark q) (metadata.names .props) ∧ mark q ∈ metadata.names .props := by
  have hm := mem_moments_after settings (.start options) t [.file q .mixin] (.file p .mixin)
  have hedits := freshEdits_asks options.root [] t ([.file q .mixin] ++ [.file p .mixin])
  have hworkspace := workspace_of_mem_moments hedits hm
  obtain ⟨record, hanswer, hrecord⟩ :=
    exists_record_of_mem_moments hedits (collisionFree_of_family hkeys hq).1 hm rfl
  rw [hworkspace] at hrecord
  refine ⟨record.metadata, hanswer, ?_, hrecord.mem_names_iff.mpr ⟨q, hq, ?_⟩⟩
  swap
  · exact (hmarked q hq q hq).mpr rfl
  obtain ⟨file, hfile⟩ := Option.isSome_iff_exists.mp ha.isFile_source
  have hleading := Workspace.leading_lookup hmarked hcovers hkeys hq hfile ha hne hroom
  have hp : (options.workspace t settings).tree.isFile p = true := by
    rcases hq with rfl | hq
    · exact ha.isFile_source
    · exact hq.isFile_source
  obtain ⟨found, hfound, -⟩ := Workspace.exists_lookup_eq_some hp [] .mixin
    ((options.workspace t settings).lookup [] q .mixin (.empty options.fileCapacity)).2
  have hmetadata : record.metadata = found.reading.record.metadata := by
    have hfiles : ((Service.start options).after t settings [.file q .mixin]).files =
        ((options.workspace t settings).lookup [] q .mixin (.empty options.fileCapacity)).2 :=
      Service.files_ask_file (.start options) t settings q .mixin
    have hasked := Service.ask_file_fst
      ((Service.start options).after t settings [.file q .mixin]) t settings p .mixin
    rw [hfiles] at hasked
    unfold Moment.workspace at hworkspace
    rw [hworkspace, hfound] at hasked
    exact Answer.metadata.inj (hanswer.symm.trans hasked)
  rw [hmetadata]
  exact Workspace.Leading.lookup hmarked hcovers hq hfile hleading hfound

/-- A script is answered in different ways after requests for two files that reach each other. -/
private theorem ask_after_ne {p q a : Path} {mark : Path → String} {keys : List Fingerprint}
    (hmarked : (options.workspace t settings).Marked p mark)
    (hcovers : (options.workspace t settings).CoversFamily p keys)
    (hkeys : Set.InjOn FileKey.fingerprint ((options.workspace t settings).familyKeys p))
    (hroom : keys.length ≤ options.fileCapacity)
    (ha : a ∈ (options.workspace t settings).family p)
    (hq : q ∈ (options.workspace t settings).family p) (hne : a ≠ q)
    (haq : (options.workspace t settings).Reaches
      ((options.workspace t settings).source .mixin a) q)
    (hqa : (options.workspace t settings).Reaches
      ((options.workspace t settings).source .mixin q) a) :
    (((Service.start options).after t settings [.file q .mixin]).ask t settings
        (.file p .mixin)).1 ≠
      (((Service.start options).after t settings [.file a .mixin]).ask t settings
        (.file p .mixin)).1 := by
  intro heq
  obtain ⟨metadata, hanswer, hleads, hmark⟩ :=
    leads_ask hmarked hcovers hkeys hroom hq hqa hne
  obtain ⟨metadata', hanswer', hleads', -⟩ :=
    leads_ask hmarked hcovers hkeys hroom ha haq hne.symm
  obtain rfl : metadata = metadata' :=
    Answer.metadata.inj (hanswer.symm.trans (heq.trans hanswer'))
  exact hleads.notMem hleads' hmark

/-- Capacities do not show in the workspace. -/
private theorem workspace_fileCapacity (options : ServiceOptions) (n : Nat) :
    ServiceOptions.workspace { options with fileCapacity := n } t settings =
      options.workspace t settings := by
  simp only [ServiceOptions.workspace, Service.workspace, Service.resolver, Service.start]

/-- **Order independence.** A request whose documents have no loops is answered in the same way
after any two histories. For a script in a family of files with a prop of their own each, this is
exact: with loops, and enough room in the cache, the answers differ. -/
theorem orderIndependent_iff_loopFree (options : ServiceOptions) (settings : Settings)
    (t : FileTree) :
    (∀ r, (∀ s ∈ (Moment.mk (.start options) t r).sources settings,
      (options.workspace t settings).LoopFree s) → OrderIndependent options settings t r) ∧
    ∀ (p : Path) (mark : Path → String), (options.workspace t settings).Marked p mark →
      Set.InjOn FileKey.fingerprint ((options.workspace t settings).familyKeys p) →
      ((∀ n, OrderIndependent { options with fileCapacity := n } settings t (.file p .mixin)) ↔
        (options.workspace t settings).LoopFree
          ((options.workspace t settings).source .mixin p)) := by
  refine ⟨fun r => orderIndependent_of_loopFree, fun p mark hmarked hkeys => ⟨fun h => ?_, ?_⟩⟩
  · -- if not, there is a cycle, and a cache with room for all files involved tells where it began
    intro c hc
    by_contra hrepeats
    obtain ⟨a, ha, q, hq, hne, haq, hqa⟩ := exists_cycle hmarked hc hrepeats
    obtain ⟨keys, hcovers⟩ := (options.workspace t settings).exists_coversFamily p
    rw [← workspace_fileCapacity options keys.length] at hmarked hkeys ha hq haq hqa hcovers
    refine ask_after_ne hmarked hcovers hkeys (Nat.le_refl _) ha hq hne haq hqa
      (h keys.length _ _ ?_ ?_)
    · exact collisionFree_of_family hkeys hq
    · exact collisionFree_of_family hkeys ha
  · intro hloop n
    rw [← workspace_fileCapacity options n] at hloop
    refine orderIndependent_of_loopFree fun s hs => ?_
    obtain rfl := List.mem_singleton.mp hs
    exact hloop

end

namespace Sample

/-- The props of the panels. -/
def mark (p : Path) : String := if p = left then "left" else "right"

private theorem closed_panels : ∀ q ∈ [left, right], (options.workspace tree .empty).mixinsOf
    ((options.workspace tree .empty).source .mixin q) ⊆ [left, right] := by
  obtain ⟨hleft, hright⟩ := mixinsOf_left (.inl rfl)
  simp [hleft, hright]

private theorem mem_panels {q : Path} (hq : q ∈ (options.workspace tree .empty).family left) :
    q = left ∨ q = right := by
  rcases hq with rfl | hq
  · exact .inl rfl
  · simpa using hq.mem_of_closed (closed_panels left (by simp)) closed_panels

/-- Each of the two panels is marked by a prop of its own. -/
private theorem marked_left : (options.workspace tree .empty).Marked left mark := by
  have hne : left ≠ right := by decide
  have hleft : ((options.workspace tree .empty).own
      ((options.workspace tree .empty).source .mixin left)).names .props = ["left"] := by
    decide +kernel
  have hright : ((options.workspace tree .empty).own
      ((options.workspace tree .empty).source .mixin right)).names .props = ["right"] := by
    decide +kernel
  intro q hq q' hq'
  rcases mem_panels hq with rfl | rfl <;> rcases mem_panels hq' with rfl | rfl
  · simp [mark, hleft]
  · simp [mark, hright, hne]
  · simp [mark, hleft, hne.symm]
  · simp [mark, hright, hne.symm]

private theorem injOn_left :
    Set.InjOn FileKey.fingerprint ((options.workspace tree .empty).familyKeys left) := by
  have hkeys : ∀ k ∈ tree.scriptKeys [left, right], ∀ k' ∈ tree.scriptKeys [left, right],
      k.fingerprint = k'.fingerprint → k = k' := eq_of_fingerprint_eq (by decide)
  exact fun k hk k' hk' heq => hkeys k (Workspace.mem_scriptKeys (by simp) closed_panels hk) k'
    (Workspace.mem_scriptKeys (by simp) closed_panels hk') heq

/-- The two panels reach each other. -/
private theorem reaches_panels :
    (options.workspace tree .empty).Reaches ((options.workspace tree .empty).source .mixin left)
        right ∧
      (options.workspace tree .empty).Reaches
        ((options.workspace tree .empty).source .mixin right) left := by
  obtain ⟨hleft, hright⟩ := mixinsOf_left (.inl rfl)
  exact ⟨.direct (by simp [hleft]), .direct (by simp [hright])⟩

end Sample

/-- A panel that is a mixin of another one and has it as a mixin is answered in different ways after
requests for the one and for the other. -/
theorem ask_left_after_right_ne :
    (((Service.start Sample.options).after Sample.tree .empty [.file Sample.right .mixin]).ask
        Sample.tree .empty (.file Sample.left .mixin)).1 ≠
      (((Service.start Sample.options).after Sample.tree .empty [.file Sample.left .mixin]).ask
        Sample.tree .empty (.file Sample.left .mixin)).1 := by
  have hcovers : (Sample.options.workspace Sample.tree .empty).CoversFamily Sample.left
      ((Sample.tree.scriptKeys [Sample.left, Sample.right]).map FileKey.fingerprint) := by
    intro q hq key hkey
    obtain ⟨f, hf, rfl⟩ := Option.map_eq_some_iff.mp hkey
    have hk : FileKey.mk f.modified q .mixin ∈
        (Sample.options.workspace Sample.tree .empty).familyKeys Sample.left :=
      ⟨rfl, hq, f, hf, rfl⟩
    have hmem : FileKey.mk f.modified q .mixin ∈
        Sample.tree.scriptKeys [Sample.left, Sample.right] :=
      Workspace.mem_scriptKeys (by simp) Sample.closed_panels hk
    rw [File.key_eq_fingerprint]
    exact List.mem_map.mpr ⟨_, hmem, rfl⟩
  exact ask_after_ne Sample.marked_left hcovers Sample.injOn_left (by decide +kernel)
    (.inl rfl) (.inr Sample.reaches_panels.1) (by decide +kernel) Sample.reaches_panels.1
    Sample.reaches_panels.2

/-- A list without loops and a panel with one. -/
theorem orderIndependent_list_not_left :
    OrderIndependent Sample.options .empty Sample.tree (.file Sample.list .mixin) ∧
      ¬ ∀ n, OrderIndependent { Sample.options with fileCapacity := n } .empty Sample.tree
        (.file Sample.left .mixin) := by
  obtain ⟨hfree, hexact⟩ := orderIndependent_iff_loopFree Sample.options .empty Sample.tree
  refine ⟨hfree _ fun s hs => ?_, fun h => ?_⟩
  · obtain rfl := List.mem_singleton.mp hs
    exact (Sample.acyclic_list (.inl rfl)).loopFree
  · have hloop := (hexact Sample.left Sample.mark Sample.marked_left Sample.injOn_left).mp h
    obtain ⟨hleft, hright⟩ := Sample.mixinsOf_left (.inl rfl)
    have hne : Sample.left.same Sample.right = false := by decide +kernel
    have hne' : Sample.right.same Sample.left = false := by decide +kernel
    have hchain := hloop [Sample.right, Sample.left]
      ⟨Workspace.mem_otherMixins.mpr ⟨by simp [hleft], hne⟩,
        Workspace.mem_otherMixins.mpr ⟨by simp [hright], hne'⟩, trivial⟩
    simp at hchain

end ComponentInsight

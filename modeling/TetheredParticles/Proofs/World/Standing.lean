import TetheredParticles.Proofs.World.Records
import TetheredParticles.Proofs.World.Stages
/-!
# What holds of every world

A snapshot may ask for anything, also for a cluster whose neighbors are none of its particles. A
step that lays out such a cluster does not end, and so every world that is left by a step that ends
is in order: its particles are weighed, and unless its topology is to be laid out anew, it is
linked.

* `World.shaped_of_rebuild` — clusters that have been laid out keep their neighbors among their
  particles.
* `World.Standing` — what holds of a world, whatever it was asked; every command and every step
  keeps it.
* `World.Standing.prepared` — a world that is about to move is linked.
* `World.standing_of_run` — what is left after anything that was asked of the empty world.
-/

namespace TetheredParticles

variable {S T : Type} [Scalar S] [Scalar T] [Timeline S T]

/-! ## Clusters that are laid out -/

omit [Scalar S] in
/-- The edges of a cluster can be told only if neighbors are among its particles. -/
theorem Cluster.neighbors_of_edges {c : Cluster S} {edges : List (Nat × Nat)}
    (h : c.edges = .ok edges) (a b : Nat) (hab : b ∈ c.adjacency.neighbors a) :
    a < c.particles.size ∧ b < c.particles.size := by
  have hentry : ∀ {i : Nat} {k : ParticleHandle}, Fault.entry c.particles i = .ok k →
      i < c.particles.size := by
    intro i k hk
    unfold Fault.entry at hk
    split at hk
    case isTrue hi => exact hi
    case isFalse => cases hk
  rcases exists_of_mapM_ok h (Graph.mem_edges.mpr hab) with ⟨edge, hedge⟩
  rcases exists_of_bind_ok hedge with ⟨first, hfirst, hedge⟩
  rcases exists_of_bind_ok hedge with ⟨second, hsecond, _⟩
  exact ⟨hentry hfirst, hentry hsecond⟩

theorem Cluster.adjacency_of_layTethers {c d : Cluster S} {config : Config S}
    {store : ParticleStore S} (h : c.layTethers config store = .ok d) :
    d.adjacency = c.adjacency := by
  unfold Cluster.layTethers at h
  split at h
  case isTrue =>
    cases h
    rfl
  case isFalse =>
    rcases exists_of_bind_ok h with ⟨layout, _, h⟩
    cases h
    rfl

namespace World

variable {w after : World S}

/-- Every cluster is among those that tethers have been laid for. -/
theorem exists_of_layTethers (h : w.layTethers = .ok after) {proxy : ProxyId} {c : Cluster S}
    (hc : w.clusters[proxy]? = some c) :
    ∃ d, after.clusters[proxy]? = some d ∧ c.layTethers w.config w.store = .ok d := by
  have hends : Ends w.layTethers (fun _ => True) fun after => ∀ x ∈ w.clusters.toList,
      ∃ d, after.clusters[x.1]? = some d ∧ x.2.layTethers w.config w.store = .ok d := by
    unfold layTethers
    rw [Std.TreeMap.foldlM_eq_foldlM_toList]
    -- every cluster that has been visited is laid out, whichever clusters follow
    refine Ends.bind (Ends.foldlM
      (I := fun done (clusters : Std.TreeMap ProxyId (Cluster S)) => ∀ x ∈ done,
        ∃ d : Cluster S, clusters[x.1]? = some d ∧ Cluster.layTethers x.2 w.config w.store = .ok d)
      (fun x hx => absurd hx List.not_mem_nil) ?_) fun clusters hclusters => .pure hclusters
    rintro done ⟨proxy, c⟩ rest clusters hsplit hdone
    dsimp only
    cases hlaid : c.layTethers w.config w.store with
    | error fault => trivial
    | ok laid =>
      refine Ends.pure fun x hx => ?_
      have hmem : ∀ y, y ∈ done ++ [(proxy, c)] → y ∈ w.clusters.toList := by
        intro y hy
        rw [hsplit, List.append_cons]
        exact List.mem_append_left rest hy
      rw [Maps.getElem?_insert]
      by_cases howner : x.1 = proxy
      · have hsame : x.2 = c := Maps.value_of_mem (hmem x hx) howner
          (Std.TreeMap.mem_toList_iff_getElem?_eq_some.mp (hmem (proxy, c) (by simp)))
        rw [if_pos howner, hsame]
        exact ⟨laid, rfl, hlaid⟩
      · rw [if_neg howner]
        rcases List.mem_append.mp hx with hx | hx
        · exact hdone x hx
        · rw [List.mem_singleton.mp hx] at howner
          exact absurd rfl howner
  exact hends.holds_of_eq h (proxy, c) (Std.TreeMap.mem_toList_iff_getElem?_eq_some.mpr hc)

omit [Scalar S] in
/-- Edges can be told only if they can be told for every cluster. -/
theorem exists_of_edges {edges : List (Nat × Nat)} (h : w.edges = .ok edges) {proxy : ProxyId}
    {c : Cluster S} (hc : w.clusters[proxy]? = some c) : ∃ own, c.edges = .ok own := by
  unfold World.edges at h
  rcases exists_of_bind_ok h with ⟨ofClusters, hclusters, _⟩
  rcases exists_of_mapM_ok hclusters (Std.TreeMap.mem_toList_iff_getElem?_eq_some.mpr hc) with
    ⟨_, hown⟩
  rcases exists_of_bind_ok hown with ⟨own, hown, _⟩
  exact ⟨own, hown⟩

/-- Only worlds whose clusters keep their neighbors among their particles can be laid out anew. -/
theorem shaped_of_rebuild (h : w.rebuild = .ok after) {proxy : ProxyId} {c : Cluster S}
    (hc : w.clusters[proxy]? = some c) (a b : Nat) (hab : b ∈ c.adjacency.neighbors a) :
    a < c.particles.size ∧ b < c.particles.size := by
  unfold rebuild at h
  rcases exists_of_bind_ok h with ⟨laid, hlaid, h⟩
  rcases exists_of_bind_ok h with ⟨partition, hpartition, _⟩
  rcases exists_of_layTethers hlaid hc with ⟨d, hd, hcd⟩
  -- the partition has asked for the edges of every cluster, and has not failed
  unfold computePartition at hpartition
  rcases exists_of_bind_ok hpartition with ⟨edges, hedges, _⟩
  rcases exists_of_edges hedges (c := d) hd with ⟨own, hown⟩
  rw [← particles_of_layTethers hcd]
  refine d.neighbors_of_edges hown a b ?_
  rw [Cluster.adjacency_of_layTethers hcd]
  exact hab

/-- Rebuilding brings no cluster. -/
theorem Rebuilt.clusters_eq_none (hr : w.Rebuilt after) {proxy : ProxyId}
    (h : w.clusters[proxy]? = none) : after.clusters[proxy]? = none := by
  refine Option.eq_none_iff_forall_ne_some.mpr fun d hd => ?_
  rcases (hr.clusters proxy d).mp hd with ⟨c, hc, _⟩
  rw [h] at hc
  cases hc

/-! ## Commands -/

/-- Every particle of a cluster has a rest position. -/
def Sized (w : World S) : Prop :=
  ∀ (owner : ProxyId) (c : Cluster S), w.clusters[owner]? = some c →
    c.restPositions.size = c.particles.size

/-- What holds of a world between two steps, whatever it was asked before. -/
structure Standing (w : World S) : Prop where
  tenancy : w.Tenancy
  weighed : w.store.Weighed
  sized : w.Sized
  inv : w.topologyDirty = false → w.Inv
  remembers : ∃ directions, w.Remembers directions

theorem Tenancy.weighed_turnover [LawfulZero S] (h : w.Tenancy) (hw : w.store.Weighed)
    {proxy : ProxyId} (ht : w.Turnover proxy after) : after.store.Weighed := by
  intro i hi
  -- a slot is kept, changed for its owner, taken, or vacated
  rcases h.slot ht i with hsame | ⟨howner, hrevised⟩ | ⟨_, p, generation, hnew⟩ | ⟨_, hgone⟩
  · unfold ParticleStore.isAlive at hi
    rw [hsame] at hi ⊢
    exact hw i hi
  · have hbefore := hw i (h.isAlive_of_owner howner)
    rcases hrevised.weight with ⟨hmass, hkinematic⟩ | ⟨m, hmass, hkinematic⟩
    · exact ⟨by rw [hmass, hkinematic, hbefore.kinematic], hmass ▸ hbefore.cases⟩
    · exact ⟨by rw [hmass, hkinematic], hmass ▸ Scalar.maxNum_zero m⟩
  · rw [hnew]
    exact ParticleSlot.weighed_occupied p proxy generation
  · unfold ParticleStore.isAlive at hi
    rw [hgone] at hi
    cases hi

omit [Scalar S] in
theorem Sized.entered (h : w.Sized) {proxy : ProxyId} (he : w.Entered proxy after) :
    after.Sized := by
  have hsame : ∀ {records : Records S}, after.records = records →
      records.clusters = w.clusters → after.Sized := by
    intro records hafter hclusters owner c hc
    have hkept : after.clusters = w.clusters := (congrArg Records.clusters hafter).trans hclusters
    rw [hkept] at hc
    exact h owner c hc
  cases he with
  | nothing same => exact hsame same rfl
  | joint j entered => exact hsame entered rfl
  | suspension s entered => exact hsame entered rfl
  | cluster new entered sized =>
    intro owner c hc
    replace entered : after.clusters = w.clusters.insert proxy new :=
      congrArg Records.clusters entered
    rw [entered, Maps.getElem?_insert] at hc
    split at hc
    case isFalse => exact h owner c hc
    case isTrue =>
      cases hc
      rcases sized with hsize | ⟨d, hd, hparticles, hrest⟩
      · exact hsize
      · rw [hparticles, hrest]
        exact h proxy d hd

omit [Scalar S] in
theorem Sized.expunged (h : w.Sized) {proxy : ProxyId} (he : w.Expunged proxy after) :
    after.Sized := by
  intro owner c hc
  rcases he.clusters with hsame | herased
  · rw [hsame] at hc
    exact h owner c hc
  · rw [herased, Maps.getElem?_erase] at hc
    split at hc
    case isTrue => cases hc
    case isFalse => exact h owner c hc

theorem Sized.applyCommand (h : w.Sized) (proxy : ProxyId) (command : Command S) :
    (w.applyCommand proxy command).2.Sized := by
  by_cases hcommand : command = .destroy
  · subst hcommand
    exact h.expunged (expunged_destroy w proxy)
  · exact h.entered (entered_applyCommand hcommand)

/-- Whatever is created, the topology has to be laid out anew afterwards. -/
theorem inv_applyCommand [LawfulZero S] (h : w.topologyDirty = false → w.Inv) (proxy : ProxyId)
    (command : Command S) (hclean : (w.applyCommand proxy command).2.topologyDirty = false) :
    (w.applyCommand proxy command).2.Inv := by
  -- a world that is clean afterwards was clean before
  have hinv := h (CleanFrom.applyCommand w proxy command hclean).1
  cases command with
  | create creation =>
    cases hw : w.create? proxy creation with
    | none =>
      unfold World.applyCommand World.accept
      dsimp only
      rw [hw]
      exact hinv
    | some after =>
      -- the world is dirty
      unfold World.applyCommand World.accept at hclean
      dsimp only at hclean
      rw [hw] at hclean
      unfold create? at hw
      split at hw
      case isTrue => cases hw
      case isFalse =>
        rcases Option.map_eq_some_iff.mp hw with ⟨parts, _, rfl⟩
        cases hclean
  | _ => exact hinv.applyCommand proxy trivial

namespace Standing

theorem empty (config : Config S) : (empty config).Standing where
  tenancy := .empty config
  weighed _ hi := by cases hi
  sized owner c hc := by
    rw [World.empty, Std.TreeMap.getElem?_emptyc] at hc
    cases hc
  inv _ := inv_empty config
  remembers := ⟨fun _ => 0, .empty config _⟩

theorem applyCommand [LawfulSign S] (h : w.Standing) (proxy : ProxyId) (command : Command S) :
    (w.applyCommand proxy command).2.Standing where
  tenancy := h.tenancy.applyCommand proxy command
  weighed := h.tenancy.weighed_turnover h.weighed (turnover_applyCommand w proxy command)
  sized := h.sized.applyCommand proxy command
  inv := inv_applyCommand h.inv proxy command
  remembers := by
    rcases h.remembers with ⟨directions, hdirections⟩
    exact ⟨directions, hdirections.of_memory (retained_applyCommand w proxy command).memory⟩

/-- Which proxies a step has touched is beside the point. -/
theorem mark (h : w.Standing) (touched : Std.TreeSet ProxyId) : Standing { w with touched } where
  tenancy := h.tenancy.mark touched
  weighed := h.weighed
  sized := h.sized
  inv hclean := (h.inv hclean).withNotes _ _ _
  remembers := by
    rcases h.remembers with ⟨directions, hdirections⟩
    exact ⟨directions, hdirections.of_memory rfl⟩

theorem updated [LawfulSign S] (h : w.Standing) (deltas : List (Delta S)) :
    (w.updated deltas).Standing :=
  applyDeltas_keeps (w := { w with touched := ∅ }) (h.mark ∅) (fun _ touched hv => hv.mark touched)
    fun _ d _ hv => hv.applyCommand d.proxy d.command

theorem setConfig (h : w.Standing) (config : Config S) : (w.setConfig config).Standing where
  tenancy := ⟨h.tenancy.counted, h.tenancy.occupied, h.tenancy.vacant,
    h.tenancy.unmixed.of_eq rfl rfl rfl, h.tenancy.clusters, h.tenancy.owned, h.tenancy.listed⟩
  weighed := h.weighed
  sized := h.sized
  inv hclean := by cases hclean
  remembers := by
    rcases h.remembers with ⟨directions, hdirections⟩
    exact ⟨directions, hdirections.of_memory rfl⟩

/-! ## Steps -/

/-- A world that could be laid out anew is sound. -/
theorem sound_of_rebuild (h : w.Standing) (hr : w.rebuild = .ok after) : w.Sound where
  weighed := h.weighed
  owned := h.tenancy.owned
  clusters owner c hc :=
    ⟨h.tenancy.clusters owner c hc, h.sized owner c hc, shaped_of_rebuild hr hc⟩

/-- Once the topology is up to date, the world is sound and linked. -/
theorem refreshed (h : w.Standing) (hr : w.refresh = .ok after) :
    (after = w ∨ w.Rebuilt after) ∧ after.Sound ∧ after.Linked ∧ after.topologyDirty = false := by
  unfold refresh at hr
  split at hr
  case isTrue =>
    rcases (rebuild_ends (h.sound_of_rebuild hr)).holds_of_eq hr with ⟨hrebuilt, hsound, hlinked⟩
    exact ⟨.inr hrebuilt, hsound, hlinked, hrebuilt.clean⟩
  case isFalse hclean =>
    cases hr
    replace hclean := Bool.eq_false_iff.mpr hclean
    have hinv := h.inv hclean
    exact ⟨.inl rfl, hinv.sound, hinv.linked hclean, hclean⟩

/-- A world that is about to move. -/
structure Poised (w before : World S) (deltas : List (Delta S)) : Prop where
  refreshed : before = w.updated deltas ∨ (w.updated deltas).Rebuilt before
  sound : before.Sound
  linked : before.Linked
  clean : before.topologyDirty = false
  tenancy : before.Tenancy
  remembers : ∃ directions, before.Remembers directions

theorem prepared [LawfulSign S] (h : w.Standing) {deltas : List (Delta S)} {dropped : Nat}
    {before : World S} (hprepare : w.prepare deltas = .ok (dropped, before)) :
    Poised w before deltas := by
  have hupdated := h.updated deltas
  rcases prepare_eq_ok.mp hprepare with ⟨_, hrefresh⟩
  rcases hupdated.refreshed hrefresh with ⟨hcases, hsound, hlinked, hclean⟩
  rcases h.remembers with ⟨directions, hdirections⟩
  refine ⟨hcases, hsound, hlinked, hclean, ?_, hdirections.prepared hcases⟩
  unfold refresh at hrefresh
  split at hrefresh
  case isTrue => exact hupdated.tenancy.relaid (relaid_of_rebuild hrefresh)
  case isFalse =>
    cases hrefresh
    exact hupdated.tenancy

/-- A step that ends has been prepared, and has gone the way of a linked world. -/
theorem step_eq [LawfulSign S] (h : w.Standing) {snapshot : PushSnapshot S T}
    {outcome : StepOutcome S T} (hs : w.step snapshot = .ok outcome) :
    ∃ before, w.prepare snapshot.deltas = .ok (w.droppedOf snapshot.deltas, before) ∧
      Poised w before snapshot.deltas ∧ outcome = {
        world := before.stepped snapshot
        pull := before.answer snapshot (w.droppedOf snapshot.deltas)
        info := before.info snapshot
        storeBefore := before.store
        storeAfter := (before.advanced snapshot.dt).store } := by
  rcases stages_of_step hs with ⟨before, after, hrefresh, _, _⟩
  have hprepare := prepare_eq_ok.mpr ⟨rfl, hrefresh⟩
  have hpoised := h.prepared hprepare
  have heq := World.step_eq hprepare hpoised.linked hpoised.sound.weighed
  rw [hs] at heq
  exact ⟨before, hprepare, hpoised, Except.ok.inj heq⟩

theorem step [LawfulSign S] (h : w.Standing) (hquiet : ∀ i, (w.store.slot i).Quiet)
    {snapshot : PushSnapshot S T} {outcome : StepOutcome S T}
    (hs : w.step snapshot = .ok outcome) : outcome.world.Standing := by
  rcases h.step_eq hs with ⟨before, _, hpoised, houtcome⟩
  -- the world that moves is linked, even if the one before the deltas was not
  have hinv := Inv.stepped hpoised.sound hpoised.linked snapshot
  have hrested := (Rested.step ⟨h.tenancy, hquiet⟩ hs).1
  rcases h.remembers with ⟨directions, hdirections⟩
  have hremembers := hdirections.stepped (q := snapshot) hpoised.refreshed hpoised.linked
    hpoised.sound.weighed
  subst houtcome
  exact ⟨hrested.tenancy, hinv.sound.weighed,
    fun owner c hc => (hinv.sound.clusters owner c hc).2.rest, fun _ => hinv, hremembers⟩

end Standing

/-- Whatever a world was asked, it stands. -/
theorem Standing.run [LawfulSign S] (h : w.Standing) (hquiet : ∀ i, (w.store.slot i).Quiet)
    {actions : List (Action S T)} (hrun : w.run actions = .ok after) : after.Standing := by
  induction actions generalizing w with
  | nil =>
    cases hrun
    exact h
  | cons action rest ih =>
    cases action with
    | step snapshot =>
      unfold World.run at hrun
      rcases exists_of_bind_ok hrun with ⟨outcome, houtcome, hrun⟩
      exact ih (h.step hquiet houtcome) (Rested.step ⟨h.tenancy, hquiet⟩ houtcome).1.quiet hrun
    | configure config => exact ih (h.setConfig config) hquiet hrun
    | confirm => exact ih (h.setConfig w.config) hquiet hrun

theorem standing_of_run [LawfulSign S] {config : Config S} {actions : List (Action S T)}
    {w : World S} (hrun : (World.empty config).run actions = .ok w) : w.Standing :=
  (Standing.empty config).run (fun _ => ⟨rfl, rfl, rfl⟩) hrun

end World

end TetheredParticles

import TetheredParticles.Proofs.Scalar.Single
import TetheredParticles.Proofs.World.Bounds
import TetheredParticles.Proofs.World.Matched
import TetheredParticles.Proofs.World.Settled
/-!
# Confirming the configuration

To replace the configuration by the one in force makes the next step rebuild everything. A world that
is confirmed now and then holds the same particles and constraints as one that is not, and its
workspaces have at most forgotten directions in which nothing pulls. Both give the same answers:
what writes have patched in the workspaces, a rebuild would have put there, and nothing of one step
shows in the next.

* `World.Renewed` — a world, and the same world confirmed now and then.
* `World.Renewed.refresh`, `World.Renewed.moved`, `World.Renewed.step` — the stages of a step.
* `World.replies_confirmed` — whole runs.
-/

namespace TetheredParticles

variable {S T : Type} [Scalar S] [Scalar T] [Timeline S T]

/-! ## Runs -/

/-- What may be asked of a world. -/
inductive World.Action (S T : Type) where
  | step (snapshot : PushSnapshot S T)
  | configure (config : Config S)
  /-- The configuration in force once more. -/
  | confirm

/-- Whether the configuration in force is asked for. -/
def World.Action.isConfirm : World.Action S T → Bool
  | .confirm => true
  | _ => false

/-- The answers of a world to what it is asked in order. -/
def World.replies (w : World S) : List (World.Action S T) → Except Fault (List (PullSnapshot S T))
  | [] => .ok []
  | .step snapshot :: rest => do
    let outcome ← w.step snapshot
    let others ← outcome.world.replies rest
    return outcome.pull :: others
  | .configure config :: rest => (w.setConfig config).replies rest
  | .confirm :: rest => (w.setConfig w.config).replies rest

/-- The same answer: the same numbers, times and counts, the same positions and velocities bit by
bit, and forces that are the same numbers. -/
structure PullSnapshot.Agrees (p q : PullSnapshot S T) : Prop where
  timestamp : q.timestamp = p.timestamp
  startTime : q.startTime = p.startTime
  endTime : q.endTime = p.endTime
  results : List.Forall₂ (ProxyResult.Rel Vec3.Same) p.results q.results
  counts : q.counts = p.counts

namespace World

/-! ## Equal maps -/

namespace Matched

variable {F : Vec3 S → Vec3 S → Prop} {marked : Bool} {w v : World S}

omit [Scalar S] in
theorem toList_clusters (h : w.Matched Eq F marked v) : v.clusters.toList = w.clusters.toList :=
  Maps.toList_eq_of_lookups fun proxy => (rel_eq_iff.mp (h.clusters proxy)).symm

/-- The islands follow from the particles and the constraints. -/
theorem computePartition_eq (h : w.Matched Eq F marked v) (hconfig : v.config = w.config) :
    v.computePartition = w.computePartition := by
  unfold computePartition edges
  rw [h.toList_clusters, h.toList_joints, h.store, hconfig]

/-- The workspaces follow from the particles, the constraints and the islands. -/
theorem workspacesOf_eq (h : w.Matched Eq F marked v) (hconfig : v.config = w.config)
    (partition : Partition) : v.workspacesOf partition = w.workspacesOf partition := by
  unfold workspacesOf workspaceOf tethersOf jointsOf suspensionsOf
  rw [h.toList_clusters, h.toList_joints, h.toList_suspensions, h.store, hconfig]

/-- A settled world matches the same world rebuilt. -/
theorem rebuilt_of_settled {b : World S} (h : w.Matched Eq F marked v)
    (hconfig : v.config = w.config) (hw : w.Linked) (hs : w.Settled)
    (hclean : w.topologyDirty = false) (hb : v.Rebuilt b) : w.Matched Eq F false b where
  store := hb.store.trans h.store
  members := hb.members.trans h.members
  clusters := by
    intro proxy
    rw [rel_eq_iff]
    refine Option.ext fun d => ?_
    rw [hb.clusters, hconfig, h.store, ← rel_eq_iff.mp (h.clusters proxy)]
    constructor
    · intro hd
      exact ⟨d, hd, hs.tethers proxy d hd⟩
    · rintro ⟨c, hc, hcd⟩
      rw [hs.tethers proxy c hc] at hcd
      cases hcd
      exact hc
  joints := by
    intro proxy
    rw [hb.joints, joints_dropDangling_eq, h.joints]
    rw [h.joints, h.store]
    exact hw.joints proxy
  suspensions := by
    intro proxy
    rw [hb.suspensions, suspensions_dropDangling_eq, h.suspensions]
    rw [h.suspensions, h.store]
    exact hw.suspensions proxy
  forces := by
    rw [hb.notes.1]
    exact h.forces
  touched := hb.notes.2.1.trans h.touched
  dirty := by rw [hb.clean, hclean, Bool.or_false]

end Matched

/-! ## Renewed worlds -/

/-- The second world is the first one, confirmed now and then. -/
structure Renewed (w v : World S) : Prop where
  inv : w.Inv ∧ v.Inv
  small : w.Small ∧ v.Small
  settled : w.topologyDirty = false → w.Settled
  config : v.config = w.config
  partition : v.partition = w.partition
  memory : List.Forall₂ Memory.Faded w.memory v.memory
  matched : ∃ marked, w.Matched Eq Vec3.Same marked v

theorem renewed_empty (config : Config S) : (empty config).Renewed (empty config) := by
  refine ⟨⟨inv_empty config, inv_empty config⟩, ⟨small_empty config, small_empty config⟩,
    fun _ => .empty config, rfl, rfl, .nil, false, rfl, rfl, ?_, fun _ => rfl, fun _ => rfl, ?_,
    rfl, rfl⟩
  · exact fun proxy => rel_eq_iff.mpr rfl
  · intro proxy
    unfold empty
    rw [Std.TreeMap.getElem?_emptyc]
    exact .none

namespace Renewed

variable {w v : World S}

/-- Another configuration for both worlds. -/
theorem configure (h : w.Renewed v) (config : Config S) :
    (w.setConfig config).Renewed (v.setConfig config) := by
  rcases h.matched with ⟨marked, hm⟩
  refine ⟨⟨h.inv.1.setConfig config, h.inv.2.setConfig config⟩,
    ⟨⟨h.small.1.slots, h.small.1.clusters⟩, ⟨h.small.2.slots, h.small.2.clusters⟩⟩,
    fun hclean => ?_, rfl, h.partition, h.memory, false, ?_⟩
  · cases hclean
  · exact ⟨hm.store, hm.members, hm.clusters, hm.joints, hm.suspensions, hm.forces, hm.touched, rfl⟩

/-- Only the second world is confirmed. -/
theorem confirm (h : w.Renewed v) : w.Renewed (v.setConfig v.config) := by
  rcases h.matched with ⟨marked, hm⟩
  refine ⟨⟨h.inv.1, h.inv.2.setConfig v.config⟩,
    ⟨h.small.1, ⟨h.small.2.slots, h.small.2.clusters⟩⟩, h.settled, h.config, h.partition, h.memory,
    true, ?_⟩
  exact ⟨hm.store, hm.members, hm.clusters, hm.joints, hm.suspensions, hm.forces, hm.touched,
    (Bool.or_true _).symm⟩

omit [Scalar T] [Timeline S T] in
/-- Writes are granted by both worlds or by none. -/
theorem updated [LawfulZero S] (h : w.Renewed v) {snapshot : PushSnapshot S T}
    (hs : snapshot.Admissible) :
    v.droppedOf snapshot.deltas = w.droppedOf snapshot.deltas ∧
      (w.updated snapshot.deltas).Renewed (v.updated snapshot.deltas) := by
  rcases h.matched with ⟨marked, hm⟩
  rcases hm.updated .eq snapshot.deltas with ⟨hdropped, hmatched⟩
  have hone := retained_updated w snapshot.deltas
  have htwo := retained_updated v snapshot.deltas
  have hinv := h.inv.1.updated hs.inRange
  refine ⟨hdropped, ⟨hinv, h.inv.2.updated hs.inRange⟩, ⟨?_, ?_⟩, ?_, ?_, ?_, ?_, marked, hmatched⟩
  · exact h.small.1.updated fun d hd => (hs d hd).2
  · exact h.small.2.updated fun d hd => (hs d hd).2
  · intro hclean
    rcases CleanFrom.updated w snapshot.deltas hclean with ⟨hbefore, hadjusted⟩
    exact (h.settled hbefore).adjusted hadjusted h.inv.1.sound.weighed hinv.sound.weighed
  · rw [hone.config, htwo.config, h.config]
  · rw [hone.partition, htwo.partition, h.partition]
  · rw [hone.memory, htwo.memory]
    exact h.memory

/-! ## The topology stage -/

/-- Workspaces that have not been solved remember no direction. -/
theorem faded_blank {u b : World S} (haim : ∀ m ∈ u.memory, Memory.Aimed m)
    (hb : b.workspaces = u.workspaces.map Workspace.blank) :
    List.Forall₂ Memory.Faded u.memory b.memory := by
  unfold World.memory at haim ⊢
  rw [hb, Array.toList_map, List.map_map, List.forall₂_map_left_iff, List.forall₂_map_right_iff]
  exact List.forall₂_same.mpr fun ws hws =>
    Memory.faded_blank (haim ws.memory (List.mem_map.mpr ⟨ws, hws, rfl⟩))

/-- A rebuilt world has the workspaces that follow from its islands. -/
theorem workspaces_of_rebuilt {u b : World S} (hb : u.Rebuilt b) (hl : b.Linked) :
    b.workspaces = b.workspacesOf b.partition := by
  rw [← hl.workspaces, hb.blank]

/-- After the topology stage the second world is still the first one, confirmed now and then. -/
theorem refresh (h : w.Renewed v) :
    ∃ a b, w.refresh = .ok a ∧ v.refresh = .ok b ∧ a.Renewed b ∧ a.Linked ∧ b.Linked := by
  rcases h.matched with ⟨marked, hm⟩
  unfold World.refresh
  cases hv : v.topologyDirty with
  | false =>
    have hw : w.topologyDirty = false := (Bool.or_eq_false_iff.mp (hm.dirty ▸ hv)).1
    rw [hw]
    exact ⟨w, v, rfl, rfl, h, h.inv.1.linked hw, h.inv.2.linked hv⟩
  | true =>
    rcases (rebuild_ends h.inv.2.sound).exists_ok fun f hf => h.small.2.not_oversized hf.2
      with ⟨b, hb, hrb, hsb, hlb⟩
    have hsmall := h.small.2.rebuilt h.inv.2.sound hrb
    cases hw : w.topologyDirty with
    | false =>
      -- the first world stays as it is, and is what the second one becomes
      have hlw := h.inv.1.linked hw
      have hmatched := hm.rebuilt_of_settled h.config hlw (h.settled hw) hw hrb
      have hconfig : b.config = w.config := hrb.config.trans h.config
      have hpartition : b.partition = w.partition := by
        have hcompute := hrb.partition
        rw [hmatched.computePartition_eq hconfig, (h.settled hw).partition] at hcompute
        exact (Except.ok.inj hcompute).symm
      refine ⟨w, b, rfl, hb, ⟨⟨h.inv.1, hsb, fun _ => hlb⟩, ⟨h.small.1, hsmall⟩, h.settled, hconfig,
        hpartition, ?_, false, hmatched⟩, hlw, hlb⟩
      refine faded_blank ?_ ?_
      · intro m hmem
        obtain ⟨n, _, hmn⟩ := exists_of_forall₂ h.memory hmem
        exact hmn.aimed
      · rw [workspaces_of_rebuilt hrb hlb, hpartition, hmatched.workspacesOf_eq hconfig,
          hlw.workspaces]
    | true =>
      rcases (rebuild_ends h.inv.1.sound).exists_ok fun f hf => h.small.1.not_oversized hf.2
        with ⟨a, ha, hra, hsa, hla⟩
      have hmatched : a.Matched Eq Vec3.Same false b := by
        refine hm.rebuilt hra hrb ?_
        intro proxy c d c' d' _ _ hcd hc hd
        rw [← hcd, h.config, hm.store, hc] at hd
        exact Except.ok.inj hd
      have hconfig : b.config = a.config := by rw [hrb.config, hra.config, h.config]
      have hpartition : b.partition = a.partition := by
        have hcompute := hrb.partition
        rw [hmatched.computePartition_eq hconfig, hra.partition] at hcompute
        exact (Except.ok.inj hcompute).symm
      refine ⟨a, b, ha, hb, ⟨⟨⟨hsa, fun _ => hla⟩, hsb, fun _ => hlb⟩,
        ⟨h.small.1.rebuilt h.inv.1.sound hra, hsmall⟩, fun _ => .rebuilt hra, hconfig, hpartition,
        ?_, false, hmatched⟩, hla, hlb⟩
      refine faded_blank ?_ ?_
      · intro m hmem
        unfold World.memory at hmem
        rw [← hra.blank, Array.toList_map, List.map_map] at hmem
        obtain ⟨ws, _, rfl⟩ := List.mem_map.mp hmem
        exact fun x hx => .inl (Memory.eq_zero_of_blank hx)
      · rw [hra.blank, workspaces_of_rebuilt hrb hlb, hpartition,
          hmatched.workspacesOf_eq hconfig, ← workspaces_of_rebuilt hra hla]

/-! ## Moving -/

/-- The islands of both worlds are solved alike. -/
theorem movedIslands (h : w.Renewed v) (hw : w.Linked) (hv : v.Linked) (dt : S) :
    List.Forall₂ (fun a b : Workspace S => a.Fades b ∧ b.solved = a.solved)
      (w.movedIslands dt).toList (v.movedIslands dt).toList := by
  rcases h.matched with ⟨marked, hm⟩
  have hblank : w.workspaces.map Workspace.blank = v.workspaces.map Workspace.blank := by
    rw [hw.workspaces, hv.workspaces, h.partition, hm.workspacesOf_eq h.config]
  have hsame := congrArg Array.toList hblank
  have hmemory := h.memory
  unfold World.memory at hmemory
  rw [Array.toList_map, Array.toList_map, ← List.forall₂_eq_eq_eq, List.forall₂_map_left_iff,
    List.forall₂_map_right_iff] at hsame
  rw [List.forall₂_map_left_iff, List.forall₂_map_right_iff] at hmemory
  unfold World.movedIslands
  rw [Array.toList_map, Array.toList_map, List.forall₂_map_left_iff, List.forall₂_map_right_iff,
    hm.store, h.config]
  exact hsame.mp (fun a b hab hfaded =>
    Workspace.Fades.island (.of_memory hab.symm hfaded _) dt) hmemory

/-- The particles of two islands that were solved alike are put at the same places. -/
theorem scatter_eq {a b : Workspace S} (h : a.Fades b) (hsolved : b.solved = a.solved) (dt : S)
    (store : ParticleStore S) : scatter dt store b = scatter dt store a := by
  unfold scatter
  rw [h.particles, h.positions, hsolved]

/-- Both worlds move alike. -/
theorem moved [LawfulDirections S] (h : w.Renewed v) (hw : w.Linked) (hv : v.Linked) (dt : S) :
    (w.moved dt).Renewed (v.moved dt) := by
  rcases h.matched with ⟨marked, hm⟩
  have hislands := h.movedIslands hw hv dt
  have hsteady := (steady_moved w dt)
  have hadjusted : w.Adjusted (w.moved dt) := by
    have hstore := Adjusted.withStore w hsteady.alike
    exact ⟨rfl, rfl, hsteady.alike, hstore.clusters, hstore.joints⟩
  have hweighed := h.inv.1.sound.weighed
  refine ⟨⟨⟨h.inv.1.sound.moved dt, fun _ => hw.moved hweighed dt⟩,
    ⟨h.inv.2.sound.moved dt, fun _ => hv.moved h.inv.2.sound.weighed dt⟩⟩, ⟨?_, ?_⟩,
    fun hclean => (h.settled hclean).adjusted hadjusted hweighed (hsteady.weighed hweighed),
    h.config, h.partition, ?_, marked, ?_⟩
  · refine h.small.1.of_le ?_ fun _ d hd => ⟨d, hd, rfl⟩
    intro i hi
    rwa [hsteady.alike.isAlive] at hi
  · refine h.small.2.of_le ?_ fun _ d hd => ⟨d, hd, rfl⟩
    intro i hi
    rwa [(steady_moved v dt).alike.isAlive] at hi
  · unfold World.memory
    rw [List.forall₂_map_left_iff, List.forall₂_map_right_iff]
    exact hislands.imp fun a b hab => hab.1.memory
  · refine ⟨?_, hm.members, hm.clusters, hm.joints, hm.suspensions, ?_, hm.touched, hm.dirty⟩
    · unfold World.moved
      dsimp only
      rw [← Array.foldl_toList, ← Array.foldl_toList, hm.store, h.config]
      refine (List.rel_foldl (P := Eq) ?_ rfl hislands).symm
      rintro store _ rfl a b hab
      exact (scatter_eq hab.1 hab.2 dt store).symm
    -- forces of solved islands may differ in the signs of their zeros
    · have hentry : ∀ a b : Std.TreeMap ProxyId (Vec3 S),
          (∀ proxy : ProxyId, Option.Rel Vec3.Same a[proxy]? b[proxy]?) →
          ∀ x y : ProxyId × Vec3 S, y.1 = x.1 ∧ x.2.Same y.2 →
          ∀ proxy : ProxyId, Option.Rel Vec3.Same (a.insert x.1 x.2)[proxy]?
            (b.insert y.1 y.2)[proxy]? := by
        intro a b hab x y hxy
        rw [hxy.1]
        exact rel_insert hab hxy.2 x.1
      unfold World.moved
      dsimp only
      rw [← Array.foldl_toList, ← Array.foldl_toList]
      refine List.rel_foldl (P := fun a b : Std.TreeMap ProxyId (Vec3 S) =>
        ∀ proxy : ProxyId, Option.Rel Vec3.Same a[proxy]? b[proxy]?) ?_ hm.forces hislands
      intro a b hab one two hislands
      exact List.rel_foldl (fun a b hab x y hxy => hentry a b hab x y hxy) hab
        (hislands.1.forces dt)

/-! ## Whole steps -/

/-- The moving part of a step, if it has one. -/
theorem advanced [LawfulDirections S] (h : w.Renewed v) (hw : w.Linked) (hv : v.Linked) (dt : S) :
    (w.advanced dt).Renewed (v.advanced dt) ∧ (w.advanced dt).Linked ∧ (v.advanced dt).Linked := by
  unfold World.advanced
  split
  · exact ⟨h.moved hw hv dt, hw.moved h.inv.1.sound.weighed dt, hv.moved h.inv.2.sound.weighed dt⟩
  · exact ⟨h, hw, hv⟩

/-- Both worlds clear what was meant for the step. -/
theorem cleared (h : w.Renewed v) (latest : Timestamp) :
    Renewed { w with store := w.store.clearStepData, latest }
      { v with store := v.store.clearStepData, latest } := by
  rcases h.matched with ⟨marked, hm⟩
  have hone := ParticleStore.Steady.clearStepData w.store
  have htwo := ParticleStore.Steady.clearStepData v.store
  have hweighed := h.inv.1.sound.weighed
  have hinv := (h.inv.1.withStore hone.alike (hone.weighed hweighed)).withNotes w.forces w.touched
    latest
  refine ⟨⟨hinv, (h.inv.2.withStore htwo.alike (htwo.weighed h.inv.2.sound.weighed)).withNotes
    v.forces v.touched latest⟩, ⟨?_, ?_⟩, ?_, h.config, h.partition, h.memory, marked, ?_⟩
  · refine h.small.1.of_le ?_ fun _ d hd => ⟨d, hd, rfl⟩
    intro i hi
    rwa [hone.alike.isAlive] at hi
  · refine h.small.2.of_le ?_ fun _ d hd => ⟨d, hd, rfl⟩
    intro i hi
    rwa [htwo.alike.isAlive] at hi
  · intro hclean
    have hadjusted := Adjusted.withStore w hone.alike
    exact (h.settled hclean).adjusted ⟨rfl, rfl, hone.alike, hadjusted.clusters, hadjusted.joints⟩
      hweighed (hone.weighed hweighed)
  · exact ⟨congrArg ParticleStore.clearStepData hm.store, hm.members, hm.clusters, hm.joints,
      hm.suspensions, hm.forces, hm.touched, hm.dirty⟩

/-- As many tethers as there were before the islands were solved. -/
theorem tetherCount_blank (w : World S) :
    w.tetherCount = (((w.workspaces.map Workspace.blank).toList.map (·.tetherCount)).foldr (· + ·) 0) := by
  unfold World.tetherCount
  rw [Array.toList_map, List.map_map]
  congr 1
  refine List.map_congr_left fun ws _ => ?_
  unfold Workspace.tetherCount Workspace.blank
  simp only [Function.comp_apply, List.map_map]
  congr 1
  exact List.map_congr_left fun x _ => (congrArg TetherBatches.size x.2.batches_restart).symm

/-- Both worlds give the same answer. -/
theorem answer [LawfulDirections S] (h : w.Renewed v) (hw : w.Linked) (hv : v.Linked)
    (snapshot : PushSnapshot S T) (dropped : Nat) :
    (w.answer snapshot dropped).Agrees (v.answer snapshot dropped) := by
  rcases h.advanced hw hv snapshot.dt with ⟨hafter, hone, htwo⟩
  rcases hafter.matched with ⟨marked, hm⟩
  have hblank : (v.advanced snapshot.dt).workspaces.map Workspace.blank =
      (w.advanced snapshot.dt).workspaces.map Workspace.blank := by
    rw [hone.workspaces, htwo.workspaces, hafter.partition, hm.workspacesOf_eq hafter.config]
  have hsize := congrArg Array.size hblank
  rw [Array.size_map, Array.size_map] at hsize
  refine ⟨rfl, rfl, rfl, hm.results (.refl 0) _, ?_⟩
  unfold World.answer
  rw [hsize, tetherCount_blank, hblank, ← tetherCount_blank]

/-- Both worlds run the same step. -/
theorem step [LawfulZero S] [LawfulDirections S] (h : w.Renewed v) {snapshot : PushSnapshot S T}
    (hs : snapshot.Admissible) :
    ∃ one two, w.step snapshot = .ok one ∧ v.step snapshot = .ok two ∧
      one.pull.Agrees two.pull ∧ one.world.Renewed two.world := by
  rcases h.updated hs with ⟨hdropped, hupdated⟩
  rcases hupdated.refresh with ⟨a, b, ha, hb, hab, hla, hlb⟩
  have hone : w.prepare snapshot.deltas = .ok (w.droppedOf snapshot.deltas, a) := by
    show ((w.updated snapshot.deltas).refresh >>= fun before =>
      .ok (w.droppedOf snapshot.deltas, before)) = _
    rw [ha, ok_bind]
  have htwo : v.prepare snapshot.deltas = .ok (w.droppedOf snapshot.deltas, b) := by
    rw [← hdropped]
    show ((v.updated snapshot.deltas).refresh >>= fun before =>
      .ok (v.droppedOf snapshot.deltas, before)) = _
    rw [hb, ok_bind]
  refine ⟨_, _, step_eq hone hla hab.inv.1.sound.weighed, step_eq htwo hlb hab.inv.2.sound.weighed,
    hab.answer hla hlb snapshot _, ?_⟩
  exact (hab.advanced hla hlb snapshot.dt).1.cleared snapshot.timestamp

/-- Both worlds give the same answers, whatever is asked; only one of them is confirmed. -/
theorem replies [LawfulZero S] [LawfulDirections S] (h : w.Renewed v)
    {actions : List (Action S T)} (ha : ∀ s, .step s ∈ actions → s.Admissible) :
    ∃ ps qs, w.replies (actions.filter (!·.isConfirm)) = .ok ps ∧ v.replies actions = .ok qs ∧
      List.Forall₂ PullSnapshot.Agrees ps qs := by
  induction actions generalizing w v with
  | nil => exact ⟨[], [], rfl, rfl, .nil⟩
  | cons action rest ih =>
    have hrest : ∀ s, .step s ∈ rest → s.Admissible :=
      fun s hs => ha s (List.mem_cons_of_mem action hs)
    cases action with
    | step snapshot =>
      rcases h.step (ha snapshot List.mem_cons_self) with ⟨one, two, hone, htwo, hpull, hworld⟩
      rcases ih hworld hrest with ⟨ps, qs, hps, hqs, hall⟩
      refine ⟨one.pull :: ps, two.pull :: qs, ?_, ?_, .cons hpull hall⟩
      · show w.replies (.step snapshot :: rest.filter (!·.isConfirm)) = _
        unfold World.replies
        rw [hone, ok_bind, hps]
        rfl
      · unfold World.replies
        rw [htwo, ok_bind, hqs]
        rfl
    | configure config => exact ih (h.configure config) hrest
    | confirm => exact ih h.confirm hrest

end Renewed

/-- Whatever a world is asked, to confirm the configuration in force in between does not change the
answers: neither positions nor velocities nor counts, and forces are the same numbers. -/
theorem replies_confirmed [LawfulZero S] [LawfulDirections S] (config : Config S)
    (actions : List (Action S T)) (ha : ∀ s, .step s ∈ actions → s.Admissible) :
    ∃ ps qs, (empty config).replies (actions.filter (!·.isConfirm)) = .ok ps ∧
      (empty config).replies actions = .ok qs ∧ List.Forall₂ PullSnapshot.Agrees ps qs :=
  (renewed_empty config).replies ha

/-- A particle that is held by a joint. -/
def hinge : PushSnapshot Float32 Float where
  timestamp := ⟨1⟩
  startTime := 0
  dt := 1
  step := 0
  stepCount := 1
  deltas :=
    [⟨⟨0, 0⟩, .create (.particle ⟨0, 0⟩ (.kinematic 0))⟩,
      ⟨⟨1, 0⟩, .create (.particle ⟨1, 0⟩ (.dynamic ⟨-1, 0, 0⟩ 1))⟩,
      ⟨⟨2, 0⟩, .create (.joint ⟨0, 0⟩ ⟨0, 0⟩ ⟨1, 0⟩ 2 0)⟩]

/-- The particle is put where it hangs from, so that the joint has no direction to pull in. -/
def folded : PushSnapshot Float32 Float where
  timestamp := ⟨2⟩
  startTime := 1
  dt := 1
  step := 0
  stepCount := 1
  deltas := [⟨⟨1, 0⟩, .setPosition ⟨1, 0⟩ 0⟩, ⟨⟨2, 0⟩, .setJointRestLength ⟨0, 0⟩ 1⟩]

/-- Without gravity the joint keeps the direction of the step before, unless the configuration is
confirmed. -/
theorem hinge_confirmed :
    ∃ ps qs, (empty { Config.standard with gravity := 0 }).replies [.step hinge, .step folded] =
        .ok ps ∧
      (empty { Config.standard with gravity := 0 }).replies [.step hinge, .confirm, .step folded] =
        .ok qs ∧ List.Forall₂ PullSnapshot.Agrees ps qs := by
  refine replies_confirmed _ [.step hinge, .confirm, .step folded] ?_
  intro s hs
  simp only [List.mem_cons, List.not_mem_nil, or_false, Action.step.injEq, reduceCtorEq,
    false_or] at hs
  rcases hs with rfl | rfl
  · intro d hd
    simp only [hinge, List.mem_cons, List.not_mem_nil, or_false] at hd
    rcases hd with rfl | rfl | rfl
    · exact ⟨trivial, (by decide : (0 : Nat) < 2 ^ 32)⟩
    · exact ⟨trivial, (by decide : (1 : Nat) < 2 ^ 32)⟩
    · exact ⟨trivial, trivial⟩
  · intro d hd
    simp only [folded, List.mem_cons, List.not_mem_nil, or_false] at hd
    rcases hd with rfl | rfl
    · exact ⟨trivial, trivial⟩
    · exact ⟨trivial, trivial⟩

end World

end TetheredParticles

import TetheredParticles.Proofs.World.Independence
import TetheredParticles.Proofs.World.Tidy
/-!
# The number of islands does not show

Along geodesics the tethers of a cluster do not depend on the islands. Two worlds that allow
different numbers of islands therefore stay the same except for their grouping: when the topology is
rebuilt, when the world moves, and step after step. Their answers differ at most in the number of
islands they report.

* `World.answers` — a run.
* `World.Twins` — two worlds in order that are grouped differently.
* `World.Twins.refresh`, `World.Twins.step` — the stages of a step.
* `World.answers_regrouped` — whole runs.
-/

namespace TetheredParticles

variable {S T : Type} [Scalar S] [Scalar T] [Timeline S T]

/-! ## Runs -/

/-- What is asked of a snapshot: neighbors are in range, slots and lengths fit their words, and the
particles of a new cluster have different slots. -/
structure PushSnapshot.Fair (snapshot : PushSnapshot S T) : Prop where
  admissible : snapshot.Admissible
  apart : snapshot.Apart

/-- Answers that differ at most in how many islands they report. -/
def PullSnapshot.SameButIslands (p q : PullSnapshot S T) : Prop :=
  q = { p with counts := { p.counts with islands := q.counts.islands } }

namespace World

/-- The answers of a world to snapshots that are stepped in order. -/
def answers (w : World S) : List (PushSnapshot S T) → Except Fault (List (PullSnapshot S T))
  | [] => .ok []
  | snapshot :: rest => do
    let outcome ← w.step snapshot
    let others ← outcome.world.answers rest
    return outcome.pull :: others

/-! ## Worlds in order -/

/-- A tidy world whose tethers run along geodesics and each to a tip of its own. -/
structure Orderly (w : World S) (directions : Directions S) : Prop where
  tidy : w.Tidy directions
  distinct : w.Distinct
  geodesic : w.config.tether.mode = .geodesic

namespace Orderly

variable {w after : World S} {directions : Directions S}

omit [Scalar T] [Timeline S T] in
theorem updated [LawfulZero S] (h : w.Orderly directions) {snapshot : PushSnapshot S T}
    (hs : snapshot.Fair) : (w.updated snapshot.deltas).Orderly directions where
  tidy := h.tidy.updated hs.admissible
  distinct := h.distinct.updated hs.apart
  geodesic := by
    rw [(retained_updated w snapshot.deltas).config]
    exact h.geodesic

theorem rebuilt (h : w.Orderly directions) (hr : w.Rebuilt after) (hsound : after.Sound)
    (hlinked : after.Linked) : after.Orderly fun _ => 0 where
  tidy := h.tidy.rebuilt hr hsound hlinked
  distinct := h.distinct.rebuilt h.tidy.inv.sound hr
  geodesic := by
    rw [hr.config]
    exact h.geodesic

theorem moved (h : w.Orderly directions) (hlinked : w.Linked) (dt : S) :
    (w.moved dt).Orderly fun c => (w.pushedMotion directions dt c).1 where
  tidy := h.tidy.moved hlinked dt
  distinct := h.distinct.of_eq rfl
  geodesic := h.geodesic

theorem cleared (h : w.Orderly directions) (latest : Timestamp) :
    Orderly { w with store := w.store.clearStepData, latest } directions where
  tidy := h.tidy.cleared latest
  distinct := h.distinct.of_eq rfl
  geodesic := h.geodesic

end Orderly

/-- Two worlds in order that are grouped differently. -/
structure Twins (w v : World S) : Prop where
  regrouped : w.Regrouped v
  orderly : ∃ directions, w.Orderly directions ∧ v.Orderly directions

theorem twins_empty {c d : Config S} (hmode : c.tether.mode = .geodesic) (h : c.Regrouped d) :
    (empty c).Twins (empty d) := by
  refine ⟨regrouped_empty h, fun _ => 0, ?_, ?_⟩
  · exact ⟨⟨inv_empty c, small_empty c, .empty c, .empty c _⟩, .empty c, hmode⟩
  · refine ⟨⟨inv_empty d, small_empty d, .empty d, .empty d _⟩, .empty d, ?_⟩
    show d.tether.mode = .geodesic
    rw [h]
    exact hmode

namespace Twins

variable {w v : World S}

/-! ## The topology stage -/

/-- Rebuilding finds the same tethers for both worlds, in one order or another. -/
theorem regrouped_rebuilt {a b : World S} {directions : Directions S} (h : w.Regrouped v)
    (hw : w.Orderly directions) (hv : v.Orderly directions) (ha : w.Rebuilt a)
    (hb : v.Rebuilt b) : a.Regrouped b := by
  refine ⟨h.toMatched.rebuilt ha hb ?_, ?_⟩
  · intro proxy c d c' d' hc hd hcd hc' hd'
    have hca := (Cluster.layTethers_ends (hw.tidy.inv.sound.clusters proxy c hc).2 hw.tidy.inv.sound.weighed
      w.config).holds_of_eq hc'
    have hdb := (Cluster.layTethers_ends (hv.tidy.inv.sound.clusters proxy d hd).2 hv.tidy.inv.sound.weighed
      v.config).holds_of_eq hd'
    rcases hca with ⟨tethers, rfl, hlaid⟩
    rcases hdb with ⟨others, rfl, hothers⟩
    refine ⟨?_, ?_⟩
    · rw [hcd.same]
    · -- both are the tethers along geodesics, which do not depend on the islands
      refine (hlaid.geodesic hw.geodesic).trans ?_
      refine List.Perm.trans ?_ (hothers.geodesic hv.geodesic).symm
      rw [hcd.same, h.store, h.config]
      exact .refl _
  · rw [ha.config, hb.config]
    exact h.config

/-- After the topology stage the worlds are twins again, and linked. -/
theorem refresh (h : w.Twins v) :
    ∃ a b, w.refresh = .ok a ∧ v.refresh = .ok b ∧ a.Twins b ∧ a.Linked ∧ b.Linked := by
  rcases h.orderly with ⟨directions, hw, hv⟩
  unfold World.refresh
  rw [h.regrouped.dirty, Bool.or_false]
  cases hdirty : w.topologyDirty with
  | false =>
    have hclean : v.topologyDirty = false := by rw [h.regrouped.dirty, hdirty, Bool.or_false]
    exact ⟨w, v, rfl, rfl, h, hw.tidy.inv.linked hdirty, hv.tidy.inv.linked hclean⟩
  | true =>
    rcases (rebuild_ends hw.tidy.inv.sound).exists_ok fun f hf => hw.tidy.small.not_oversized hf.2
      with ⟨a, ha, hra, hsa, hla⟩
    rcases (rebuild_ends hv.tidy.inv.sound).exists_ok fun f hf => hv.tidy.small.not_oversized hf.2
      with ⟨b, hb, hrb, hsb, hlb⟩
    refine ⟨a, b, ha, hb, ⟨?_, fun _ => 0, ?_, ?_⟩, hla, hlb⟩
    · exact regrouped_rebuilt h.regrouped hw hv hra hrb
    · exact hw.rebuilt hra hsa hla
    · exact hv.rebuilt hrb hsb hlb

/-! ## Steps -/

/-- The moving part of a step leaves the worlds twins and linked. -/
theorem advanced (h : w.Twins v) (hw : w.Linked) (hv : v.Linked) (dt : S) :
    (w.advanced dt).Twins (v.advanced dt) ∧ (w.advanced dt).Linked ∧ (v.advanced dt).Linked := by
  rcases h.orderly with ⟨directions, how, hov⟩
  unfold World.advanced
  split
  · refine ⟨⟨?_, fun c => (w.pushedMotion directions dt c).1, how.moved hw dt, ?_⟩, ?_, ?_⟩
    · exact h.regrouped.moved hw hv how.tidy.inv.sound.weighed how.distinct how.tidy.unmixed hov.tidy.unmixed
        how.tidy.remembers hov.tidy.remembers dt
    · have hmoved := hov.moved hv dt
      rw [h.regrouped.pushedMotion_eq hw how.distinct] at hmoved
      exact hmoved
    · exact hw.moved how.tidy.inv.sound.weighed dt
    · exact hv.moved hov.tidy.inv.sound.weighed dt
  · exact ⟨h, hw, hv⟩

omit [Scalar T] [Timeline S T] in
/-- After a step the worlds are twins again. -/
theorem stepped (h : w.Twins v) (hw : w.Linked) (hv : v.Linked) (snapshot : PushSnapshot S T) :
    (w.stepped snapshot).Twins (v.stepped snapshot) := by
  rcases h.advanced hw hv snapshot.dt with ⟨⟨hr, directions, how, hov⟩, _, _⟩
  refine ⟨?_, directions, how.cleared snapshot.timestamp, hov.cleared snapshot.timestamp⟩
  refine ⟨⟨?_, hr.members, hr.clusters, hr.joints, hr.suspensions, hr.forces, hr.touched, hr.dirty⟩,
    hr.config⟩
  exact congrArg ParticleStore.clearStepData hr.store

/-- The answers of twins differ at most in the number of islands. -/
theorem answer (h : w.Twins v) (hw : w.Linked) (hv : v.Linked) (snapshot : PushSnapshot S T)
    (dropped : Nat) :
    (w.answer snapshot dropped).SameButIslands (v.answer snapshot dropped) := by
  rcases h.advanced hw hv snapshot.dt with ⟨⟨hr, _, how, hov⟩, hlw, hlv⟩
  unfold PullSnapshot.SameButIslands World.answer
  rw [hr.results_eq, hr.tetherCount_eq (hlw.distributed how.tidy.inv.sound.weighed)
    (hlv.distributed hov.tidy.inv.sound.weighed)]

/-- Twins step alike. -/
theorem step [LawfulZero S] (h : w.Twins v) {snapshot : PushSnapshot S T} (hs : snapshot.Fair) :
    ∃ one two, w.step snapshot = .ok one ∧ v.step snapshot = .ok two ∧
      one.pull.SameButIslands two.pull ∧ one.world.Twins two.world := by
  rcases h.orderly with ⟨directions, how, hov⟩
  rcases h.regrouped.updated snapshot.deltas with ⟨hdropped, hregrouped⟩
  have hupdated : (w.updated snapshot.deltas).Twins (v.updated snapshot.deltas) :=
    ⟨hregrouped, directions, how.updated hs, hov.updated hs⟩
  rcases hupdated.refresh with ⟨a, b, ha, hb, hab, hla, hlb⟩
  rcases hab.orderly with ⟨_, hoa, hob⟩
  have hone : w.prepare snapshot.deltas = .ok (w.droppedOf snapshot.deltas, a) := by
    show ((w.updated snapshot.deltas).refresh >>= fun before =>
      .ok (w.droppedOf snapshot.deltas, before)) = _
    rw [ha, ok_bind]
  have htwo : v.prepare snapshot.deltas = .ok (w.droppedOf snapshot.deltas, b) := by
    rw [← hdropped]
    show ((v.updated snapshot.deltas).refresh >>= fun before =>
      .ok (v.droppedOf snapshot.deltas, before)) = _
    rw [hb, ok_bind]
  refine ⟨_, _, step_eq hone hla hoa.tidy.inv.sound.weighed, step_eq htwo hlb hob.tidy.inv.sound.weighed,
    ?_, ?_⟩
  · exact hab.answer hla hlb snapshot _
  · exact hab.stepped hla hlb snapshot

end Twins

/-! ## Whole runs -/

/-- Twins give the same answers, step after step. -/
theorem Twins.answers [LawfulZero S] {w v : World S} (h : w.Twins v)
    {snapshots : List (PushSnapshot S T)} (hs : ∀ s ∈ snapshots, s.Fair) :
    ∃ ps qs, w.answers snapshots = .ok ps ∧ v.answers snapshots = .ok qs ∧
      List.Forall₂ PullSnapshot.SameButIslands ps qs := by
  induction snapshots generalizing w v with
  | nil => exact ⟨[], [], rfl, rfl, .nil⟩
  | cons snapshot rest ih =>
    rcases h.step (hs snapshot List.mem_cons_self) with ⟨one, two, hone, htwo, hpull, hworld⟩
    rcases ih hworld fun s hmem => hs s (List.mem_cons_of_mem snapshot hmem)
      with ⟨ps, qs, hps, hqs, hall⟩
    refine ⟨one.pull :: ps, two.pull :: qs, ?_, ?_, .cons hpull hall⟩
    · unfold World.answers
      rw [hone, ok_bind, hps]
      rfl
    · unfold World.answers
      rw [htwo, ok_bind, hqs]
      rfl

/-- Under two configurations that measure tethers along geodesics and differ only in how many
islands they allow, an empty world answers all snapshots, and answers them alike: only the number of
islands may differ. -/
theorem answers_regrouped [LawfulZero S] {c d : Config S} (hmode : c.tether.mode = .geodesic)
    (hcd : d = { c with maxIslands := d.maxIslands }) {snapshots : List (PushSnapshot S T)}
    (hs : ∀ s ∈ snapshots, s.Fair) :
    ∃ ps qs, (empty c).answers snapshots = .ok ps ∧ (empty d).answers snapshots = .ok qs ∧
      List.Forall₂ PullSnapshot.SameButIslands ps qs :=
  (twins_empty hmode hcd).answers hs

/-- A particle that hangs from another one. -/
def hanging (proxy first second : Nat) : Delta Float32 :=
  ⟨⟨proxy, 0⟩, .create (.cluster [⟨first, 0⟩, ⟨second, 0⟩]
    [.kinematic 0, .dynamic ⟨1, 0, 0⟩ 1] (.ofEdges [(0, 1)]) 1)⟩

/-- Two clusters that share no particle, and a write to neither. -/
def pendulums : PushSnapshot Float32 Float where
  timestamp := ⟨1⟩
  startTime := 0
  dt := 1
  step := 0
  stepCount := 1
  deltas := [hanging 0 0 1, hanging 1 2 3, ⟨⟨0, 0⟩, .setPosition ⟨7, 3⟩ 0⟩]

theorem pendulums_fair : pendulums.Fair := by
  have hhanging : ∀ proxy first second : Nat, first < 2 ^ 32 → second < 2 ^ 32 → first ≠ second →
      ((hanging proxy first second).command.InRange ∧
        (hanging proxy first second).command.Representable) ∧
        (hanging proxy first second).command.Apart := by
    intro proxy first second hfirst hsecond hne
    refine ⟨⟨?_, ?_, ?_⟩, ?_⟩
    · intro a b hab
      have hedge := Graph.mem_neighbors_ofEdges.mp hab
      simp only [List.mem_cons, Prod.mk.injEq, List.not_mem_nil, or_false] at hedge
      rcases hedge with ⟨rfl, rfl⟩
      decide
    · intro h hh
      simp only [List.mem_cons, List.not_mem_nil, or_false] at hh
      rcases hh with rfl | rfl
      · exact hfirst
      · exact hsecond
    · exact (by decide : 2 ≤ BitSet.largestIndex)
    · refine List.nodup_cons.mpr ⟨?_, List.nodup_singleton _⟩
      exact fun hmem => hne (List.mem_singleton.mp hmem)
  have hone := hhanging 0 0 1 (by decide) (by decide) (by decide)
  have htwo := hhanging 1 2 3 (by decide) (by decide) (by decide)
  constructor
  · intro d hd
    simp only [pendulums, List.mem_cons, List.not_mem_nil, or_false] at hd
    rcases hd with rfl | rfl | rfl
    · exact hone.1
    · exact htwo.1
    · exact ⟨trivial, trivial⟩
  · intro d hd
    simp only [pendulums, List.mem_cons, List.not_mem_nil, or_false] at hd
    rcases hd with rfl | rfl | rfl
    · exact hone.2
    · exact htwo.2
    · trivial

/-- Two clusters in two islands and in one. -/
theorem pendulums_regrouped :
    ∃ ps qs, (empty .standard).answers [pendulums, pendulums] = .ok ps ∧
      (empty { Config.standard with maxIslands := 1 }).answers [pendulums, pendulums] = .ok qs ∧
      List.Forall₂ PullSnapshot.SameButIslands ps qs := by
  refine answers_regrouped rfl rfl ?_
  intro s hs
  simp only [List.mem_cons, List.not_mem_nil, or_false, or_self] at hs
  rw [hs]
  exact pendulums_fair

end World

end TetheredParticles

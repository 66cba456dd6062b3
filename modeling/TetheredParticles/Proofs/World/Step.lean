import TetheredParticles.Proofs.World.Workspaces
/-!
# Steps of the world

In a linked world no island meets a fault. The positive part of a step is then the total function
`World.moved`, and all that can go wrong in a step is that something does not fit the largest set of
bits. The world is in order again after the step.

* `World.moved`, `World.move_eq` — the moving part as a total function.
* `World.step_ends` — a step ends, and keeps the invariant.
-/

namespace TetheredParticles

namespace World

variable {S T : Type} [Scalar S] [Scalar T] [Timeline S T]

/-! ## Moving -/

/-- The islands of a world after a step of positive size. -/
def movedIslands (w : World S) (dt : S) : Array (Workspace S) :=
  w.workspaces.map (Total.island w.config
    (w.store.predict w.config.gravity w.config.linearDamping dt) dt)

/-- The world after a step of positive size. -/
def moved (w : World S) (dt : S) : World S :=
  { w with
    workspaces := w.movedIslands dt
    store := (w.movedIslands dt).foldl (scatter dt)
      (w.store.predict w.config.gravity w.config.linearDamping dt)
    forces := (w.movedIslands dt).foldl
      (fun forces ws => (ws.constraintForces dt).foldl (fun f (p, v) => f.insert p v) forces)
      w.forces }

theorem mapM_ok {α β : Type} {f : α → Except Fault β} {total : α → β} {xs : Array α}
    (h : ∀ x ∈ xs, f x = .ok (total x)) : xs.mapM f = .ok (xs.map total) := by
  have hlist : ∀ l : List α, (∀ x ∈ l, f x = .ok (total x)) → l.mapM f = .ok (l.map total) := by
    intro l
    induction l with
    | nil => exact fun _ => rfl
    | cons x rest ih =>
      intro hl
      rw [List.mapM_cons, hl x (by simp), ih fun y hy => hl y (List.mem_cons_of_mem x hy)]
      rfl
  rw [Array.mapM_eq_mapM_toList, hlist _ fun x hx => h x (Array.mem_toList_iff.mp hx)]
  show Except.ok (xs.toList.map total).toArray = _
  rw [← Array.toList_map]

/-- The copies of a linked world are solved without a fault. -/
theorem Linked.island_eq {w : World S} (h : w.Linked) (hw : w.store.Weighed) (dt : S)
    {ws : Workspace S} (hws : ws ∈ w.workspaces) :
    let store := w.store.predict w.config.gravity w.config.linearDamping dt
    solveIsland w.config store dt ws = .ok (Total.island w.config store dt ws) ∧
      (Total.island w.config store dt ws).blank = ws.blank ∧
      (Total.island w.config store dt ws).positions.size = ws.particles.size ∧
      (Total.island w.config store dt ws).solved.size = ws.particles.size := by
  obtain ⟨i, hi⟩ := Array.mem_iff_getElem?.mp hws
  exact Total.island_eq (h.fits hw (ParticleStore.Steady.predict ..).inverseMass hi) dt

theorem move_eq {w : World S} (h : w.Linked) (hw : w.store.Weighed) (dt : S) :
    w.move dt = .ok (w.moved dt) := by
  unfold move
  dsimp only
  rw [mapM_ok fun ws hws => (h.island_eq hw dt hws).1]
  rfl

theorem steady_scatter (dt : S) (store : ParticleStore S) (ws : Workspace S) :
    store.Steady (scatter dt store ws) := by
  unfold scatter
  induction ws.particles.toList.zipIdx generalizing store with
  | nil => exact .refl store
  | cons x rest ih =>
    refine ParticleStore.Steady.trans ?_ (ih _)
    exact .modify store x.1 fun s => ⟨⟨rfl, rfl, rfl, rfl⟩, rfl⟩

theorem steady_moved (w : World S) (dt : S) : w.store.Steady (w.moved dt).store := by
  have hfold : ∀ (islands : List (Workspace S)) (store : ParticleStore S),
      store.Steady (islands.foldl (scatter dt) store) := by
    intro islands
    induction islands with
    | nil => exact fun store => .refl store
    | cons ws rest ih => exact fun store => (steady_scatter dt store ws).trans (ih _)
  have hpredict := ParticleStore.Steady.predict w.store w.config.gravity w.config.linearDamping dt
  unfold moved
  dsimp only
  rw [← Array.foldl_toList]
  exact hpredict.trans (hfold _ _)

theorem aliveCount_moved (w : World S) (dt : S) :
    (w.moved dt).store.aliveCount = w.store.aliveCount := by
  have hscatter : ∀ (store : ParticleStore S) (ws : Workspace S),
      (scatter dt store ws).aliveCount = store.aliveCount := by
    intro store ws
    unfold scatter
    induction ws.particles.toList.zipIdx generalizing store with
    | nil => rfl
    | cons x rest ih => exact ih _
  have hfold : ∀ (islands : List (Workspace S)) (store : ParticleStore S),
      (islands.foldl (scatter dt) store).aliveCount = store.aliveCount := by
    intro islands
    induction islands with
    | nil => exact fun _ => rfl
    | cons ws rest ih => exact fun store => (ih _).trans (hscatter store ws)
  unfold moved
  dsimp only
  rw [← Array.foldl_toList]
  exact hfold _ _

/-- Moving keeps what the workspaces hold. -/
theorem blank_movedIslands {w : World S} (h : w.Linked) (hw : w.store.Weighed) (dt : S) :
    (w.movedIslands dt).map Workspace.blank = w.workspaces.map Workspace.blank := by
  unfold movedIslands
  rw [Array.map_map]
  exact Array.map_congr_left fun ws hws => (h.island_eq hw dt hws).2.1

/-- A linked world is linked after it has moved. -/
theorem Linked.moved {w : World S} (h : w.Linked) (hw : w.store.Weighed) (dt : S) :
    (w.moved dt).Linked := by
  have hlinked := h.withStore (steady_moved w dt).alike
  refine ⟨hlinked.tethers, hlinked.joints, hlinked.suspensions, hlinked.partition, ?_⟩
  exact (blank_movedIslands h hw dt).trans hlinked.workspaces

theorem Sound.moved {w : World S} (h : w.Sound) (dt : S) : (w.moved dt).Sound := by
  have hsteady := steady_moved w dt
  have hsound := h.withStore hsteady.alike.isAlive (fun i => (hsteady.alike.slot i).owner)
    (hsteady.weighed h.weighed)
  exact ⟨hsound.weighed, hsound.owned, hsound.clusters⟩

/-! ## Whole steps -/

/-- The world that a step moves, once its deltas are applied. -/
def updated (w : World S) (deltas : List (Delta S)) : World S :=
  (applyDeltas { w with touched := ∅ } deltas).2

/-- How many deltas of a step are dropped. -/
def droppedOf (w : World S) (deltas : List (Delta S)) : Nat :=
  (applyDeltas { w with touched := ∅ } deltas).1

theorem Inv.updated [LawfulZero S] {w : World S} (h : w.Inv) {deltas : List (Delta S)}
    (hrange : Delta.AllInRange deltas) : (w.updated deltas).Inv :=
  (h.withNotes w.forces ∅ w.latest).applyDeltas hrange

/-- The deltas and the topology stage of a step. -/
theorem prepare_ends [LawfulZero S] {w : World S} (h : w.Inv) {deltas : List (Delta S)}
    (hrange : Delta.AllInRange deltas) :
    Ends (w.prepare deltas) (fun f => f = .lengthOverflow ∧ (w.updated deltas).Oversized)
      fun (dropped, before) => dropped = w.droppedOf deltas ∧
        (before = w.updated deltas ∨ (w.updated deltas).Rebuilt before) ∧
        before.Sound ∧ before.Linked ∧ before.topologyDirty = false := by
  unfold prepare
  exact (refresh_ends (h.updated hrange)).bind fun before hbefore => .pure ⟨rfl, hbefore⟩

/-- The world after a step whose topology stage led to `before`. -/
def stepped (before : World S) (snapshot : PushSnapshot S T) : World S :=
  let after := if 0 < snapshot.dt then before.moved snapshot.dt else before
  { after with store := after.store.clearStepData, latest := snapshot.timestamp }

omit [Scalar T] [Timeline S T] in
/-- A step neither brings nor takes anything once its topology stage is over. -/
theorem known_stepped (before : World S) (snapshot : PushSnapshot S T) :
    (before.stepped snapshot).members = before.members ∧
      (before.stepped snapshot).clusters = before.clusters ∧
      (before.stepped snapshot).joints = before.joints ∧
      (before.stepped snapshot).suspensions = before.suspensions := by
  unfold World.stepped
  dsimp only
  split
  · exact ⟨rfl, rfl, rfl, rfl⟩
  · exact ⟨rfl, rfl, rfl, rfl⟩

omit [Scalar T] [Timeline S T] in
theorem alike_stepped (before : World S) (snapshot : PushSnapshot S T) :
    before.store.Alike (before.stepped snapshot).store := by
  have hclear := fun store : ParticleStore S => (ParticleStore.Steady.clearStepData store).alike
  unfold World.stepped
  dsimp only
  split
  · exact (steady_moved before snapshot.dt).alike.trans (hclear _)
  · exact hclear _

omit [Scalar T] [Timeline S T] in
theorem Inv.stepped {before : World S} (hsound : before.Sound) (hlinked : before.Linked)
    (snapshot : PushSnapshot S T) : (before.stepped snapshot).Inv := by
  have hafter : ∀ after : World S, after.Sound → after.Linked →
      Inv { after with store := after.store.clearStepData, latest := snapshot.timestamp } := by
    intro after hs hl
    have hinv : after.Inv := ⟨hs, fun _ => hl⟩
    have hsteady := ParticleStore.Steady.clearStepData after.store
    exact (hinv.withStore hsteady.alike (hsteady.weighed hs.weighed)).withNotes _ _ _
  unfold World.stepped
  dsimp only
  split
  · exact hafter _ (hsound.moved _) (hlinked.moved hsound.weighed _)
  · exact hafter _ hsound hlinked

/-- The world after the moving part of a step, if it has one. -/
def advanced (before : World S) (dt : S) : World S :=
  if 0 < dt then before.moved dt else before

/-- The answer of a step whose topology stage led to `before`. -/
def answer (before : World S) (snapshot : PushSnapshot S T) (dropped : Nat) : PullSnapshot S T where
  timestamp := snapshot.timestamp
  startTime := snapshot.startTime
  endTime := snapshot.startTime + Timeline.widen snapshot.dt
  results := (before.advanced snapshot.dt).results (0 < snapshot.dt)
  counts := {
    islands := (before.advanced snapshot.dt).workspaces.size
    tethers := (before.advanced snapshot.dt).tetherCount
    dropped }

/-- After the topology stage nothing can go wrong in a step. -/
theorem step_eq {w before : World S} {snapshot : PushSnapshot S T} {dropped : Nat}
    (hprepare : w.prepare snapshot.deltas = .ok (dropped, before)) (hlinked : before.Linked)
    (hweighed : before.store.Weighed) :
    w.step snapshot = .ok {
      world := before.stepped snapshot
      pull := before.answer snapshot dropped
      info := before.info snapshot
      storeBefore := before.store
      storeAfter := (before.advanced snapshot.dt).store } := by
  unfold step
  rw [hprepare, ok_bind]
  by_cases hdt : 0 < snapshot.dt
  · simp only [hdt, decide_true, if_true, move_eq hlinked hweighed, ok_bind, stepped, answer,
      advanced]
    rfl
  · simp only [hdt, decide_false, Bool.false_eq_true, if_false, ok_bind, stepped, answer, advanced]
    rfl

/-- A step ends, unless something does not fit the largest set of bits. Its answer carries the
number of the snapshot, and the world is in order again. -/
theorem step_ends [LawfulZero S] {w : World S} (h : w.Inv) (snapshot : PushSnapshot S T)
    (hrange : Delta.AllInRange snapshot.deltas) :
    Ends (w.step snapshot)
      (fun f => f = .lengthOverflow ∧ (w.updated snapshot.deltas).Oversized)
      fun outcome => ∃ before, w.prepare snapshot.deltas =
          .ok (w.droppedOf snapshot.deltas, before) ∧ before.Sound ∧ before.Linked ∧
        outcome.world = before.stepped snapshot ∧ outcome.world.Inv ∧
        outcome.pull = before.answer snapshot (w.droppedOf snapshot.deltas) := by
  have hends := prepare_ends h hrange
  cases hprepare : w.prepare snapshot.deltas with
  | error f =>
    unfold step
    rw [hprepare]
    exact hends.fails_of_eq hprepare
  | ok result =>
    rcases result with ⟨dropped, before⟩
    rcases hends.holds_of_eq hprepare with ⟨hdropped, _, hsound, hlinked, _⟩
    subst hdropped
    refine .of_eq_ok (step_eq hprepare hlinked hsound.weighed) ?_
    exact ⟨before, rfl, hsound, hlinked, rfl, Inv.stepped hsound hlinked snapshot, rfl⟩

end World

end TetheredParticles

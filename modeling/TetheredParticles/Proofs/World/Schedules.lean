import TetheredParticles.Proofs.Tether.Parallel
import TetheredParticles.Proofs.World.Runs
/-!
# Schedules do not show

A world may choose for each island how its tethers are visited: a single island can cut its large
batches into chunks, while several islands keep theirs serial and run side by side. The tethers of an
island are grouped when it is built, and solving keeps them so. Every choice then leads to the same
positions, multipliers and answers, or to the same fault, for as long as the world runs.

* `Workspace.Grouped` — the tethers of every set of an island are grouped.
* `Workspace.Grouped.solve_scheduled`, `Workspace.Grouped.pushOut_scheduled` — one island.
* `World.moveBy`, `World.stepWith_moveBy` — a step whose islands are solved under chosen schedules.
* `World.runWith_moveBy` — whatever the world is asked.
-/

namespace TetheredParticles

/-! ## Repeated and owned visits -/

/-- Computations go on alike if they do so with every result that there can be. -/
theorem bind_congr_of_ok {α β : Type} {x : Except Fault α} {f g : α → Except Fault β}
    (h : ∀ a, x = .ok a → f a = g a) : (x >>= f) = (x >>= g) := by
  cases x with
  | error fault => rfl
  | ok a => exact h a rfl

/-- Actions that agree where an invariant holds are repeated alike. -/
theorem repeatAction_congr {α : Type} {action action' : α → Except Fault α} {I : α → Prop}
    {fails : Fault → Prop} (heq : ∀ a, I a → action a = action' a)
    (hkeep : ∀ a, I a → Ends (action' a) fails I) (n : Nat) {a : α} (ha : I a) :
    repeatAction action n a = repeatAction action' n a := by
  induction n generalizing a with
  | zero => rfl
  | succ n ih =>
    rw [repeatAction, repeatAction, heq a ha]
    exact bind_congr_of_ok fun b hb => ih ((hkeep a ha).holds_of_eq hb)

section Owned

variable {C P : Type} {visit visit' : C → P → Except Fault (C × P)} {F : C → Prop}
  {fails : Fault → Prop} {owned : List (ProxyId × C)}

/-- Ways of visiting that agree on every constraint of a list agree on the list. -/
theorem visitOwned_congr (heq : ∀ c p, F c → visit c p = visit' c p) (hall : ∀ x ∈ owned, F x.2)
    (p : P) : visitOwned visit owned p = visitOwned visit' owned p := by
  induction owned generalizing p with
  | nil => rfl
  | cons x rest ih =>
    rcases x with ⟨owner, c⟩
    rw [List.forall_mem_cons] at hall
    unfold visitOwned
    simp only [heq c p hall.1, ih hall.2]

/-- What a visit keeps of one constraint holds of the whole list afterwards. -/
theorem Ends.visitOwned (hkeep : ∀ c p, F c → Ends (visit c p) fails fun r => F r.1)
    (hall : ∀ x ∈ owned, F x.2) (p : P) :
    Ends (visitOwned visit owned p) fails fun r => ∀ x ∈ r.1, F x.2 := by
  induction owned generalizing p with
  | nil => exact .pure hall
  | cons x rest ih =>
    rcases x with ⟨owner, c⟩
    rw [List.forall_mem_cons] at hall
    refine (hkeep c p hall.1).bind fun first hfirst => ?_
    refine (ih hall.2 first.2).bind fun others hothers => ?_
    exact .pure (List.forall_mem_cons.mpr ⟨hfirst, hothers⟩)

end Owned

variable {S : Type} [Scalar S]

/-! ## Sets of tethers -/

namespace TetherSet

/-- The batches are those of some list of tethers, so that no tip occurs twice in a batch. -/
def Grouped (set : TetherSet S) : Prop :=
  ∃ tethers, set.batches.batches = Tether.batches tethers

namespace Grouped

variable {set after : TetherSet S}

omit [Scalar S] in
theorem of_batches (h : set.Grouped) (hbatches : after.batches = set.batches) : after.Grouped := by
  unfold Grouped
  rw [hbatches]
  exact h

theorem restart (h : set.Grouped) : set.restart.Grouped := h.of_batches set.batches_restart

/-- A pass changes nothing of a set but its multipliers. -/
theorem apply (h : set.Grouped) (dt : S) (schedule : Schedule) (masses : Array S)
    (positions : Array (Vec3 S)) :
    Ends (set.apply dt schedule masses positions) (fun _ => True) fun r => r.1.Grouped := by
  cases hresult : set.apply dt schedule masses positions with
  | error fault => trivial
  | ok r =>
    refine Grouped.of_batches h (?_ : r.1.batches = set.batches)
    unfold TetherSet.apply at hresult
    cases set with
    | pbd batches =>
      rcases exists_of_bind_ok hresult with ⟨_, _, hresult⟩
      cases hresult
      rfl
    | xpbd batches multipliers =>
      dsimp only at hresult
      split at hresult
      · cases hresult
        rfl
      · rcases exists_of_bind_ok hresult with ⟨_, _, hresult⟩
        cases hresult
        rfl

variable [LawfulOrder S]

theorem apply_scheduled (h : set.Grouped) (dt : S) (schedule : Schedule) (masses : Array S)
    (positions : Array (Vec3 S)) :
    set.apply dt schedule masses positions = set.apply dt .serial masses positions := by
  rcases h with ⟨tethers, htethers⟩
  exact apply_eq_of_grouped htethers dt schedule masses positions

theorem applyRigid_scheduled (h : set.Grouped) (schedule : Schedule) (masses : Array S)
    (positions : Array (Vec3 S)) :
    set.applyRigid schedule masses positions = set.applyRigid .serial masses positions := by
  rcases h with ⟨tethers, htethers⟩
  exact project_eq_serial htethers 1 schedule masses positions

end Grouped

end TetherSet

/-! ## One island -/

namespace Workspace

/-- Every set of tethers is grouped. -/
def Grouped (w : Workspace S) : Prop := ∀ x ∈ w.tethers, x.2.Grouped

namespace Grouped

variable {w : Workspace S}

theorem restart (h : w.Grouped) : w.restart.Grouped := by
  intro x hx
  rcases List.mem_map.mp hx with ⟨y, hy, rfl⟩
  exact (h y hy).restart

theorem applyTethers (h : w.Grouped) (dt : S) (schedule : Schedule) :
    Ends (w.applyTethers dt schedule) (fun _ => True) Grouped := by
  have hvisit := Ends.visitOwned (F := TetherSet.Grouped)
    (fun set positions hset => hset.apply dt schedule w.inverseMasses positions) h w.positions
  exact hvisit.bind fun visited hvisited => .pure hvisited

/-- Joints and suspensions leave the tethers alone. -/
theorem solveJoints (h : w.Grouped) (dt : S) :
    Ends (w.solveJoints dt) (fun _ => True) Grouped := by
  cases hresult : w.solveJoints dt with
  | error fault => trivial
  | ok after =>
    rcases exists_of_bind_ok hresult with ⟨_, _, hresult⟩
    rcases exists_of_bind_ok hresult with ⟨_, _, hresult⟩
    cases hresult
    exact h

theorem pass (h : w.Grouped) (config : Config S) (dt : S) (schedule : Schedule) :
    Ends (w.pass config dt schedule) (fun _ => True) Grouped :=
  (h.applyTethers dt schedule).bind fun _ hvisited =>
    Ends.repeatAction (fun _ hw => hw.solveJoints dt) _ hvisited

theorem solve (h : w.Grouped) (config : Config S) (dt : S) (schedule : Schedule) :
    Ends (w.solve config dt schedule) (fun _ => True) Grouped := by
  have hpasses := Ends.repeatAction (I := Grouped)
    (fun _ hw => hw.pass config dt schedule) config.positionIterations.toNat h.restart
  exact hpasses.bind fun solved hsolved => .pure hsolved

theorem rigidPass (h : w.Grouped) (schedule : Schedule) :
    Ends (w.rigidPass schedule) (fun _ => True) Grouped := by
  cases hresult : w.rigidPass schedule with
  | error fault => trivial
  | ok after =>
    rcases exists_of_bind_ok hresult with ⟨_, _, hresult⟩
    cases hresult
    exact h

variable [LawfulOrder S]

theorem applyTethers_scheduled (h : w.Grouped) (dt : S) (schedule : Schedule) :
    w.applyTethers dt schedule = w.applyTethers dt .serial := by
  unfold Workspace.applyTethers
  rw [visitOwned_congr (F := TetherSet.Grouped)
    (fun set positions hset => hset.apply_scheduled dt schedule w.inverseMasses positions) h]

theorem pass_scheduled (h : w.Grouped) (config : Config S) (dt : S) (schedule : Schedule) :
    w.pass config dt schedule = w.pass config dt .serial := by
  unfold Workspace.pass
  rw [h.applyTethers_scheduled]

/-- An island is projected alike under all schedules. -/
theorem solve_scheduled (h : w.Grouped) (config : Config S) (dt : S) (schedule : Schedule) :
    w.solve config dt schedule = w.solve config dt .serial := by
  unfold Workspace.solve
  rw [repeatAction_congr (I := Grouped) (fun w hw => hw.pass_scheduled config dt schedule)
    (fun w hw => hw.pass config dt .serial) _ h.restart]

theorem rigidPass_scheduled (h : w.Grouped) (schedule : Schedule) :
    w.rigidPass schedule = w.rigidPass .serial := by
  have hfold : ∀ (sets : List (ProxyId × TetherSet S)) (positions : Array (Vec3 S)),
      (∀ x ∈ sets, x.2.Grouped) →
      sets.foldlM (fun positions x => x.2.applyRigid schedule w.inverseMasses positions) positions =
        sets.foldlM (fun positions x => x.2.applyRigid .serial w.inverseMasses positions) positions := by
    intro sets
    induction sets with
    | nil => exact fun _ _ => rfl
    | cons x rest ih =>
      intro positions hsets
      rw [List.forall_mem_cons] at hsets
      rw [List.foldlM_cons, List.foldlM_cons, hsets.1.applyRigid_scheduled]
      exact bind_congr_of_ok fun next _ => ih next hsets.2
  unfold Workspace.rigidPass
  rw [hfold w.tethers w.positions h]

/-- The rigid passes move particles alike under all schedules. -/
theorem pushOut_scheduled (h : w.Grouped) (iterations : UInt32) (schedule : Schedule) :
    w.pushOut iterations schedule = w.pushOut iterations .serial :=
  repeatAction_congr (I := Grouped) (fun _ hw => hw.rigidPass_scheduled schedule)
    (fun _ hw => hw.rigidPass .serial) _ h

end Grouped

end Workspace

/-! ## Worlds -/

namespace World

variable {T : Type} [Scalar T] [Timeline S T]

/-- How the tethers of an island are visited. The choice may depend on the whole world, for instance on
how many islands it has. -/
abbrev Choice (S : Type) := World S → Workspace S → Schedule

/-- Gathers, solves and pushes out one island under a schedule. -/
def solveIslandBy (schedule : Schedule) (config : Config S) (store : ParticleStore S) (dt : S)
    (w : Workspace S) : Except Fault (Workspace S) := do
  let w ← (w.gather store).solve config dt schedule
  w.pushOut config.pushOutIterations schedule

/-- Moves the world, islands being solved under chosen schedules. -/
def moveBy (choose : Choice S) (w : World S) (dt : S) : Except Fault (World S) := do
  let store := w.store.predict w.config.gravity w.config.linearDamping dt
  let workspaces ← w.workspaces.mapM fun ws => solveIslandBy (choose w ws) w.config store dt ws
  return { w with
    workspaces
    store := workspaces.foldl (scatter dt) store
    forces := workspaces.foldl
      (fun forces ws => (ws.constraintForces dt).foldl (fun f (p, v) => f.insert p v) forces)
      w.forces }

/-- Runs one step with the given way of moving the world. -/
def stepWith (move : World S → S → Except Fault (World S)) (w : World S)
    (snapshot : PushSnapshot S T) : Except Fault (StepOutcome S T) := do
  let (dropped, before) ← w.prepare snapshot.deltas
  let moved : Bool := 0 < snapshot.dt
  let after ← if moved then move before snapshot.dt else .ok before
  let pull : PullSnapshot S T := {
    timestamp := snapshot.timestamp
    startTime := snapshot.startTime
    endTime := snapshot.startTime + Timeline.widen snapshot.dt
    results := after.results moved
    counts := { islands := after.workspaces.size, tethers := after.tetherCount, dropped } }
  return {
    world := { after with store := after.store.clearStepData, latest := snapshot.timestamp }
    pull
    info := before.info snapshot
    storeBefore := before.store
    storeAfter := after.store }

/-- The world that is left after what it was asked, with the given way of moving it. -/
def runWith (move : World S → S → Except Fault (World S)) (w : World S) :
    List (Action S T) → Except Fault (World S)
  | [] => .ok w
  | .step snapshot :: rest => do (← w.stepWith move snapshot).world.runWith move rest
  | .configure config :: rest => (w.setConfig config).runWith move rest
  | .confirm :: rest => (w.setConfig w.config).runWith move rest

theorem stepWith_move (w : World S) (snapshot : PushSnapshot S T) :
    w.stepWith move snapshot = w.step snapshot := rfl

/-- The islands of a linked world are grouped. -/
theorem Linked.grouped {w : World S} (h : w.Linked) {ws : Workspace S} (hws : ws ∈ w.workspaces) :
    ws.Grouped := by
  rcases Array.mem_iff_getElem?.mp hws with ⟨i, hi⟩
  intro x hx
  rcases h.set_of_mem hi hx with ⟨c, _, hbatches⟩
  exact ⟨_, congrArg TetherBatches.batches hbatches⟩

variable [LawfulOrder S]

theorem solveIslandBy_eq {w : Workspace S} (h : w.Grouped) (schedule : Schedule) (config : Config S)
    (store : ParticleStore S) (dt : S) :
    solveIslandBy schedule config store dt w = solveIsland config store dt w := by
  have hgather : (w.gather store).Grouped := h
  unfold solveIslandBy solveIsland
  rw [hgather.solve_scheduled]
  refine bind_congr_of_ok fun solved hsolved => ?_
  exact ((hgather.solve config dt .serial).holds_of_eq hsolved).pushOut_scheduled _ schedule

/-- A linked world moves alike under all schedules. -/
theorem Linked.moveBy_eq_move {w : World S} (h : w.Linked) (choose : Choice S) (dt : S) :
    w.moveBy choose dt = w.move dt := by
  have hlist : ∀ (store : ParticleStore S) (islands : List (Workspace S)),
      (∀ ws ∈ islands, ws.Grouped) →
      (islands.mapM fun ws => solveIslandBy (choose w ws) w.config store dt ws) =
        islands.mapM (solveIsland w.config store dt) := by
    intro store islands
    induction islands with
    | nil => exact fun _ => rfl
    | cons ws rest ih =>
      intro hall
      rw [List.forall_mem_cons] at hall
      rw [List.mapM_cons, List.mapM_cons, solveIslandBy_eq hall.1, ih hall.2]
  unfold moveBy move
  dsimp only
  rw [Array.mapM_eq_mapM_toList, Array.mapM_eq_mapM_toList,
    hlist _ _ fun ws hws => h.grouped (Array.mem_toList_iff.mp hws)]

/-- Only linked worlds are moved by a step, so that a step has the same outcome, or meets the same
fault, however islands are visited. -/
theorem stepWith_moveBy {w : World S} (h : w.Inv) (choose : Choice S)
    (snapshot : PushSnapshot S T) (hrange : Delta.AllInRange snapshot.deltas) :
    w.stepWith (moveBy choose) snapshot = w.step snapshot := by
  rw [← stepWith_move]
  unfold stepWith
  refine bind_congr_of_ok fun prepared hprepare => ?_
  rcases (prepare_ends h hrange).holds_of_eq hprepare with ⟨_, _, _, hlinked, _⟩
  simp only [hlinked.moveBy_eq_move]

/-- Whatever a world is asked, what is left does not depend on how islands were visited. -/
theorem runWith_moveBy {w : World S} (h : w.Inv) (choose : Choice S)
    {actions : List (Action S T)} (ha : ∀ s, .step s ∈ actions → Delta.AllInRange s.deltas) :
    w.runWith (moveBy choose) actions = w.run actions := by
  induction actions generalizing w with
  | nil => rfl
  | cons action rest ih =>
    have hrest : ∀ s, .step s ∈ rest → Delta.AllInRange s.deltas :=
      fun s hs => ha s (List.mem_cons_of_mem action hs)
    cases action with
    | step snapshot =>
      have hrange := ha snapshot List.mem_cons_self
      unfold runWith run
      rw [stepWith_moveBy h choose snapshot hrange]
      refine bind_congr_of_ok fun outcome hstep => ?_
      rcases (step_ends h snapshot hrange).holds_of_eq hstep with ⟨_, _, _, _, _, hinv, _⟩
      exact ih hinv hrest
    | configure config => exact ih (h.setConfig config) hrest
    | confirm => exact ih (h.setConfig w.config) hrest

end World

end TetheredParticles

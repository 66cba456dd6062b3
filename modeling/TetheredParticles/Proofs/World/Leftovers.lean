import TetheredParticles.Proofs.World.Pauses
import TetheredParticles.Proofs.World.Standing
/-!
# Forces that outlive their constraints

A world remembers the force of every joint and suspension from the last step that moved. A
constraint that is destroyed takes its force along. One that is dropped because a particle of it is
gone does not, and the force stays until something is destroyed under its name. If the name is given
to another constraint before that, while nothing moves, then the force is reported as that
constraint's own.

* `World.Constrains`, `World.Dangles` — joints and suspensions, and those that have lost a particle.
* `World.forces_updated`, `World.Constrains.updated` — forces and constraints after the deltas of a
  step.
* `World.Standing.known_step`, `World.Standing.forces_step` — constraints and forces after a step.
* `World.Since` — histories, in which nothing was destroyed under a name since a special step.
* `World.Exerted`, `World.contains_forces_iff` — which forces are remembered.
* `World.Abandoned`, `World.constrains_or_abandoned` — which of them are nobody's.
* `World.step_accounted` — what a step remembers and reports, after anything that was asked before.
-/

namespace TetheredParticles

variable {S T : Type} [Scalar S] [Scalar T] [Timeline S T]

omit [Scalar S] in
/-- Whether something is destroyed under a name. -/
def Delta.destroys (d : Delta S) (proxy : ProxyId) : Bool :=
  match d.command with
  | .destroy => decide (d.proxy = proxy)
  | _ => false

omit [Scalar S] in
theorem Delta.destroys_iff {d : Delta S} {proxy : ProxyId} :
    d.destroys proxy = true ↔ d = ⟨proxy, .destroy⟩ := by
  rcases d with ⟨owner, command⟩
  cases command with
  | destroy => simp [destroys]
  | _ => simp [destroys]

namespace World

variable {w after : World S} {proxy : ProxyId}

/-- A proxy is a joint or a suspension. -/
def Constrains (w : World S) (proxy : ProxyId) : Prop := proxy ∈ w.joints ∨ proxy ∈ w.suspensions

/-- A joint or suspension that acts on a particle that is gone. -/
def Dangles (w : World S) (proxy : ProxyId) : Prop :=
  w.Constrains proxy ∧ ¬ w.dropDangling.Constrains proxy

/-! ## Commands -/

omit [Scalar S] in
theorem Constrains.entered (h : w.Constrains proxy) {owner : ProxyId} (he : w.Entered owner after) :
    after.Constrains proxy := by
  have hafter : ∀ {records : Records S}, after.records = records →
      proxy ∈ records.joints ∨ proxy ∈ records.suspensions → after.Constrains proxy := by
    rintro _ rfl hp
    exact hp
  cases he with
  | nothing same => exact hafter same h
  | cluster c entered sized => exact hafter entered h
  | joint j entered =>
    exact hafter entered (h.imp_left fun hp => Std.TreeMap.mem_insert.mpr (.inr hp))
  | suspension s entered =>
    exact hafter entered (h.imp_right fun hp => Std.TreeMap.mem_insert.mpr (.inr hp))

omit [Scalar S] in
/-- To destroy one proxy leaves constraints of other names alone. -/
theorem Constrains.expunged (h : w.Constrains proxy) {owner : ProxyId}
    (he : w.Expunged owner after) (hne : proxy ≠ owner) : after.Constrains proxy := by
  have herase : ∀ {V : Type} {m m' : Std.TreeMap ProxyId V}, m' = m ∨ m' = m.erase owner →
      proxy ∈ m → proxy ∈ m' := by
    rintro V m _ (rfl | rfl) hmem
    · exact hmem
    · refine Std.TreeMap.mem_erase.mpr ⟨fun heq => hne ?_, hmem⟩
      exact (Std.LawfulEqCmp.eq_of_compare heq).symm
  exact h.imp (herase he.joints) (herase he.suspensions)

/-! ## Deltas -/

theorem forces_applyDelta (w : World S) (d : Delta S) (proxy : ProxyId) :
    (w.applyDelta d).2.forces[proxy]? = if d.destroys proxy then none else w.forces[proxy]? := by
  have hforces : (w.applyDelta d).2.forces = (w.applyCommand d.proxy d.command).2.forces := by
    unfold World.applyDelta
    split
    case h_1 heq => rw [heq]
    case h_2 heq => rw [heq]
  rw [hforces]
  rcases d with ⟨owner, command⟩
  by_cases hcommand : command = .destroy
  · subst hcommand
    show (w.destroy owner).2.forces[proxy]? = _
    rw [(expunged_destroy w owner).forces, Maps.getElem?_erase]
    unfold Delta.destroys
    simp only [decide_eq_true_eq, eq_comm (a := proxy)]
  · rw [(entered_applyCommand hcommand).forces, if_neg]
    intro hdestroys
    exact hcommand (congrArg Delta.command (Delta.destroys_iff.mp hdestroys))

theorem Constrains.applyDelta (h : w.Constrains proxy) {d : Delta S}
    (hd : d.destroys proxy = false) : (w.applyDelta d).2.Constrains proxy := by
  have hconstrains : (w.applyCommand d.proxy d.command).2.Constrains proxy := by
    by_cases hcommand : d.command = .destroy
    · rw [hcommand]
      refine h.expunged (expunged_destroy w d.proxy) fun heq => Bool.eq_false_iff.mp hd ?_
      rw [Delta.destroys_iff, heq, ← hcommand]
    · exact h.entered (entered_applyCommand hcommand)
  unfold World.applyDelta
  split
  case h_1 heq =>
    rw [heq] at hconstrains
    exact hconstrains
  case h_2 heq =>
    rw [heq] at hconstrains
    exact hconstrains

/-- Deltas leave the force under a name alone, or forget it because something of that name is
destroyed. -/
theorem forces_updated (w : World S) (deltas : List (Delta S)) (proxy : ProxyId) :
    (w.updated deltas).forces[proxy]? =
      if deltas.any (·.destroys proxy) then none else w.forces[proxy]? := by
  induction deltas using List.reverseRecOn with
  | nil => rfl
  | append_singleton deltas d ih =>
    rw [updated_concat, forces_applyDelta, ih, List.any_append, List.any_cons, List.any_nil,
      Bool.or_false]
    cases deltas.any (·.destroys proxy) <;> cases d.destroys proxy <;> rfl

/-- Constraints that are not destroyed outlast the deltas of a step. -/
theorem Constrains.updated (h : w.Constrains proxy) {deltas : List (Delta S)}
    (hdeltas : deltas.any (·.destroys proxy) = false) : (w.updated deltas).Constrains proxy := by
  induction deltas using List.reverseRecOn with
  | nil => exact h
  | append_singleton deltas d ih =>
    rw [List.any_append, List.any_cons, List.any_nil, Bool.or_false, Bool.or_eq_false_iff]
      at hdeltas
    rw [updated_concat]
    exact (ih hdeltas.1).applyDelta hdeltas.2

/-- Nothing is created under the name of a constraint. -/
theorem Constrains.not_created (h : w.Constrains proxy) (creation : Creation S) :
    (w.applyDelta ⟨proxy, .create creation⟩).1 = false := by
  have hknows : w.knows proxy = true := knows_iff.mpr (.inl h)
  unfold World.applyDelta World.applyCommand accept create?
  dsimp only
  rw [if_pos hknows]

/-! ## Steps -/

/-- The constraints that do not dangle. -/
theorem constrains_dropDangling_iff : w.dropDangling.Constrains proxy ↔
    (∃ j, w.joints[proxy]? = some j ∧ w.store.contains j.first = true ∧
      w.store.contains j.second = true) ∨
    ∃ s, w.suspensions[proxy]? = some s ∧ w.store.contains s.particle = true := by
  unfold Constrains
  rw [Std.TreeMap.mem_iff_isSome_getElem?, Std.TreeMap.mem_iff_isSome_getElem?]
  simp only [Option.isSome_iff_exists, joints_dropDangling_iff, suspensions_dropDangling_iff]

/-- No constraint of a linked world dangles. -/
theorem Linked.getElem?_dropDangling (h : w.Linked) (proxy : ProxyId) :
    w.dropDangling.joints[proxy]? = w.joints[proxy]? ∧
      w.dropDangling.suspensions[proxy]? = w.suspensions[proxy]? :=
  ⟨joints_dropDangling_eq (h.joints proxy), suspensions_dropDangling_eq (h.suspensions proxy)⟩

/-- To destroy particles leaves joints and suspensions alone. -/
theorem updated_destroy {owner : ProxyId} {handles : List ParticleHandle}
    (hm : w.members[owner]? = some handles) :
    (w.updated [⟨owner, .destroy⟩]).store = handles.foldl (fun store k => store.remove k) w.store ∧
      (w.updated [⟨owner, .destroy⟩]).joints = w.joints ∧
      (w.updated [⟨owner, .destroy⟩]).suspensions = w.suspensions := by
  unfold World.updated applyDeltas
  rw [List.foldl_cons, List.foldl_nil]
  unfold World.applyDelta World.applyCommand World.destroy remove?
  dsimp only
  rw [hm]
  exact ⟨rfl, rfl, rfl⟩

/-- A joint dangles once its second particle is destroyed. -/
theorem Unmixed.dangles_destroyed (h : w.Unmixed) {owner : ProxyId} {handles : List ParticleHandle}
    (hm : w.members[owner]? = some handles) {j : JointRecord S} (hj : w.joints[proxy]? = some j)
    (hsecond : j.second ∈ handles) : (w.updated [⟨owner, .destroy⟩]).Dangles proxy := by
  rcases updated_destroy hm with ⟨hstore, hjoints, hsuspensions⟩
  have hjoint : proxy ∈ w.joints := Std.TreeMap.mem_iff_isSome_getElem?.mpr (hj ▸ rfl)
  refine ⟨.inl (hjoints ▸ hjoint), ?_⟩
  rw [constrains_dropDangling_iff, hstore, hjoints, hsuspensions]
  rintro (⟨k, hk, _, hcontains⟩ | ⟨s, hs, _⟩)
  · cases hj.symm.trans hk
    rw [ParticleStore.contains_iff] at hcontains
    unfold ParticleStore.isAlive at hcontains
    -- the slot was vacated, or nothing of the list was in it
    rcases ParticleStore.slot_removeAll handles w.store j.second.index with
      ⟨_, hslot⟩ | ⟨hnone, hslot⟩
    · rw [hslot] at hcontains
      cases hcontains.1
    · rw [hslot] at hcontains
      have hbefore : w.store.contains j.second = true := ParticleStore.contains_iff.mpr hcontains
      rw [hnone j.second hsecond rfl] at hbefore
      cases hbefore
  · have hnot := (h.joints proxy (Std.TreeMap.contains_iff_mem.mpr hjoint)).2
    rw [Std.TreeMap.contains_eq_isSome_getElem?, hs] at hnot
    cases hnot

namespace Standing

variable {snapshot : PushSnapshot S T} {outcome : StepOutcome S T}

/-- A step is over with the particles and clusters that its deltas have left, and with the
constraints, except for those that dangle. -/
theorem known_step [LawfulSign S] (h : w.Standing) (hs : w.step snapshot = .ok outcome) :
    outcome.world.members = (w.updated snapshot.deltas).members ∧ ∀ proxy : ProxyId,
      outcome.world.joints[proxy]? = (w.updated snapshot.deltas).dropDangling.joints[proxy]? ∧
      outcome.world.suspensions[proxy]? =
        (w.updated snapshot.deltas).dropDangling.suspensions[proxy]? := by
  rcases h.step_eq hs with ⟨before, _, hpoised, rfl⟩
  rcases known_stepped before snapshot with ⟨hmembers, _, hjoints, hsuspensions⟩
  dsimp only
  rw [hmembers, hjoints, hsuspensions]
  rcases hpoised.refreshed with rfl | hrebuilt
  · exact ⟨rfl, fun proxy => ⟨(hpoised.linked.getElem?_dropDangling proxy).1.symm,
      (hpoised.linked.getElem?_dropDangling proxy).2.symm⟩⟩
  · rw [hrebuilt.joints, hrebuilt.suspensions]
    exact ⟨hrebuilt.members, fun _ => ⟨rfl, rfl⟩⟩

theorem constrains_step [LawfulSign S] (h : w.Standing) (hs : w.step snapshot = .ok outcome) :
    outcome.world.Constrains proxy ↔ (w.updated snapshot.deltas).dropDangling.Constrains proxy := by
  rcases (h.known_step hs).2 proxy with ⟨hjoint, hsuspension⟩
  unfold Constrains
  simp only [Std.TreeMap.mem_iff_isSome_getElem?]
  rw [hjoint, hsuspension]

/-- A step that moves leaves every constraint with a force. All other forces are those that the
deltas have left. -/
theorem forces_step [LawfulSign S] (h : w.Standing) (hs : w.step snapshot = .ok outcome)
    (proxy : ProxyId) :
    (0 < snapshot.dt ∧ outcome.world.Constrains proxy →
      outcome.world.forces.contains proxy = true) ∧
    (¬ (0 < snapshot.dt ∧ outcome.world.Constrains proxy) → outcome.world.forces[proxy]? =
      if snapshot.deltas.any (·.destroys proxy) then none else w.forces[proxy]?) := by
  rcases h.step_eq hs with ⟨before, hprepare, hpoised, rfl⟩
  have hforces : before.forces = (w.updated snapshot.deltas).forces :=
    (refreshed_of_refresh (prepare_eq_ok.mp hprepare).2).forces
  rcases hpoised.remembers with ⟨directions, hremembers⟩
  rcases known_stepped before snapshot with ⟨_, _, hjoints, hsuspensions⟩
  unfold Constrains
  dsimp only
  rw [hjoints, hsuspensions, ← forces_updated, ← hforces]
  unfold World.stepped
  by_cases hdt : 0 < snapshot.dt
  · rw [if_pos hdt, Std.TreeMap.contains_eq_isSome_getElem?]
    dsimp only
    -- what moves exerts a force on every constraint, and copies the forces under other names
    rw [hpoised.linked.forces_moved hpoised.sound.weighed hpoised.tenancy.unmixed hremembers]
    simp only [Std.TreeMap.contains_iff_mem]
    constructor
    · rintro ⟨_, hjoint | hsuspension⟩
      · rw [if_pos hjoint]
        rfl
      · rw [if_pos hsuspension]
        split
        · rfl
        · rfl
    · intro hnot
      rw [if_neg fun hjoint => hnot ⟨hdt, .inl hjoint⟩,
        if_neg fun hsuspension => hnot ⟨hdt, .inr hsuspension⟩]
  · rw [if_neg hdt]
    exact ⟨fun hmoved => absurd hmoved.1 hdt, fun _ => rfl⟩

end Standing

/-! ## Histories -/

theorem run_append (w : World S) (actions rest : List (Action S T)) :
    w.run (actions ++ rest) = w.run actions >>= (·.run rest) := by
  induction actions generalizing w with
  | nil => rfl
  | cons action actions ih =>
    cases action with
    | step snapshot =>
      rw [List.cons_append, run, run]
      cases w.step snapshot with
      | error fault => rfl
      | ok outcome => exact ih outcome.world
    | configure config => exact ih _
    | confirm => exact ih _

/-- In the past of a world, one of its steps was special, and after that step nothing was destroyed
under a name. -/
def Since (config : Config S) (actions : List (Action S T)) (proxy : ProxyId)
    (special : World S → PushSnapshot S T → Prop) : Prop :=
  ∃ earlier snapshot later w, actions = earlier ++ .step snapshot :: later ∧
    (empty config).run earlier = .ok w ∧ special w snapshot ∧
    ∀ s, .step s ∈ later → s.deltas.any (·.destroys proxy) = false

/-- A step that moved has exerted the force of a proxy. -/
def Exerted (config : Config S) (actions : List (Action S T)) (proxy : ProxyId) : Prop :=
  Since config actions proxy fun w snapshot => 0 < snapshot.dt ∧
    ∃ outcome, w.step snapshot = .ok outcome ∧ outcome.world.Constrains proxy

/-- A step has dropped a constraint, because a particle of it was gone. -/
def Abandoned (config : Config S) (actions : List (Action S T)) (proxy : ProxyId) : Prop :=
  Since config actions proxy fun w snapshot => (w.updated snapshot.deltas).Dangles proxy

section Since

variable {config : Config S} {actions : List (Action S T)}
  {special : World S → PushSnapshot S T → Prop}

theorem not_since_nil : ¬ Since config [] proxy special := by
  rintro ⟨earlier, snapshot, later, w, hactions, _⟩
  simp at hactions

/-- The last step was special, or the special step lies further back and the last one destroys
nothing. -/
theorem since_concat (hrun : (empty config).run actions = .ok w) (action : Action S T) :
    Since config (actions ++ [action]) proxy special ↔
      (∃ snapshot, action = .step snapshot ∧ special w snapshot) ∨
      Since config actions proxy special ∧
        ∀ snapshot, action = .step snapshot → snapshot.deltas.any (·.destroys proxy) = false := by
  constructor
  · rintro ⟨earlier, first, later, v, hactions, hv, hspecial, hlater⟩
    rcases later.eq_nil_or_concat with rfl | ⟨rest, last, rfl⟩
    · rcases List.append_inj' hactions rfl with ⟨rfl, hlast⟩
      cases hrun.symm.trans hv
      exact .inl ⟨first, (List.cons.inj hlast).1, hspecial⟩
    · rw [List.concat_eq_append] at hactions hlater
      rw [← List.cons_append, ← List.append_assoc] at hactions
      rcases List.append_inj' hactions rfl with ⟨rfl, hlast⟩
      refine .inr ⟨⟨earlier, first, rest, v, rfl, hv, hspecial, fun s hs => ?_⟩, fun s hs => ?_⟩
      · exact hlater s (List.mem_append_left _ hs)
      · exact hlater s (List.mem_append_right _ (hs ▸ hlast ▸ List.mem_cons_self))
  · rintro (⟨snapshot, rfl, hspecial⟩ |
      ⟨⟨earlier, first, later, v, rfl, hv, hspecial, hlater⟩, hlast⟩)
    · exact ⟨actions, snapshot, [], w, rfl, hrun, hspecial, fun s hs => absurd hs List.not_mem_nil⟩
    · refine ⟨earlier, first, later ++ [action], v, by simp, hv, hspecial, fun s hs => ?_⟩
      rcases List.mem_append.mp hs with hs | hs
      · exact hlater s hs
      · exact hlast s (List.mem_singleton.mp hs).symm

theorem since_step (hrun : (empty config).run actions = .ok w) {snapshot : PushSnapshot S T} :
    Since config (actions ++ [.step snapshot]) proxy special ↔ special w snapshot ∨
      Since config actions proxy special ∧ snapshot.deltas.any (·.destroys proxy) = false := by
  rw [since_concat hrun]
  simp only [Action.step.injEq, exists_eq_left', forall_eq']

/-- What is no step is not special and destroys nothing. -/
theorem since_settings (hrun : (empty config).run actions = .ok w) {action : Action S T}
    (haction : ∀ s, action ≠ .step s) :
    Since config (actions ++ [action]) proxy special ↔ Since config actions proxy special := by
  rw [since_concat hrun]
  simp only [haction, false_and, exists_false, false_or, false_implies, implies_true, and_true]

end Since

/-! ## Whole runs -/

theorem exists_of_run_concat {config : Config S} {actions : List (Action S T)} {action : Action S T}
    (hrun : (empty config).run (actions ++ [action]) = .ok w) :
    ∃ v : World S, (empty config).run actions = .ok v ∧ v.run [action] = .ok w := by
  rw [run_append] at hrun
  exact exists_of_bind_ok hrun

theorem exists_of_run_step {snapshot : PushSnapshot S T}
    (hrun : w.run [.step snapshot] = .ok after) :
    ∃ outcome, w.step snapshot = .ok outcome ∧ outcome.world = after := by
  rw [run] at hrun
  rcases exists_of_bind_ok hrun with ⟨outcome, houtcome, hworld⟩
  cases hworld
  exact ⟨outcome, houtcome, rfl⟩

/-- The remembered forces are those that were exerted. -/
theorem contains_forces_iff [LawfulSign S] {config : Config S} {actions : List (Action S T)}
    (hrun : (empty config).run actions = .ok w) (proxy : ProxyId) :
    w.forces.contains proxy = true ↔ Exerted config actions proxy := by
  unfold Exerted
  -- from the end, because a history tells what was not done later
  induction actions using List.reverseRecOn generalizing w with
  | nil =>
    cases hrun
    exact iff_of_false (by simp [empty]) not_since_nil
  | append_singleton actions action ih =>
    rcases exists_of_run_concat hrun with ⟨v, hv, hrun⟩
    cases action with
    | step snapshot =>
      rcases exists_of_run_step hrun with ⟨outcome, hs, rfl⟩
      rcases (standing_of_run hv).forces_step hs proxy with ⟨hexerted, hleft⟩
      rw [since_step hv, ← ih hv]
      -- the step exerts the force itself, or leaves what its deltas have left
      by_cases hmoved : 0 < snapshot.dt ∧ outcome.world.Constrains proxy
      · exact iff_of_true (hexerted hmoved) (.inl ⟨hmoved.1, outcome, hs, hmoved.2⟩)
      · have hnot : ¬ (0 < snapshot.dt ∧
            ∃ outcome, v.step snapshot = .ok outcome ∧ outcome.world.Constrains proxy) := by
          rintro ⟨hdt, other, hother, hp⟩
          cases hs.symm.trans hother
          exact hmoved ⟨hdt, hp⟩
        rw [or_iff_right hnot, Std.TreeMap.contains_eq_isSome_getElem?, hleft hmoved,
          Std.TreeMap.contains_eq_isSome_getElem?]
        cases snapshot.deltas.any (·.destroys proxy) <;> simp
    | configure settings =>
      cases hrun
      rw [since_settings hv fun _ heq => by cases heq]
      exact ih (w := v) hv
    | confirm =>
      cases hrun
      rw [since_settings hv fun _ heq => by cases heq]
      exact ih (w := v) hv

/-- A remembered force is that of a constraint, or of one that was dropped. -/
theorem constrains_or_abandoned [LawfulSign S] {config : Config S} {actions : List (Action S T)}
    (hrun : (empty config).run actions = .ok w) (hforce : w.forces.contains proxy = true) :
    w.Constrains proxy ∨ Abandoned config actions proxy := by
  unfold Abandoned
  induction actions using List.reverseRecOn generalizing w with
  | nil =>
    cases hrun
    simp [empty] at hforce
  | append_singleton actions action ih =>
    rcases exists_of_run_concat hrun with ⟨v, hv, hrun⟩
    cases action with
    | step snapshot =>
      rcases exists_of_run_step hrun with ⟨outcome, hs, rfl⟩
      rw [since_step hv]
      by_cases hp : outcome.world.Constrains proxy
      · exact .inl hp
      · refine .inr ?_
        rw [Std.TreeMap.contains_eq_isSome_getElem?,
          ((standing_of_run hv).forces_step hs proxy).2 fun hmoved => hp hmoved.2] at hforce
        split at hforce
        case isTrue => cases hforce
        case isFalse hdestroys =>
          replace hdestroys := Bool.eq_false_iff.mpr hdestroys
          rw [← Std.TreeMap.contains_eq_isSome_getElem?] at hforce
          -- a constraint that is not destroyed is lost only if it dangles
          rcases ih hv hforce with hbefore | habandoned
          · refine .inl ⟨hbefore.updated hdestroys, ?_⟩
            exact mt ((standing_of_run hv).constrains_step hs).mpr hp
          · exact .inr ⟨habandoned, hdestroys⟩
    | configure settings =>
      cases hrun
      rw [since_settings hv fun _ heq => by cases heq]
      exact ih (w := v) hv hforce
    | confirm =>
      cases hrun
      rw [since_settings hv fun _ heq => by cases heq]
      exact ih (w := v) hv hforce

/-- When something is created under a name, no force is remembered under it, unless it is that of a
constraint that was dropped. -/
theorem forgotten_of_created [LawfulSign S] {config : Config S} {actions : List (Action S T)}
    (hrun : (empty config).run actions = .ok w) {earlier : List (Delta S)} {creation : Creation S}
    (happlied : ((w.updated earlier).applyDelta ⟨proxy, .create creation⟩).1 = true)
    (hdestroyed : Abandoned config actions proxy → earlier.any (·.destroys proxy) = true) :
    earlier.any (·.destroys proxy) = true ∨ w.forces[proxy]? = none := by
  cases hdestroys : earlier.any (·.destroys proxy) with
  | true => exact .inl rfl
  | false =>
    refine .inr (Std.TreeMap.getElem?_eq_none fun hforce => ?_)
    rcases constrains_or_abandoned hrun (Std.TreeMap.contains_iff_mem.mpr hforce) with
      hbefore | habandoned
    · -- nothing is created where a constraint is
      rw [(hbefore.updated hdestroys).not_created] at happlied
      cases happlied
    · rw [hdestroyed habandoned] at hdestroys
      cases hdestroys

/-- What a step remembers of forces, and what it reports of them. -/
structure Accounted (config : Config S) (actions : List (Action S T)) (w : World S)
    (snapshot : PushSnapshot S T) (outcome : StepOutcome S T) : Prop where
  /-- The forces that were exerted are remembered, and no others. -/
  remembered : ∀ proxy, outcome.world.forces.contains proxy = true ↔
    Exerted config (actions ++ [.step snapshot]) proxy
  /-- Forces that are nobody's are those of constraints that were dropped. -/
  owned : ∀ proxy, outcome.world.forces.contains proxy = true →
    outcome.world.Constrains proxy ∨ Abandoned config (actions ++ [.step snapshot]) proxy
  /-- A step that does not move forgets what is destroyed, and changes nothing else. -/
  paused : ¬ 0 < snapshot.dt → ∀ proxy : ProxyId, outcome.world.forces[proxy]? =
    if snapshot.deltas.any (·.destroys proxy) then none else w.forces[proxy]?
  /-- Every constraint is reported with the force under its name, or with zero. -/
  reported : ∀ proxy, outcome.world.Constrains proxy →
    0 < snapshot.dt ∨ w.Addressed snapshot.deltas proxy →
    ∀ r, r ∈ outcome.pull.results ∧ r.proxy = proxy ↔
      r = ⟨proxy, .constraint (outcome.world.forces.getD proxy 0)⟩
  /-- A constraint that is created while nothing moves is reported with zero, unless its name is
  that of one that was dropped, and nothing has been destroyed under that name. -/
  fresh : ¬ 0 < snapshot.dt → ∀ earlier proxy creation later,
    snapshot.deltas = earlier ++ ⟨proxy, .create creation⟩ :: later →
    ((w.updated earlier).applyDelta ⟨proxy, .create creation⟩).1 = true →
    outcome.world.Constrains proxy →
    (Abandoned config actions proxy → earlier.any (·.destroys proxy) = true) →
    ∀ r, r ∈ outcome.pull.results ∧ r.proxy = proxy ↔ r = ⟨proxy, .constraint 0⟩

/-- A constraint that is reported is reported with the force under its name. -/
theorem Rested.reported_constraint [LawfulSign S] (h : w.Rested) {snapshot : PushSnapshot S T}
    {outcome : StepOutcome S T} (hs : w.step snapshot = .ok outcome)
    (hp : outcome.world.Constrains proxy)
    (htold : 0 < snapshot.dt ∨ w.Addressed snapshot.deltas proxy) (r : ProxyResult S) :
    r ∈ outcome.pull.results ∧ r.proxy = proxy ↔
      r = ⟨proxy, .constraint (outcome.world.forces.getD proxy 0)⟩ := by
  rcases exists_of_step hs with ⟨dropped, before, after, hprepare, hshifted, hresults, _, hworld⟩
  rcases h.prepared hprepare with ⟨htenancy, _, htouched⟩
  have hunmixed := (hshifted.tenancy htenancy).unmixed
  rw [hworld] at hp ⊢
  dsimp only
  -- a constraint has no particles, so that nothing else is reported under its name
  have hmember : after.members.contains proxy = false := by
    rcases hp with hjoint | hsuspension
    · exact (hunmixed.joints proxy (Std.TreeMap.contains_iff_mem.mpr hjoint)).1
    · exact hunmixed.suspensions proxy (Std.TreeMap.contains_iff_mem.mpr hsuspension)
  rw [hresults, mem_results_iff, hshifted.touched]
  simp only [decide_eq_true_eq, htouched]
  constructor
  · rintro ⟨⟨handles, hm, _, _⟩ | ⟨_, _, heq⟩, rfl⟩
    · rw [Std.TreeMap.contains_eq_isSome_getElem?, hm] at hmember
      cases hmember
    · exact heq
  · rintro rfl
    exact ⟨.inr ⟨hp, htold, rfl⟩, rfl⟩

/-- Whatever a world was asked before, and whatever a snapshot holds, the step accounts for the
forces that it remembers and reports; and no step fails if the snapshots are admissible. -/
theorem step_accounted [LawfulSign S] [LawfulDirections S] {config : Config S}
    {actions : List (Action S T)} (hrun : (empty config).run actions = .ok w)
    (snapshot : PushSnapshot S T) :
    (∀ outcome, w.step snapshot = .ok outcome → Accounted config actions w snapshot outcome) ∧
    ((∀ s, .step s ∈ actions → s.Admissible) → snapshot.Admissible →
      ∃ outcome, w.step snapshot = .ok outcome) := by
  refine ⟨fun outcome hs => ?_, fun ha hsnapshot => ?_⟩
  · have hrun' : (empty config).run (actions ++ [.step snapshot]) = .ok outcome.world := by
      rw [run_append, hrun]
      show (w.step snapshot >>= _) = _
      rw [hs]
      rfl
    have hreported := fun (proxy : ProxyId) (hp : outcome.world.Constrains proxy) =>
      ((Rested.empty config).run hrun).1.reported_constraint hs hp
    have hpaused : ¬ 0 < snapshot.dt → ∀ proxy : ProxyId, outcome.world.forces[proxy]? =
        if snapshot.deltas.any (·.destroys proxy) then none else w.forces[proxy]? :=
      fun hdt proxy => ((standing_of_run hrun).forces_step hs proxy).2 fun hmoved => hdt hmoved.1
    refine ⟨contains_forces_iff hrun', fun _ => constrains_or_abandoned hrun', hpaused, hreported,
      ?_⟩
    intro hdt earlier proxy creation later hdeltas happlied hp hdestroyed
    have hnone : outcome.world.forces[proxy]? = none := by
      rw [hpaused hdt]
      rcases forgotten_of_created hrun happlied hdestroyed with hdestroys | hnone
      · rw [hdeltas, List.any_append, hdestroys]
        rfl
      · rw [hnone, ite_self]
    have htold := hreported proxy hp (.inr ⟨earlier, _, later, hdeltas, rfl, happlied⟩)
    rw [Std.TreeMap.getD_eq_getD_getElem?, hnone] at htold
    exact htold
  · rcases (grown_of_run ha hrun).step hsnapshot with ⟨outcome, hs, _⟩
    exact ⟨outcome, hs⟩

/-- A constraint that is created while nothing moves has no force yet. -/
def hang : PushSnapshot Float32 Float := { hinge with dt := 0 }

theorem hinge_admissible : hinge.Admissible := by
  intro d hd
  simp only [hinge, List.mem_cons, List.not_mem_nil, or_false] at hd
  rcases hd with rfl | rfl | rfl
  · exact ⟨trivial, (by decide : (0 : Nat) < 2 ^ 32)⟩
  · exact ⟨trivial, (by decide : (1 : Nat) < 2 ^ 32)⟩
  · exact ⟨trivial, trivial⟩

/-- The joint is reported with zero. -/
theorem hang_accounted : ∃ outcome : StepOutcome Float32 Float,
    (empty .standard).run ([] : List (Action Float32 Float)) = .ok (empty .standard) ∧
    (empty .standard).step hang = .ok outcome ∧
    Accounted Config.standard [] (empty .standard) hang outcome ∧
    ∀ r, r ∈ outcome.pull.results ∧ r.proxy = ⟨2, 0⟩ ↔ r = ⟨⟨2, 0⟩, .constraint 0⟩ := by
  have hrun : (empty Config.standard).run ([] : List (Action Float32 Float)) =
      .ok (empty Config.standard) := rfl
  rcases step_accounted hrun hang with ⟨haccounted, hends⟩
  rcases hends (fun s hs => absurd hs List.not_mem_nil) hinge_admissible with ⟨outcome, hs⟩
  refine ⟨outcome, hrun, hs, haccounted outcome hs, ?_⟩
  refine (haccounted outcome hs).fresh (by decide) (hang.deltas.take 2) ⟨2, 0⟩ _ [] rfl
    (by decide +kernel) ?_ fun habandoned => absurd habandoned not_since_nil
  refine ((Standing.empty Config.standard).constrains_step hs).mpr (.inl ?_)
  rw [← Std.TreeMap.contains_iff_mem]
  decide +kernel

/-- The particle that the joint holds is destroyed. -/
def unhinge : PushSnapshot Float32 Float where
  timestamp := ⟨2⟩
  startTime := 1
  dt := 1
  step := 0
  stepCount := 1
  deltas := [⟨⟨1, 0⟩, .destroy⟩]

theorem unhinge_admissible : unhinge.Admissible := by
  intro d hd
  simp only [unhinge, List.mem_cons, List.not_mem_nil, or_false] at hd
  subst hd
  exact ⟨trivial, trivial⟩

/-- The joint goes with its particle, and its force stays. -/
theorem unhinge_remembers : ¬ ∀ (w : World Float32) (outcome : StepOutcome Float32 Float),
    (empty .standard).run [.step hinge] = .ok w → w.step unhinge = .ok outcome →
      ∀ proxy, outcome.world.forces.contains proxy = true → outcome.world.Constrains proxy := by
  intro hall
  have hempty : Standing (empty (S := Float32) Config.standard) := .empty _
  rcases (Grown.empty Config.standard).step hinge_admissible with ⟨one, hone, hgrown⟩
  rcases hgrown.step unhinge_admissible with ⟨two, htwo, _⟩
  have hrun : (empty Config.standard).run [.step hinge] = .ok one.world := by
    unfold World.run
    rw [hone]
    rfl
  have hstanding := standing_of_run hrun
  -- the first step leaves the joint, with a force
  rcases hempty.known_step hone with ⟨hmembers, hconstraints⟩
  have hforce : one.world.forces.contains ⟨2, 0⟩ = true := by
    refine (hempty.forces_step hone _).1 ⟨by decide, (hempty.constrains_step hone).mpr (.inl ?_)⟩
    rw [← Std.TreeMap.contains_iff_mem]
    decide +kernel
  have hmember : one.world.members[(⟨1, 0⟩ : ProxyId)]? = some [⟨1, 0⟩] := by
    rw [hmembers]
    decide +kernel
  have hjoint : one.world.joints[(⟨2, 0⟩ : ProxyId)]?.map (·.second) = some ⟨1, 0⟩ := by
    rw [(hconstraints _).1]
    decide +kernel
  rcases Option.map_eq_some_iff.mp hjoint with ⟨j, hj, hsecond⟩
  -- the second step drops the joint, but not the force
  have hdangles : (one.world.updated unhinge.deltas).Dangles ⟨2, 0⟩ :=
    hstanding.tenancy.unmixed.dangles_destroyed hmember hj (hsecond ▸ List.mem_cons_self)
  have hgone : ¬ two.world.Constrains ⟨2, 0⟩ := mt (hstanding.constrains_step htwo).mp hdangles.2
  refine hgone (hall one.world two hrun htwo ⟨2, 0⟩ ?_)
  rw [Std.TreeMap.contains_eq_isSome_getElem?,
    (hstanding.forces_step htwo ⟨2, 0⟩).2 fun hmoved => hgone hmoved.2,
    if_neg (by decide), ← Std.TreeMap.contains_eq_isSome_getElem?]
  exact hforce

end World

end TetheredParticles

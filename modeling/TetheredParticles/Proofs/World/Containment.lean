import TetheredParticles.Proofs.World.InPlace
import TetheredParticles.Proofs.World.Tenancy
/-!
# What a delta cannot do

A delta that is given up leaves everything as it was, and one that is applied leaves everything as it
was that belongs to other proxies. For the first half nothing is asked of the world; for the second
one, slots and lists have to agree on who lives where, since the destruction of a proxy goes by its
list.

* `World.Unharmed`, `World.unharmed_of_rejected` — what a dropped delta leaves as it was.
* `World.Spared`, `World.Tenancy.spared_applyDelta` — what a delta leaves as it was for others.
* `World.applyDelta_contained` — both, for every world that is met on the way.
-/

namespace TetheredParticles

variable {S T : Type} [Scalar S] [Scalar T] [Timeline S T]

namespace World

/-! ## Dropped deltas -/

/-- Nothing has changed but perhaps which forces are remembered. -/
structure Unharmed (w after : World S) : Prop where
  store : after.store = w.store
  members : after.members = w.members
  clusters : after.clusters = w.clusters
  joints : after.joints = w.joints
  suspensions : after.suspensions = w.suspensions
  workspaces : after.workspaces = w.workspaces
  topologyDirty : after.topologyDirty = w.topologyDirty
  touched : after.touched = w.touched

variable {w after : World S} {proxy : ProxyId}

omit [Scalar S] in
theorem eq_of_rejected {result : Option (World S)} (h : (w.accept result).1 = false) :
    (w.accept result).2 = w := by
  cases result with
  | none => rfl
  | some after => cases h

theorem unharmed_applyCommand {command : Command S}
    (h : (w.applyCommand proxy command).1 = false) :
    w.Unharmed (w.applyCommand proxy command).2 := by
  have hsame : ∀ {after : World S}, after = w → w.Unharmed after := by
    rintro _ rfl
    exact ⟨rfl, rfl, rfl, rfl, rfl, rfl, rfl, rfl⟩
  cases command with
  | destroy =>
    change (w.destroy proxy).1 = false at h
    change w.Unharmed (w.destroy proxy).2
    unfold World.destroy at h ⊢
    dsimp only at h ⊢
    split at h
    case h_1 => cases h
    case h_2 => exact ⟨rfl, rfl, rfl, rfl, rfl, rfl, rfl, rfl⟩
  | _ => exact hsame (eq_of_rejected h)

/-- A delta that is dropped has changed nothing. -/
theorem unharmed_of_rejected {delta : Delta S} (h : (w.applyDelta delta).1 = false) :
    w.Unharmed (w.applyDelta delta).2 := by
  unfold World.applyDelta at h ⊢
  split at h
  case h_1 => cases h
  case h_2 after heq =>
    have hunharmed := unharmed_applyCommand (congrArg Prod.fst heq)
    rw [heq] at hunharmed
    exact hunharmed

/-! ## Other proxies -/

end World

/-- An island without the constraints of a proxy. -/
def Workspace.without (proxy : ProxyId) (ws : Workspace S) : Workspace S :=
  { ws with
    tethers := ws.tethers.filter (·.1 ≠ proxy)
    joints := ws.joints.filter (·.1 ≠ proxy)
    suspensions := ws.suspensions.filter (·.1 ≠ proxy) }

namespace World

variable {w after : World S} {proxy : ProxyId}

/-- What is known about other proxies is as it was, and so are the copies of their constraints. -/
structure Aside (proxy : ProxyId) (w after : World S) : Prop where
  members : ∀ owner : ProxyId, owner ≠ proxy → after.members[owner]? = w.members[owner]?
  clusters : ∀ owner : ProxyId, owner ≠ proxy → after.clusters[owner]? = w.clusters[owner]?
  joints : ∀ owner : ProxyId, owner ≠ proxy → after.joints[owner]? = w.joints[owner]?
  suspensions : ∀ owner : ProxyId, owner ≠ proxy →
    after.suspensions[owner]? = w.suspensions[owner]?
  copies : after.workspaces.map (·.without proxy) = w.workspaces.map (·.without proxy)

/-- Everything that belongs to other proxies is as it was, the slots that are or were let to them
included. -/
structure Spared (proxy : ProxyId) (w after : World S) : Prop extends Aside proxy w after where
  slots : ∀ (i : Nat) (owner : ProxyId), owner ≠ proxy →
    (w.store.slot i).owner = some owner ∨ (after.store.slot i).owner = some owner →
    after.store.slot i = w.store.slot i

namespace Aside

omit [Scalar S] in
theorem refl (w : World S) (proxy : ProxyId) : Aside proxy w w :=
  ⟨fun _ _ => rfl, fun _ _ => rfl, fun _ _ => rfl, fun _ _ => rfl, rfl⟩

omit [Scalar S] in
theorem insert_of_ne {V : Type} {m : Std.TreeMap ProxyId V} {v : V} {owner : ProxyId}
    (h : owner ≠ proxy) : (m.insert proxy v)[owner]? = m[owner]? := by
  rw [Maps.getElem?_insert, if_neg h]

omit [Scalar S] in
theorem erase_of_ne {V : Type} {m : Std.TreeMap ProxyId V} {owner : ProxyId}
    (h : owner ≠ proxy) : (m.erase proxy)[owner]? = m[owner]? := by
  rw [Maps.getElem?_erase, if_neg h]

/-- A change of the constraints of a proxy does not show where they are left out. -/
theorem filter_patch {C : Type} (change : C → C) (owned : List (ProxyId × C)) :
    (patch proxy change owned).filter (·.1 ≠ proxy) = owned.filter (·.1 ≠ proxy) := by
  unfold patch
  induction owned with
  | nil => rfl
  | cons x rest ih =>
    rw [List.map_cons, List.filter_cons, List.filter_cons, ih]
    dsimp only
    by_cases h : x.1 = proxy
    · rw [if_neg (by simp [h]), if_neg (by simp [h])]
    · rw [if_neg h]

omit [Scalar S] in
/-- Copies of the constraints of a proxy are changed in every island. -/
theorem map_without {change : Workspace S → Workspace S} {workspaces : Array (Workspace S)}
    (h : ∀ ws : Workspace S, (change ws).without proxy = ws.without proxy) :
    (workspaces.map change).map (·.without proxy) = workspaces.map (·.without proxy) := by
  rw [Array.map_map]
  exact congrArg (workspaces.map ·) (funext h)

theorem addParts {creation : Creation S} (hw : w.addParts? proxy creation = some after) :
    Aside proxy w after := by
  cases creation with
  | particle handle particle =>
    rcases Turnover.eq_of_insertParticles hw with ⟨_, rfl⟩
    exact { refl w proxy with members := fun _ hne => insert_of_ne hne }
  | cluster handles particles adjacency stiffness =>
    simp only [addParts?] at hw
    split at hw
    case isFalse => cases hw
    case isTrue =>
      rcases Option.map_eq_some_iff.mp hw with ⟨inserted, hinserted, rfl⟩
      rcases Turnover.eq_of_insertParticles hinserted with ⟨_, rfl⟩
      exact { refl w proxy with
        members := fun _ hne => insert_of_ne hne
        clusters := fun _ hne => insert_of_ne hne }
  | joint handle first second restLength compliance =>
    simp only [addParts?] at hw
    split at hw
    case isFalse => cases hw
    case isTrue =>
      cases hw
      exact { refl w proxy with joints := fun _ hne => insert_of_ne hne }
  | suspension handle particle target restLength compliance =>
    simp only [addParts?] at hw
    split at hw
    case isFalse => cases hw
    case isTrue =>
      cases hw
      exact { refl w proxy with suspensions := fun _ hne => insert_of_ne hne }

theorem create {creation : Creation S} (hw : w.create? proxy creation = some after) :
    Aside proxy w after := by
  unfold create? at hw
  split at hw
  case isTrue => cases hw
  case isFalse =>
    rcases Option.map_eq_some_iff.mp hw with ⟨parts, hparts, rfl⟩
    exact { addParts hparts with }

theorem remove (hw : w.remove? proxy = some after) : Aside proxy w after := by
  unfold remove? at hw
  split at hw
  case h_1 =>
    cases hw
    exact { refl w proxy with
      members := fun _ hne => erase_of_ne hne
      clusters := fun _ hne => erase_of_ne hne }
  case h_2 =>
    split at hw
    case isTrue =>
      cases hw
      exact { refl w proxy with joints := fun _ hne => erase_of_ne hne }
    case isFalse =>
      split at hw
      case isTrue =>
        cases hw
        exact { refl w proxy with suspensions := fun _ hne => erase_of_ne hne }
      case isFalse => cases hw

theorem destroy (w : World S) (proxy : ProxyId) : Aside proxy w (w.destroy proxy).2 := by
  unfold World.destroy
  dsimp only
  split
  case h_1 after hw => exact { remove hw with }
  case h_2 => exact { refl w proxy with }

theorem write {particle : ParticleHandle} {change : ParticleStore S → Option (ParticleStore S)}
    (hw : w.writeParticle? proxy particle change = some after) : Aside proxy w after := by
  unfold writeParticle? at hw
  split at hw
  case isFalse => cases hw
  case isTrue =>
    rcases Option.map_eq_some_iff.mp hw with ⟨store, _, rfl⟩
    exact { refl w proxy with }

theorem setTetherStiffness {stiffness : S}
    (hw : w.setTetherStiffness? proxy stiffness = some after) : Aside proxy w after := by
  rcases Option.map_eq_some_iff.mp hw with ⟨c, _, rfl⟩
  refine { refl w proxy with clusters := fun _ hne => insert_of_ne hne, copies := ?_ }
  refine map_without fun ws => ?_
  unfold Workspace.without
  dsimp only
  rw [filter_patch]

omit [Scalar S] in
theorem setSuspensionTarget {handle : ConstraintHandle} {target : Vec3 S}
    (hw : w.setSuspensionTarget? proxy handle target = some after) : Aside proxy w after := by
  rcases Option.map_eq_some_iff.mp hw with ⟨s, _, rfl⟩
  refine { refl w proxy with suspensions := fun _ hne => insert_of_ne hne, copies := ?_ }
  refine map_without fun ws => ?_
  unfold Workspace.without
  dsimp only
  rw [filter_patch]

theorem setJointRestLength {handle : ConstraintHandle} {restLength : S}
    (hw : w.setJointRestLength? proxy handle restLength = some after) : Aside proxy w after := by
  rcases Option.map_eq_some_iff.mp hw with ⟨j, _, rfl⟩
  refine { refl w proxy with joints := fun _ hne => insert_of_ne hne, copies := ?_ }
  refine map_without fun ws => ?_
  unfold Workspace.without
  dsimp only
  rw [filter_patch]

omit [Scalar S] in
theorem accept {result : Option (World S)}
    (hresult : ∀ after, result = some after → Aside proxy w after) :
    Aside proxy w (w.accept result).2 := by
  unfold World.accept
  cases result with
  | none => exact refl w proxy
  | some after => exact hresult after rfl

theorem applyCommand (w : World S) (proxy : ProxyId) (command : Command S) :
    Aside proxy w (w.applyCommand proxy command).2 := by
  cases command with
  | create creation => exact accept fun _ hw => create hw
  | destroy => exact destroy w proxy
  | setPosition particle position => exact accept fun _ hw => write hw
  | setVelocity particle velocity => exact accept fun _ hw => write hw
  | setKinematicTarget particle target => exact accept fun _ hw => write hw
  | addForce particle force => exact accept fun _ hw => write hw
  | setInverseMass particle inverseMass =>
    refine accept fun _ hw => ?_
    rcases Option.map_eq_some_iff.mp hw with ⟨changed, hchanged, rfl⟩
    exact { write hchanged with }
  | setTetherStiffness stiffness => exact accept fun _ hw => setTetherStiffness hw
  | setSuspensionTarget handle target => exact accept fun _ hw => setSuspensionTarget hw
  | setJointRestLength handle restLength => exact accept fun _ hw => setJointRestLength hw

end Aside

/-- A slot that is or was let to another proxy is left alone. -/
theorem Tenancy.slot_other (h : w.Tenancy) (ht : w.Turnover proxy after) {i : Nat} {owner : ProxyId}
    (hne : owner ≠ proxy)
    (howner : (w.store.slot i).owner = some owner ∨ (after.store.slot i).owner = some owner) :
    after.store.slot i = w.store.slot i := by
  have hother : ∀ {s : ParticleSlot S}, s.owner = some proxy → s.owner ≠ some owner := by
    intro s hs ho
    rw [hs] at ho
    exact hne (Option.some.inj ho).symm
  rcases h.slot ht i with hsame | ⟨hproxy, hrevised⟩ | ⟨hdead, p, generation, hnew⟩ | ⟨hproxy, hgone⟩
  · exact hsame
  · rcases howner with ho | ho
    · exact absurd ho (hother hproxy)
    · exact absurd ho (hother (hrevised.owner.trans hproxy))
  · rcases howner with ho | ho
    · rw [(h.vacant i hdead).owner] at ho
      cases ho
    · exact absurd ho (hother (by rw [hnew]; rfl))
  · rcases howner with ho | ho
    · exact absurd ho (hother hproxy)
    · rw [hgone] at ho
      cases ho

/-- Whatever a delta does, it does to its own proxy. -/
theorem Tenancy.spared_applyDelta (h : w.Tenancy) (delta : Delta S) :
    Spared delta.proxy w (w.applyDelta delta).2 := by
  have hcommand : Spared delta.proxy w (w.applyCommand delta.proxy delta.command).2 :=
    { Aside.applyCommand w delta.proxy delta.command with
      slots := fun _ _ hne => h.slot_other (turnover_applyCommand w delta.proxy delta.command) hne }
  unfold World.applyDelta
  split
  case h_1 after heq =>
    rw [heq] at hcommand
    exact { hcommand with }
  case h_2 after heq =>
    rw [heq] at hcommand
    exact hcommand

/-! ## Worlds on the way -/

/-- In every world that is left by a run or met amid the deltas of a step, a delta that is applied in
place does the same as one that is decided about first; one that is given up has changed nothing, and
one that is applied has changed nothing of other proxies. -/
theorem applyDelta_contained [LawfulSign S] {config : Config S} {actions : List (Action S T)}
    {left w : World S} (hrun : (empty config).run actions = .ok left)
    (hw : w = left ∨ ∃ earlier, w = left.updated earlier) (delta : Delta S) :
    (InPlace.applyDelta delta).run w = w.applyDelta delta ∧
      ((w.applyDelta delta).1 = false → w.Unharmed (w.applyDelta delta).2) ∧
      ((w.applyDelta delta).1 = true → Spared delta.proxy w (w.applyDelta delta).2) := by
  have hleft := ((Rested.empty config).run hrun).1.tenancy
  have htenancy : w.Tenancy := by
    rcases hw with rfl | ⟨earlier, rfl⟩
    · exact hleft
    · exact (hleft.mark ∅).applyDeltas earlier
  exact ⟨InPlace.applyDelta_eq delta w, unharmed_of_rejected,
    fun _ => htenancy.spared_applyDelta delta⟩

/-- Two particles move in, of which the second one finds its slot occupied. -/
def squatters : Delta Float32 :=
  ⟨⟨3, 0⟩, .create (.cluster [⟨5, 0⟩, ⟨2, 1⟩] [.dynamic 0 1, .dynamic 0 1] (.ofEdges []) 1)⟩

/-- The cluster of the crowd moves out. -/
def departure : Delta Float32 := ⟨⟨0, 0⟩, .destroy⟩

/-- Amid the deltas of a crowd, the squatters are turned away and the cluster may leave. -/
theorem crowd_contained :
    let w : World Float32 := (empty .standard).updated crowd.deltas
    ((InPlace.applyDelta squatters).run w = w.applyDelta squatters ∧
      (w.applyDelta squatters).1 = false ∧ w.Unharmed (w.applyDelta squatters).2) ∧
    (InPlace.applyDelta departure).run w = w.applyDelta departure ∧
      (w.applyDelta departure).1 = true ∧ Spared departure.proxy w (w.applyDelta departure).2 := by
  intro w
  have hrun : (empty .standard).run ([] : List (Action Float32 Float)) = .ok (empty .standard) := rfl
  have hmet : w = empty .standard ∨ ∃ earlier, w = (empty .standard).updated earlier :=
    .inr ⟨crowd.deltas, rfl⟩
  have hrejected : (w.applyDelta squatters).1 = false := by decide +kernel
  have happlied : (w.applyDelta departure).1 = true := by decide +kernel
  rcases applyDelta_contained hrun hmet squatters with ⟨hsame, hunharmed, _⟩
  rcases applyDelta_contained hrun hmet departure with ⟨hsame', _, hspared⟩
  exact ⟨⟨hsame, hrejected, hunharmed hrejected⟩, hsame', happlied, hspared happlied⟩

end World

end TetheredParticles

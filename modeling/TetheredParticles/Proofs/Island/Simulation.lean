import TetheredParticles.Proofs.Island.Program
/-!
# Constraints follow their visits

Constraints find their particles by place and keep what they remember; visits find everything in
cells. When a constraint is projected and visited side by side, the positions and the memory go on
to be those in the cells.

* `visit_shown`, `apply_shown`, `project_shown` — tethers.
* `joint_shown`, `suspension_shown` — joints and suspensions.
* `ConstraintKind.Faithful.visitOwned` — several constraints in order.
-/

namespace TetheredParticles

variable {S : Type} [Scalar S]

/-! ## Tethers -/

variable {particles : Array Nat} {slotAt : Nat → Nat} (masses : Nat → S) (dt : S)
  {positions : Array (Vec3 S)} {σ : Motion S}

/-- Places in range have slots of their own. -/
structure Placed (particles : Array Nat) (slotAt : Nat → Nat) : Prop where
  nodup : particles.toList.Nodup
  slotAt : ∀ place < particles.size, particles[place]? = some (slotAt place)

theorem Placed.inj (h : Placed particles slotAt) {a b : Nat} (ha : a < particles.size)
    (hb : b < particles.size) (heq : slotAt a = slotAt b) : a = b := by
  have hone := h.slotAt a ha
  have htwo := h.slotAt b hb
  rw [← Array.getElem?_toList] at hone htwo
  refine (List.getElem?_inj (by simpa using ha) h.nodup).mp ?_
  rw [hone, htwo, heq]

omit [Scalar S] in
/-- Where the visits to tethers write. -/
theorem mem_writes_ofTethers {owner : ProxyId} {rule? : Option (TetherRule S)}
    {layers : List (Nat × Tether S)} {v : Visit S} (hv : v ∈ Visit.ofTethers owner rule? layers)
    {c : Cell} (hc : c ∈ v.writes) :
    ∃ x ∈ layers, c = .slot x.2.tip ∨ c = .tether owner x.1 x.2.tip := by
  unfold Visit.ofTethers at hv
  cases rule? with
  | none => cases hv
  | some rule =>
    rcases List.mem_map.mp hv with ⟨x, hx, rfl⟩
    exact ⟨x, hx, by simpa [Visit.writes] using hc⟩

/-- The multipliers that are remembered for tethers. -/
def memories (σ : Motion S) (slotAt : Nat → Nat) (owner : ProxyId)
    (layers : List (Nat × Tether S)) : List S :=
  layers.map fun x => (σ (.tether owner x.1 (slotAt x.2.tip))).2

/-- A pass over tethers that differ in their batches or in their tips. -/
theorem visit_shown (hp : Placed particles slotAt) (owner : ProxyId) (rule : TetherRule S)
    {layers : List (Nat × Tether S)}
    (hrange : ∀ x ∈ layers, x.2.anchor < particles.size ∧ x.2.tip < particles.size)
    (hnodup : (layers.map fun x => (x.1, x.2.tip)).Nodup) (h : Shown particles positions σ) :
    let xs := (layers.map (·.2)).zip (memories σ slotAt owner layers)
    let τ := Visit.runAll masses dt
      (layers.map fun x => .tether owner x.1 rule (x.2.relabel slotAt)) σ
    Shown particles (Total.visit rule xs positions).2 τ ∧
      (Total.visit rule xs positions).1 = memories τ slotAt owner layers := by
  induction layers generalizing positions σ with
  | nil => exact ⟨h, rfl⟩
  | cons x rest ih =>
    rcases x with ⟨layer, t⟩
    rw [List.map_cons, List.nodup_cons] at hnodup
    rcases hnodup with ⟨hfresh, hnodup⟩
    rcases hrange (layer, t) List.mem_cons_self with ⟨hanchor, htip⟩
    have hrest : ∀ y ∈ rest, y.2.anchor < particles.size ∧ y.2.tip < particles.size :=
      fun y hy => hrange y (List.mem_cons_of_mem _ hy)
    -- different tethers have different cells
    have hcells : ∀ y ∈ rest, ¬ (y.1 = layer ∧ slotAt y.2.tip = slotAt t.tip) := by
      rintro y hy ⟨hlayer, hslot⟩
      have htips := hp.inj (hrest y hy).2 htip hslot
      exact hfresh (List.mem_map.mpr ⟨y, hy, Prod.ext hlayer htips⟩)
    let first : Visit S := .tether owner layer rule (t.relabel slotAt)
    let step := Total.correction rule positions t (σ (.tether owner layer (slotAt t.tip))).2
    have hstep : Visit.run masses dt σ first = Function.update
        (Motion.move σ (slotAt t.tip) (· + step.1)) (.tether owner layer (slotAt t.tip))
          (0, step.2) := by
      have hpull : step = (t.relabel slotAt).pull rule (Motion.position σ (slotAt t.anchor))
          (Motion.position σ (slotAt t.tip)) (σ (.tether owner layer (slotAt t.tip))).2 := by
        rw [← h.getD (hp.slotAt _ hanchor), ← h.getD (hp.slotAt _ htip)]
        rfl
      rw [hpull]
      rfl
    have hshown : Shown particles (TetherRule.correct positions t.tip step.1)
        (Visit.run masses dt σ first) := by
      rw [hstep]
      refine (h.move hp.nodup (hp.slotAt _ htip) _).remember ?_ _
      intro slot heq
      cases heq
    have hmemories : memories (Visit.run masses dt σ first) slotAt owner rest =
        memories σ slotAt owner rest := by
      refine List.map_congr_left ?_
      intro y hy
      rw [Visit.run_frame]
      intro hwrites
      exact hcells y hy (by simpa [Visit.writes, first, Tether.relabel] using hwrites)
    rcases ih hrest hnodup hshown with ⟨hlast, hmultipliers⟩
    rw [hmemories] at hlast hmultipliers
    refine ⟨hlast, congrArg₂ List.cons ?_ hmultipliers⟩
    -- what the first tether remembers is not changed by the others
    show step.2 = (Visit.runAll masses dt _ (Visit.run masses dt σ first) _).2
    rw [Visit.runAll_frame, hstep, Function.update_self]
    intro v hv hwrites
    rcases List.mem_map.mp hv with ⟨y, hy, rfl⟩
    simp only [Visit.writes, Tether.relabel, List.mem_cons, Cell.tether.injEq, reduceCtorEq,
      List.not_mem_nil, or_false, false_or] at hwrites
    exact hcells y hy ⟨hwrites.2.1.symm, hwrites.2.2.symm⟩

/-- By a plain rule multipliers play no part. -/
theorem visit_plain (stiffness : S) {xs ys : List (Tether S × S)}
    (h : xs.map (·.1) = ys.map (·.1)) (positions : Array (Vec3 S)) :
    (Total.visit (.plain stiffness) xs positions).2 =
      (Total.visit (.plain stiffness) ys positions).2 := by
  induction xs generalizing ys positions with
  | nil =>
    cases ys with
    | nil => rfl
    | cons => cases h
  | cons x rest ih =>
    cases ys with
    | nil => cases h
    | cons y others =>
      rw [List.map_cons, List.map_cons, List.cons.injEq] at h
      rcases x with ⟨t, a⟩
      rcases y with ⟨u, b⟩
      rcases h with ⟨rfl, h⟩
      exact ih h _

/-- A set whose tethers have places in range and differ in their batches or in their tips. -/
structure TetherSet.Regular (set : TetherSet S) (size : Nat) : Prop where
  range : ∀ t ∈ set.batches.tethers, t.anchor < size ∧ t.tip < size
  tips : (set.layers.map fun x => (x.1, x.2.tip)).Nodup

omit [Scalar S] in
theorem TetherSet.Regular.layers {set : TetherSet S} {size : Nat} (h : set.Regular size) :
    ∀ x ∈ set.layers, x.2.anchor < size ∧ x.2.tip < size :=
  fun x hx => h.range x.2 (set.map_snd_layers ▸ List.mem_map_of_mem hx)

/-- A pass by a fraction of the violations. -/
theorem project_shown (hp : Placed particles slotAt) (owner : ProxyId) {set : TetherSet S}
    (hset : set.Regular particles.size) (stiffness : S) (h : Shown particles positions σ) :
    Shown particles (Total.project set.batches stiffness positions)
      (Visit.runAll masses dt (Visit.ofTethers owner
        (if stiffness ≤ 0 then none else some (.plain stiffness))
        (set.layers.map fun x => (x.1, x.2.relabel slotAt))) σ) := by
  unfold Total.project
  by_cases hzero : stiffness ≤ 0
  · rw [if_pos hzero, if_pos hzero]
    exact h
  · rw [if_neg hzero, if_neg hzero]
    -- the multipliers may as well be what the cells remember
    have hfirst : ∀ ms : List S, ms.length = set.batches.tethers.length →
        (set.batches.tethers.zip ms).map (·.1) = set.batches.tethers :=
      fun ms hms => List.map_fst_zip (Nat.le_of_eq hms.symm)
    have hlength : (memories σ slotAt owner set.layers).length = set.batches.tethers.length :=
      (List.length_map _).trans set.length_layers
    have hsame := (hfirst (List.replicate set.batches.size 0) List.length_replicate).trans
      (hfirst (memories σ slotAt owner set.layers) hlength).symm
    rw [visit_plain stiffness hsame, ← set.map_snd_layers]
    unfold Visit.ofTethers
    dsimp only
    rw [List.map_map]
    exact (visit_shown masses dt hp owner (.plain stiffness) hset.layers hset.tips h).1

/-- The multipliers of a set are those in the cells. -/
def TetherSet.Remembered (set : TetherSet S) (slotAt : Nat → Nat) (owner : ProxyId)
    (σ : Motion S) : Prop :=
  ∀ ms, set.multipliers? = some ms → ms = memories σ slotAt owner set.layers

/-- One projection pass over a set. -/
theorem apply_shown (hp : Placed particles slotAt) (owner : ProxyId) {set : TetherSet S}
    (hset : set.Regular particles.size) (h : Shown particles positions σ)
    (hmemory : set.Remembered slotAt owner σ) :
    let τ := Visit.runAll masses dt
      (Visit.ofTethers owner (set.rule? dt) (set.layers.map fun x => (x.1, x.2.relabel slotAt))) σ
    Shown particles (Total.apply set dt positions).2 τ ∧
      (Total.apply set dt positions).1.Remembered slotAt owner τ := by
  unfold Total.apply TetherSet.rule?
  cases set with
  | pbd batches =>
    refine ⟨project_shown masses dt hp owner hset batches.stiffness h, ?_⟩
    intro ms hms
    cases hms
  | xpbd batches multipliers =>
    dsimp only
    cases TetherSet.alpha? batches dt with
    | none => exact ⟨h, hmemory⟩
    | some alpha =>
      have hall : multipliers =
          memories σ slotAt owner (TetherSet.xpbd batches multipliers).layers := hmemory _ rfl
      have hvisit := visit_shown masses dt hp owner (.compliant alpha) hset.layers hset.tips h
      rw [← hall, TetherSet.map_snd_layers] at hvisit
      rcases hvisit with ⟨hshown, hmultipliers⟩
      unfold Visit.ofTethers
      dsimp only [Option.map_some]
      rw [List.map_map]
      refine ⟨hshown, ?_⟩
      rintro ms ⟨⟩
      exact hmultipliers

/-! ## Joints and suspensions -/

theorem Total.joint_eq_update (j : Joint S) (inverseMasses : Array S) (dt : S)
    (positions : Array (Vec3 S)) :
    Total.joint j inverseMasses dt positions =
      match j.update? (inverseMasses.getD j.first 0) (inverseMasses.getD j.second 0) dt
        (positions.getD j.first 0) (positions.getD j.second 0) j.multiplier with
      | none => (j, positions)
      | some (direction, update) =>
        ({ j with multiplier := j.multiplier + update, direction := direction },
          (positions.modify j.first (· - direction * update * inverseMasses.getD j.first 0)).modify
            j.second (· + direction * update * inverseMasses.getD j.second 0)) := by
  unfold Total.joint Joint.update?
  dsimp only
  split
  · rfl
  · rfl

theorem Total.suspension_eq_update (s : Suspension S) (inverseMasses : Array S) (dt : S)
    (positions : Array (Vec3 S)) :
    Total.suspension s inverseMasses dt positions =
      match s.update? (inverseMasses.getD s.particle 0) dt (positions.getD s.particle 0)
        s.multiplier with
      | none => (s, positions)
      | some (direction, update) =>
        ({ s with multiplier := s.multiplier + update, direction := direction },
          positions.modify s.particle
            (· + direction * update * inverseMasses.getD s.particle 0)) := by
  unfold Total.suspension Suspension.update?
  dsimp only
  split
  · rfl
  · rfl

/-- What a joint remembers is in its cell. -/
def Joint.Remembered (j : Joint S) (owner : ProxyId) (σ : Motion S) : Prop :=
  σ (.joint owner) = (j.direction, j.multiplier)

/-- What a suspension remembers is in its cell. -/
def Suspension.Remembered (s : Suspension S) (owner : ProxyId) (σ : Motion S) : Prop :=
  σ (.suspension owner) = (s.direction, s.multiplier)

/-- Inverse masses by place are those by slot. -/
def Weighs (inverseMasses : Array S) (size : Nat) (slotAt : Nat → Nat) (masses : Nat → S) : Prop :=
  ∀ place < size, inverseMasses.getD place 0 = masses (slotAt place)

variable {masses}

/-- One projection of a joint. -/
theorem joint_shown (hp : Placed particles slotAt) (owner : ProxyId) {j : Joint S}
    {inverseMasses : Array S} (hm : Weighs inverseMasses particles.size slotAt masses)
    (hfirst : j.first < particles.size) (hsecond : j.second < particles.size)
    (h : Shown particles positions σ) (hmemory : j.Remembered owner σ) :
    let τ := Visit.run masses dt σ
      (.joint owner (.create (slotAt j.first) (slotAt j.second) j.restLength j.compliance))
    Shown particles (Total.joint j inverseMasses dt positions).2 τ ∧
      (Total.joint j inverseMasses dt positions).1.Remembered owner τ := by
  rw [Total.joint_eq_update, hm _ hfirst, hm _ hsecond, h.getD (hp.slotAt _ hfirst),
    h.getD (hp.slotAt _ hsecond)]
  unfold Joint.Remembered at hmemory
  unfold Visit.run
  dsimp only [Joint.create]
  rw [hmemory]
  have hsame : ∀ wa wb a b (m : S),
      Joint.update? ⟨slotAt j.first, slotAt j.second, j.restLength, j.compliance, 0, 0⟩
        wa wb dt a b m = j.update? wa wb dt a b m := fun _ _ _ _ _ => rfl
  rw [hsame]
  cases j.update? _ _ _ _ _ _ with
  | none => exact ⟨h, hmemory⟩
  | some result =>
    rcases result with ⟨direction, update⟩
    constructor
    · have hmoved := (h.move hp.nodup (hp.slotAt _ hfirst)
        (· - direction * update * masses (slotAt j.first))).move hp.nodup (hp.slotAt _ hsecond)
        (· + direction * update * masses (slotAt j.second))
      refine hmoved.remember ?_ _
      intro slot heq
      cases heq
    · exact Function.update_self _ _ _

/-- One projection of a suspension. -/
theorem suspension_shown (hp : Placed particles slotAt) (owner : ProxyId) {s : Suspension S}
    {inverseMasses : Array S} (hm : Weighs inverseMasses particles.size slotAt masses)
    (hparticle : s.particle < particles.size) (h : Shown particles positions σ)
    (hmemory : s.Remembered owner σ) :
    let τ := Visit.run masses dt σ
      (.suspension owner (.create (slotAt s.particle) s.target s.restLength s.compliance))
    Shown particles (Total.suspension s inverseMasses dt positions).2 τ ∧
      (Total.suspension s inverseMasses dt positions).1.Remembered owner τ := by
  rw [Total.suspension_eq_update, hm _ hparticle, h.getD (hp.slotAt _ hparticle)]
  unfold Suspension.Remembered at hmemory
  unfold Visit.run
  dsimp only [Suspension.create]
  rw [hmemory]
  have hsame : ∀ w a (m : S),
      Suspension.update? ⟨slotAt s.particle, s.target, s.restLength, s.compliance, 0, 0⟩
        w dt a m = s.update? w dt a m := fun _ _ _ => rfl
  rw [hsame]
  cases s.update? _ _ _ _ with
  | none => exact ⟨h, hmemory⟩
  | some result =>
    rcases result with ⟨direction, update⟩
    constructor
    · refine (h.move hp.nodup (hp.slotAt _ hparticle) _).remember ?_ _
      intro slot heq
      cases heq
    · exact Function.update_self _ _ _

/-! ## Constraints in order -/

variable {dt}

/-- How constraints of a kind are projected and how they are visited, when one fits its island and
when its memory is in its cells. -/
structure ConstraintKind (S C : Type) where
  project : C → Array (Vec3 S) → C × Array (Vec3 S)
  visits : ProxyId → C → List (Visit S)
  fits : C → Prop
  /-- Whether what a constraint remembers is in the cells of its owner. -/
  remembered : C → ProxyId → Motion S → Prop

/-- Constraints of a kind move particles as their visits do and go on to remember what is in their
cells. They do not make others forget. -/
structure ConstraintKind.Faithful {C : Type} (k : ConstraintKind S C) (particles : Array Nat)
    (masses : Nat → S) (dt : S) : Prop where
  project : ∀ owner c (positions : Array (Vec3 S)) (σ : Motion S), k.fits c →
    Shown particles positions σ → k.remembered c owner σ →
    Shown particles (k.project c positions).2 (Visit.runAll masses dt (k.visits owner c) σ) ∧
      k.remembered (k.project c positions).1 owner (Visit.runAll masses dt (k.visits owner c) σ)
  others : ∀ owner c other d (σ : Motion S), other ≠ owner → k.remembered d other σ →
    k.remembered d other (Visit.runAll masses dt (k.visits owner c) σ)

namespace ConstraintKind

variable {C : Type} {k : ConstraintKind S C}

theorem Faithful.others_flatMap (hk : k.Faithful particles masses dt) {rest : List (ProxyId × C)}
    {other : ProxyId} {d : C} (hother : other ∉ rest.map (·.1)) (hd : k.remembered d other σ) :
    k.remembered d other
      (Visit.runAll masses dt (rest.flatMap fun x => k.visits x.1 x.2) σ) := by
  induction rest generalizing σ with
  | nil => exact hd
  | cons x rest ih =>
    rw [List.map_cons, List.mem_cons, not_or] at hother
    rw [List.flatMap_cons, Visit.runAll_append]
    exact ih hother.2 (hk.others x.1 x.2 other d σ hother.1 hd)

/-- Constraints of different owners are projected one after the other. -/
theorem Faithful.visitOwned (hk : k.Faithful particles masses dt) {owned : List (ProxyId × C)}
    (hnodup : (owned.map (·.1)).Nodup) (hfits : ∀ x ∈ owned, k.fits x.2)
    (h : Shown particles positions σ) (hmemory : ∀ x ∈ owned, k.remembered x.2 x.1 σ) :
    let τ := Visit.runAll masses dt (owned.flatMap fun x => k.visits x.1 x.2) σ
    Shown particles (Total.visitOwned k.project owned positions).2 τ ∧
      ∀ x ∈ (Total.visitOwned k.project owned positions).1, k.remembered x.2 x.1 τ := by
  induction owned generalizing positions σ with
  | nil =>
    refine ⟨h, ?_⟩
    intro x hx
    cases hx
  | cons x rest ih =>
    rcases x with ⟨owner, c⟩
    rw [List.map_cons, List.nodup_cons] at hnodup
    rcases hk.project owner c positions σ (hfits _ List.mem_cons_self) h
      (hmemory _ List.mem_cons_self) with ⟨hshown, hremembered⟩
    have hothers : ∀ y ∈ rest, k.remembered y.2 y.1
        (Visit.runAll masses dt (k.visits owner c) σ) := by
      intro y hy
      refine hk.others owner c y.1 y.2 σ ?_ (hmemory y (List.mem_cons_of_mem _ hy))
      intro heq
      exact hnodup.1 (List.mem_map.mpr ⟨y, hy, heq⟩)
    rcases ih hnodup.2 (fun y hy => hfits y (List.mem_cons_of_mem _ hy)) hshown hothers
      with ⟨hlast, hall⟩
    rw [List.flatMap_cons, Visit.runAll_append]
    refine ⟨hlast, ?_⟩
    intro y hy
    rcases List.mem_cons.mp hy with rfl | hy
    · exact hk.others_flatMap hnodup.1 hremembered
    · exact hall y hy

end ConstraintKind

/-- The tethers of clusters. -/
def TetherSet.kind (dt : S) (size : Nat) (slotAt : Nat → Nat) :
    ConstraintKind S (TetherSet S) where
  project set positions := Total.apply set dt positions
  visits owner set :=
    Visit.ofTethers owner (set.rule? dt) (set.layers.map fun x => (x.1, x.2.relabel slotAt))
  fits set := set.Regular size
  remembered set owner σ := set.Remembered slotAt owner σ

/-- Joints. -/
def Joint.kind (inverseMasses : Array S) (dt : S) (size : Nat) (slotAt : Nat → Nat) :
    ConstraintKind S (Joint S) where
  project j positions := Total.joint j inverseMasses dt positions
  visits owner j :=
    [.joint owner (.create (slotAt j.first) (slotAt j.second) j.restLength j.compliance)]
  fits j := j.first < size ∧ j.second < size
  remembered := Joint.Remembered

/-- Suspensions. -/
def Suspension.kind (inverseMasses : Array S) (dt : S) (size : Nat) (slotAt : Nat → Nat) :
    ConstraintKind S (Suspension S) where
  project s positions := Total.suspension s inverseMasses dt positions
  visits owner s :=
    [.suspension owner (.create (slotAt s.particle) s.target s.restLength s.compliance)]
  fits s := s.particle < size
  remembered := Suspension.Remembered

theorem TetherSet.kind_faithful (masses : Nat → S) (dt : S) (hp : Placed particles slotAt) :
    (TetherSet.kind dt particles.size slotAt).Faithful particles masses dt := by
  constructor
  · intro owner set positions σ hset h hmemory
    exact apply_shown masses dt hp owner hset h hmemory
  · intro owner set other otherSet σ hne hmemory ms hms
    rw [hmemory ms hms]
    refine List.map_congr_left ?_
    intro x _
    rw [Visit.runAll_frame]
    intro v hv hwrites
    rcases mem_writes_ofTethers hv hwrites with ⟨y, _, heq | heq⟩
    · cases heq
    · rw [Cell.tether.injEq] at heq
      exact hne heq.1

theorem Joint.kind_faithful (dt : S) (hp : Placed particles slotAt) {inverseMasses : Array S}
    (hm : Weighs inverseMasses particles.size slotAt masses) :
    (Joint.kind inverseMasses dt particles.size slotAt).Faithful particles masses dt := by
  constructor
  · intro owner j positions σ hj h hmemory
    exact joint_shown dt hp owner hm hj.1 hj.2 h hmemory
  · intro owner j other otherJoint σ hne hmemory
    have hframe : Visit.run masses dt σ (.joint owner (.create (slotAt j.first) (slotAt j.second)
        j.restLength j.compliance)) (.joint other) = σ (.joint other) := Visit.run_frame ?_
    · exact hframe.trans hmemory
    intro hwrites
    simp only [Visit.writes, List.mem_cons, List.not_mem_nil, or_false] at hwrites
    rcases hwrites with heq | heq | heq
    · cases heq
    · cases heq
    · cases heq
      exact hne rfl

theorem Suspension.kind_faithful (dt : S) (hp : Placed particles slotAt) {inverseMasses : Array S}
    (hm : Weighs inverseMasses particles.size slotAt masses) :
    (Suspension.kind inverseMasses dt particles.size slotAt).Faithful particles masses dt := by
  constructor
  · intro owner s positions σ hs h hmemory
    exact suspension_shown dt hp owner hm hs h hmemory
  · intro owner s other otherSuspension σ hne hmemory
    have hframe : Visit.run masses dt σ (.suspension owner (.create (slotAt s.particle) s.target
        s.restLength s.compliance)) (.suspension other) = σ (.suspension other) :=
      Visit.run_frame ?_
    · exact hframe.trans hmemory
    intro hwrites
    simp only [Visit.writes, List.mem_cons, List.not_mem_nil, or_false] at hwrites
    rcases hwrites with heq | heq
    · cases heq
    · cases heq
      exact hne rfl

end TetheredParticles

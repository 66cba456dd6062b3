import TetheredParticles.Proofs.Scalar.Pulls
import TetheredParticles.Proofs.Tether.Parallel
/-!
# What tethers pull

A tether should pull its tip towards its anchor and never push it away. What a visit does follows from
the violation that it finds and, with a compliance, from the multiplier that the visits before it have
accumulated. By a fraction of the violation the tip is always pulled. With a compliance it is pulled
as long as the accumulated multiplier asks for no more than the violation, and so in the first pass of
a step; as soon as other constraints have brought the tip back further than that, it is pushed away.

* `Tether.Pulls`, `Tether.Pushes` — what a visit does to the tip.
* `TetherRule.compliant_bounds`, `TetherRule.compliant_nonpos` — the update of a multiplier.
* `TetherSet.passes` — passes of a step, with the particles moved in between.
* `TetherSet.apply_pulls` — which visits pull, in whatever passes.
* `Exact.pulls_closer`, `Exact.load_nonneg` — what holds besides where nothing is rounded.
-/

namespace TetheredParticles

/-! ## Entries that are modified -/

section Entries

variable {α : Type} (entries : Array α) {index i : Nat}

theorem getElem?_modify_of_ne (h : index ≠ i) (f : α → α) :
    (entries.modify index f)[i]? = entries[i]? := by
  rw [Array.getElem?_modify, if_neg h]

theorem getD_modify_of_ne (h : index ≠ i) (f : α → α) (fallback : α) :
    (entries.modify index f).getD i fallback = entries.getD i fallback := by
  rw [Array.getD_eq_getD_getElem?, getElem?_modify_of_ne entries h, Array.getD_eq_getD_getElem?]

theorem getD_modify_self (h : index < entries.size) (f : α → α) (fallback : α) :
    (entries.modify index f).getD index fallback = f (entries.getD index fallback) := by
  rw [Array.getD_eq_getD_getElem?, Array.getElem?_modify, if_pos rfl, Array.getD_eq_getD_getElem?,
    Array.getElem?_eq_getElem h]
  rfl

theorem modify_still (index : Nat) {f : α → α} (h : ∀ a, f a = a) :
    entries.modify index f = entries := by
  refine Array.ext_getElem? fun i => ?_
  rw [Array.getElem?_modify]
  split
  · rw [funext h, Option.map_id']
  · rfl

end Entries

/-! ## Pulls and pushes -/

variable {S : Type} [Scalar S]

namespace Vec3

variable [LawfulPulls S]

/-- The length along a direction is finite and not negative, be it usable or not. -/
theorem length_direction (v : Vec3 S) :
    0 ≤ v.directionAndLength.2 ∧ Scalar.isFinite v.directionAndLength.2 = true := by
  unfold directionAndLength
  split
  case isTrue h => exact ⟨LawfulLengths.sqrt_nonneg _ (Scalar.isNumber_right (Scalar.le_of_lt h.1)), h.2⟩
  case isFalse => exact ⟨Scalar.zero_le_zero, LawfulAnchors.isFinite_zero⟩

end Vec3

namespace Tether

/-- The direction from the tip to the anchor, and how far it is. -/
def reach (t : Tether S) (positions : Array (Vec3 S)) : Vec3 S × S :=
  (positions.getD t.anchor 0 - positions.getD t.tip 0).directionAndLength

/-- By how much the distance of the ends exceeds the reference length, as a visit finds them. -/
def violation (t : Tether S) (positions : Array (Vec3 S)) : S := t.excess (t.reach positions).2

/-- The tip is moved by a distance along the direction to the anchor, and nothing else is. -/
def Moved (t : Tether S) (distance : S) (before after : Array (Vec3 S)) : Prop :=
  after = TetherRule.correct before t.tip ((t.reach before).1 * distance)

/-- The tip is pulled by no more than the violation, which is no more than there is to the anchor. In
no component that leads away from the anchor, and if the tether is slack, it stays where it is. -/
structure Pulls (t : Tether S) (distance : S) (before after : Array (Vec3 S)) : Prop where
  moved : t.Moved distance before after
  nonneg : 0 ≤ distance
  le : distance ≤ t.violation before
  reached : t.violation before ≤ (t.reach before).2
  toward : Vec3.Toward (before.getD t.anchor 0) (before.getD t.tip 0) (after.getD t.tip 0)
  slack : (t.violation before == 0) = true →
    (before.getD t.tip 0).Coincide (after.getD t.tip 0)

/-- The tip is moved back, and that leads to the anchor in no component. -/
structure Pushes (t : Tether S) (distance : S) (before after : Array (Vec3 S)) : Prop where
  moved : t.Moved distance before after
  nonpos : distance ≤ 0
  away : Vec3.Away (before.getD t.anchor 0) (before.getD t.tip 0) (after.getD t.tip 0)

variable {t : Tether S} {distance : S} {before : Array (Vec3 S)}

theorem getD_correct (htip : t.tip < before.size) (move : Vec3 S) :
    (TetherRule.correct before t.tip move).getD t.tip 0 = before.getD t.tip 0 + move :=
  getD_modify_self before htip _ 0

variable [LawfulPulls S]

/-- A violation is a part of the distance of the ends. -/
theorem violation_bounds (ht : 0 ≤ t.referenceLength) (positions : Array (Vec3 S)) :
    0 ≤ t.violation positions ∧ t.violation positions ≤ (t.reach positions).2 ∧
      Scalar.isFinite (t.violation positions) = true := by
  rcases Vec3.length_direction (positions.getD t.anchor 0 - positions.getD t.tip 0) with
    ⟨hlength, hfinite⟩
  have hnonneg : 0 ≤ t.violation positions := Scalar.maxNum_nonneg _
  have hle : t.violation positions ≤ (t.reach positions).2 := by
    unfold violation excess Scalar.maxNum
    split
    · exact LawfulPulls.sub_le _ _ hfinite ht
    · rw [if_pos (show Scalar.isNumber (0 : S) = true from LawfulZero.zero_beq_zero)]
      exact hlength
  exact ⟨hnonneg, hle, LawfulPulls.isFinite_of_le _ _ hnonneg hle hfinite⟩

/-- A distance between zero and the violation pulls. -/
theorem pulls_of_bounds (ht : 0 ≤ t.referenceLength) (htip : t.tip < before.size)
    (hnonneg : 0 ≤ distance) (hle : distance ≤ t.violation before) :
    t.Pulls distance before
      (TetherRule.correct before t.tip ((t.reach before).1 * distance)) := by
  rcases violation_bounds ht before with ⟨_, hreached, hfinite⟩
  refine ⟨rfl, hnonneg, hle, hreached, ?_, fun hslack => ?_⟩
  · rw [getD_correct htip]
    exact LawfulPulls.toward _ _ _ (LawfulPulls.isFinite_of_le _ _ hnonneg hle hfinite) hnonneg
  · -- between zero and a violation of zero there is only zero
    have hzero : (distance == 0) = true :=
      Scalar.beq_iff.mpr ⟨Scalar.le_trans hle (Scalar.beq_iff.mp hslack).1, hnonneg⟩
    rw [getD_correct htip]
    exact Vec3.coincide_add _ (LawfulPulls.still _ _ hzero)

/-- A finite distance below zero pushes. -/
theorem pushes_of_nonpos (htip : t.tip < before.size) (hfinite : Scalar.isFinite distance = true)
    (hnonpos : distance ≤ 0) :
    t.Pushes distance before
      (TetherRule.correct before t.tip ((t.reach before).1 * distance)) := by
  refine ⟨rfl, hnonpos, ?_⟩
  rw [getD_correct htip]
  exact LawfulPulls.away _ _ _ hfinite hnonpos

end Tether

namespace TetherRule

variable [LawfulPulls S] {alpha multiplier offset : S}

/-- While no more than the violation has been accumulated, the update is a part of the violation. -/
theorem compliant_bounds (halpha : 1 ≤ 1 + alpha) (hfinite : Scalar.isFinite offset = true)
    (hnonneg : 0 ≤ alpha * multiplier) (hle : alpha * multiplier ≤ offset) :
    0 ≤ (compliant alpha offset multiplier).1 ∧ (compliant alpha offset multiplier).1 ≤ offset := by
  have hrest := LawfulPulls.sub_nonneg _ _ hfinite hnonneg hle
  have hpart := LawfulPulls.sub_le _ _ hfinite hnonneg
  have hshare := LawfulPulls.div_le _ _ halpha hrest
    (LawfulPulls.isFinite_of_le _ _ hrest hpart hfinite)
  exact ⟨hshare.1, Scalar.le_trans hshare.2 hpart⟩

/-- If more than the violation has been accumulated, the update takes some of it back. -/
theorem compliant_nonpos (halpha : 1 ≤ 1 + alpha) (hfinite : Scalar.isFinite offset = true)
    (hoffset : 0 ≤ offset) (hle : offset ≤ alpha * multiplier)
    (hupdate : Scalar.isFinite (compliant alpha offset multiplier).1 = true) :
    (compliant alpha offset multiplier).1 ≤ 0 :=
  LawfulPulls.div_nonpos _ _ halpha
    (LawfulPulls.sub_nonpos _ _ hfinite (Scalar.le_trans hoffset hle) hle) hupdate

end TetherRule

/-! ## Visits with a compliance -/

namespace Tether

/-- By how much a visit with the compliance term `alpha` changes the multiplier. -/
def update (t : Tether S) (alpha multiplier : S) (before : Array (Vec3 S)) : S :=
  (t.violation before - alpha * multiplier) / (1 + alpha)

/-- The tip is moved by the update of the multiplier. It is pulled while no more than the violation has
been accumulated, and so if nothing has been; and it is pushed if more has been. -/
structure Responds (t : Tether S) (alpha multiplier multiplier' : S)
    (before after : Array (Vec3 S)) : Prop where
  moved : t.Moved (t.update alpha multiplier before) before after
  accumulated : multiplier' = multiplier + t.update alpha multiplier before
  pulls : 0 ≤ alpha * multiplier → alpha * multiplier ≤ t.violation before →
    t.Pulls (t.update alpha multiplier before) before after
  fresh : (multiplier == 0) = true → Scalar.isFinite alpha = true →
    t.Pulls (t.update alpha multiplier before) before after
  pushes : t.violation before ≤ alpha * multiplier →
    Scalar.isFinite (t.update alpha multiplier before) = true →
    t.Pushes (t.update alpha multiplier before) before after

theorem responds [LawfulPulls S] {t : Tether S} {alpha multiplier : S} {before : Array (Vec3 S)}
    (ht : 0 ≤ t.referenceLength) (htip : t.tip < before.size) (halpha : 1 ≤ 1 + alpha) :
    t.Responds alpha multiplier (multiplier + t.update alpha multiplier before) before
      (TetherRule.correct before t.tip ((t.reach before).1 * t.update alpha multiplier before)) := by
  rcases violation_bounds ht before with ⟨hviolation, _, hfinite⟩
  have hpulls : 0 ≤ alpha * multiplier → alpha * multiplier ≤ t.violation before →
      t.Pulls (t.update alpha multiplier before) before
        (TetherRule.correct before t.tip ((t.reach before).1 * t.update alpha multiplier before)) := by
    intro hnonneg hle
    rcases TetherRule.compliant_bounds halpha hfinite hnonneg hle with ⟨hupdate, hpart⟩
    exact pulls_of_bounds ht htip hupdate hpart
  refine ⟨rfl, rfl, hpulls, fun hzero hcompliance => ?_, fun hmore hupdate => ?_⟩
  · have hnothing := Scalar.beq_iff.mp (LawfulPulls.mul_zero _ _ hcompliance hzero)
    exact hpulls hnothing.2 (Scalar.le_trans hnothing.1 hviolation)
  · exact pushes_of_nonpos htip hupdate
      (TetherRule.compliant_nonpos halpha hfinite hviolation hmore hupdate)

end Tether

/-! ## Visits of a pass -/

/-- In a pass, the tether `t` finds the particles at `before`, where the tethers in front of it have
left them, and leaves them at `after`, from where the tethers behind it go on. -/
structure TetherRule.Visits (rule : TetherRule S) (masses : Array S)
    (front : List (Tether S × S)) (t : Tether S) (multiplier : S) (behind : List (Tether S × S))
    (positions before after moved : Array (Vec3 S)) (multiplier' : S) : Prop where
  front : ∃ multipliers, rule.visit masses front positions = .ok (multipliers, before)
  this : rule.visit masses [(t, multiplier)] before = .ok ([multiplier'], after)
  behind : ∃ multipliers, rule.visit masses behind after = .ok (multipliers, moved)

/-- A pass over fitting tethers visits each of them, and remembers its multiplier in its place. -/
theorem TetherRule.exists_visits (rule : TetherRule S) {masses : Array S}
    {front behind : List (Tether S × S)} {t : Tether S} {multiplier : S}
    (hfits : ∀ x ∈ front ++ (t, multiplier) :: behind, x.1.Fits masses)
    {positions : Array (Vec3 S)} (hsize : positions.size = masses.size) :
    ∃ before after,
      rule.Visits masses front t multiplier behind positions before after
        (Total.visit rule (front ++ (t, multiplier) :: behind) positions).2
        (rule (t.violation before) multiplier).2 ∧
      t.tip < before.size ∧ t.Moved (rule (t.violation before) multiplier).1 before after ∧
      (Total.visit rule (front ++ (t, multiplier) :: behind) positions).1[front.length]? =
        some (rule (t.violation before) multiplier).2 := by
  -- a pass is the visits in front, this one and those behind, each from where the last one ends
  obtain ⟨before, hbefore⟩ : ∃ before, before = (Total.visit rule front positions).2 := ⟨_, rfl⟩
  obtain ⟨after, hafter⟩ : ∃ after, t.Moved (rule (t.violation before) multiplier).1 before after :=
    ⟨_, rfl⟩
  have hsplit : Total.visit rule (front ++ (t, multiplier) :: behind) positions =
      ((Total.visit rule front positions).1 ++
        (rule (t.violation before) multiplier).2 :: (Total.visit rule behind after).1,
        (Total.visit rule behind after).2) := by
    rw [Total.visit_append, hafter, hbefore]
    rfl
  have hlength := (Total.size_visit rule front positions).2
  have hbsize : before.size = masses.size :=
    hbefore ▸ (Total.size_visit rule front positions).1.trans hsize
  have hasize : after.size = masses.size := hafter ▸ (Total.size_correct ..).trans hbsize
  rcases (hfits (t, multiplier) (by simp)).tip with ⟨w, hw, _⟩
  refine ⟨before, after, ⟨⟨(Total.visit rule front positions).1, ?_⟩, ?_,
    ⟨(Total.visit rule behind after).1, ?_⟩⟩, ?_, hafter, ?_⟩
  · rw [hbefore]
    exact Total.visit_eq (fun x hx => hfits x (List.mem_append_left _ hx)) hsize
  · have hthis : ∀ x ∈ [(t, multiplier)], x.1.Fits masses := fun x hx =>
      List.mem_singleton.mp hx ▸ hfits (t, multiplier) (by simp)
    rw [Total.visit_eq hthis hbsize, hafter]
    rfl
  · rw [hsplit]
    exact Total.visit_eq
      (fun x hx => hfits x (List.mem_append_right _ (List.mem_cons_of_mem _ hx))) hasize
  · rw [hbsize]
    exact (Array.getElem?_eq_some_iff.mp hw).1
  · rw [hsplit, List.getElem?_append_right hlength.le, hlength, Nat.sub_self]
    rfl

namespace TetherSet

/-- The tethers of a set in the order in which a pass visits them, with what each has accumulated. -/
def load (set : TetherSet S) : List (Tether S × S) :=
  set.batches.tethers.zip (set.multipliers?.getD (List.replicate set.batches.size 0))

/-- Passes of one step, one after the other. Before each of them, the particles may have been moved to
any positions. -/
def passes (dt : S) (schedule : Schedule) (masses : Array S) :
    TetherSet S → List (Array (Vec3 S)) → Except Fault (TetherSet S)
  | set, [] => .ok set
  | set, positions :: rest => do
    let (set, _) ← set.apply dt schedule masses positions
    passes dt schedule masses set rest

variable {tethers : List (Tether S)} {stiffness dt : S} {masses : Array S} {set : TetherSet S}

/-- A pass over fitting tethers does not fail, whatever the schedule. -/
theorem apply_eq_total [LawfulOrder S] (hbatches : set.batches = .ofTethers tethers stiffness)
    (hfits : set.Fits masses) (dt : S) (schedule : Schedule) {positions : Array (Vec3 S)}
    (hsize : positions.size = masses.size) :
    set.apply dt schedule masses positions = .ok (Total.apply set dt positions) := by
  have hgrouped : set.batches.batches = Tether.batches tethers := by
    rw [hbatches]
    rfl
  rw [apply_eq_of_grouped hgrouped, Total.apply_eq hfits hsize]

/-- Passes do not fail, and change nothing but multipliers. -/
theorem passes_eq [LawfulOrder S] (hbatches : set.batches = .ofTethers tethers stiffness)
    (hfits : set.Fits masses) (dt : S) (schedule : Schedule) {earlier : List (Array (Vec3 S))}
    (hsizes : ∀ positions ∈ earlier, positions.size = masses.size) :
    ∃ reached, passes dt schedule masses set earlier = .ok reached ∧ reached.Fits masses ∧
      reached.restart = set.restart := by
  induction earlier generalizing set with
  | nil => exact ⟨set, rfl, hfits, rfl⟩
  | cons positions rest ih =>
    rw [List.forall_mem_cons] at hsizes
    -- the multipliers are all that a pass changes in the set, and a restart forgets them
    have hrestart := restart_apply set dt positions
    have hsame : (Total.apply set dt positions).1.batches = set.batches := by
      rw [← batches_restart, hrestart, batches_restart]
    rcases ih (hsame.trans hbatches) (Total.fits_apply hfits dt positions) hsizes.2 with
      ⟨reached, hpasses, hreached, hsteps⟩
    refine ⟨reached, ?_, hreached, hsteps.trans hrestart⟩
    rw [passes, apply_eq_total hbatches hfits dt schedule hsizes.1]
    exact hpasses

end TetherSet

/-- The rule by which a solver moves tips during a step. -/
def TetherRule.ofSolver (solver : TetherSolver) (stiffness dt : S) : TetherRule S :=
  match solver with
  | .pbd => plain stiffness
  | .xpbd => compliant (TetherSet.leastCompliance / (stiffness * dt * dt))

/-- A fraction of the violation leaves multipliers alone. -/
theorem Total.visit_plain (stiffness : S) (load : List (Tether S × S)) (positions : Array (Vec3 S)) :
    (Total.visit (.plain stiffness) load positions).1 = load.map (·.2) := by
  induction load generalizing positions with
  | nil => rfl
  | cons x rest ih => exact congrArg (x.2 :: ·) (ih _)

namespace TetherSet

variable {tethers : List (Tether S)} {stiffness dt : S} {masses : Array S} {set : TetherSet S}

theorem clamp_eq [LawfulOrder S] (hpos : 0 < stiffness) (hone : stiffness ≤ 1) :
    Scalar.clamp stiffness 0 1 = stiffness := by
  unfold Scalar.clamp
  rw [if_neg fun h => (Scalar.lt_iff.mp hpos).2 (Scalar.le_of_lt h),
    if_neg fun h => (Scalar.lt_iff.mp h).2 hone]

theorem batches_of_restart {solver : TetherSolver}
    (hset : set.restart = ofBatches solver (.ofTethers tethers stiffness)) :
    set.batches = .ofTethers tethers stiffness := by
  rw [← batches_restart, hset]
  cases solver <;> rfl

/-- A pass visits the tethers by the rule of the solver, and remembers their multipliers. -/
theorem apply_visits [LawfulOrder S] {solver : TetherSolver} (hpos : 0 < stiffness)
    (hone : stiffness ≤ 1) (hdt : 0 < dt)
    (hset : set.restart = ofBatches solver (.ofTethers tethers stiffness))
    (positions : Array (Vec3 S)) :
    (Total.apply set dt positions).2 =
        (Total.visit (.ofSolver solver stiffness dt) set.load positions).2 ∧
      (Total.apply set dt positions).1.load =
        set.batches.tethers.zip (Total.visit (.ofSolver solver stiffness dt) set.load positions).1 := by
  have hbatches := batches_of_restart hset
  have hclamp := clamp_eq hpos hone
  cases set with
  | pbd batches =>
    cases solver with
    | xpbd => cases hset
    | pbd =>
      change batches = _ at hbatches
      subst hbatches
      constructor
      · show Total.project _ (Scalar.clamp stiffness 0 1) positions = _
        unfold Total.project
        rw [hclamp, if_neg (Scalar.lt_iff.mp hpos).2]
        rfl
      · -- no multipliers are kept, so that the zeros are what is there before and after
        rw [TetherRule.ofSolver, Total.visit_plain]
        unfold load
        rw [List.map_snd_zip]
        · rfl
        · exact (List.length_replicate ..).le
  | xpbd batches multipliers =>
    cases solver with
    | pbd => cases hset
    | xpbd =>
      change batches = _ at hbatches
      subst hbatches
      have halpha : alpha? (.ofTethers tethers stiffness) dt =
          some (leastCompliance / (stiffness * dt * dt)) := by
        unfold alpha? TetherBatches.ofTethers
        dsimp only
        rw [hclamp, if_pos ⟨hpos, hdt⟩]
      unfold Total.apply
      dsimp only
      rw [halpha]
      exact ⟨rfl, rfl⟩

theorem fits_ofBatches (solver : TetherSolver) (hfits : ∀ t ∈ tethers, t.Fits masses) :
    (ofBatches solver (.ofTethers tethers stiffness)).Fits masses := by
  have hgrouped : ∀ t ∈ (TetherBatches.ofTethers tethers stiffness).tethers, t.Fits masses :=
    fun t ht => hfits t ((Tether.flatten_batches_perm tethers).mem_iff.mp ht)
  cases solver with
  | pbd => exact ⟨hgrouped, nofun⟩
  | xpbd =>
    refine ⟨hgrouped, fun multipliers h => ?_⟩
    cases h
    exact List.length_replicate ..

theorem map_fst_load (hfits : set.Fits masses) : set.load.map Prod.fst = set.batches.tethers := by
  refine List.map_fst_zip ?_
  cases hmultipliers : set.multipliers? with
  | none => exact (List.length_replicate ..).ge
  | some multipliers => exact (hfits.multipliers _ hmultipliers).ge

theorem eq_zero_of_ofBatches {solver : TetherSolver} {batches : TetherBatches S} {t : Tether S}
    {multiplier : S} (h : (t, multiplier) ∈ (ofBatches solver batches).load) : multiplier = 0 := by
  cases solver <;> exact List.eq_of_mem_replicate (List.of_mem_zip h).2

/-- Passes over tethers do not fail, and visit every tether once. By a fraction of the violation, each
of these visits pulls the tip. With a compliance, it responds to what has been accumulated: it pulls if
that is no more than the violation, as in the first pass of a step, and pushes if it is more. -/
theorem apply_pulls [LawfulPulls S] (solver : TetherSolver) (hpos : 0 < stiffness)
    (hone : stiffness ≤ 1) (hdt : 0 < dt) (hlengths : ∀ t ∈ tethers, 0 ≤ t.referenceLength)
    (hfits : ∀ t ∈ tethers, t.Fits masses) (schedule : Schedule) {earlier : List (Array (Vec3 S))}
    {positions : Array (Vec3 S)} (hsizes : ∀ ps ∈ positions :: earlier, ps.size = masses.size) :
    ∃ reached next moved,
      passes dt schedule masses (ofBatches solver (.ofTethers tethers stiffness)) earlier =
        .ok reached ∧
      reached.apply dt schedule masses positions = .ok (next, moved) ∧
      (reached.load.map Prod.fst).Perm tethers ∧
      ∀ front t multiplier behind, reached.load = front ++ (t, multiplier) :: behind →
        ∃ before after multiplier',
          (TetherRule.ofSolver solver stiffness dt).Visits masses front t multiplier behind positions
            before after moved multiplier' ∧
          next.load[front.length]? = some (t, multiplier') ∧
          match solver with
          | .pbd => t.Pulls (stiffness * t.violation before) before after
          | .xpbd =>
            (earlier = [] → multiplier = 0) ∧
            t.Responds (leastCompliance / (stiffness * dt * dt)) multiplier multiplier' before
              after := by
  rw [List.forall_mem_cons] at hsizes
  have hstart : (ofBatches solver (.ofTethers tethers stiffness)).restart =
      ofBatches solver (.ofTethers tethers stiffness) := by
    cases solver <;> rfl
  rcases passes_eq (batches_of_restart hstart) (fits_ofBatches solver hfits) dt schedule hsizes.2 with
    ⟨reached, hpasses, hreached, hrestart⟩
  rw [hstart] at hrestart
  have hbatches := batches_of_restart hrestart
  have hnext := apply_eq_total hbatches hreached dt schedule hsizes.1
  rcases apply_visits hpos hone hdt hrestart positions with ⟨hmoved, hload⟩
  have hfirst := map_fst_load hreached
  have hperm : (reached.load.map Prod.fst).Perm tethers := by
    rw [hfirst, hbatches]
    exact Tether.flatten_batches_perm tethers
  refine ⟨reached, (Total.apply reached dt positions).1, (Total.apply reached dt positions).2,
    hpasses, hnext, hperm, fun front t multiplier behind hsplit => ?_⟩
  have hmem : ∀ x ∈ front ++ (t, multiplier) :: behind, x.1 ∈ tethers := fun x hx =>
    hperm.mem_iff.mp (List.mem_map_of_mem (hsplit ▸ hx))
  rw [hsplit] at hmoved hload
  rw [hmoved]
  rcases (TetherRule.ofSolver solver stiffness dt).exists_visits
    (fun x hx => hfits _ (hmem x hx)) hsizes.1 with ⟨before, after, hvisits, htip, hafter, hremembered⟩
  refine ⟨before, after, _, hvisits, ?_, ?_⟩
  · -- the place of the tether in the pass is where the set keeps its multiplier
    have ht : reached.batches.tethers[front.length]? = some t := by
      rw [← hfirst, hsplit, List.map_append, List.getElem?_append_right (by simp)]
      simp
    rw [hload]
    exact List.getElem?_zip_eq_some.mpr ⟨ht, hremembered⟩
  · have hlength := hlengths t (hmem (t, multiplier) (by simp))
    cases solver with
    | pbd =>
      rcases Tether.violation_bounds hlength before with ⟨hviolation, _, hfinite⟩
      rcases LawfulPulls.mul_le stiffness _ (Scalar.le_of_lt hpos) hone hviolation hfinite with
        ⟨hnonneg, hle⟩
      rw [hafter]
      exact Tether.pulls_of_bounds hlength htip hnonneg hle
    | xpbd =>
      refine ⟨?_, ?_⟩
      · -- without a pass before, the set is as it was made
        rintro rfl
        cases hpasses
        exact eq_zero_of_ofBatches (hsplit ▸ List.mem_append_right _ List.mem_cons_self)
      · have halpha := LawfulPulls.compliance_nonneg stiffness dt hpos hdt
        rw [hafter]
        exact Tether.responds hlength htip
          (Scalar.le_add (Scalar.le_trans (Scalar.le_of_lt hpos) hone) halpha)

/-- A tether of length five from the first of two particles to the second. -/
def leash : Tether Float32 := ⟨0, 1, 5⟩

/-- The two particles, at a distance from each other. -/
def strung (distance : Float32) : Array (Vec3 Float32) := #[0, ⟨distance, 0, 0⟩]

/-- A pass over the tether when it is slack, after one in which it was taut. -/
theorem leash_responds :
    ∃ reached next moved,
      passes 1 .serial #[0, 1] (ofBatches .xpbd (.ofTethers [leash] 1)) [strung 10] = .ok reached ∧
      reached.apply 1 .serial #[0, 1] (strung 2) = .ok (next, moved) ∧
      ∃ before after multiplier multiplier',
        leash.Responds (leastCompliance / (1 * 1 * 1)) multiplier multiplier' before after := by
  have hfits : ∀ t ∈ [leash], t.Fits #[0, 1] := by
    rw [List.forall_mem_singleton]
    exact ⟨⟨0, rfl, by decide +kernel⟩, 1, rfl, by decide +kernel⟩
  have hlengths : ∀ t ∈ [leash], 0 ≤ t.referenceLength := by
    rw [List.forall_mem_singleton]
    decide +kernel
  have hsizes : ∀ ps ∈ strung 2 :: [strung 10], ps.size = (#[0, 1] : Array Float32).size := by
    simp [strung]
  have hpos : (0 : Float32) < 1 := by decide +kernel
  rcases apply_pulls .xpbd hpos (by decide +kernel) hpos hlengths hfits .serial hsizes with
    ⟨reached, next, moved, hreached, hnext, hperm, hvisits⟩
  rcases List.map_eq_singleton_iff.mp (List.perm_singleton.mp hperm) with ⟨⟨t, multiplier⟩, hload, ht⟩
  change t = leash at ht
  subst ht
  rcases hvisits [] leash multiplier [] hload with ⟨before, after, multiplier', _, _, _, hresponds⟩
  exact ⟨reached, next, moved, hreached, hnext, before, after, multiplier, multiplier', hresponds⟩

/-- The tether is slack, but its tip is pushed away. -/
theorem leash_recoils :
    ∃ reached next moved,
      passes 1 .serial #[0, 1] (ofBatches .xpbd (.ofTethers [leash] 1)) [strung 10] = .ok reached ∧
      (leash.violation (strung 2) == 0) = true ∧
      reached.apply 1 .serial #[0, 1] (strung 2) = .ok (next, moved) ∧
      2 < (moved.getD leash.tip 0).x := by
  obtain ⟨result, hresult⟩ : ∃ result, result =
    passes 1 .serial #[0, 1] (ofBatches .xpbd (.ofTethers [leash] 1)) [strung 10] >>=
      fun reached => reached.apply 1 .serial #[0, 1] (strung 2) := ⟨_, rfl⟩
  have hpushed : result.toOption.map (fun x => decide (2 < (x.2.getD leash.tip 0).x)) = some true := by
    rw [hresult]
    decide +kernel
  cases result with
  | error fault => cases hpushed
  | ok result =>
    rcases exists_of_bind_ok hresult.symm with ⟨reached, hreached, hnext⟩
    exact ⟨reached, result.1, result.2, hreached, by decide +kernel, hnext,
      of_decide_eq_true (Option.some.inj hpushed)⟩

end TetherSet

/-! ## Exact scalars -/

namespace Exact

variable {t : Tether Rat} {distance alpha multiplier : Rat} {before after : Array (Vec3 Rat)}

/-- Going some of the way to a target brings one no farther from it. -/
theorem abs_sub_add_le {target a l m : Rat} (hl : 0 < l) (hm : 0 ≤ m) (hle : m ≤ l) :
    |target - (a + (target - a) / l * m)| ≤ |target - a| := by
  -- of the way to the target, the fraction `1 - m / l` is left
  have hrest : target - (a + (target - a) / l * m) = (target - a) * (1 - m / l) := by ring
  have hfraction : |1 - m / l| ≤ 1 := by
    have hnonneg : 0 ≤ m / l := div_nonneg hm hl.le
    have hone : m / l ≤ 1 := (div_le_one hl).mpr hle
    rw [abs_le]
    constructor <;> linarith
  rw [hrest, abs_mul]
  exact mul_le_of_le_one_right (abs_nonneg _) hfraction

/-- In no component is `after` farther from the target than `before`. -/
def Closer (target before after : Vec3 Rat) : Prop :=
  |target.x - after.x| ≤ |target.x - before.x| ∧ |target.y - after.y| ≤ |target.y - before.y| ∧
    |target.z - after.z| ≤ |target.z - before.z|

theorem closer_add (target v : Vec3 Rat) {m : Rat} (hm : 0 ≤ m)
    (hle : m ≤ (target - v).directionAndLength.2) :
    Closer target v (v + (target - v).directionAndLength.1 * m) := by
  unfold Vec3.directionAndLength at hle ⊢
  split at hle
  case isTrue husable =>
    rw [if_pos husable]
    have hepsilon : (0 : Rat) < Scalar.epsilon := by decide +kernel
    have hl := hepsilon.trans husable.1
    exact ⟨abs_sub_add_le hl hm hle, abs_sub_add_le hl hm hle, abs_sub_add_le hl hm hle⟩
  case isFalse hunusable =>
    rw [if_neg hunusable]
    have hnone : ∀ a b : Rat, |a - (b + 0 * m)| ≤ |a - b| := fun a b => by
      rw [zero_mul, add_zero]
    exact ⟨hnone _ _, hnone _ _, hnone _ _⟩

/-- Where nothing is rounded, a pull does not lead beyond the anchor. -/
theorem pulls_closer (h : t.Pulls distance before after) (htip : t.tip < before.size) :
    Closer (before.getD t.anchor 0) (before.getD t.tip 0) (after.getD t.tip 0) := by
  rw [h.moved, Tether.getD_correct htip]
  exact closer_add _ _ h.nonneg (h.le.trans h.reached)

/-- An update takes no more from a multiplier than has been accumulated. -/
theorem add_update_nonneg (t : Tether Rat) (before : Array (Vec3 Rat)) (halpha : 0 ≤ alpha)
    (hmultiplier : 0 ≤ multiplier) :
    0 ≤ multiplier + t.update alpha multiplier before := by
  have hviolation : 0 ≤ t.violation before := Scalar.maxNum_nonneg _
  have hpos : 0 < 1 + alpha := by linarith
  -- the update takes back `alpha * multiplier`, but only its share of it
  have hsum : multiplier + t.update alpha multiplier before =
      (multiplier + t.violation before) / (1 + alpha) := by
    unfold Tether.update
    field_simp
    ring
  rw [hsum]
  exact div_nonneg (add_nonneg hmultiplier hviolation) hpos.le

theorem visit_nonneg {stiffness dt : Rat} (halpha : 0 ≤ TetherSet.leastCompliance / (stiffness * dt * dt))
    (solver : TetherSolver) {load : List (Tether Rat × Rat)} (h : ∀ x ∈ load, 0 ≤ x.2)
    (positions : Array (Vec3 Rat)) :
    ∀ multiplier ∈ (Total.visit (.ofSolver solver stiffness dt) load positions).1, 0 ≤ multiplier := by
  induction load generalizing positions with
  | nil => exact nofun
  | cons x rest ih =>
    rw [List.forall_mem_cons] at h
    refine List.forall_mem_cons.mpr ⟨?_, ih h.2 _⟩
    cases solver with
    | pbd => exact h.1
    | xpbd => exact add_update_nonneg x.1 positions halpha h.1

/-- Where nothing is rounded, no tether ever has a multiplier below zero, whatever happens between the
passes of a step. -/
theorem load_nonneg {solver : TetherSolver} {tethers : List (Tether Rat)} {stiffness dt : Rat}
    {masses : Array Rat} {set reached : TetherSet Rat} (hpos : 0 < stiffness) (hone : stiffness ≤ 1)
    (hdt : 0 < dt) (hset : set.restart = .ofBatches solver (.ofTethers tethers stiffness))
    (hfits : set.Fits masses) (schedule : Schedule) {earlier : List (Array (Vec3 Rat))}
    (hsizes : ∀ positions ∈ earlier, positions.size = masses.size) (hload : ∀ x ∈ set.load, 0 ≤ x.2)
    (h : TetherSet.passes dt schedule masses set earlier = .ok reached) :
    ∀ x ∈ reached.load, 0 ≤ x.2 := by
  induction earlier generalizing set with
  | nil =>
    cases h
    exact hload
  | cons positions rest ih =>
    rw [List.forall_mem_cons] at hsizes
    have hbatches := TetherSet.batches_of_restart hset
    rw [TetherSet.passes, TetherSet.apply_eq_total hbatches hfits dt schedule hsizes.1] at h
    have halpha := LawfulPulls.compliance_nonneg stiffness dt hpos hdt
    refine ih ((TetherSet.restart_apply set dt positions).trans hset)
      (Total.fits_apply hfits dt positions) hsizes.2 ?_ h
    rw [(TetherSet.apply_visits hpos hone hdt hset positions).2]
    exact fun x hx => visit_nonneg halpha solver hload positions x.2 (List.of_mem_zip hx).2

end Exact

end TetheredParticles

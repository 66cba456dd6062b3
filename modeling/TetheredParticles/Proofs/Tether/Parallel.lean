import TetheredParticles.Proofs.Island.Total
import TetheredParticles.Proofs.Scalar.Order
import TetheredParticles.Proofs.Tether.Batches
/-!
# Batches may be visited in parallel

The corrections of a batch may all be computed before any of them is made. A tether reads the places of
its two ends only, and of a start only if it is anchored. No other tether of a batch moves its tip, and
no tether moves what is anchored, so that every tether finds its ends where they were before the batch.
How a batch is cut into chunks then does not matter, not even for where a fault is met.

* `TetherRule.passBy`, `TetherRule.pass_eq` — passes, with batches visited in any way.
* `TetherRule.visitChunks_eq` — chunks compute what the whole batch does.
* `TetherRule.Unmoved`, `TetherRule.visit_eq_visitFrom` — what tethers still find where it was.
* `TetherSet.apply_eq_serial` — all ways of applying tethers move particles alike.
-/

namespace TetheredParticles

/-- An entry is one of the list. -/
theorem Fault.getElem?_of_entry {α : Type} {entries : Array α} {index : Nat} {a : α}
    (h : Fault.entry entries index = .ok a) : entries[index]? = some a := by
  unfold Fault.entry at h
  split at h
  · rw [Array.getElem?_eq_getElem ‹_›, Except.ok.inj h]
  · cases h

/-- Lists that have the same entry at an index, or both none, give the same answer. -/
theorem Fault.entry_congr {α : Type} {entries others : Array α} {index : Nat}
    (h : entries[index]? = others[index]?) :
    Fault.entry entries index = Fault.entry others index := by
  cases hother : others[index]? with
  | none =>
    rw [hother] at h
    unfold Fault.entry
    rw [dif_neg (by simpa using h), dif_neg (by simpa using hother)]
  | some a => rw [Fault.entry_eq hother, Fault.entry_eq (h.trans hother)]

variable {S : Type}

namespace TetherRule

/-! ## Passes -/

/-- One pass over all batches, each of which is visited in the given way. -/
def passBy (visitor : List (Tether S × S) → Array (Vec3 S) → Except Fault (List S × Array (Vec3 S))) :
    List (List (Tether S)) → List S → Array (Vec3 S) → Except Fault (List S × Array (Vec3 S))
  | [], _, positions => .ok ([], positions)
  | batch :: rest, multipliers, positions => do
    let (first, positions) ← visitor (batch.zip (multipliers.take batch.length)) positions
    let (others, positions) ← passBy visitor rest (multipliers.drop batch.length) positions
    return (first ++ others, positions)

/-- Ways of visiting that agree on batches with unique tips make the same passes over them. -/
theorem passBy_congr
    {visitor visitor' : List (Tether S × S) → Array (Vec3 S) → Except Fault (List S × Array (Vec3 S))}
    (h : ∀ batch : List (Tether S × S), (batch.map (·.1.tip)).Nodup → visitor batch = visitor' batch)
    {batches : List (List (Tether S))} (hnodup : ∀ batch ∈ batches, (batch.map (·.tip)).Nodup)
    (multipliers : List S) (positions : Array (Vec3 S)) :
    passBy visitor batches multipliers positions = passBy visitor' batches multipliers positions := by
  induction batches generalizing multipliers positions with
  | nil => rfl
  | cons batch rest ih =>
    rw [List.forall_mem_cons] at hnodup
    have hzip : ((batch.zip (multipliers.take batch.length)).map (·.1.tip)).Nodup := by
      -- there may be fewer multipliers than tethers, and then the last tethers are left out
      refine hnodup.1.sublist ?_
      generalize multipliers.take batch.length = multipliers
      have hsublist : ((batch.zip multipliers).map Prod.fst).Sublist batch := by
        rw [List.zip_eq_zip_take_min, List.map_fst_zip (by simp)]
        exact List.take_sublist _ _
      have htips := hsublist.map (·.tip)
      rw [List.map_map] at htips
      exact htips
    unfold passBy
    simp only [h _ hzip, ih hnodup.2]

variable [Scalar S]

theorem pass_eq (rule : TetherRule S) (schedule : Schedule) (masses : Array S)
    (batches : List (List (Tether S))) (multipliers : List S) (positions : Array (Vec3 S)) :
    rule.pass schedule masses batches multipliers positions =
      passBy (rule.visitBatch schedule masses) batches multipliers positions := by
  induction batches generalizing multipliers positions with
  | nil => rfl
  | cons batch rest ih =>
    unfold pass passBy
    simp only [ih]

/-! ## Chunks -/

theorem flatten_chunks {α : Type} (size : Nat) (l : List α) : (chunks size l).flatten = l := by
  induction l using chunks.induct size with
  | case1 =>
    rw [chunks]
    rfl
  | case2 x xs ih =>
    rw [chunks, List.flatten_cons, ih, List.cons_append, List.take_append_drop]

/-- What is computed part by part is computed of all. -/
theorem mapM_flatten {α β : Type} (f : α → Except Fault β) (parts : List (List α)) :
    (parts.mapM fun part => part.mapM f) >>= (fun results => .ok results.flatten) =
      parts.flatten.mapM f := by
  induction parts with
  | nil => rfl
  | cons part rest ih =>
    rw [List.mapM_cons, List.flatten_cons, List.mapM_append, ← ih]
    cases part.mapM f with
    | error fault => rfl
    | ok first =>
      simp only [ok_bind]
      cases rest.mapM fun part => part.mapM f with
      | error fault => rfl
      | ok others => rfl

/-- Visits tethers, all corrections being computed from the positions `before`. -/
def visitFrom (rule : TetherRule S) (masses : Array S) (before : Array (Vec3 S))
    (batch : List (Tether S × S)) (positions : Array (Vec3 S)) :
    Except Fault (List S × Array (Vec3 S)) := do
  let all ← rule.chunkCorrections masses before batch
  return (all.map (·.2.2), all.foldl (fun ps (tip, move, _) => correct ps tip move) positions)

/-- Chunks compute what the whole batch does. -/
theorem visitChunks_eq (rule : TetherRule S) (masses : Array S) (size : Nat)
    (batch : List (Tether S × S)) (positions : Array (Vec3 S)) :
    rule.visitChunks masses size batch positions = rule.visitFrom masses positions batch positions := by
  have hall : ((chunks size batch).mapM (rule.chunkCorrections masses positions)) >>=
      (fun results => .ok results.flatten) = rule.chunkCorrections masses positions batch := by
    unfold chunkCorrections
    rw [mapM_flatten, flatten_chunks]
  unfold visitChunks visitFrom
  rw [← hall]
  cases (chunks size batch).mapM (rule.chunkCorrections masses positions) <;> rfl

theorem visitFrom_cons (rule : TetherRule S) (masses : Array S) (before : Array (Vec3 S))
    (t : Tether S) (multiplier : S) (rest : List (Tether S × S)) (positions : Array (Vec3 S)) :
    rule.visitFrom masses before ((t, multiplier) :: rest) positions = (do
      let (move, multiplier) ← rule.correction masses before t multiplier
      let (multipliers, positions) ←
        rule.visitFrom masses before rest (correct positions t.tip move)
      return (multiplier :: multipliers, positions)) := by
  unfold visitFrom chunkCorrections
  rw [List.mapM_cons]
  dsimp only
  cases rule.correction masses before t multiplier with
  | error fault => rfl
  | ok result =>
    simp only [ok_bind]
    cases rest.mapM fun x => (do
      let (move, multiplier) ← rule.correction masses before x.1 x.2
      return (x.1.tip, move, multiplier)) <;> rfl

/-! ## What tethers read -/

/-- A correction depends on the places of the two ends only, and on that of the start only if it is
anchored. -/
theorem correction_congr {rule : TetherRule S} {masses : Array S} {before now : Array (Vec3 S)}
    {t : Tether S} (htip : now[t.tip]? = before[t.tip]?)
    (hanchor : ∀ w, masses[t.anchor]? = some w → (w == 0) = true →
      now[t.anchor]? = before[t.anchor]?) (multiplier : S) :
    rule.correction masses now t multiplier = rule.correction masses before t multiplier := by
  unfold correction Tether.delta
  cases hmass : masses[t.anchor]? with
  | none =>
    have hfault : Fault.entry masses t.anchor = .error (.particleOutOfRange t.anchor) :=
      dif_neg (by simpa using hmass)
    rw [hfault]
    rfl
  | some w =>
    rw [Fault.entry_eq hmass, Fault.entry_congr htip]
    by_cases hzero : (w == 0) = true
    · rw [Fault.entry_congr (hanchor w hmass hzero)]
    · -- a start that can move is a fault, wherever it is
      simp only [ok_bind, if_neg hzero]
      rfl

/-- Only tethers whose tips can move have corrections. -/
theorem pos_of_correction {rule : TetherRule S} {masses : Array S} {positions : Array (Vec3 S)}
    {t : Tether S} {multiplier : S} {result : Vec3 S × S}
    (h : rule.correction masses positions t multiplier = .ok result) :
    ∃ w, masses[t.tip]? = some w ∧ 0 < w := by
  unfold correction Tether.delta at h
  rcases exists_of_bind_ok h with ⟨_, hdelta, _⟩
  rcases exists_of_bind_ok hdelta with ⟨_, _, hdelta⟩
  dsimp only at hdelta
  split at hdelta
  · rcases exists_of_bind_ok hdelta with ⟨w, hw, hdelta⟩
    split at hdelta
    · exact ⟨w, Fault.getElem?_of_entry hw, ‹_›⟩
    · cases hdelta
  · cases hdelta

/-- Everything that the tethers of a batch read is where it was before. -/
def Unmoved (masses : Array S) (before now : Array (Vec3 S)) (batch : List (Tether S × S)) : Prop :=
  ∀ x ∈ batch, now[x.1.tip]? = before[x.1.tip]? ∧
    ∀ w, masses[x.1.anchor]? = some w → (w == 0) = true → now[x.1.anchor]? = before[x.1.anchor]?

variable [LawfulOrder S]

/-- The first tether of a batch moves nothing that the others read. -/
theorem Unmoved.rest {masses : Array S} {before now : Array (Vec3 S)} {t : Tether S} {multiplier : S}
    {rest : List (Tether S × S)} (h : Unmoved masses before now ((t, multiplier) :: rest))
    (hnodup : (((t, multiplier) :: rest).map (·.1.tip)).Nodup)
    (hpos : ∃ w, masses[t.tip]? = some w ∧ 0 < w) (move : Vec3 S) :
    Unmoved masses before (correct now t.tip move) rest := by
  rw [List.map_cons, List.nodup_cons] at hnodup
  have hother : ∀ i, t.tip ≠ i → (correct now t.tip move)[i]? = now[i]? := by
    intro i hi
    unfold correct
    rw [Array.getElem?_modify, if_neg hi]
  intro x hx
  rcases h x (List.mem_cons_of_mem _ hx) with ⟨htip, hanchor⟩
  constructor
  · have hne : t.tip ≠ x.1.tip := fun heq => hnodup.1 (heq ▸ List.mem_map_of_mem hx)
    rw [hother _ hne, htip]
  · intro w hw hzero
    have hne : t.tip ≠ x.1.anchor := by
      intro heq
      -- the tip could move, but what is anchored cannot
      rcases hpos with ⟨w', hw', hlt⟩
      rw [heq, hw, Option.some.injEq] at hw'
      subst hw'
      exact (Scalar.lt_iff.mp hlt).2 (Scalar.beq_iff.mp hzero).1
    rw [hother _ hne, hanchor w hw hzero]

/-- One after the other, tethers with unique tips make the corrections that were computed before. -/
theorem visit_eq_visitFrom (rule : TetherRule S) {masses : Array S} {before now : Array (Vec3 S)}
    {batch : List (Tether S × S)} (hnodup : (batch.map (·.1.tip)).Nodup)
    (h : Unmoved masses before now batch) :
    rule.visit masses batch now = rule.visitFrom masses before batch now := by
  -- the positions move on from one tether to the next, and those from before stay what they are
  induction batch generalizing now with
  | nil => rfl
  | cons x rest ih =>
    rcases x with ⟨t, multiplier⟩
    have hfirst := h _ List.mem_cons_self
    rw [visitFrom_cons]
    unfold visit
    rw [correction_congr hfirst.1 hfirst.2]
    cases hcorrection : rule.correction masses before t multiplier with
    | error fault => rfl
    | ok result =>
      have hrest := ih (List.nodup_cons.mp hnodup).2
        (h.rest hnodup (pos_of_correction hcorrection) result.1)
      simp only [ok_bind, hrest]

/-- Batches with unique tips may be visited in chunks of any size. -/
theorem visitChunks_eq_visit (rule : TetherRule S) (masses : Array S) (size : Nat)
    {batch : List (Tether S × S)} (hnodup : (batch.map (·.1.tip)).Nodup) (positions : Array (Vec3 S)) :
    rule.visitChunks masses size batch positions = rule.visit masses batch positions := by
  rw [visitChunks_eq]
  exact (visit_eq_visitFrom rule hnodup fun _ _ => ⟨rfl, fun _ _ _ => rfl⟩).symm

/-- Batches with unique tips may be visited by any schedule. -/
theorem visitBatch_eq_visit (rule : TetherRule S) (schedule : Schedule) (masses : Array S)
    {batch : List (Tether S × S)} (hnodup : (batch.map (·.1.tip)).Nodup) (positions : Array (Vec3 S)) :
    rule.visitBatch schedule masses batch positions = rule.visit masses batch positions := by
  unfold visitBatch
  split
  · rfl
  · dsimp only
    split
    · exact visitChunks_eq_visit rule masses _ hnodup positions
    · rfl

/-! ## Grouped tethers -/

variable (rule : TetherRule S) (masses : Array S) (tethers : List (Tether S)) (multipliers : List S)
  (positions : Array (Vec3 S))

/-- Passes over grouped tethers are the same under all schedules. -/
theorem pass_eq_serial (schedule : Schedule) :
    rule.pass schedule masses (Tether.batches tethers) multipliers positions =
      rule.pass .serial masses (Tether.batches tethers) multipliers positions := by
  rw [pass_eq, pass_eq]
  refine passBy_congr (fun batch hnodup => ?_) (Tether.nodup_tips_of_batches tethers) _ _
  funext positions
  rw [visitBatch_eq_visit rule _ _ hnodup, visitBatch_eq_visit rule _ _ hnodup]

/-- Passes over grouped tethers are the same if every batch is cut into chunks, of any size. -/
theorem passBy_visitChunks (size : List (Tether S × S) → Nat) :
    passBy (fun batch => rule.visitChunks masses (size batch) batch) (Tether.batches tethers)
        multipliers positions =
      rule.pass .serial masses (Tether.batches tethers) multipliers positions := by
  rw [pass_eq]
  refine passBy_congr (fun batch hnodup => ?_) (Tether.nodup_tips_of_batches tethers) _ _
  funext positions
  exact visitChunks_eq_visit rule _ _ hnodup positions

end TetherRule

namespace TetherSet

variable [Scalar S] [LawfulOrder S]

theorem project_eq_serial {tethers : List (Tether S)} {batches : TetherBatches S}
    (h : batches.batches = Tether.batches tethers) (stiffness : S) (schedule : Schedule)
    (masses : Array S) (positions : Array (Vec3 S)) :
    project batches stiffness schedule masses positions =
      project batches stiffness .serial masses positions := by
  unfold project
  rw [h, TetherRule.pass_eq_serial _ _ _ _ _ schedule]

/-- A pass over grouped tethers is the same under all schedules. -/
theorem apply_eq_of_grouped {tethers : List (Tether S)} {set : TetherSet S}
    (h : set.batches.batches = Tether.batches tethers) (dt : S) (schedule : Schedule)
    (masses : Array S) (positions : Array (Vec3 S)) :
    set.apply dt schedule masses positions = set.apply dt .serial masses positions := by
  unfold apply
  cases set with
  | pbd batches =>
    change batches.batches = Tether.batches tethers at h
    dsimp only
    rw [project_eq_serial h _ schedule]
  | xpbd batches multipliers =>
    change batches.batches = Tether.batches tethers at h
    simp only [h, TetherRule.pass_eq_serial _ _ _ _ _ schedule]

/-- Grouped tethers move particles and accumulate multipliers alike, or meet the same fault, under all
schedules, and however the batches of a pass are cut into chunks. -/
theorem apply_eq_serial (tethers : List (Tether S)) (stiffness : S) (set : TetherSet S)
    (hset : set.batches = TetherBatches.ofTethers tethers stiffness) (masses : Array S)
    (positions : Array (Vec3 S)) :
    (∀ (schedule : Schedule) (dt : S),
      set.apply dt schedule masses positions = set.apply dt .serial masses positions ∧
      set.applyRigid schedule masses positions = set.applyRigid .serial masses positions) ∧
    ∀ (rule : TetherRule S) (size : List (Tether S × S) → Nat) (multipliers : List S),
      TetherRule.passBy (fun batch => rule.visitChunks masses (size batch) batch)
          set.batches.batches multipliers positions =
        rule.pass .serial masses set.batches.batches multipliers positions := by
  have hbatches : set.batches.batches = Tether.batches tethers := by
    rw [hset]
    rfl
  refine ⟨fun schedule dt => ⟨apply_eq_of_grouped hbatches dt schedule masses positions,
    project_eq_serial hbatches 1 schedule masses positions⟩, fun rule size multipliers => ?_⟩
  rw [hbatches]
  exact TetherRule.passBy_visitChunks rule masses tethers multipliers positions size

/-- A thousand tethers from one anchored particle, each to a particle of its own. -/
def fan : List (Tether Float32) := (List.range 1000).map fun i => ⟨0, i + 1, 1⟩

/-- They may be visited in eight chunks. -/
theorem fan_eq_serial :
    (xpbd (.ofTethers fan 1) (List.replicate 1000 0)).batches = .ofTethers fan 1 ∧
    (xpbd (.ofTethers fan 1) (List.replicate 1000 0)).apply 1 (.chunked 8)
        (#[0] ++ Array.replicate 1000 1) (Array.replicate 1001 ⟨0, 2, 0⟩) =
      (xpbd (.ofTethers fan 1) (List.replicate 1000 0)).apply 1 .serial
        (#[0] ++ Array.replicate 1000 1) (Array.replicate 1001 ⟨0, 2, 0⟩) :=
  ⟨rfl, ((apply_eq_serial fan 1 (xpbd (.ofTethers fan 1) (List.replicate 1000 0)) rfl
    (#[0] ++ Array.replicate 1000 1) (Array.replicate 1001 ⟨0, 2, 0⟩)).1 (.chunked 8) 1).1⟩

end TetherSet

end TetheredParticles

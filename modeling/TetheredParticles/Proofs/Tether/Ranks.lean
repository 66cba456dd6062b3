import Mathlib.Data.List.GetD
import Mathlib.Data.List.Induction
import Mathlib.Data.List.Perm.Subperm
import TetheredParticles.Proofs.Tether.Batches
/-!
# Which batch a tether goes into

The rank of a tether is the number of tethers with its tip that come before it. Placing a tether into
the first batch that has no tether with its tip places it into the batch of its rank, because the
earlier ones with this tip fill the batches before that one, each of them one. What there is to say of
the batches of a grouping follows from this.

* `Tether.ranked`, `Tether.ofRank` — tethers with their ranks, and those of one rank.
* `Tether.getD_place`, `Tether.getD_batches` — batches hold the tethers of their rank, in order.
* `Tether.lt_length_batches_iff` — how many batches there are.
* `Tether.length_ofRank_le`, `Tether.filter_flatten_batches` — later batches are not larger, and keep
  the order of tethers with one tip.
-/

namespace TetheredParticles.Tether

variable {S : Type}

/-- How many tethers have a tip. -/
def sharing (tip : Nat) (tethers : List (Tether S)) : Nat := tethers.countP (·.tip == tip)

/-- Tethers, each with the number of those before it that have the same tip. -/
def ranked (tethers : List (Tether S)) : List (Nat × Tether S) :=
  tethers.mapIdx fun i t => (sharing t.tip (tethers.take i), t)

/-- The tethers before which a number of others has the same tip, in their order. -/
def ofRank (tethers : List (Tether S)) (rank : Nat) : List (Tether S) :=
  ((ranked tethers).filter (·.1 == rank)).map (·.2)

/-! ## One more tether -/

theorem sharing_concat (tip : Nat) (tethers : List (Tether S)) (t : Tether S) :
    sharing tip (tethers ++ [t]) = sharing tip tethers + if t.tip = tip then 1 else 0 := by
  unfold sharing
  rw [List.countP_append, List.countP_singleton]
  simp only [beq_iff_eq]

/-- The ranks of tethers do not depend on those that come later. -/
theorem ranked_concat (tethers : List (Tether S)) (t : Tether S) :
    ranked (tethers ++ [t]) = ranked tethers ++ [(sharing t.tip tethers, t)] := by
  unfold ranked
  rw [List.mapIdx_concat]
  congr 1
  · rw [List.mapIdx_eq_mapIdx_iff]
    intro i hi
    rw [List.take_append_of_le_length (Nat.le_of_lt hi)]
  · rw [List.take_left]

theorem ofRank_concat (tethers : List (Tether S)) (t : Tether S) (rank : Nat) :
    ofRank (tethers ++ [t]) rank =
      ofRank tethers rank ++ if sharing t.tip tethers = rank then [t] else [] := by
  unfold ofRank
  rw [ranked_concat, List.filter_append, List.map_append]
  by_cases hrank : sharing t.tip tethers = rank <;> simp [hrank]

theorem batches_concat (tethers : List (Tether S)) (t : Tether S) :
    batches (tethers ++ [t]) = t.place (batches tethers) := by
  unfold batches
  rw [List.foldl_append]
  rfl

/-! ## Batches and ranks -/

/-- As many ranks have a tether with a tip as there are tethers with this tip. -/
theorem any_ofRank (tethers : List (Tether S)) (rank tip : Nat) :
    (ofRank tethers rank).any (·.tip == tip) = decide (rank < sharing tip tethers) := by
  induction tethers using List.reverseRecOn with
  | nil => rfl
  | append_singleton tethers t ih =>
    rw [ofRank_concat, List.any_append, ih, sharing_concat]
    by_cases htip : t.tip = tip
    · subst htip
      by_cases hrank : sharing t.tip tethers = rank
      · simp [hrank]
      · have hiff : rank < sharing t.tip tethers + 1 ↔ rank < sharing t.tip tethers := by omega
        simp [hrank, hiff]
    · by_cases hrank : sharing t.tip tethers = rank <;> simp [hrank, htip]

/-- Where the tips of a tether fill the first batches, it is placed right behind them. -/
theorem getD_place {t : Tether S} {bs : List (List (Tether S))} {rank : Nat}
    (h : ∀ k, (bs.getD k []).any (·.tip == t.tip) = decide (k < rank)) (k : Nat) :
    (t.place bs).getD k [] = bs.getD k [] ++ if rank = k then [t] else [] := by
  induction bs generalizing rank k with
  | nil =>
    have hrank : rank = 0 := by simpa using h 0
    subst hrank
    cases k <;> simp [place]
  | cons batch rest ih =>
    have hfirst := h 0
    rw [List.getD_cons_zero] at hfirst
    cases rank with
    | zero =>
      rw [place_of_free (by simpa using hfirst)]
      cases k <;> simp
    | succ rank =>
      rw [place_of_taken (by simpa using hfirst)]
      cases k with
      | zero => simp
      | succ k =>
        have hlater : ∀ k, (rest.getD k []).any (·.tip == t.tip) = decide (k < rank) := by
          intro k
          simpa using h (k + 1)
        simpa using ih hlater k

/-- A batch holds the tethers of its rank. -/
theorem getD_batches (tethers : List (Tether S)) (rank : Nat) :
    (batches tethers).getD rank [] = ofRank tethers rank := by
  induction tethers using List.reverseRecOn generalizing rank with
  | nil => rfl
  | append_singleton tethers t ih =>
    have hany : ∀ k, ((batches tethers).getD k []).any (·.tip == t.tip) =
        decide (k < sharing t.tip tethers) := by
      intro k
      rw [ih, any_ofRank]
    rw [batches_concat, getD_place hany, ih, ofRank_concat]

/-- No batch is empty. -/
theorem ne_nil_of_mem_batches (tethers : List (Tether S)) : ∀ batch ∈ batches tethers, batch ≠ [] := by
  refine forall_batches (P := fun bs => ∀ batch ∈ bs, batch ≠ []) (by simp) ?_ tethers
  intro t bs h
  induction bs with
  | nil => simp [place]
  | cons first rest ih =>
    rw [List.forall_mem_cons] at h
    cases htip : first.any (·.tip == t.tip) with
    | true =>
      rw [place_of_taken htip, List.forall_mem_cons]
      exact ⟨h.1, ih h.2⟩
    | false =>
      rw [place_of_free htip, List.forall_mem_cons]
      exact ⟨by simp, h.2⟩

/-- There is a batch for every rank, and no other one. -/
theorem lt_length_batches_iff (tethers : List (Tether S)) (k : Nat) :
    k < (batches tethers).length ↔ ∃ tip, k < sharing tip tethers := by
  constructor
  · intro hk
    have hbatch : (batches tethers)[k] = ofRank tethers k := by
      rw [← getD_batches, List.getD_eq_getElem _ _ hk]
    rcases List.exists_mem_of_ne_nil _ (ne_nil_of_mem_batches tethers _ (List.getElem_mem hk)) with
      ⟨t, ht⟩
    refine ⟨t.tip, of_decide_eq_true ?_⟩
    rw [← any_ofRank, ← hbatch, List.any_eq_true]
    exact ⟨t, ht, beq_self_eq_true _⟩
  · rintro ⟨tip, htip⟩
    by_contra hlast
    have hany := any_ofRank tethers k tip
    rw [← getD_batches, List.getD_eq_default _ _ (Nat.le_of_not_lt hlast)] at hany
    simp [htip] at hany

theorem sharing_le_length (tethers : List (Tether S)) (tip : Nat) :
    sharing tip tethers ≤ (batches tethers).length := by
  by_contra hmore
  exact Nat.lt_irrefl _ ((lt_length_batches_iff tethers _).mpr ⟨tip, Nat.lt_of_not_le hmore⟩)

/-- There are as many batches as there are tethers with some tip. -/
theorem exists_sharing_eq (tethers : List (Tether S)) :
    ∃ tip, sharing tip tethers = (batches tethers).length := by
  cases hlength : (batches tethers).length with
  | zero => exact ⟨0, Nat.le_zero.mp (hlength ▸ sharing_le_length tethers 0)⟩
  | succ n =>
    rcases (lt_length_batches_iff tethers n).mp (by omega) with ⟨tip, htip⟩
    have hle := sharing_le_length tethers tip
    exact ⟨tip, by omega⟩

theorem nodup_tips_ofRank (tethers : List (Tether S)) (rank : Nat) :
    ((ofRank tethers rank).map (·.tip)).Nodup := by
  rw [← getD_batches]
  by_cases hrank : rank < (batches tethers).length
  · rw [List.getD_eq_getElem _ _ hrank]
    exact nodup_tips_of_batches tethers _ (List.getElem_mem hrank)
  · rw [List.getD_eq_default _ _ (Nat.le_of_not_lt hrank)]
    exact List.nodup_nil

theorem mem_tips_ofRank {tethers : List (Tether S)} {rank tip : Nat} :
    tip ∈ (ofRank tethers rank).map (·.tip) ↔ rank < sharing tip tethers := by
  rw [← decide_eq_true_iff (p := rank < _), ← any_ofRank, List.any_eq_true, List.mem_map]
  simp only [beq_iff_eq]

/-- There are no more tethers of a rank than of a lower one. -/
theorem length_ofRank_le (tethers : List (Tether S)) {rank lower : Nat} (h : lower ≤ rank) :
    (ofRank tethers rank).length ≤ (ofRank tethers lower).length := by
  have hsubset : (ofRank tethers rank).map (·.tip) ⊆ (ofRank tethers lower).map (·.tip) := by
    intro tip htip
    rw [mem_tips_ofRank] at htip ⊢
    omega
  have hle := (List.subperm_of_subset (nodup_tips_ofRank tethers rank) hsubset).length_le
  rwa [List.length_map, List.length_map] at hle

/-- No batch is larger than one before it. -/
theorem pairwise_length_batches (tethers : List (Tether S)) :
    ((batches tethers).map List.length).Pairwise (· ≥ ·) := by
  rw [List.pairwise_map, List.pairwise_iff_getElem]
  intro k l hk hl hkl
  have hle := length_ofRank_le tethers (Nat.le_of_lt hkl)
  rw [← getD_batches, ← getD_batches, List.getD_eq_getElem _ _ hk, List.getD_eq_getElem _ _ hl] at hle
  exact hle

/-! ## Tethers with one tip -/

/-- Tethers that all have one tip go into batches of their own. -/
theorem batches_of_same {tip : Nat} {tethers : List (Tether S)} (h : ∀ t ∈ tethers, t.tip = tip) :
    batches tethers = tethers.map ([·]) := by
  have hplace : ∀ (t : Tether S) (others : List (Tether S)), (∀ u ∈ others, u.tip = t.tip) →
      t.place (others.map ([·])) = others.map ([·]) ++ [[t]] := by
    intro t others
    induction others with
    | nil => exact fun _ => rfl
    | cons u rest ih =>
      intro hsame
      rw [List.forall_mem_cons] at hsame
      rw [List.map_cons, place_of_taken (by simpa using hsame.1), ih hsame.2, List.cons_append]
  induction tethers using List.reverseRecOn with
  | nil => rfl
  | append_singleton tethers t ih =>
    have htip := h t (by simp)
    have hothers : ∀ u ∈ tethers, u.tip = tip := fun u hu => h u (by simp [hu])
    rw [batches_concat, ih hothers, hplace t tethers fun u hu => (hothers u hu).trans htip.symm,
      List.map_append, List.map_singleton]

/-- Batch after batch, the tethers with one tip stand in the order in which they were grouped. -/
theorem filter_flatten_batches (tethers : List (Tether S)) (tip : Nat) :
    (batches tethers).flatten.filter (·.tip == tip) = tethers.filter (·.tip == tip) := by
  have hsame : ∀ t ∈ tethers.filter (·.tip == tip), t.tip = tip := by
    intro t ht
    exact beq_iff_eq.mp (List.mem_filter.mp ht).2
  calc
    (batches tethers).flatten.filter (·.tip == tip)
      = ((layered 0 (batches tethers)).filter fun x => x.2.tip == tip).map (·.2) := by
        rw [← map_snd_layered 0, List.filter_map]
        rfl
    _ = (batches (tethers.filter (·.tip == tip))).flatten := by
        rw [← layered_batches_filter (· == tip), map_snd_layered]
    _ = tethers.filter (·.tip == tip) := by
        rw [batches_of_same hsame, ← List.flatMap_def, List.flatMap_singleton']

end TetheredParticles.Tether

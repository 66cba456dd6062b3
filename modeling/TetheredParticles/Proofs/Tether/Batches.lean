import Mathlib.Data.List.Nodup
import TetheredParticles.Tether.Batches
/-!
# Tethers and their batches

Grouping loses no tether and adds none. A tether is told apart from the others by its batch and its
tip, because no batch has two tethers with one tip. Into which batch a tether goes depends on the
tethers with its own tip only: those with other tips may be left out without changing it.

* `Tether.flatten_batches_perm` — batches hold the tethers that were grouped.
* `Tether.layered` — the tethers of batches, each with the number of its batch.
* `Tether.nodup_layered` — numbers and tips tell tethers apart.
* `Tether.layered_batches_filter`, `Tether.batches_map` — some of the tethers, and tethers
  between other indices.
-/

namespace TetheredParticles

namespace Tether

variable {S : Type}

/-! ## Grouping -/

theorem flatten_place_perm (t : Tether S) (batches : List (List (Tether S))) :
    (t.place batches).flatten.Perm (batches.flatten ++ [t]) := by
  induction batches with
  | nil => simp [place]
  | cons batch rest ih =>
    unfold place
    split
    · rw [List.flatten_cons, List.flatten_cons, List.append_assoc]
      exact ih.append_left batch
    · rw [List.flatten_cons, List.flatten_cons, List.append_assoc, List.append_assoc]
      exact (List.perm_append_comm).append_left batch

/-- Batches hold the tethers that were grouped. -/
theorem flatten_batches_perm (tethers : List (Tether S)) :
    (batches tethers).flatten.Perm tethers := by
  suffices h : ∀ start : List (List (Tether S)),
      (tethers.foldl (fun bs t => t.place bs) start).flatten.Perm (start.flatten ++ tethers) from
    h []
  induction tethers with
  | nil => simp
  | cons t rest ih =>
    intro start
    rw [List.foldl_cons]
    refine (ih (t.place start)).trans ?_
    have h := (flatten_place_perm t start).append_right rest
    rwa [List.append_assoc, List.singleton_append] at h

/-- A tether whose tip is free goes to the end of the first batch. -/
theorem place_of_free {t : Tether S} {batch : List (Tether S)} {rest : List (List (Tether S))}
    (h : batch.any (·.tip == t.tip) = false) :
    t.place (batch :: rest) = (batch ++ [t]) :: rest := by
  rw [place, h, if_neg Bool.false_ne_true]

/-- A tether whose tip is taken goes behind the first batch. -/
theorem place_of_taken {t : Tether S} {batch : List (Tether S)} {rest : List (List (Tether S))}
    (h : batch.any (·.tip == t.tip) = true) :
    t.place (batch :: rest) = batch :: t.place rest := by
  rw [place, if_pos h]

/-- What all batches have in common and what placing keeps, all batches of a grouping have. -/
theorem forall_batches {P : List (List (Tether S)) → Prop} (hnil : P [])
    (hplace : ∀ (t : Tether S) (bs : List (List (Tether S))), P bs → P (t.place bs))
    (tethers : List (Tether S)) : P (batches tethers) := by
  unfold batches
  suffices h : ∀ start, P start → P (tethers.foldl (fun bs t => t.place bs) start) from h [] hnil
  induction tethers with
  | nil => exact fun _ hstart => hstart
  | cons t rest ih => exact fun start hstart => ih _ (hplace t start hstart)

/-! ## Layers -/

/-- The tethers of batches, each with the number of its batch. -/
def layered (start : Nat) : List (List (Tether S)) → List (Nat × Tether S)
  | [] => []
  | batch :: rest => batch.map (start, ·) ++ layered (start + 1) rest

theorem map_snd_layered (start : Nat) (bs : List (List (Tether S))) :
    (layered start bs).map (·.2) = bs.flatten := by
  induction bs generalizing start with
  | nil => rfl
  | cons batch rest ih =>
    have hbatch : (batch.map (start, ·)).map (·.2) = batch := by
      rw [List.map_map]
      exact List.map_id batch
    rw [layered, List.map_append, hbatch, ih, List.flatten_cons]

theorem mem_flatten_of_layered {start : Nat} {bs : List (List (Tether S))} {x : Nat × Tether S}
    (h : x ∈ layered start bs) : x.2 ∈ bs.flatten := by
  rw [← map_snd_layered start]
  exact List.mem_map_of_mem h

theorem layered_map (f : Tether S → Tether S) (start : Nat) (bs : List (List (Tether S))) :
    layered start (bs.map (List.map f)) = (layered start bs).map fun x => (x.1, f x.2) := by
  induction bs generalizing start with
  | nil => rfl
  | cons batch rest ih =>
    rw [List.map_cons, layered, layered, ih, List.map_append, List.map_map, List.map_map]
    rfl

theorem le_of_layered {start : Nat} {bs : List (List (Tether S))} {x : Nat × Tether S}
    (h : x ∈ layered start bs) : start ≤ x.1 := by
  induction bs generalizing start with
  | nil => cases h
  | cons batch rest ih =>
    rcases List.mem_append.mp h with h | h
    · rcases List.mem_map.mp h with ⟨t, _, rfl⟩
      exact Nat.le_refl start
    · exact Nat.le_of_succ_le (ih h)

/-- Numbers and tips tell tethers apart if no batch has two tethers with one tip. -/
theorem nodup_layered {start : Nat} {bs : List (List (Tether S))}
    (h : ∀ batch ∈ bs, (batch.map (·.tip)).Nodup) :
    ((layered start bs).map fun x => (x.1, x.2.tip)).Nodup := by
  induction bs generalizing start with
  | nil => exact .nil
  | cons batch rest ih =>
    have hfirst : ((batch.map (start, ·)).map fun x => (x.1, x.2.tip)) =
        (batch.map (·.tip)).map (start, ·) := by
      rw [List.map_map, List.map_map]
      rfl
    have hone : ((batch.map (·.tip)).map (start, ·)).Nodup :=
      (h batch List.mem_cons_self).map fun a b hab => (Prod.mk.inj hab).2
    have hrest : ((layered (start + 1) rest).map fun x => (x.1, x.2.tip)).Nodup :=
      ih fun b hb => h b (List.mem_cons_of_mem batch hb)
    rw [layered, List.map_append, hfirst]
    refine hone.append hrest ?_
    -- later batches have greater numbers
    intro pair hpair hlater
    rcases List.mem_map.mp hpair with ⟨tip, _, rfl⟩
    rcases List.mem_map.mp hlater with ⟨x, hx, heq⟩
    have hle := le_of_layered hx
    have hsame := (Prod.mk.inj heq).1
    omega

/-- No batch of a grouping has two tethers with one tip. -/
theorem nodup_tips_of_batches (tethers : List (Tether S)) :
    ∀ batch ∈ batches tethers, (batch.map (·.tip)).Nodup := by
  refine forall_batches (P := fun bs => ∀ batch ∈ bs, (batch.map (·.tip)).Nodup) ?_ ?_ tethers
  · intro batch hbatch
    cases hbatch
  · intro t bs
    induction bs with
    | nil =>
      intro _ batch hbatch
      rw [place, List.mem_singleton] at hbatch
      rw [hbatch]
      exact List.nodup_singleton _
    | cons first rest ih =>
      intro h
      have hfirst := h first List.mem_cons_self
      have hrest := fun b hb => h b (List.mem_cons_of_mem first hb)
      -- a tether goes on to the next batch exactly if its tip is in this one
      cases htip : first.any (·.tip == t.tip) with
      | true =>
        rw [place_of_taken htip]
        intro batch hbatch
        rcases List.mem_cons.mp hbatch with rfl | hbatch
        · exact hfirst
        · exact ih hrest batch hbatch
      | false =>
        rw [place_of_free htip]
        intro batch hbatch
        rcases List.mem_cons.mp hbatch with rfl | hbatch
        · rw [List.map_append]
          refine hfirst.append (List.nodup_singleton _) ?_
          intro tip hmem hsingle
          rcases List.mem_map.mp hmem with ⟨u, hu, rfl⟩
          have htaken := List.any_eq_false.mp htip u hu
          exact htaken (beq_iff_eq.mpr (List.mem_singleton.mp hsingle))
        · exact hrest batch hbatch

/-- Tethers with different tips share one batch. -/
theorem layered_batches {tethers : List (Tether S)} (h : (tethers.map (·.tip)).Nodup) :
    layered 0 (batches tethers) = tethers.map (0, ·) := by
  have hone : ∀ (rest batch : List (Tether S)), ((batch ++ rest).map (·.tip)).Nodup →
      rest.foldl (fun bs t => t.place bs) [batch] = [batch ++ rest] := by
    intro rest
    induction rest with
    | nil =>
      intro batch _
      rw [List.append_nil]
      rfl
    | cons t rest ih =>
      intro batch hnodup
      have hfree : batch.any (·.tip == t.tip) = false := by
        rw [List.any_eq_false]
        intro u hu htip
        rw [List.map_append, List.nodup_append] at hnodup
        exact hnodup.2.2 u.tip (List.mem_map_of_mem hu) t.tip (by simp) (by simpa using htip)
      rw [List.foldl_cons, place_of_free hfree, ih (batch ++ [t]) (by simpa using hnodup),
        List.append_assoc, List.singleton_append]
  cases tethers with
  | nil => rfl
  | cons t rest =>
    have hbatches : batches (t :: rest) = [t :: rest] := hone rest [t] h
    rw [hbatches]
    exact List.append_nil _

/-! ## Some of the tethers -/

/-- The second batches are the first ones without the tethers at some tips. Batches of which nothing
is left may be missing in the end. -/
inductive Thinned (keep : Nat → Bool) : List (List (Tether S)) → List (List (Tether S)) → Prop
  | nil {bs : List (List (Tether S))} (h : ∀ batch ∈ bs, ∀ t ∈ batch, keep t.tip = false) :
    Thinned keep bs []
  | cons {bs cs : List (List (Tether S))} (batch : List (Tether S)) (h : Thinned keep bs cs) :
    Thinned keep (batch :: bs) (batch.filter (keep ·.tip) :: cs)

namespace Thinned

variable {keep : Nat → Bool} {bs cs : List (List (Tether S))} {t : Tether S}

/-- A tether that is kept is placed into batches of the same number. -/
theorem place_kept (h : Thinned keep bs cs) (ht : keep t.tip = true) :
    Thinned keep (t.place bs) (t.place cs) := by
  induction h with
  | @nil bs hnone =>
    cases bs with
    | nil =>
      have hsingle : [t].filter (keep ·.tip) = [t] := by
        rw [List.filter_singleton, ht]
        rfl
      have hnil : Thinned keep ([] : List (List (Tether S))) [] := nil hnone
      have hthinned := cons [t] hnil
      rw [hsingle] at hthinned
      exact hthinned
    | cons batch rest =>
      -- what is there has other tips
      have hother := hnone batch List.mem_cons_self
      have hfree : batch.any (·.tip == t.tip) = false := by
        rw [List.any_eq_false]
        intro u hu htip
        have hgone := hother u hu
        rw [beq_iff_eq.mp htip, ht] at hgone
        cases hgone
      have hfilter : (batch ++ [t]).filter (keep ·.tip) = [t] := by
        rw [List.filter_append, List.filter_eq_nil_iff.mpr, List.filter_singleton, ht]
        · rfl
        · intro u hu
          rw [hother u hu]
          exact Bool.false_ne_true
      have hrest : Thinned keep rest [] := nil fun b hb => hnone b (List.mem_cons_of_mem batch hb)
      have hthinned := cons (batch ++ [t]) hrest
      rw [hfilter] at hthinned
      rw [place_of_free hfree]
      exact hthinned
  | @cons bs cs batch _ ih =>
    have hsame : (batch.filter (keep ·.tip)).any (·.tip == t.tip) =
        batch.any (·.tip == t.tip) := by
      rw [List.any_filter]
      congr 1
      funext u
      cases htip : u.tip == t.tip with
      | false => exact Bool.and_false _
      | true => rw [beq_iff_eq.mp htip, ht, Bool.and_self]
    cases htaken : batch.any (·.tip == t.tip) with
    | true =>
      rw [place_of_taken htaken, place_of_taken (hsame.trans htaken)]
      exact cons batch ih
    | false =>
      have hfilter : (batch ++ [t]).filter (keep ·.tip) = batch.filter (keep ·.tip) ++ [t] := by
        rw [List.filter_append, List.filter_singleton, ht]
        rfl
      rw [place_of_free htaken, place_of_free (hsame.trans htaken), ← hfilter]
      exact cons (batch ++ [t]) ‹_›

/-- A tether that is left out leaves no trace. -/
theorem place_dropped (h : Thinned keep bs cs) (ht : keep t.tip = false) :
    Thinned keep (t.place bs) cs := by
  induction h with
  | @nil bs hnone =>
    refine nil fun batch hbatch u hu => ?_
    have hmem := (flatten_place_perm t bs).mem_iff.mp (List.mem_flatten.mpr ⟨batch, hbatch, hu⟩)
    rcases List.mem_append.mp hmem with hold | hnew
    · rcases List.mem_flatten.mp hold with ⟨old, hold, huold⟩
      exact hnone old hold u huold
    · rw [List.mem_singleton.mp hnew]
      exact ht
  | @cons bs cs batch hrest ih =>
    cases htaken : batch.any (·.tip == t.tip) with
    | true =>
      rw [place_of_taken htaken]
      exact cons batch ih
    | false =>
      have hfilter : (batch ++ [t]).filter (keep ·.tip) = batch.filter (keep ·.tip) := by
        rw [List.filter_append, List.filter_singleton, ht]
        exact List.append_nil _
      rw [place_of_free htaken, ← hfilter]
      exact cons (batch ++ [t]) hrest

theorem layered (h : Thinned keep bs cs) (start : Nat) :
    layered start cs = (Tether.layered start bs).filter fun x => keep x.2.tip := by
  induction h generalizing start with
  | @nil bs hnone =>
    refine (List.filter_eq_nil_iff.mpr fun x hx => ?_).symm
    rcases List.mem_flatten.mp (mem_flatten_of_layered hx) with ⟨batch, hbatch, hmem⟩
    rw [hnone batch hbatch x.2 hmem]
    exact Bool.false_ne_true
  | @cons bs cs batch _ ih =>
    rw [Tether.layered, Tether.layered, ih, List.filter_append, List.filter_map]
    rfl

end Thinned

/-- A tether goes into the same batch when tethers with other tips are left out. -/
theorem layered_batches_filter (keep : Nat → Bool) (tethers : List (Tether S)) :
    layered 0 (batches (tethers.filter (keep ·.tip))) =
      (layered 0 (batches tethers)).filter fun x => keep x.2.tip := by
  refine Thinned.layered ?_ 0
  unfold batches
  suffices h : ∀ bs cs, Thinned keep bs cs →
      Thinned keep (tethers.foldl (fun bs t => t.place bs) bs)
        ((tethers.filter (keep ·.tip)).foldl (fun bs t => t.place bs) cs) from
    h [] [] (.nil fun _ hb => absurd hb List.not_mem_nil)
  induction tethers with
  | nil => exact fun _ _ h => h
  | cons t rest ih =>
    intro bs cs h
    cases ht : keep t.tip with
    | true =>
      rw [List.filter_cons_of_pos (p := fun t : Tether S => keep t.tip) ht]
      exact ih _ _ (h.place_kept ht)
    | false =>
      rw [List.filter_cons_of_neg (p := fun t : Tether S => keep t.tip) (Bool.eq_false_iff.mp ht)]
      exact ih _ _ (h.place_dropped ht)

/-- Other indices do not change the batches, as long as different tips stay different. -/
theorem batches_map {f : Tether S → Tether S} {tethers : List (Tether S)}
    (hf : ∀ t ∈ tethers, ∀ u ∈ tethers, (f t).tip = (f u).tip → t.tip = u.tip)
    (hsame : ∀ t u : Tether S, t.tip = u.tip → (f t).tip = (f u).tip) :
    batches (tethers.map f) = (batches tethers).map (List.map f) := by
  have hplace : ∀ (t : Tether S) (bs : List (List (Tether S))), t ∈ tethers →
      (∀ u ∈ bs.flatten, u ∈ tethers) →
      (f t).place (bs.map (List.map f)) = (t.place bs).map (List.map f) := by
    intro t bs ht
    induction bs with
    | nil => exact fun _ => rfl
    | cons batch rest ih =>
      intro hbs
      have hbatch : ∀ u ∈ batch, u ∈ tethers := fun u hu =>
        hbs u (List.mem_append_left _ hu)
      have hany : (batch.map f).any (·.tip == (f t).tip) = batch.any (·.tip == t.tip) := by
        rw [List.any_map, Bool.eq_iff_iff, List.any_eq_true, List.any_eq_true]
        refine exists_congr fun u => and_congr_right fun hu => ?_
        rw [Function.comp_apply, beq_iff_eq, beq_iff_eq]
        exact ⟨hf u (hbatch u hu) t ht, hsame u t⟩
      cases htaken : batch.any (·.tip == t.tip) with
      | true =>
        rw [List.map_cons, place_of_taken htaken, place_of_taken (hany.trans htaken),
          ih fun u hu => hbs u (List.mem_append_right _ hu), List.map_cons]
      | false =>
        rw [List.map_cons, place_of_free htaken, place_of_free (hany.trans htaken), List.map_cons,
          List.map_append]
        rfl
  unfold batches
  -- for the induction, with batches that have been begun
  suffices h : ∀ (rest : List (Tether S)) (bs : List (List (Tether S))),
      (∀ t ∈ rest, t ∈ tethers) → (∀ u ∈ bs.flatten, u ∈ tethers) →
      (rest.map f).foldl (fun bs t => t.place bs) (bs.map (List.map f)) =
        (rest.foldl (fun bs t => t.place bs) bs).map (List.map f) from
    h tethers [] (fun _ ht => ht) fun _ hu => absurd hu List.not_mem_nil
  intro rest
  induction rest with
  | nil => exact fun _ _ _ => rfl
  | cons t rest ih =>
    intro bs hrest hbs
    have ht := hrest t List.mem_cons_self
    rw [List.map_cons, List.foldl_cons, List.foldl_cons, hplace t bs ht hbs]
    refine ih _ (fun u hu => hrest u (List.mem_cons_of_mem t hu)) fun u hu => ?_
    rcases List.mem_append.mp ((flatten_place_perm t bs).mem_iff.mp hu) with hold | hnew
    · exact hbs u hold
    · rw [List.mem_singleton.mp hnew]
      exact ht

end Tether

end TetheredParticles

import TetheredParticles.Proofs.Registry.Calls
import TetheredParticles.Proofs.Snapshot.Channel
/-!
# What pulls use

Results wait in the channel, among the pending snapshots and in the window. All of them came with
snapshots, and a pull uses only those that came with a snapshot that had seen the latest write to
the proxy.

* `Registry.writeResults_spec` — which proxies are reported, and what becomes of the registry.
* `Drawn` — what a pull may give a proxy.
* `Playback.Sourced` — everything that waits to be used came with a snapshot.
* `Playback.Sourced.pullLatest`, `Playback.Sourced.pullAt` — what a pull does.
-/

namespace TetheredParticles

variable {S T : Type}

/-! ## Writing results -/

theorem Proxy.id_write (data : ResultData S) (p : Proxy S) : (p.write data).id = p.id := by
  cases data with
  | particles positions velocities => rfl
  | constraint force => rfl

namespace Registry

variable {r : Registry S}

/-- A proxy with the result that a rule finds for it, if it is live and the rule finds one. -/
def resulting (r : Registry S) (rule : Proxy S → Option (ResultData S)) (id : ProxyId) :
    Option (Proxy S) :=
  ((r.get? id).filter (!·.isPending)).bind fun p => (rule p).map (Proxy.write · p)

theorem id_of_resulting {rule : Proxy S → Option (ResultData S)} {id : ProxyId} {p : Proxy S}
    (h : r.resulting rule id = some p) : p.id = id := by
  unfold resulting at h
  rcases Option.bind_eq_some_iff.mp h with ⟨q, hq, h⟩
  rcases Option.map_eq_some_iff.mp h with ⟨data, _, rfl⟩
  rw [Proxy.id_write]
  exact id_of_get? (Option.filter_eq_some_iff.mp hq).1

/-- What is found for one proxy does not depend on what is written to another one. -/
theorem resulting_congr {after : Registry S} {rule : Proxy S → Option (ResultData S)}
    {id : ProxyId} (h : after.get? id = r.get? id) :
    after.resulting rule id = r.resulting rule id := by
  unfold resulting
  rw [h]

/-- A proxy that no result is found for is skipped, and another one is reported with its result. -/
theorem writeResults_cons (r : Registry S) (rule : Proxy S → Option (ResultData S)) (a : ProxyId)
    (rest : List ProxyId) :
    (r.resulting rule a = none ∧
      r.writeResults rule (a :: rest) = r.writeResults rule rest) ∨
    ∃ p data, r.get? a = some p ∧ r.resulting rule a = some (p.write data) ∧
      r.writeResults rule (a :: rest) =
        (p.write data :: ((r.modify a (Proxy.write data)).writeResults rule rest).1,
          ((r.modify a (Proxy.write data)).writeResults rule rest).2) := by
  unfold resulting
  rw [writeResults]
  cases hlive : (r.get? a).filter (!·.isPending) with
  | none => exact .inl ⟨rfl, rfl⟩
  | some p =>
    dsimp only
    rw [Option.bind_some]
    cases rule p with
    | none => exact .inl ⟨rfl, rfl⟩
    | some data => exact .inr ⟨p, data, (Option.filter_eq_some_iff.mp hlive).1, rfl, rfl⟩

/-- Every proxy of a list without repetitions that a result is found for is reported with it and
changed to it; nothing else changes. -/
theorem writeResults_spec (rule : Proxy S → Option (ResultData S)) {ids : List ProxyId}
    (hnodup : ids.Nodup) (r : Registry S) :
    (r.writeResults rule ids).1 = ids.filterMap (r.resulting rule) ∧
      (∀ id, (r.writeResults rule ids).2.get? id =
        if id ∈ ids then (r.resulting rule id).or (r.get? id) else r.get? id) ∧
      (r.writeResults rule ids).2 =
        { r with proxies := (r.writeResults rule ids).2.proxies } := by
  induction ids generalizing r with
  | nil => exact ⟨rfl, fun id => rfl, rfl⟩
  | cons a rest ih =>
    have hout := (List.nodup_cons.mp hnodup).1
    replace ih := ih (List.nodup_cons.mp hnodup).2
    rcases r.writeResults_cons rule a rest with ⟨hnone, heq⟩ | ⟨p, data, hp, hsome, heq⟩
    · rw [heq]
      rcases ih r with ⟨hreported, hget, hrest⟩
      refine ⟨?_, ?_, hrest⟩
      · rw [List.filterMap_cons, hnone]
        exact hreported
      · intro id
        rw [hget]
        by_cases hid : id = a
        · rw [hid, if_neg hout, if_pos List.mem_cons_self, hnone, Option.none_or]
        · simp only [List.mem_cons, hid, false_or]
    · have hmodify : ∀ id, (r.modify a (Proxy.write data)).get? id =
          if id = a then (r.get? id).map (Proxy.write data) else r.get? id :=
        get?_modify (Proxy.id_write data)
      -- the rest of the list does not see what is written to its head
      have hother : ∀ id, id ≠ a → (r.modify a (Proxy.write data)).get? id = r.get? id := by
        intro id hid
        rw [hmodify, if_neg hid]
      rw [heq]
      rcases ih (r.modify a (Proxy.write data)) with ⟨hreported, hget, hrest⟩
      refine ⟨?_, ?_, ?_⟩
      · rw [List.filterMap_cons, hsome]
        dsimp only
        rw [hreported]
        refine congrArg _ (List.filterMap_congr fun id hid => resulting_congr (hother id ?_))
        rintro rfl
        exact hout hid
      · intro id
        dsimp only
        rw [hget]
        by_cases hid : id = a
        · rw [hid, if_neg hout, if_pos List.mem_cons_self, hsome, hmodify, if_pos rfl, hp]
          rfl
        · rw [resulting_congr (hother id hid), hother id hid]
          simp only [List.mem_cons, hid, false_or]
      · dsimp only
        rcases modify_rest r a (Proxy.write data) with ⟨h₁, h₂, h₃, h₄, h₅⟩
        rw [hrest, h₁, h₂, h₃, h₄, h₅]

end Registry

/-! ## What results are drawn from -/

/-- A result for a proxy that came with a snapshot no older than the producer's latest write to
the proxy. -/
def Fresh (heard : List (PullSnapshot S T)) (p : Proxy S) (data : ResultData S) : Prop :=
  ∃ s ∈ heard, p.syncTimestamp ≤ s.timestamp ∧ ⟨p.id, data⟩ ∈ s.results

/-- What a pull may give a proxy: fresh results only, alone, blended with each other, or blended
with the producer's own view. -/
inductive Drawn [Scalar S] (heard : List (PullSnapshot S T)) (p : Proxy S) :
    ResultData S → Prop where
  /-- A fresh result. -/
  | result {data : ResultData S} (h : Fresh heard p data) : Drawn heard p data
  /-- A state between two fresh results. -/
  | between {earlier later : ResultData S} (alpha : S) (hearlier : Fresh heard p earlier)
      (hlater : Fresh heard p later) : Drawn heard p (earlier.lerp later alpha)
  /-- A state on the way from the producer's view to a fresh result. -/
  | onward {later : ResultData S} (alpha : S) (hlater : Fresh heard p later) :
      Drawn heard p (p.currentData.lerp later alpha)

/-- Every result of the map came with a snapshot. -/
def ResultMap.Sourced (m : ResultMap S) (heard : List (PullSnapshot S T)) : Prop :=
  ∀ id t data, m[id]? = some (t, data) → ∃ s ∈ heard, s.timestamp = t ∧ ⟨id, data⟩ ∈ s.results

namespace ResultMap

variable {m : ResultMap S} {heard : List (PullSnapshot S T)}

theorem sourced_empty : (∅ : ResultMap S).Sourced heard := by
  intro id t data h
  rw [Std.TreeMap.getElem?_emptyc] at h
  cases h

/-- A result that is found after a merge was there before, or came with the snapshot. -/
theorem getElem?_merge {s : PullSnapshot S T} {id : ProxyId} {t : Timestamp} {data : ResultData S}
    (h : (m.merge s)[id]? = some (t, data)) :
    m[id]? = some (t, data) ∨ s.timestamp = t ∧ ⟨id, data⟩ ∈ s.results := by
  unfold merge at h
  generalize s.results = results at h ⊢
  induction results generalizing m with
  | nil => exact .inl h
  | cons result rest ih =>
    rw [List.foldl_cons] at h
    rcases ih h with hrest | ⟨ht, hmem⟩
    · rw [Maps.getElem?_insert] at hrest
      split at hrest
      case isTrue hid =>
        cases hrest
        exact .inr ⟨rfl, hid ▸ List.mem_cons_self⟩
      case isFalse => exact .inl hrest
    · exact .inr ⟨ht, List.mem_cons_of_mem _ hmem⟩

theorem Sourced.merge (h : m.Sourced heard) {s : PullSnapshot S T} (hs : s ∈ heard) :
    (m.merge s).Sourced heard := by
  intro id t data hdata
  rcases getElem?_merge hdata with hold | ⟨ht, hmem⟩
  · exact h id t data hold
  · exact ⟨s, hs, ht, hmem⟩

theorem Sourced.foldl_merge (h : m.Sourced heard) {snapshots : List (PullSnapshot S T)}
    (hs : ∀ s ∈ snapshots, s ∈ heard) : (snapshots.foldl ResultMap.merge m).Sourced heard := by
  induction snapshots generalizing m with
  | nil => exact h
  | cons s rest ih =>
    exact ih (h.merge (hs s List.mem_cons_self)) fun t ht => hs t (List.mem_cons_of_mem s ht)

theorem Sourced.filter (h : m.Sourced heard) (keep : ProxyId → StampedResult S → Bool) :
    Sourced (Std.TreeMap.filter keep m) heard := by
  intro id t data hdata
  rw [Std.TreeMap.getElem?_filter', Option.filter_eq_some_iff] at hdata
  exact h id t data hdata.1

/-- A result no older than the latest write is fresh. -/
theorem Sourced.fresh (h : m.Sourced heard) {p : Proxy S} {t : Timestamp} {data : ResultData S}
    (hdata : (m[p.id]?.filter fun (timestamp, _) => p.syncTimestamp ≤ timestamp) =
      some (t, data)) : Fresh heard p data := by
  rcases Option.filter_eq_some_iff.mp hdata with ⟨hfound, hle⟩
  rcases h p.id t data hfound with ⟨s, hs, rfl, hmem⟩
  exact ⟨s, hs, of_decide_eq_true hle, hmem⟩

end ResultMap

namespace Playback

variable {p : Playback S T} {heard : List (PullSnapshot S T)}

/-- Everything that waits to be used came with a snapshot. -/
structure Sourced (p : Playback S T) (heard : List (PullSnapshot S T)) : Prop where
  pending : ∀ s ∈ p.pending, s ∈ heard
  previous : p.previous.Sourced heard
  next : ∀ s ∈ p.next, s ∈ heard

theorem sourced_empty : (empty : Playback S T).Sourced heard := by
  refine ⟨?_, ResultMap.sourced_empty, ?_⟩
  · intro s hs
    cases hs
  · intro s hs
    cases hs

/-- More snapshots do no harm. -/
theorem Sourced.mono (h : p.Sourced heard) {more : List (PullSnapshot S T)}
    (hmore : ∀ s ∈ heard, s ∈ more) : p.Sourced more := by
  refine ⟨fun s hs => hmore s (h.pending s hs), ?_, fun s hs => hmore s (h.next s hs)⟩
  intro id t data hdata
  rcases h.previous id t data hdata with ⟨s, hs, hfound⟩
  exact ⟨s, hmore s hs, hfound⟩

end Playback

namespace Channel

variable {α : Type} [Stamped α]

/-- What is received comes from the queue, and so does what is left. -/
theorem mem_receive {c after : Channel α} {result : Except ChannelError (Option α)}
    (h : c.receive = (result, after)) :
    (∀ a ∈ after.queue, a ∈ c.queue) ∧ ∀ a, result = .ok (some a) → a ∈ c.queue := by
  unfold receive at h
  split at h
  case h_1 s rest hq =>
    rw [hq]
    dsimp only at h
    split at h
    · cases h
      exact ⟨fun a ha => List.mem_cons_of_mem s ha, fun a ha => by cases ha⟩
    · cases h
      refine ⟨fun a ha => List.mem_cons_of_mem s ha, ?_⟩
      intro a ha
      cases ha
      exact List.mem_cons_self
  case h_2 hq =>
    cases h
    refine ⟨fun a ha => ha, ?_⟩
    intro a ha
    split at ha
    · cases ha
    · cases ha

/-- Collecting adds snapshots of the queue to those collected before. -/
theorem mem_collect {c after : Channel α} {collected : List α} {count : Nat}
    {result : Except ChannelError (List α)} (h : c.collect collected count = (result, after)) :
    (∀ a ∈ after.queue, a ∈ c.queue) ∧
      ∀ out, result = .ok out → ∀ a ∈ out, a ∈ collected ∨ a ∈ c.queue := by
  -- on the number of snapshots asked for, as the queue is a different one after each
  induction count generalizing c collected with
  | zero =>
    cases h
    refine ⟨fun a ha => ha, ?_⟩
    rintro out hout a ha
    cases hout
    exact .inl (List.mem_reverse.mp ha)
  | succ count ih =>
    unfold collect at h
    cases hreceive : c.receive with
    | mk received rest =>
      rw [hreceive] at h
      rcases mem_receive hreceive with ⟨hleft, htaken⟩
      split at h
      case h_1 s next heq =>
        cases heq
        rcases ih h with ⟨hqueue, hout⟩
        refine ⟨fun a ha => hleft a (hqueue a ha), ?_⟩
        intro out heq a ha
        rcases hout out heq a ha with hmem | hmem
        · rcases List.mem_cons.mp hmem with rfl | hmem
          · exact .inr (htaken a rfl)
          · exact .inl hmem
        · exact .inr (hleft a hmem)
      case h_2 next heq =>
        cases heq
        cases h
        refine ⟨hleft, ?_⟩
        intro out hout a ha
        cases hout
        exact .inl (List.mem_reverse.mp ha)
      case h_3 next heq =>
        cases heq
        cases h
        refine ⟨hleft, ?_⟩
        intro out hout a ha
        split at hout
        · cases hout
        · cases hout
          exact .inl (List.mem_reverse.mp ha)
      case h_4 e next _ heq =>
        cases heq
        cases h
        exact ⟨hleft, fun out hout => by cases hout⟩

/-- Collecting does not send. -/
theorem lastSent_collect (c : Channel α) (collected : List α) (count : Nat) :
    (c.collect collected count).2.lastSent = c.lastSent := by
  induction count generalizing c collected with
  | zero => rfl
  | succ count ih =>
    have hreceive : c.receive.2.lastSent = c.lastSent := by
      unfold receive
      split
      · dsimp only
        split
        · rfl
        · rfl
      · rfl
    unfold collect
    split
    case h_1 s next heq =>
      rw [heq] at hreceive
      rw [ih]
      exact hreceive
    case h_2 next heq =>
      rw [heq] at hreceive
      exact hreceive
    case h_3 next heq =>
      rw [heq] at hreceive
      exact hreceive
    case h_4 e next _ heq =>
      rw [heq] at hreceive
      exact hreceive

/-- A snapshot that is not refused follows all that were sent before. -/
theorem send_ok {c after : Channel α} {a : α} (h : c.send a = .ok after) :
    (∀ t ∈ c.lastSent, t < Stamped.timestamp a) ∧ after.queue = c.queue ++ [a] ∧
      after.lastSent = some (Stamped.timestamp a) := by
  rcases send_eq_ok.mp h with ⟨_, hlast, rfl⟩
  exact ⟨hlast, rfl, rfl⟩

end Channel

namespace Playback

variable {p : Playback S T} {heard : List (PullSnapshot S T)}

/-- Receiving moves snapshots from the channel to the pending ones. -/
theorem Sourced.receive (h : p.Sourced heard) {channel : Channel (PullSnapshot S T)}
    (hqueue : ∀ s ∈ channel.queue, s ∈ heard) :
    (p.receive channel).1.Sourced heard ∧ ∀ s ∈ (p.receive channel).2.queue, s ∈ heard := by
  unfold Playback.receive
  cases hdrain : channel.drain with
  | mk result after =>
    rcases Channel.mem_collect hdrain with ⟨hleft, htaken⟩
    cases result with
    | error e => exact ⟨h, fun s hs => hqueue s (hleft s hs)⟩
    | ok snapshots =>
      refine ⟨⟨?_, h.previous, h.next⟩, fun s hs => hqueue s (hleft s hs)⟩
      intro s hs
      rcases List.mem_append.mp hs with hs | hs
      · exact h.pending s hs
      · rcases htaken snapshots rfl s hs with hs | hs
        · cases hs
        · exact hqueue s hs

theorem lastSent_receive (p : Playback S T) (channel : Channel (PullSnapshot S T)) :
    (p.receive channel).2.lastSent = channel.lastSent := by
  have hdrain : channel.drain.2.lastSent = channel.lastSent := channel.lastSent_collect [] _
  unfold Playback.receive
  split
  case h_1 snapshots after heq =>
    rw [heq] at hdrain
    exact hdrain
  case h_2 e after heq =>
    rw [heq] at hdrain
    exact hdrain

/-! ## The plain pull -/

/-- The latest result of a proxy is fresh or not used. -/
theorem fresh_latestData {latest : ResultMap S} (h : latest.Sourced heard) {proxy : Proxy S}
    {data : ResultData S} (hdata : latestData latest proxy = some data) :
    Fresh heard proxy data := by
  unfold latestData at hdata
  rcases Option.map_eq_some_iff.mp hdata with ⟨⟨t, found⟩, hfound, rfl⟩
  exact h.fresh hfound

/-! ## The interpolated pull -/

/-- The window moves over the pending snapshots only. -/
theorem sourced_advanceWindow [Scalar T] (time : T) {previous : ResultMap S}
    {next : Option (PullSnapshot S T)} {pending : List (PullSnapshot S T)}
    (hprevious : previous.Sourced heard) (hnext : ∀ s ∈ next, s ∈ heard)
    (hpending : ∀ s ∈ pending, s ∈ heard) :
    (∀ s ∈ (advanceWindow time previous next pending).1, s ∈ heard) ∧
      (advanceWindow time previous next pending).2.1.Sourced heard ∧
      ∀ s ∈ (advanceWindow time previous next pending).2.2, s ∈ heard := by
  induction pending generalizing previous next with
  | nil => exact ⟨hpending, hprevious, hnext⟩
  | cons s rest ih =>
    have hs := hpending s List.mem_cons_self
    have hrest : ∀ t ∈ rest, t ∈ heard := fun t ht => hpending t (List.mem_cons_of_mem s ht)
    have hsome : ∀ t ∈ some s, t ∈ heard := by
      rintro t ⟨⟩
      exact hs
    unfold advanceWindow
    cases next with
    | none => exact ih hprevious hsome hrest
    | some last =>
      dsimp only
      split
      · exact ih (hprevious.merge (hnext last rfl)) hsome hrest
      · exact ⟨hpending, hprevious, hnext⟩

variable [Scalar S]

/-- Whatever of the six cases applies, only fresh results are used. -/
theorem drawn_blend {alpha : S} {previous results : ResultMap S} {next : PullSnapshot S T}
    (hprevious : previous.Sourced heard) (hresults : results.Sourced [next])
    (hnext : next ∈ heard) {proxy : Proxy S} {data : ResultData S}
    (hdata : blend alpha previous next results proxy = some data) : Drawn heard proxy data := by
  unfold blend at hdata
  dsimp only at hdata
  cases hfound : results[proxy.id]? with
  | none =>
    rw [hfound] at hdata
    rcases Option.map_eq_some_iff.mp hdata with ⟨⟨t, earlier⟩, hearlier, rfl⟩
    exact .result (hprevious.fresh hearlier)
  | some found =>
    rcases found with ⟨t, later⟩
    rw [hfound] at hdata
    dsimp only at hdata
    split at hdata
    · cases hdata
    case isFalse hseen =>
      have hlater : Fresh heard proxy later := by
        rcases hresults proxy.id t later hfound with ⟨s, hs, _, hmem⟩
        cases List.mem_singleton.mp hs
        exact ⟨next, hnext, Nat.not_lt.mp hseen, hmem⟩
      split at hdata
      · cases hdata
        exact .result hlater
      case h_2 earlier hearlier =>
        cases hdata
        exact .between alpha (hprevious.fresh hearlier) hlater
      case h_3 =>
        cases hdata
        exact .onward alpha hlater

end Playback

/-! ## What a pull does -/

/-- Proxies of a strictly ascending list of ids got the results that a rule found for them. -/
structure Reported [Scalar S] (registry : Registry S) (heard : List (PullSnapshot S T))
    (pulled : Pulled S T) : Prop where
  /-- No proxy is reported twice, and proxies are reported in order. -/
  ascending : (pulled.reported.map (·.id)).Pairwise fun a b => compare a b = .lt
  /-- A reported proxy is registered under its id and live, and its new state is drawn from results
  that came with snapshots no older than the latest write to it. -/
  drawn : ∀ p ∈ pulled.reported, pulled.registry.get? p.id = some p ∧
    ∃ old data, registry.get? p.id = some old ∧ old.isPending = false ∧
      Drawn heard old data ∧ p = old.write data
  /-- A proxy that is not reported stays as it was. -/
  unchanged : ∀ id, id ∉ pulled.reported.map (·.id) → pulled.registry.get? id = registry.get? id
  /-- Nothing but proxies changes. -/
  rest : pulled.registry = { registry with proxies := pulled.registry.proxies }

variable [Scalar S] {heard : List (PullSnapshot S T)}

omit [Scalar S] in
/-- An ascending list has no repetitions. -/
theorem nodup_of_ordered {ids : List ProxyId} (h : ids.Pairwise fun a b => compare a b = .lt) :
    ids.Nodup := by
  refine h.imp ?_
  rintro a b hlt rfl
  rw [show compare a a = .eq from Std.ReflCmp.compare_self] at hlt
  cases hlt

omit [Scalar S] in
/-- Ascending lists are determined by what they hold. -/
theorem eq_of_ordered {ids others : List ProxyId} (h : ids.Pairwise fun a b => compare a b = .lt)
    (k : others.Pairwise fun a b => compare a b = .lt) (hmem : ∀ id, id ∈ ids ↔ id ∈ others) :
    ids = others := by
  have hperm := (List.perm_ext_iff_of_nodup (nodup_of_ordered h) (nodup_of_ordered k)).mpr hmem
  refine hperm.eq_of_pairwise (fun a b _ _ hab hba => ?_) h k
  rw [Std.OrientedCmp.gt_of_lt hab] at hba
  cases hba

/-- Writing the results of a rule that draws on fresh results only. -/
theorem Registry.reported_writeResults (r : Registry S) {rule : Proxy S → Option (ResultData S)}
    (hrule : ∀ p data, rule p = some data → Drawn heard p data) {ids : List ProxyId}
    (hids : ids.Pairwise fun a b => compare a b = .lt) (playback : Playback S T) :
    Reported r heard
      ⟨(r.writeResults rule ids).1, (r.writeResults rule ids).2, playback⟩ := by
  have hnodup := nodup_of_ordered hids
  rcases writeResults_spec rule hnodup r with ⟨hreported, hget, hrest⟩
  have hmem : ∀ p, p ∈ (r.writeResults rule ids).1 ↔
      p.id ∈ ids ∧ r.resulting rule p.id = some p := by
    intro p
    rw [hreported, List.mem_filterMap]
    constructor
    · rintro ⟨id, hid, hp⟩
      rw [id_of_resulting hp]
      exact ⟨hid, hp⟩
    · rintro ⟨hid, hp⟩
      exact ⟨p.id, hid, hp⟩
  constructor
  case ascending =>
    refine hids.sublist ?_
    dsimp only
    rw [hreported]
    -- reports keep the order of the list, with the ids without results left out
    clear hreported hget hrest hmem hids hnodup
    induction ids with
    | nil => exact .slnil
    | cons a rest ih =>
      rw [List.filterMap_cons]
      cases hp : r.resulting rule a with
      | none => exact ih.cons a
      | some p =>
        rw [List.map_cons, id_of_resulting hp]
        exact ih.cons_cons a
  case drawn =>
    intro p hp
    rcases (hmem p).mp hp with ⟨hid, hresult⟩
    dsimp only
    rw [hget, if_pos hid, hresult]
    refine ⟨rfl, ?_⟩
    unfold resulting at hresult
    rcases Option.bind_eq_some_iff.mp hresult with ⟨old, hold, hresult⟩
    rcases Option.map_eq_some_iff.mp hresult with ⟨data, hdata, rfl⟩
    rcases Option.filter_eq_some_iff.mp hold with ⟨hold, hlive⟩
    exact ⟨old, data, hold, by simpa using hlive, hrule old data hdata, rfl⟩
  case unchanged =>
    intro id hout
    dsimp only at hout ⊢
    rw [hget]
    split
    case isTrue hid =>
      cases hresult : r.resulting rule id with
      | none => rfl
      | some p =>
        have heq := id_of_resulting hresult
        refine absurd (List.mem_map.mpr ⟨p, (hmem p).mpr ?_, heq⟩) hout
        rw [heq]
        exact ⟨hid, hresult⟩
    case isFalse => rfl
  case rest => exact hrest

namespace Playback

variable {p : Playback S T}

theorem Sourced.pullLatest (h : p.Sourced heard) (registry : Registry S) :
    Reported registry heard (p.pullLatest registry) ∧
      (p.pullLatest registry).playback.Sourced heard := by
  constructor
  · refine registry.reported_writeResults ?_ Std.TreeMap.ordered_keys _
    intro proxy data hdata
    exact .result (fresh_latestData (ResultMap.sourced_empty.foldl_merge h.pending) hdata)
  · refine ⟨?_, ResultMap.sourced_empty, ?_⟩
    · intro s hs
      cases hs
    · intro s hs
      cases hs

variable [Scalar T] [Timeline S T]

theorem Sourced.pullAt (h : p.Sourced heard) (time : T) (registry : Registry S) :
    Reported registry heard (p.pullAt time registry) ∧
      (p.pullAt time registry).playback.Sourced heard := by
  have hwindow := sourced_advanceWindow time (h.previous.filter fun id _ =>
    (registry.get? id).isSome) h.next h.pending
  unfold Playback.pullAt
  dsimp only
  generalize advanceWindow time (Std.TreeMap.filter (fun id _ => (registry.get? id).isSome)
    p.previous) p.next p.pending = window at hwindow
  rcases window with ⟨pending, previous, next⟩
  rcases hwindow with ⟨hpending, hprevious, hnext⟩
  cases next with
  | none =>
    refine ⟨⟨.nil, ?_, fun id _ => rfl, rfl⟩, ⟨hpending, hprevious, hnext⟩⟩
    intro q hq
    cases hq
  | some snapshot =>
    refine ⟨registry.reported_writeResults ?_ Std.TreeSet.ordered_toList _,
      ⟨hpending, hprevious, hnext⟩⟩
    intro proxy data hdata
    exact drawn_blend hprevious (ResultMap.sourced_empty.merge List.mem_cons_self)
      (hnext snapshot rfl) hdata

end Playback

end TetheredParticles

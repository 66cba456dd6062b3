import Mathlib.Data.List.Induction
import TetheredParticles.Proofs.Snapshot.Playback
/-!
# What a plain pull shows

Answers have at most one result for a proxy. A plain pull of several answers shows a proxy as the
last one that has a result for it, unless the producer has written to the proxy since.

* `PullSnapshot.Tells`, `PullSnapshot.Silent` — what one answer says about a proxy.
* `newest?` — the newest result for a proxy; merging answers in order leaves it.
* `Playback.pulled`, `Playback.shown` — a proxy after a plain pull, and where its particles are.
* `Playback.shown_append_of_tells`, `Playback.shown_append_of_silent` — one answer more.
* `Playback.get?_pullLatest` — the pull itself.
-/

namespace TetheredParticles

variable {S T : Type}

namespace PullSnapshot

/-- An answer has one result for a proxy. -/
def Tells (answer : PullSnapshot S T) (proxy : ProxyId) (data : ResultData S) : Prop :=
  ∀ r, r ∈ answer.results ∧ r.proxy = proxy ↔ r = ⟨proxy, data⟩

/-- An answer has no result for a proxy. -/
def Silent (answer : PullSnapshot S T) (proxy : ProxyId) : Prop :=
  ∀ r ∈ answer.results, r.proxy ≠ proxy

end PullSnapshot

/-! ## Writing -/

/-- If every proxy that a rule finds a result for is listed, every live proxy gets its result. -/
theorem Registry.get?_writeResults (rule : Proxy S → Option (ResultData S)) {ids : List ProxyId}
    (hnodup : ids.Nodup) (r : Registry S) (hall : ∀ p data, rule p = some data → p.id ∈ ids)
    (id : ProxyId) :
    (r.writeResults rule ids).2.get? id = (r.get? id).map fun p =>
      if p.isPending then p else (rule p).elim p fun data => p.write data := by
  rw [(writeResults_spec rule hnodup r).2.1]
  unfold resulting
  cases hp : r.get? id with
  | none => simp
  | some p =>
    have hid := id_of_get? hp
    by_cases hpending : p.isPending = true
    · simp [Option.filter, hpending]
    · cases hrule : rule p with
      | none => simp [Option.filter, hpending, hrule]
      | some data =>
        rw [if_pos (hid ▸ hall p data hrule)]
        simp [Option.filter, hpending, hrule]

/-! ## Merging -/

/-- The result that a snapshot has for a proxy. If it has several, the last one counts. -/
def PullSnapshot.result? (s : PullSnapshot S T) (id : ProxyId) : Option (ResultData S) :=
  (s.results.reverse.find? fun r => r.proxy = id).map (·.data)

theorem PullSnapshot.Silent.result?_eq_none {answer : PullSnapshot S T} {proxy : ProxyId}
    (h : answer.Silent proxy) : answer.result? proxy = none := by
  unfold PullSnapshot.result?
  rw [Option.map_eq_none_iff, List.find?_eq_none]
  intro r hr hproxy
  exact h r (List.mem_reverse.mp hr) (of_decide_eq_true hproxy)

theorem PullSnapshot.Tells.result?_eq_some {answer : PullSnapshot S T} {proxy : ProxyId}
    {data : ResultData S} (h : answer.Tells proxy data) : answer.result? proxy = some data := by
  unfold PullSnapshot.result?
  cases hfound : answer.results.reverse.find? fun r => r.proxy = proxy with
  | none =>
    have hmem := ((h ⟨proxy, data⟩).mpr rfl).1
    have hno := List.find?_eq_none.mp hfound _ (List.mem_reverse.mpr hmem)
    exact absurd (decide_eq_true rfl) hno
  | some r =>
    have hr := List.mem_reverse.mp (List.mem_of_find?_eq_some hfound)
    have hproxy := List.find?_some hfound
    rw [(h r).mp ⟨hr, of_decide_eq_true hproxy⟩]
    rfl

/-- The newest result for a proxy in snapshots, oldest first, and the number it came with. -/
def newest? (snapshots : List (PullSnapshot S T)) (id : ProxyId) : Option (StampedResult S) :=
  snapshots.reverse.findSome? fun s => (s.result? id).map fun data => (s.timestamp, data)

theorem newest?_append (a b : List (PullSnapshot S T)) (id : ProxyId) :
    newest? (a ++ b) id = (newest? b id).or (newest? a id) := by
  unfold newest?
  rw [List.reverse_append, List.findSome?_append]

theorem newest?_singleton (s : PullSnapshot S T) (id : ProxyId) :
    newest? [s] id = (s.result? id).map fun data => (s.timestamp, data) := by
  unfold newest?
  rw [List.reverse_singleton, List.findSome?_singleton]

theorem isSome_newest? {snapshots : List (PullSnapshot S T)} {id : ProxyId} :
    (newest? snapshots id).isSome ↔ ∃ s ∈ snapshots, (s.result? id).isSome := by
  unfold newest?
  simp

namespace ResultMap

variable {m : ResultMap S}

/-- Merging a snapshot puts its results over older ones. -/
theorem getElem?_merge_eq (s : PullSnapshot S T) (id : ProxyId) :
    (m.merge s)[id]? = ((s.result? id).map fun data => (s.timestamp, data)).or m[id]? := by
  unfold merge PullSnapshot.result?
  generalize s.results = results
  induction results using List.reverseRecOn with
  | nil => rfl
  | append_singleton rest r ih =>
    rw [List.foldl_append, List.foldl_cons, List.foldl_nil, Maps.getElem?_insert,
      List.reverse_append, List.reverse_singleton, List.singleton_append]
    by_cases hid : r.proxy = id
    · rw [if_pos hid.symm]
      simp [hid]
    · rw [if_neg (Ne.symm hid), ih]
      simp [hid]

/-- Merging snapshots in order leaves the newest results. -/
theorem getElem?_foldl_merge (snapshots : List (PullSnapshot S T)) (id : ProxyId) :
    (snapshots.foldl merge m)[id]? = (newest? snapshots id).or m[id]? := by
  induction snapshots generalizing m with
  | nil => rfl
  | cons s rest ih =>
    rw [List.foldl_cons, ih, getElem?_merge_eq, ← List.singleton_append, newest?_append,
      newest?_singleton, Option.or_assoc]

/-- Without a result for a proxy, the older one is kept. -/
theorem merge_of_silent {answer : PullSnapshot S T} {proxy : ProxyId} (h : answer.Silent proxy) :
    (m.merge answer)[proxy]? = m[proxy]? := by
  rw [getElem?_merge_eq, h.result?_eq_none]
  rfl

/-- A result for a proxy replaces the older one. -/
theorem merge_of_tells {answer : PullSnapshot S T} {proxy : ProxyId} {data : ResultData S}
    (h : answer.Tells proxy data) :
    (m.merge answer)[proxy]? = some (answer.timestamp, data) := by
  rw [getElem?_merge_eq, h.result?_eq_some]
  rfl

end ResultMap

namespace Playback

/-! ## Showing -/

/-- A proxy after a plain pull of answers. -/
def pulled (answers : List (PullSnapshot S T)) (p : Proxy S) : Proxy S :=
  (latestData (answers.foldl ResultMap.merge ∅) p).elim p fun data => p.write data

/-- Where a plain pull of answers puts the particles of a proxy. -/
def shown (answers : List (PullSnapshot S T)) (p : Proxy S) : Array (Vec3 S) :=
  (pulled answers p).state.positions

variable {answers : List (PullSnapshot S T)} {answer : PullSnapshot S T} {p : Proxy S}

/-- A pull changes nothing but the view of a proxy. -/
theorem pulled_keeps (answers : List (PullSnapshot S T)) (p : Proxy S) :
    pulled answers p = { p with state := (pulled answers p).state } := by
  unfold pulled
  cases latestData (answers.foldl ResultMap.merge ∅) p with
  | none => rfl
  | some data =>
    cases data with
    | particles positions velocities => rfl
    | constraint force => rfl

/-- Without answers the proxy is left as it is. -/
theorem shown_nil (p : Proxy S) : shown ([] : List (PullSnapshot S T)) p = p.state.positions := by
  unfold shown pulled latestData
  rw [List.foldl_nil, Std.TreeMap.getElem?_emptyc]
  rfl

theorem shown_append_of_silent (h : answer.Silent p.id) :
    shown (answers ++ [answer]) p = shown answers p := by
  unfold shown pulled latestData
  rw [List.foldl_append, List.foldl_cons, List.foldl_nil, ResultMap.merge_of_silent h]

theorem shown_append_of_tells {positions velocities : Array (Vec3 S)}
    (h : answer.Tells p.id (.particles positions velocities))
    (hsync : p.syncTimestamp ≤ answer.timestamp) :
    shown (answers ++ [answer]) p = positions := by
  unfold shown pulled latestData
  rw [List.foldl_append, List.foldl_cons, List.foldl_nil, ResultMap.merge_of_tells h,
    Option.filter_some, if_pos (decide_eq_true hsync)]
  rfl

/-- A plain pull gives every live proxy its latest result. -/
theorem get?_pullLatest (playback : Playback S T) (registry : Registry S) (id : ProxyId) :
    (playback.pullLatest registry).registry.get? id = (registry.get? id).map fun p =>
      if p.isPending then p else pulled playback.pending p := by
  refine Registry.get?_writeResults _ Std.TreeMap.nodup_keys registry ?_ id
  intro p data hdata
  unfold latestData at hdata
  rcases Option.map_eq_some_iff.mp hdata with ⟨result, hresult, _⟩
  rw [Std.TreeMap.mem_keys]
  exact (Std.TreeMap.mem_iff_isSome_getElem?).mpr
    (Option.isSome_of_eq_some (Option.filter_eq_some_iff.mp hresult).1)

end Playback

end TetheredParticles

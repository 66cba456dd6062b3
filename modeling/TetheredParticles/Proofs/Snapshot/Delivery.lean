import TetheredParticles.Proofs.Scalar.Exact
import TetheredParticles.Proofs.Snapshot.Window
/-!
# What plain pulls deliver

A plain pull shows every proxy the newest result among the answers that wait. Answers that a pull at
a time has taken into the window do not wait any more, and a plain pull empties the window: a proxy
whose newest result is there stays where the last pull has put it.

* `Viewer.Delivers`, `Viewer.Delivered` — a proxy shows its newest result.
* `Viewer.halfway_forgotten` — a plain pull may forget the end of the window.
* `Viewer.run_delivers` — it delivers everything that waits, for good; without pulls at times that
  is everything that has arrived.
-/

namespace TetheredParticles

variable {S T : Type}

/-! ## The newest result -/

/-- The newest result for a proxy came with a snapshot that no other one for it follows. -/
theorem exists_of_newest? {snapshots : List (PullSnapshot S T)} {id : ProxyId} {t : Timestamp}
    {data : ResultData S} (h : newest? snapshots id = some (t, data)) :
    ∃ before s after, snapshots = before ++ s :: after ∧ s.timestamp = t ∧
      s.result? id = some data ∧ ∀ q ∈ after, q.result? id = none := by
  unfold newest? at h
  rcases List.findSome?_eq_some_iff.mp h with ⟨after, s, before, hsplit, hs, hnone⟩
  rcases Option.map_eq_some_iff.mp hs with ⟨found, hfound, heq⟩
  cases heq
  refine ⟨before.reverse, s, after.reverse, ?_, rfl, hfound, ?_⟩
  · rw [List.reverse_eq_iff.mp hsplit]
    simp
  · intro q hq
    exact Option.map_eq_none_iff.mp (hnone q (List.mem_reverse.mp hq))

/-- No snapshot with a result for a proxy is newer than its newest result. -/
theorem le_of_newest? {snapshots : List (PullSnapshot S T)}
    (hascending : snapshots.Pairwise fun a b => a.timestamp < b.timestamp) {id : ProxyId}
    {t : Timestamp} {data : ResultData S} (h : newest? snapshots id = some (t, data))
    {q : PullSnapshot S T} (hq : q ∈ snapshots) (hresult : (q.result? id).isSome) :
    q.timestamp ≤ t := by
  rcases exists_of_newest? h with ⟨before, s, after, rfl, rfl, _, hnone⟩
  rcases List.mem_append.mp hq with hq | hq
  · exact ((List.pairwise_append.mp hascending).2.2 q hq s List.mem_cons_self).le
  · rcases List.mem_cons.mp hq with rfl | hq
    · exact le_refl _
    · rw [hnone q hq] at hresult
      cases hresult

/-- What is the newest of all is the newest among the last ones, if it came with one of them. -/
theorem newest?_of_append {before after : List (PullSnapshot S T)}
    (hascending : (before ++ after).Pairwise fun a b => a.timestamp < b.timestamp) {id : ProxyId}
    {s : PullSnapshot S T} (hs : s ∈ after) {data : ResultData S}
    (h : newest? (before ++ after) id = some (s.timestamp, data)) :
    newest? after id = some (s.timestamp, data) := by
  rw [newest?_append] at h
  cases hfound : newest? after id with
  | some result =>
    rw [hfound] at h
    exact h
  | none =>
    rw [hfound, Option.none_or] at h
    rcases exists_of_newest? h with ⟨first, q, last, rfl, htime, _⟩
    have hlt := (List.pairwise_append.mp hascending).2.2 q (by simp) s hs
    exact absurd htime hlt.ne

theorem PullSnapshot.isSome_result? {s : PullSnapshot S T} {id : ProxyId} {data : ResultData S}
    (h : ⟨id, data⟩ ∈ s.results) : (s.result? id).isSome := by
  unfold PullSnapshot.result?
  rw [Option.isSome_map, List.find?_isSome]
  exact ⟨_, List.mem_reverse.mpr h, decide_eq_true rfl⟩

/-- A state that a proxy is given is drawn from some fresh result. -/
theorem Drawn.exists_fresh [Scalar S] {heard : List (PullSnapshot S T)} {p : Proxy S}
    {data : ResultData S} (h : Drawn heard p data) : ∃ later, Fresh heard p later := by
  cases h with
  | result h => exact ⟨_, h⟩
  | between _ _ hlater => exact ⟨_, hlater⟩
  | onward _ hlater => exact ⟨_, hlater⟩

theorem Proxy.write_write (data : ResultData S) (p : Proxy S) :
    (p.write data).write data = p.write data := by
  cases data with
  | particles positions velocities => rfl
  | constraint force => rfl

namespace Viewer

/-! ## Delivery -/

/-- Every live proxy whose newest result came with a snapshot shows that result, unless the proxy
has been written to since. -/
def Delivers (v : Viewer S T) (s : PullSnapshot S T) : Prop :=
  ∀ id p data, v.registry.get? id = some p → p.isPending = false →
    newest? v.heard id = some (s.timestamp, data) → p.syncTimestamp ≤ s.timestamp →
    p.write data = p

/-- Every live proxy shows the newest result that has arrived for it, unless it has been written to
since. -/
def Delivered (v : Viewer S T) : Prop := ∀ s ∈ v.heard, v.Delivers s

variable [Scalar S] [Scalar T] [Timeline S T]

/-- What has been written to a proxy is newer than every answer that has arrived. -/
def Timely (events : List (Event S T)) : Prop :=
  ∀ earlier call later, events = earlier ++ .call call :: later →
    ∀ t ∈ call.stampedAt?, ∀ s ∈ (run earlier).heard, s.timestamp < t

variable {v : Viewer S T} {s : PullSnapshot S T}

namespace Delivers

/-- A call leaves a proxy alone, or writes to it. -/
theorem call (h : v.Delivers s) {call : Registry.Call S}
    (htimely : ∀ t ∈ call.stampedAt?, s.timestamp < t) : (v.perform (.call call)).Delivers s := by
  intro id p data hp hlive hnewest hsync
  rcases Registry.kept_or_stamped hp hlive with hold | ⟨t, ht, hle⟩
  · exact h id p data hold hlive hnewest hsync
  · exact absurd (hle.trans hsync) (htimely t ht).not_ge

/-- An answer that arrives is newer, and what it has results for is no longer at issue. -/
theorem arrive (h : v.Delivers s) (hs : s ∈ v.heard) (q : PullSnapshot S T)
    (hascending : (v.perform (.arrive q)).heard.Pairwise fun a b => a.timestamp < b.timestamp) :
    (v.perform (.arrive q)).Delivers s := by
  unfold perform at hascending ⊢
  dsimp only at hascending ⊢
  split
  case h_2 => exact h
  case h_1 channel hsend =>
    rw [hsend] at hascending
    have hlater := (List.pairwise_append.mp hascending).2.2 s hs q List.mem_cons_self
    intro id p data hp hlive hnewest hsync
    refine h id p data hp hlive ?_ hsync
    dsimp only at hnewest
    rw [newest?_append, newest?_singleton] at hnewest
    cases hq : q.result? id with
    | none =>
      rw [hq] at hnewest
      exact hnewest
    | some result =>
      rw [hq] at hnewest
      have htime : q.timestamp = s.timestamp := congrArg Prod.fst (Option.some.inj hnewest)
      exact absurd htime hlater.ne'

/-- A pull that draws on newer answers only leaves it so. -/
theorem pull (h : v.Delivers s) {fresh : List (PullSnapshot S T)}
    (hascending : v.heard.Pairwise fun a b => a.timestamp < b.timestamp)
    (hfresh : ∀ q ∈ fresh, q ∈ v.heard ∧ s.timestamp < q.timestamp) {time : Option T}
    (hreported : Reported v.registry fresh (v.pulled time)) : (v.pull time).Delivers s := by
  intro id p data hp hlive hnewest hsync
  by_cases hid : id ∈ (v.pulled time).reported.map (·.id)
  · -- a newer answer would have a result for the proxy
    rcases List.mem_map.mp hid with ⟨p', hp', rfl⟩
    rcases hreported.drawn p' hp' with ⟨_, old, drawn, hold, _, hdrawn, _⟩
    rcases hdrawn.exists_fresh with ⟨later, q, hq, _, hmem⟩
    rw [Registry.id_of_get? hold] at hmem
    rcases hfresh q hq with ⟨hheard, hlt⟩
    have hle := le_of_newest? hascending hnewest hheard (PullSnapshot.isSome_result? hmem)
    exact absurd hle hlt.not_ge
  · have hold := (hreported.unchanged id hid).symm.trans hp
    exact h id p data hold hlive hnewest hsync

end Delivers

/-- A plain pull delivers whatever waits. -/
theorem Windowed.delivers {used older : List (PullSnapshot S T)} {held : ProxyId → Prop}
    (h : v.Windowed used held older) (hs : s ∈ v.waiting) : (v.pull none).Delivers s := by
  intro id p data hp hlive hnewest hsync
  have hascending := h.attended.ascending
  have hheard := h.attended.heard_eq
  rw [List.append_assoc] at hheard
  change v.heard = _ ++ v.waiting at hheard
  change newest? v.heard id = _ at hnewest
  rw [hheard] at hascending hnewest
  have hwaiting := newest?_of_append hascending hs hnewest
  have hget := Playback.get?_pullLatest (v.playback.receive v.channel).1 v.registry id
  replace hp : ((v.playback.receive v.channel).1.pullLatest v.registry).registry.get? id =
    some p := hp
  rw [h.attended.receive.1, hp] at hget
  rcases Option.map_eq_some_iff.mp hget.symm with ⟨old, hold, rfl⟩
  have hid := Registry.id_of_get? hold
  split at hlive
  case isTrue hpending =>
    rw [hpending] at hlive
    cases hlive
  case isFalse hpending =>
    rw [if_neg hpending] at hsync ⊢
    rw [Playback.pulled_keeps] at hsync
    have hshown : Playback.pulled v.waiting old = old.write data := by
      unfold Playback.pulled Playback.latestData
      rw [ResultMap.getElem?_foldl_merge, hid, hwaiting, Option.some_or, Option.filter_some,
        if_pos (decide_eq_true hsync)]
      rfl
    rw [hshown, Proxy.write_write]

/-! ## What is not used any more -/

/-- Nothing that has arrived by some time is in use any more. -/
def Beyond (v : Viewer S T) (past : List (PullSnapshot S T)) : Prop :=
  ∃ fresh, v.heard = past ++ fresh ∧ Informed { v with heard := fresh }

/-- A plain pull leaves nothing to be used. -/
theorem Windowed.beyond {used older : List (PullSnapshot S T)} {held : ProxyId → Prop}
    (h : v.Windowed used held older) : (v.pull none).Beyond v.heard := by
  rcases h.attended.receive with ⟨_, _, _, hqueue, _⟩
  refine ⟨[], (List.append_nil _).symm, ?_⟩
  constructor
  case playback =>
    exact ⟨fun a ha => absurd ha List.not_mem_nil, ResultMap.sourced_empty,
      fun a ha => absurd ha (Option.not_mem_none a)⟩
  case queue =>
    intro a ha
    change a ∈ (v.playback.receive v.channel).2.queue at ha
    rw [hqueue] at ha
    cases ha
  case sent => exact fun a ha => absurd ha List.not_mem_nil
  case ascending => exact .nil

theorem Beyond.perform {past : List (PullSnapshot S T)} (h : v.Beyond past) (event : Event S T) :
    (v.perform event).Beyond past := by
  rcases h with ⟨fresh, hheard, hinformed⟩
  have hafter := hinformed.perform event
  cases event with
  | call call => exact ⟨fresh, hheard, hafter⟩
  | pullLatest => exact ⟨fresh, hheard, hafter⟩
  | pullAt time => exact ⟨fresh, hheard, hafter⟩
  | arrive q =>
    unfold Viewer.perform at hafter ⊢
    dsimp only at hafter ⊢
    cases hsend : v.channel.send q with
    | error e => exact ⟨fresh, hheard, hinformed⟩
    | ok channel =>
      rw [hsend] at hafter
      refine ⟨fresh ++ [q], ?_, hafter⟩
      dsimp only
      rw [hheard, List.append_assoc]

/-- A delivered answer stays delivered, since only newer ones are in use, and what is written to a
proxy is newer too. -/
theorem Delivers.perform {past : List (PullSnapshot S T)} (h : v.Delivers s) (hv : v.Informed)
    (hbeyond : v.Beyond past) (hs : s ∈ past) (event : Event S T)
    (htimely : ∀ call, event = .call call → ∀ t ∈ call.stampedAt?, s.timestamp < t) :
    (v.perform event).Delivers s := by
  rcases hbeyond with ⟨fresh, hheard, hinformed⟩
  have hfresh : ∀ q ∈ fresh, q ∈ v.heard ∧ s.timestamp < q.timestamp := by
    intro q hq
    have hascending := hv.ascending
    rw [hheard] at hascending ⊢
    exact ⟨List.mem_append_right _ hq, (List.pairwise_append.mp hascending).2.2 s hs q hq⟩
  cases event with
  | call call => exact h.call (htimely call rfl)
  | arrive q =>
    exact h.arrive (hheard ▸ List.mem_append_left _ hs) q (hv.perform (.arrive q)).ascending
  | pullLatest => exact h.pull hv.ascending hfresh (hinformed.reported none).1
  | pullAt time => exact h.pull hv.ascending hfresh (hinformed.reported (some time)).1

/-! ## Runs -/

theorem Timely.of_concat {events : List (Event S T)} {event : Event S T}
    (h : Timely (events ++ [event])) : Timely events := by
  intro earlier call later hevents
  refine h earlier call (later ++ [event]) ?_
  rw [hevents, List.append_assoc]
  rfl

theorem Timely.concat {events : List (Event S T)} {event : Event S T} (h : Timely events)
    (hevent : ∀ call, event = .call call → ∀ t ∈ call.stampedAt?, ∀ s ∈ (run events).heard,
      s.timestamp < t) : Timely (events ++ [event]) := by
  intro earlier call later hevents
  rcases List.eq_nil_or_concat later with rfl | ⟨rest, last, rfl⟩
  · rcases List.append_inj' hevents rfl with ⟨rfl, hlast⟩
    exact hevent call (List.cons.inj hlast).1
  · rw [List.concat_eq_append, ← List.cons_append, ← List.append_assoc] at hevents
    exact h earlier call rest (List.append_inj' hevents rfl).1

/-- A call that nothing comes before is timely. -/
theorem timely_of_tail {events : List (Event S T)} (h : ∀ call, .call call ∉ events.tail) :
    Timely events := by
  intro earlier call later hevents
  cases earlier with
  | nil =>
    intro t _ s hs
    cases hs
  | cons event rest =>
    refine absurd ?_ (h call)
    rw [hevents]
    simp

/-- What waits when a plain pull is made has been delivered from then on. -/
theorem delivers_run {earlier later : List (Event S T)}
    (htimely : Timely (earlier ++ .pullLatest :: later)) (hs : s ∈ (run earlier).waiting) :
    (run (earlier ++ .pullLatest :: later)).Delivers s ∧
      (run (earlier ++ .pullLatest :: later)).Beyond (run earlier).heard := by
  rcases windowed_run earlier with ⟨used, older, hwindow, _⟩
  have hheard : s ∈ (run earlier).heard := by
    rw [hwindow.attended.heard_eq, List.append_assoc]
    exact List.mem_append_right _ hs
  induction later using List.reverseRecOn with
  | nil =>
    rw [run_concat]
    exact ⟨hwindow.delivers hs, hwindow.beyond⟩
  | append_singleton later event ih =>
    rw [← List.cons_append, ← List.append_assoc] at htimely ⊢
    rcases ih htimely.of_concat with ⟨hdelivers, hbeyond⟩
    have hinformed := informed_run (earlier ++ .pullLatest :: later)
    rw [run_concat]
    refine ⟨hdelivers.perform hinformed hbeyond hheard event ?_, hbeyond.perform event⟩
    -- a call is newer than the answer, which had arrived before the plain pull
    rintro call rfl t ht
    refine htimely _ call [] rfl t ht s ?_
    rcases hbeyond with ⟨fresh, hsplit, _⟩
    rw [hsplit]
    exact List.mem_append_left _ hheard

/-- An answer that is not refused waits. -/
theorem arrive_waits (v : Viewer S T) (q : PullSnapshot S T) :
    v.perform (.arrive q) = v ∨ (v.perform (.arrive q)).heard = v.heard ++ [q] ∧
      (v.perform (.arrive q)).waiting = v.waiting ++ [q] := by
  unfold waiting perform
  dsimp only
  cases hsend : v.channel.send q with
  | error e => exact .inl rfl
  | ok channel =>
    refine .inr ⟨rfl, ?_⟩
    dsimp only
    rw [(Channel.send_ok hsend).2.1, List.append_assoc]

/-- Without pulls at times, everything that has arrived waits or has waited for a plain pull. -/
theorem waited_run {events : List (Event S T)} (h : ∀ time, .pullAt time ∉ events) :
    ∀ s ∈ (run events).heard, s ∈ (run events).waiting ∨
      ∃ earlier later, events = earlier ++ .pullLatest :: later ∧ s ∈ (run earlier).waiting := by
  induction events using List.reverseRecOn with
  | nil =>
    intro s hs
    cases hs
  | append_singleton events event ih =>
    have hno : ∀ time, .pullAt time ∉ events := fun time hmem =>
      h time (List.mem_append_left _ hmem)
    intro s hs
    have hmore : (∃ earlier later, events = earlier ++ .pullLatest :: later ∧
        s ∈ (run earlier).waiting) → ∃ earlier later,
          events ++ [event] = earlier ++ .pullLatest :: later ∧ s ∈ (run earlier).waiting := by
      rintro ⟨earlier, later, rfl, hwaited⟩
      exact ⟨earlier, later ++ [event], List.append_assoc _ _ _, hwaited⟩
    rw [run_concat] at hs ⊢
    cases event with
    | call call => exact (ih hno s hs).imp_right hmore
    | pullLatest =>
      rcases ih hno s hs with hwaiting | hwaited
      · exact .inr ⟨events, [], rfl, hwaiting⟩
      · exact .inr (hmore hwaited)
    | pullAt time => exact absurd (List.mem_append_right _ List.mem_cons_self) (h time)
    | arrive q =>
      rcases arrive_waits (run events) q with heq | ⟨hheard, hwaiting⟩
      · rw [heq] at hs ⊢
        exact (ih hno s hs).imp_right hmore
      · rw [hheard] at hs
        rw [hwaiting]
        rcases List.mem_append.mp hs with hs | hs
        · exact (ih hno s hs).imp (List.mem_append_left _) hmore
        · exact .inl (List.mem_append_right _ hs)

/-- An answer that waits when a plain pull is made is delivered then and stays so. If no pull was
made at a time, a plain pull delivers everything that has arrived. -/
theorem run_delivers (events : List (Event S T)) (htimely : Timely events) :
    (∀ earlier later, events = earlier ++ .pullLatest :: later →
      ∀ s ∈ (run earlier).waiting, (run events).Delivers s) ∧
    ((∀ time, .pullAt time ∉ events) → ((run events).pull none).Delivered) := by
  constructor
  · rintro earlier later rfl s hs
    exact (delivers_run htimely hs).1
  · intro hno s hs
    have hlast : Timely (events ++ [.pullLatest]) := htimely.concat (by rintro _ ⟨⟩)
    have hrun : run (events ++ [.pullLatest]) = (run events).pull none :=
      run_concat events .pullLatest
    rw [← hrun]
    rcases waited_run hno s hs with hwaiting | ⟨earlier, later, rfl, hwaited⟩
    · exact (delivers_run hlast hwaiting).1
    · rw [List.append_assoc, List.cons_append] at hlast ⊢
      exact (delivers_run hlast hwaited).1

/-- A step moves a particle. -/
def leap : PullSnapshot Rat Rat := ⟨⟨1⟩, 0, 1, [⟨⟨0, 0⟩, .particles #[⟨4, 0, 0⟩] #[0]⟩], {}⟩

/-- A particle is registered, and a step moves it. -/
def moved : List (Event Rat Rat) :=
  [.call (.register ⟨1⟩ (.particle (.dynamic 0 1)) ⟨1⟩ 1), .arrive leap]

theorem moved_delivered : Timely moved ∧ (∀ time, .pullAt time ∉ moved) ∧
    ((run moved).pull none).Delivered := by
  have htimely : Timely moved := timely_of_tail fun call => by simp [moved]
  have hno : ∀ time, .pullAt time ∉ moved := fun time => by simp [moved]
  exact ⟨htimely, hno, (run_delivers moved htimely).2 hno⟩

/-- A pull half way through the step puts the particle half way, and there the plain pull leaves
it. -/
theorem halfway_forgotten : Timely (moved ++ [.pullAt (1 / 2), .pullLatest]) ∧
    ¬ (run (moved ++ [.pullAt (1 / 2), .pullLatest])).Delivered := by
  refine ⟨timely_of_tail fun call => by simp [moved], ?_⟩
  intro hdelivered
  have hshown : ((run (moved ++ [.pullAt (1 / 2), .pullLatest])).registry.get? ⟨0, 0⟩).map
      (fun p => (p.isPending, p.syncTimestamp, p.state.positions.map (·.x))) =
        some (false, ⟨1⟩, #[2]) := by decide +kernel
  rcases Option.map_eq_some_iff.mp hshown with ⟨p, hp, heq⟩
  rw [Prod.mk.injEq, Prod.mk.injEq] at heq
  rcases heq with ⟨hlive, hsync, hhalf⟩
  have hheard : (run (moved ++ [.pullAt (1 / 2), .pullLatest])).heard = [leap] := rfl
  have hmem : leap ∈ (run (moved ++ [.pullAt (1 / 2), .pullLatest])).heard :=
    hheard ▸ List.mem_cons_self
  have hnewest : newest? (run (moved ++ [.pullAt (1 / 2), .pullLatest])).heard ⟨0, 0⟩ =
      some (leap.timestamp, .particles #[⟨4, 0, 0⟩] #[0]) := hheard ▸ rfl
  have hwrite := hdelivered leap hmem ⟨0, 0⟩ p _ hp hlive hnewest hsync.le
  have hwhole : p.state.positions = #[⟨4, 0, 0⟩] :=
    congrArg (fun p : Proxy Rat => p.state.positions) hwrite.symm
  rw [hwhole] at hhalf
  exact absurd hhalf (by decide +kernel)

end Viewer

end TetheredParticles

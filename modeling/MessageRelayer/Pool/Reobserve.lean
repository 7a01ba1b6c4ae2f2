import MessageRelayer.Pool.Slots

/-!
# How often attestors are asked again

The pool asks the attestors to sign a message again once it has been loaded for
a minute, and then once a minute, by the times in its slot. A slot that leaves
the working set takes its times with it, but the slot that is admitted for the
message later begins with a later time: from any moment of the past on, every
slot of the message is at least as late (`LateSince`). So the requests for a
message are spaced, whatever happens between them (`reobservation_rate`).
-/

namespace MessageRelayer

variable {ecrecover : Ecrecover}

/-! ## Requests of a run -/

/-- The readings of the clock that an operation makes. -/
def PoolOp.Reads : PoolOp → Instant → Prop
  | .noteIndexed _ insertedAt now, t => t = insertedAt ∨ t = now
  | .noteVote _ now, t => t = now
  | .applyAttestorSet _ now, t => ∃ id, t = now id
  | .noteDeliveryResult _ now later _, t => t = now ∨ t = later
  | .requeueDelivery _ _ now, t => t = now
  | .pruneExpired now, t => t = now
  | .refill now clock, t => t = now ∨ ∃ id, t = (clock id).1 ∨ t = (clock id).2
  | .collectReadyDeliveries now, t => t = now
  | .collectStalledReobservations now, t => t = now

/-- The requests that an operation returns, with the reading of the clock for them. -/
def PoolOp.requests (s : State) : PoolOp → List (Instant × ReobservationRequest)
  | .collectStalledReobservations now =>
    (s.collectStalledReobservations now).2.map fun request => (now, request)
  | .noteIndexed .. | .noteVote .. | .applyAttestorSet .. | .noteDeliveryResult ..
  | .requeueDelivery .. | .pruneExpired _ | .refill .. | .collectReadyDeliveries _ => []

/-- A step of the pool that takes the clock from `t` to `t'`, with the requests that it returns. -/
structure TimedStep (ecrecover : Ecrecover) (p : State × Instant)
    (label : PoolOp × List (Instant × ReobservationRequest)) (p' : State × Instant) : Prop where
  step : ∃ jobs, PoolStep ecrecover p.1 (label.1, jobs) p'.1
  requests : label.2 = label.1.requests p.1
  clock : p.2 ≤ p'.2 ∧ ∀ t, label.1.Reads t → p.2 ≤ t ∧ t ≤ p'.2

/-- All requests of a run. -/
def requested (l : List (PoolOp × List (Instant × ReobservationRequest))) :
    List (Instant × ReobservationRequest) := l.flatMap (·.2)

/-- The slot of a message, if it is loaded. -/
def State.slot? (s : State) (chainKey : ChainKey) (id : B256) : Option MessageSlot :=
  s.byRoute[chainKey]?.bind fun route => route.byMessage[id]?

/-! ## The times of the slots -/

/-- The slot was admitted at the time or later, or its message was requested then or later. -/
def MessageSlot.LateSince (t : Instant) (slot : MessageSlot) : Prop :=
  t ≤ slot.insertedAt ∨ ∃ last, slot.lastReobsRequest = some last ∧ t ≤ last

/-- At the time or later; and if the message is loaded, its slot is as late. -/
structure State.LateSince (chainKey : ChainKey) (id : B256) (t : Instant) (p : State × Instant) :
    Prop where
  clock : t ≤ p.2
  slot : ∀ slot : MessageSlot, p.1.slot? chainKey id = some slot → slot.LateSince t

theorem PoolOp.Admits.reads {op : PoolOp} {indexed : IndexedMessage} {insertedAt : Instant}
    (h : op.Admits indexed insertedAt) : op.Reads insertedAt := by
  cases h with
  | noteIndexed => exact .inl rfl
  | refill => exact .inr ⟨_, .inl rfl⟩

theorem MessageSlot.Passes.lateSince {threshold : Nat} {op : PoolOp} {slot slot' : MessageSlot}
    {t : Instant} (h : slot.Passes threshold op slot') (hr : ∀ u, op.Reads u → t ≤ u)
    (hs : slot.LateSince t) : slot'.LateSince t := by
  cases h with
  | held h =>
    rw [MessageSlot.LateSince, h.insertedAt, h.lastReobsRequest]
    exact hs
  | requested => exact .inr ⟨_, rfl, hr _ rfl⟩

theorem TimedStep.lateSince {p p' : State × Instant}
    {label : PoolOp × List (Instant × ReobservationRequest)} (h : TimedStep ecrecover p label p')
    {chainKey : ChainKey} {id : B256} {t : Instant} (hp : State.LateSince chainKey id t p) :
    State.LateSince chainKey id t p' := by
  obtain ⟨jobs, hstep⟩ := h.step
  have hreads : ∀ u, label.1.Reads u → t ≤ u := fun u hu =>
    Nat.le_trans hp.clock (h.clock.2 u hu).1
  have hevery : p.1.Every fun a route => a = chainKey → ∀ slot : MessageSlot,
      route.byMessage[id]? = some slot → slot.LateSince t := by
    rintro a route hr rfl slot hs
    refine hp.slot slot ?_
    rw [State.slot?, hr]
    exact hs
  have hevery' := hstep.every (fun a route route' hr hroute e slot' hs => by
    rcases hr.slots hs with ⟨slot, hg, hpass⟩ | ⟨indexed, insertedAt, -, -, -, hadmit, hslot⟩
    · exact hpass.lateSince hreads (hroute e slot hg)
    · exact .inl (hslot.insertedAt ▸ hreads _ hadmit.reads)) hevery
  refine ⟨Nat.le_trans hp.clock h.clock.1, fun slot hs => ?_⟩
  obtain ⟨route, hr, hs⟩ := Option.bind_eq_some_iff.mp hs
  exact hevery' chainKey route hr rfl slot hs

/-! ## A collection of requests -/

/-- What a slot is when its message is requested. -/
structure MessageSlot.Stalls (slot : MessageSlot) (threshold : Nat) (now : Instant) : Prop where
  undelivered : slot.delivered = false
  unresolved : slot.terminal = false
  idle : slot.inFlight = false
  unaccepted : slot.executionAccepted = false
  below : slot.signers.size < threshold
  resident : fromSecs 60 ≤ now - slot.insertedAt
  quiet : ∀ last, slot.lastReobsRequest = some last → fromSecs 60 ≤ now - last

theorem MessageSlot.stalled_iff {slot : MessageSlot} {threshold : Nat} {now : Instant} :
    slot.stalled threshold now = true ↔ slot.Stalls threshold now := by
  simp only [MessageSlot.stalled, Bool.and_eq_true, Bool.not_eq_true', Bool.or_eq_false_iff,
    decide_eq_false_iff_not, Option.any_eq_false, Nat.not_le, Nat.not_lt]
  exact ⟨fun ⟨⟨⟨⟨⟨⟨h₁, h₂⟩, h₃⟩, h₄⟩, h₅⟩, h₆⟩, h₇⟩ => ⟨h₁, h₂, h₃, h₄, h₅, h₆, fun last hl => h₇ last hl⟩,
    fun h => ⟨⟨⟨⟨⟨⟨h.1, h.2⟩, h.3⟩, h.4⟩, h.5⟩, h.6⟩, fun last hl => h.7 last hl⟩⟩

theorem late_of_elapsed {t a now d : Nat} (hd : 0 < d) (h : t ≤ a) (h' : d ≤ now - a) :
    t + d ≤ now := by omega

/-- A slot that stalls is a minute late at least. -/
theorem MessageSlot.LateSince.stalls {slot : MessageSlot} {threshold : Nat} {t now : Instant}
    (h : slot.LateSince t) (hs : slot.Stalls threshold now) : t + fromSecs 60 ≤ now := by
  have hpos : 0 < fromSecs 60 := by decide
  rcases h with hi | ⟨last, hl, ht⟩
  · exact late_of_elapsed hpos hi hs.resident
  · exact late_of_elapsed hpos ht (hs.quiet last hl)

/-- The requests of a route are for its slots that stall, each under the id of its message. -/
theorem RouteState.mem_collectStalled {route : RouteState} {chainKey : ChainKey}
    (hk : route.Keyed chainKey) {now : Instant} {request : ReobservationRequest}
    (h : request ∈ (route.collectStalled chainKey now).2) : request.chainKey = chainKey ∧
      ∃ slot : MessageSlot, route.byMessage[request.messageId]? = some slot ∧
        slot.Stalls route.threshold now := by
  obtain ⟨slot, hm, he⟩ := List.mem_filterMap.mp h
  obtain ⟨⟨id, slot'⟩, hg, rfl⟩ := List.mem_map.mp hm
  have hs := Map.mem_toList.mp hg
  split at he
  · rename_i hst
    cases he
    refine ⟨rfl, slot', ?_, MessageSlot.stalled_iff.mp hst⟩
    show route.byMessage[slot'.indexed.messageId]? = _
    rw [(hk id slot' hs).2, hs]
  · cases he

/-- No message of a route is requested twice. -/
theorem RouteState.collectStalled_nodup {route : RouteState} {chainKey : ChainKey}
    (hk : route.Keyed chainKey) (now : Instant) :
    ((route.collectStalled chainKey now).2.map (·.messageId)).Nodup := by
  rw [List.Nodup, List.pairwise_map, RouteState.collectStalled, List.pairwise_filterMap, Map.vals,
    List.pairwise_map]
  refine Std.ExtTreeMap.distinct_keys_toList.imp_of_mem fun {a b} ha hb hne x hx y hy e => hne ?_
  have hx : x.messageId = a.1 := by
    split at hx
    · cases hx
      exact (hk a.1 a.2 (Map.mem_toList.mp ha)).2
    · cases hx
  have hy : y.messageId = b.1 := by
    split at hy
    · cases hy
      exact (hk b.1 b.2 (Map.mem_toList.mp hb)).2
    · cases hy
  rw [Map.cmp_eq, ← hx, ← hy, e]

/-- The requests of a collection. -/
theorem State.mem_collectStalled {s : State} (hk : s.Every RouteState.Keyed) {now : Instant}
    {request : ReobservationRequest} (h : request ∈ (s.collectStalledReobservations now).2) :
    ∃ route : RouteState, s.byRoute[request.chainKey]? = some route ∧
    ∃ slot : MessageSlot, route.byMessage[request.messageId]? = some slot ∧
      slot.Stalls route.threshold now := by
  rw [State.collectStalledReobservations, eachRoute_snd _ (Map.nodup_keys _)] at h
  obtain ⟨chainKey, -, hm⟩ := List.mem_flatMap.mp h
  cases hr : s.byRoute[chainKey]? with
  | none =>
    rw [hr] at hm
    exact absurd hm List.not_mem_nil
  | some route =>
    rw [hr] at hm
    obtain ⟨rfl, hslot⟩ := RouteState.mem_collectStalled (hk chainKey route hr) hm
    exact ⟨route, hr, hslot⟩

/-- No message is requested twice in a collection. -/
theorem State.collectStalled_pairwise {s : State} (hk : s.Every RouteState.Keyed) (now : Instant) :
    (s.collectStalledReobservations now).2.Pairwise fun q q' =>
      q.chainKey = q'.chainKey → q.messageId ≠ q'.messageId := by
  rw [State.collectStalledReobservations, eachRoute_snd _ (Map.nodup_keys _), List.pairwise_flatMap]
  refine ⟨fun chainKey _ => ?_, (Map.nodup_keys _).imp fun {a b} hne q hq q' hq' e => ?_⟩
  · cases hr : s.byRoute[chainKey]? with
    | none => exact .nil
    | some route =>
      have hn := RouteState.collectStalled_nodup (hk chainKey route hr) now
      rw [List.Nodup, List.pairwise_map] at hn
      exact hn.imp fun {a b} h (_ : a.chainKey = b.chainKey) => h
  · have hkey : ∀ {a : ChainKey} {q : ReobservationRequest},
        q ∈ (s.byRoute[a]?.map fun route => (route.collectStalled a now).2).getD [] →
        q.chainKey = a := by
      intro a q hq
      cases hr : s.byRoute[a]? with
      | none =>
        rw [hr] at hq
        exact absurd hq List.not_mem_nil
      | some route =>
        rw [hr] at hq
        exact (RouteState.mem_collectStalled (hk a route hr) hq).1
    exact absurd ((hkey hq).symm.trans (e.trans (hkey hq'))) hne

/-! ## Runs -/

section
variable {p p' : State × Instant} {label : PoolOp × List (Instant × ReobservationRequest)}
  {q : Instant × ReobservationRequest}

theorem TimedStep.keyed (h : TimedStep ecrecover p label p') (hk : p.1.Every RouteState.Keyed) :
    p'.1.Every RouteState.Keyed := by
  obtain ⟨jobs, hstep⟩ := h.step
  exact hstep.keyed hk

/-- A request is for a slot that stalls, and marks it. -/
theorem TimedStep.request (h : TimedStep ecrecover p label p') (hk : p.1.Every RouteState.Keyed)
    (hq : q ∈ label.2) :
    (∃ route : RouteState, p.1.byRoute[q.2.chainKey]? = some route ∧
      ∃ slot : MessageSlot, route.byMessage[q.2.messageId]? = some slot ∧
        slot.Stalls route.threshold q.1) ∧
    State.LateSince q.2.chainKey q.2.messageId q.1 p' := by
  obtain ⟨s, t⟩ := p
  obtain ⟨s', t'⟩ := p'
  obtain ⟨op, requests⟩ := label
  obtain ⟨⟨jobs, hstep⟩, hrequests, hclock⟩ := h
  dsimp only at hrequests hstep hclock hq
  subst hrequests
  cases op with
  | collectStalledReobservations now =>
    obtain ⟨request, hm, rfl⟩ := List.mem_map.mp hq
    obtain ⟨route, hr, slot, hs, hstalls⟩ := State.mem_collectStalled hk hm
    refine ⟨⟨route, hr, slot, hs, hstalls⟩, (hclock.2 now rfl).2, fun slot' hs' => ?_⟩
    cases hstep with
    | apply =>
      obtain ⟨route', hr', hs'⟩ := Option.bind_eq_some_iff.mp hs'
      rw [PoolOp.apply, State.collectStalledReobservations, State.eachRoute_keys_get, hr] at hr'
      cases hr'
      rw [RouteState.collectStalled_get, hs, Option.map_some,
        if_pos (MessageSlot.stalled_iff.mpr hstalls)] at hs'
      cases hs'
      exact .inr ⟨now, rfl, Nat.le_refl now⟩
  | _ => exact absurd hq List.not_mem_nil

theorem requested_concat (l : List (PoolOp × List (Instant × ReobservationRequest))) :
    requested (l ++ [label]) = requested l ++ label.2 := by
  simp [requested]

/-- A request comes a minute at least after any time since which its message is late. -/
theorem TimedStep.after (h : TimedStep ecrecover p label p') (hk : p.1.Every RouteState.Keyed)
    (hq : q ∈ label.2) {t : Instant} (hl : State.LateSince q.2.chainKey q.2.messageId t p) :
    t + fromSecs 60 ≤ q.1 := by
  obtain ⟨⟨route, hr, slot, hs, hstalls⟩, -⟩ := h.request hk hq
  refine (hl.slot slot ?_).stalls hstalls
  rw [State.slot?, hr]
  exact hs

/-- The requests of a run come a minute at least after any time since which their message was late
at its start. -/
theorem requested_after {l : List (PoolOp × List (Instant × ReobservationRequest))}
    (hrun : Run (TimedStep ecrecover) p l p') (hk : p.1.Every RouteState.Keyed)
    {chainKey : ChainKey} {id : B256} {t : Instant} (hl : State.LateSince chainKey id t p) :
    ∀ q ∈ requested l, q.2.chainKey = chainKey → q.2.messageId = id → t + fromSecs 60 ≤ q.1 := by
  have hinv := hrun.hist (I := fun l p => (p.1.Every RouteState.Keyed ∧
      State.LateSince chainKey id t p) ∧ ∀ q ∈ requested l, q.2.chainKey = chainKey →
        q.2.messageId = id → t + fromSecs 60 ≤ q.1) (fun l p label p' h hi => ?_)
    ⟨⟨hk, hl⟩, fun q hq => absurd hq List.not_mem_nil⟩
  · exact hinv.2
  · obtain ⟨⟨hk, hl⟩, hrest⟩ := hi
    refine ⟨⟨h.keyed hk, h.lateSince hl⟩, fun q hq hc hid => ?_⟩
    rw [requested_concat] at hq
    rcases List.mem_append.mp hq with hq | hq
    · exact hrest q hq hc hid
    · subst hc hid
      exact h.after hk hq hl

/-- The invariant of the requests so far: they are spaced, and their messages are late since. -/
structure Spaced (l : List (PoolOp × List (Instant × ReobservationRequest))) (p : State × Instant) :
    Prop where
  keyed : p.1.Every RouteState.Keyed
  spaced : (requested l).Pairwise fun q q' => q.2.chainKey = q'.2.chainKey →
    q.2.messageId = q'.2.messageId → q.1 + fromSecs 60 ≤ q'.1
  late : ∀ q ∈ requested l, State.LateSince q.2.chainKey q.2.messageId q.1 p

theorem Spaced.step {l : List (PoolOp × List (Instant × ReobservationRequest))} (hp : Spaced l p)
    (h : TimedStep ecrecover p label p') : Spaced (l ++ [label]) p' := by
  refine ⟨h.keyed hp.keyed, ?_, fun q hq => ?_⟩
  · rw [requested_concat, List.pairwise_append]
    refine ⟨hp.spaced, ?_, fun q hq q' hq' hc hid => ?_⟩
    · obtain ⟨op, requests⟩ := label
      have hrequests := h.requests
      dsimp only at hrequests ⊢
      rw [hrequests]
      cases op with
      | collectStalledReobservations now =>
        exact List.pairwise_map.mpr ((State.collectStalled_pairwise hp.keyed now).imp
          fun hne hc hid => absurd hid (hne hc))
      | _ => exact .nil
    · have hl := hp.late q hq
      rw [hc, hid] at hl
      exact h.after hp.keyed hq' hl
  · rw [requested_concat] at hq
    rcases List.mem_append.mp hq with hq | hq
    · exact h.lateSince (hp.late q hq)
    · exact (h.request hp.keyed hq).2

/-- A slot that a step admits has a time of the step. -/
theorem TimedStep.admits (h : TimedStep ecrecover p label p') {chainKey : ChainKey} {id : B256}
    {slot : MessageSlot} (hn : p.1.slot? chainKey id = none)
    (hs : p'.1.slot? chainKey id = some slot) :
    p.2 ≤ slot.insertedAt ∧ slot.insertedAt ≤ p'.2 := by
  obtain ⟨jobs, hstep⟩ := h.step
  have hevery : p.1.Every fun a route => a = chainKey → ∀ slot : MessageSlot,
      route.byMessage[id]? = some slot → p.2 ≤ slot.insertedAt ∧ slot.insertedAt ≤ p'.2 := by
    rintro a route hr rfl slot hs
    rw [State.slot?, hr] at hn
    exact absurd hs (by rw [show route.byMessage[id]? = none from hn]; nofun)
  have hevery' := hstep.every (fun a route route' hr hroute e slot' hs => by
    rcases hr.slots hs with ⟨slot, hg, hpass⟩ | ⟨indexed, insertedAt, -, -, -, hadmit, hslot⟩
    · rw [hpass.insertedAt]
      exact hroute e slot hg
    · rw [hslot.insertedAt]
      exact h.clock.2 _ hadmit.reads) hevery
  obtain ⟨route, hr, hs⟩ := Option.bind_eq_some_iff.mp hs
  exact hevery' chainKey route hr rfl slot hs

end

/-- In every run of the pool on a monotone clock: two requests for one message are a minute apart at
least. A request is for a loaded message that is not delivered, terminal, in flight or accepted, and
below the threshold. And a message that is admitted, for the first time or again, is not requested
for a minute. -/
theorem reobservation_rate (routes : List RouteAttestors) (cache : VoteCacheConfig)
    {l : List (PoolOp × List (Instant × ReobservationRequest))} {t₀ : Instant} {p : State × Instant}
    (hr : Run (TimedStep ecrecover) (State.new routes cache, t₀) l p) :
    (requested l).Pairwise (fun q q' => q.2.chainKey = q'.2.chainKey →
      q.2.messageId = q'.2.messageId → q.1 + fromSecs 60 ≤ q'.1) ∧
    ∀ (label : PoolOp × List (Instant × ReobservationRequest)) (p' : State × Instant),
      TimedStep ecrecover p label p' →
      (∀ q ∈ label.2, ∃ route : RouteState, p.1.byRoute[q.2.chainKey]? = some route ∧
        ∃ slot : MessageSlot, route.byMessage[q.2.messageId]? = some slot ∧
          slot.delivered = false ∧ slot.terminal = false ∧ slot.inFlight = false ∧
          slot.executionAccepted = false ∧ slot.signers.size < route.threshold) ∧
      ∀ (chainKey : ChainKey) (id : B256) (slot : MessageSlot), p.1.slot? chainKey id = none →
        p'.1.slot? chainKey id = some slot →
        p.2 ≤ slot.insertedAt ∧ slot.insertedAt ≤ p'.2 ∧
        ∀ (l' : List (PoolOp × List (Instant × ReobservationRequest))) (p'' : State × Instant),
          Run (TimedStep ecrecover) p' l' p'' → ∀ q ∈ requested l', q.2.chainKey = chainKey →
            q.2.messageId = id → slot.insertedAt + fromSecs 60 ≤ q.1 := by
  have hspaced : Spaced l p := hr.hist (fun _ _ _ _ h hp => hp.step h)
    ⟨State.new_keyed routes cache, .nil, fun q hq => absurd hq List.not_mem_nil⟩
  refine ⟨hspaced.spaced, fun label p' h => ⟨fun q hq => ?_, fun chainKey id slot hn hs => ?_⟩⟩
  · obtain ⟨⟨route, hg, slot, hs, hstalls⟩, -⟩ := h.request hspaced.keyed hq
    exact ⟨route, hg, slot, hs, hstalls.undelivered, hstalls.unresolved, hstalls.idle,
      hstalls.unaccepted, hstalls.below⟩
  · obtain ⟨hle, hge⟩ := h.admits hn hs
    refine ⟨hle, hge, fun l' p'' hrun => requested_after hrun (h.keyed hspaced.keyed) ⟨hge, ?_⟩⟩
    intro slot' hs'
    rw [hs] at hs'
    cases hs'
    exact .inl (Nat.le_refl _)

/-- `sampleMessage` is requested a minute after it was indexed. -/
def sampleStalled : PoolOp := .collectStalledReobservations (1 + fromSecs 60)

theorem reobservation_rate_indexed :
    ∃ q ∈ sampleStalled.requests sampleIndexed,
      ∃ route : RouteState, sampleIndexed.byRoute[q.2.chainKey]? = some route ∧
      ∃ slot : MessageSlot, route.byMessage[q.2.messageId]? = some slot ∧
        slot.delivered = false ∧ slot.terminal = false ∧ slot.inFlight = false ∧
        slot.executionAccepted = false ∧ slot.signers.size < route.threshold := by
  have hfirst : TimedStep (fun _ _ => .ok 9) (.new [sampleRoute] sampleCache, 1)
      (.noteIndexed sampleMessage 1 1, []) (sampleIndexed, 1) :=
    ⟨⟨_, .apply nofun⟩, rfl, Nat.le_refl 1, fun t ht => by rcases ht with rfl | rfl <;> decide⟩
  have hnext : TimedStep (fun _ _ => .ok 9) (sampleIndexed, 1)
      (sampleStalled, sampleStalled.requests sampleIndexed)
      ((sampleIndexed.collectStalledReobservations (1 + fromSecs 60)).1, 1 + fromSecs 60) :=
    ⟨⟨_, .apply nofun⟩, rfl, by decide, fun t ht => by rw [ht]; decide⟩
  have hsome : (sampleStalled.requests sampleIndexed).isEmpty = false := by decide
  obtain ⟨q, hq⟩ := List.isEmpty_eq_false_iff_exists_mem.mp hsome
  exact ⟨q, hq, ((reobservation_rate _ _ (.single hfirst)).2 _ _ hnext).1 q hq⟩

end MessageRelayer

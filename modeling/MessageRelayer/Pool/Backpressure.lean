import MessageRelayer.Pool.InFlight
import MessageRelayer.Pool.Isolation
import MessageRelayer.Pool.Tidy

/-!
# A full pool in memory

Without a store, the working set is all that the relayer has of the messages.
So the pool takes no message from its channel while one that it took does not
fit (`deferred_indexed`), and makes room for a message only of slots that are
resolved. No message of a route is dropped: one that the pool has taken stays
loaded, or waits, until its slot is resolved (`received_held`).
-/

namespace MessageRelayer

variable {ecrecover : Ecrecover}

/-! ## Room -/

namespace RouteState

variable {route : RouteState} {chainKey : ChainKey}

/-- What `can_index` asks of a route. -/
def Fits (route : RouteState) (id : B256) : Prop :=
  (route.byMessage[id]?).isSome = true ∨ route.byMessage.size < route.cacheMax ∨
    ∃ (id' : B256) (slot : MessageSlot), route.byMessage[id']? = some slot ∧ slot.resolved = true

theorem makeRoom_lt (h : route.byMessage.size < route.cacheMax) : route.makeRoom.2 = true := by
  unfold makeRoom makeRoomLoop
  rw [if_pos h]

/-- One resolved slot makes room. -/
theorem Tidy.makeRoom_resolved (h : route.Tidy) {id : B256} {slot : MessageSlot}
    (hs : route.byMessage[id]? = some slot) (hr : slot.resolved = true) :
    route.makeRoom.2 = true := by
  have hmem : id ∈ route.order := (h.order id).mpr (by rw [hs]; rfl)
  have hpos : 0 < route.order.length := List.length_pos_of_mem hmem
  obtain ⟨fuel, hfuel⟩ : ∃ fuel, route.order.length = fuel + 1 := ⟨_, (Nat.succ_pred hpos.ne').symm⟩
  obtain ⟨victim, hv⟩ : ∃ victim, route.victim = some victim := by
    rw [← Option.isSome_iff_exists, victim, List.find?_isSome]
    exact ⟨id, hmem, by rw [hs]; exact hr⟩
  by_cases hlt : route.byMessage.size < route.cacheMax
  · exact makeRoom_lt hlt
  · obtain ⟨old, hold, -⟩ := victim_resolved hv
    have hsize : (route.forget victim).byMessage.size < (route.forget victim).cacheMax := by
      have hloaded : route.byMessage.contains victim = true := Map.contains_iff.mpr ⟨old, hold⟩
      have herase : (route.byMessage.erase victim).size = route.byMessage.size - 1 := by
        rw [Std.ExtTreeMap.size_erase, if_pos hloaded]
      have hsome : 0 < route.byMessage.size := by
        rw [← Std.ExtTreeMap.length_toList]
        exact List.length_pos_of_mem (Map.mem_toList.mpr hold)
      have hle := h.bounded
      show (route.byMessage.erase victim).size < route.cacheMax
      omega
    rw [RouteState.makeRoom, hfuel]
    unfold RouteState.makeRoomLoop
    rw [if_neg hlt, hv]
    show ((route.forget victim).makeRoomLoop fuel).2 = true
    unfold RouteState.makeRoomLoop
    rw [if_pos hsize]

/-- A message that fits is loaded once it is indexed. -/
theorem Tidy.noteIndexed_loads (h : route.Tidy) (chainKey : ChainKey) {indexed : IndexedMessage}
    (hf : route.Fits indexed.messageId) (insertedAt now : Instant) :
    (route.noteIndexed chainKey indexed insertedAt now).1.account indexed.messageId ≠ none := by
  unfold RouteState.noteIndexed
  dsimp only
  split
  · rename_i hc
    obtain ⟨slot, hs⟩ := Map.contains_iff.mp hc
    simp [account, hs]
  · rename_i hn
    have hn := Map.not_contains_iff.mp (Bool.not_eq_true _ ▸ hn)
    have hroom : route.makeRoom.2 = true := by
      rcases hf with hc | hlt | ⟨id, slot, hs, hr⟩
      · simp [hn] at hc
      · exact makeRoom_lt hlt
      · exact h.makeRoom_resolved hs hr
    rw [if_neg (by simp [hroom])]
    split
    · simp [account_insert]
    · rw [Ne, dispatchIfReady_none, adopt_account, account_insert, if_pos rfl]
      simp

theorem dispatchEach_none {a : B256} (chainKey : ChainKey) (now : B256 → Instant) (allowProbe : Bool)
    (hashes : List B256) : ∀ route : RouteState,
      (route.dispatchEach chainKey now allowProbe hashes).1.account a = none ↔
        route.account a = none := by
  induction hashes with
  | nil => exact fun _ => .rfl
  | cons hash hashes ih => exact fun route => (ih _).trans dispatchIfReady_none

theorem noteVote_account_none {a : B256} (route : RouteState) (chainKey : ChainKey) (vote : MessageVote)
    (now : Instant) :
    (route.noteVote ecrecover chainKey vote now).1.account a = none ↔ route.account a = none := by
  unfold noteVote
  dsimp only
  split
  · rw [account, bufferEarlyVote_byMessage, account]
  · rename_i slot hg
    split
    · rfl
    · split
      · rfl
      · rename_i recovered hv
        split
        · rfl
        · have hs := account_insert_quiet route.order hg
            (show MessageSlot.account { slot with
              signers := slot.signers.insert recovered vote.signature } = slot.account from rfl) a
          split
          · rw [hs]
          · rw [dispatchIfReady_none, hs]

theorem applyAttestorSet_none {a : B256} (route : RouteState) (chainKey : ChainKey)
    (update : RouteAttestors) (now : B256 → Instant) :
    (route.applyAttestorSet chainKey update now).1.account a = none ↔ route.account a = none := by
  unfold applyAttestorSet
  dsimp only
  split
  · rfl
  · rw [dispatchEach_none, account_map route _ rfl fun _ slot => by split <;> rfl]

/-- Pruning keeps what is not resolved. -/
theorem pruneExpired_evicts {hash : B256} {a : Account} {now : Instant} {ttl : Duration}
    (h : route.account hash = some a) (hn : (route.pruneExpired now ttl).account hash = none) :
    a.resolved = true := by
  obtain ⟨slot, hs, rfl⟩ := Option.map_eq_some_iff.mp h
  simp only [account, pruneExpired, Map.get_filter, hs, Option.map_eq_none_iff] at hn
  rw [Option.filter_some] at hn
  split at hn
  · cases hn
  · rename_i hk
    simp only [MessageSlot.account, MessageSlot.resolved]
    cases hd : slot.delivered <;> cases ht : slot.terminal <;> simp_all

end RouteState

/-- No operation but a refill takes a message from a route that is not resolved. -/
theorem PoolOp.onRoute_evicts {chainKey : ChainKey} {ttl : Duration} {route : RouteState}
    {op : PoolOp} {hash : B256} {a : Account} (h : route.account hash = some a)
    (hn : (op.onRoute ecrecover chainKey ttl route).1.account hash = none) : a.resolved = true := by
  have hkept : ∀ {route' : RouteState}, (route'.account hash = none ↔ route.account hash = none) →
      route'.account hash ≠ none := by
    intro route' he hnone
    rw [he, h] at hnone
    cases hnone
  have hslot : ∀ (id : B256) (f : MessageSlot → MessageSlot),
      (route.onSlot id f).account hash = none ↔ route.account hash = none := by
    intro id f
    rw [RouteState.account_onSlot]
    split
    · simp [RouteState.account]
    · rfl
  cases op with
  | noteIndexed indexed insertedAt now => exact RouteState.noteIndexed_evicts h hn
  | noteVote vote now => exact absurd hn (hkept (RouteState.noteVote_account_none _ _ _ _))
  | applyAttestorSet update now => exact absurd hn (hkept (RouteState.applyAttestorSet_none _ _ _ _))
  | noteDeliveryResult result now later wall => exact absurd hn (hkept (hslot _ _))
  | requeueDelivery a messageId now => exact absurd hn (hkept (hslot _ _))
  | pruneExpired now => exact RouteState.pruneExpired_evicts h hn
  | refill now clock => exact absurd hn (hkept .rfl)
  | collectReadyDeliveries now => exact absurd hn (hkept (RouteState.dispatchEach_none _ _ _ _ _))
  | collectStalledReobservations now =>
    exact absurd hn (hkept (by rw [onRoute, RouteState.collectStalled_account]))

/-! ## The pool of a loop without a store -/

namespace State

variable {s t : State} {chainKey : ChainKey} {hash : B256} {a : Account}

/-- The pool has a route for the chain. -/
def Serves (s : State) (chainKey : ChainKey) : Prop := (s.byRoute[chainKey]?).isSome = true

/-- What one step of the loop makes of its pool, other than by a refill. -/
inductive Turned (ecrecover : Ecrecover) (s : State) : State → Prop where
  | same : Turned ecrecover s s
  | apply (op : PoolOp) (hf : op.isRefill = false) : Turned ecrecover s (op.apply ecrecover s).1
  | collect (now : Instant) :
      Turned ecrecover s ((s.collectStalledReobservations now).1.collectReadyDeliveries now).1

theorem apply_evicts (ecrecover : Ecrecover) (op : PoolOp) (hf : op.isRefill = false)
    (h : s.account chainKey hash = some a)
    (hn : (op.apply ecrecover s).1.account chainKey hash = none) : a.resolved = true := by
  obtain ⟨route, hr, ha⟩ := Option.bind_eq_some_iff.mp h
  obtain ⟨hroute, -⟩ := PoolOp.perform_route ecrecover hf hr
  have hget : (op.apply ecrecover s).1.byRoute[chainKey]? = some _ := hroute
  rw [account, hget, Option.bind_some] at hn
  split at hn
  · exact PoolOp.onRoute_evicts ha hn
  · rw [ha] at hn
    cases hn

theorem apply_serves (ecrecover : Ecrecover) (op : PoolOp) (hf : op.isRefill = false)
    (h : s.Serves chainKey) : (op.apply ecrecover s).1.Serves chainKey := by
  obtain ⟨route, hr⟩ := Option.isSome_iff_exists.mp h
  obtain ⟨hroute, -⟩ := PoolOp.perform_route ecrecover hf hr
  have hget : (op.apply ecrecover s).1.byRoute[chainKey]? = some _ := hroute
  rw [Serves, hget]
  rfl

theorem apply_tidy (ecrecover : Ecrecover) (op : PoolOp) (hf : op.isRefill = false)
    (h : s.Every fun _ route => route.Tidy) :
    (op.apply ecrecover s).1.Every fun _ route => route.Tidy := by
  have hstep : PoolStep ecrecover s _ (op.apply ecrecover s).1 := .apply fun now clock e => by
    rw [e] at hf
    cases hf
  exact hstep.tidy h

theorem Turned.evicts (ht : s.Turned ecrecover t) (h : s.account chainKey hash = some a)
    (hn : t.account chainKey hash = none) : a.resolved = true := by
  cases ht with
  | same =>
    rw [h] at hn
    cases hn
  | apply op hf => exact apply_evicts ecrecover op hf h hn
  | collect now =>
    rw [← collectStalled_account s now] at h
    exact apply_evicts ecrecover (.collectReadyDeliveries now) rfl h hn

theorem Turned.serves (ht : s.Turned ecrecover t) (h : s.Serves chainKey) : t.Serves chainKey := by
  cases ht with
  | same => exact h
  | apply op hf => exact apply_serves ecrecover op hf h
  | collect now =>
    have hstalled := apply_serves ecrecover (.collectStalledReobservations now) rfl h
    exact apply_serves ecrecover (.collectReadyDeliveries now) rfl hstalled

theorem Turned.tidy (ht : s.Turned ecrecover t) (h : s.Every fun _ route => route.Tidy) :
    t.Every fun _ route => route.Tidy := by
  cases ht with
  | same => exact h
  | apply op hf => exact apply_tidy ecrecover op hf h
  | collect now =>
    have hstalled := apply_tidy ecrecover (.collectStalledReobservations now) rfl h
    exact apply_tidy ecrecover (.collectReadyDeliveries now) rfl hstalled

/-- A message of a route that the pool can index is loaded once it is indexed. -/
theorem noteIndexed_loads (ecrecover : Ecrecover) (h : s.Every fun _ route => route.Tidy)
    {indexed : IndexedMessage} (hs : s.Serves indexed.chainKey) (hc : s.canIndex indexed = true)
    (insertedAt now : Instant) :
    ((PoolOp.noteIndexed indexed insertedAt now).apply ecrecover s).1.account indexed.chainKey
      indexed.messageId ≠ none := by
  obtain ⟨route, hr⟩ := Option.isSome_iff_exists.mp hs
  have hfits : route.Fits indexed.messageId := by
    rw [canIndex, hr] at hc
    simp only [Option.all_some, Bool.or_eq_true, decide_eq_true_eq] at hc
    rcases hc with (hloaded | hlt) | hany
    · obtain ⟨slot, hs⟩ := Map.contains_iff.mp hloaded
      exact .inl (by rw [hs]; rfl)
    · exact .inr (.inl hlt)
    · obtain ⟨slot, hm, hres⟩ := List.any_eq_true.mp hany
      obtain ⟨⟨id, slot'⟩, hentry, rfl⟩ := List.mem_map.mp hm
      exact .inr (.inr ⟨id, slot', Map.mem_toList.mp hentry, hres⟩)
  show (s.onRoute indexed.chainKey none _).1.account indexed.chainKey indexed.messageId ≠ none
  rw [account_onRoute, if_pos rfl, hr, Option.bind_some]
  exact (h _ _ hr).noteIndexed_loads indexed.chainKey hfits insertedAt now

end State

/-! ## The loop -/

/-- The pool takes a message from its channel. -/
inductive Receives (ecrecover : Ecrecover) (message : IndexedMessage) : PoolSys → PoolSys → Prop where
  | indexed {s : PoolSys} (insertedAt now : Instant) (hp : s.pc = .select)
      (hd : s.deferredIndexed = none) (hc : s.pool.canIndex message = true) :
      Receives ecrecover message s
        (s.handing ((PoolOp.noteIndexed message insertedAt now).apply ecrecover s.pool) .head)
  | full {s : PoolSys} (hp : s.pc = .select) (hd : s.deferredIndexed = none)
      (hc : s.pool.canIndex message = false) :
      Receives ecrecover message s
        { s with deferredIndexed := if s.durable then none else some message, pc := .head }

namespace PoolSys

variable {s t : PoolSys} {label : LoopLabel} {message : IndexedMessage}

/-- The message is loaded, or is the one that waits for room. -/
def Has (s : PoolSys) (message : IndexedMessage) : Prop :=
  (s.pool.slot message.chainKey message.messageId).isSome = true ∨ s.deferredIndexed = some message

/-- The message was delivered, or given up for good. -/
def Resolved (s : PoolSys) (message : IndexedMessage) : Prop :=
  ∃ slot : MessageSlot, s.pool.slot message.chainKey message.messageId = some slot ∧
    slot.resolved = true

theorem loaded_iff : (s.pool.slot message.chainKey message.messageId).isSome = true ↔
    s.pool.account message.chainKey message.messageId ≠ none := by
  rw [State.account_eq]
  cases s.pool.slot message.chainKey message.messageId <;> simp

/-- The loop runs without a store, and serves the chain. -/
structure InMemory (chainKey : ChainKey) (s : PoolSys) : Prop where
  memory : s.durable = false
  filled : ∀ tick, s.pc ≠ .refilling tick
  tidy : s.pool.Every fun _ route => route.Tidy
  serves : s.pool.Serves chainKey

end PoolSys

section
variable {s t u : PoolSys} {label : LoopLabel} {message : IndexedMessage}

theorem Receives.step (h : Receives ecrecover message s t) : LoopStep ecrecover s .internal t := by
  cases h with
  | indexed insertedAt now hp hd hc => exact .indexed message insertedAt now hp hd hc
  | full hp hd hc => exact .full message hp hd hc

theorem LoopStep.turned (hs : LoopStep ecrecover s label t) (hp : ∀ tick, s.pc ≠ .refilling tick) :
    t.pc = .stopped ∨ s.pool.Turned ecrecover t.pool := by
  cases hs with
  | refilled clock hr => exact absurd hr (hp _)
  | stop => exact .inl rfl
  | collect => exact .inr (.collect _)
  | resume insertedAt now | indexed indexed insertedAt now =>
    exact .inr (.apply (.noteIndexed _ insertedAt now) rfl)
  | setUpdate update now => exact .inr (.apply (.applyAttestorSet update now) rfl)
  | vote vote now => exact .inr (.apply (.noteVote vote now) rfl)
  | result now later wall | completed now later wall =>
    exact .inr (.apply (.noteDeliveryResult _ now later wall) rfl)
  | tick => exact .inr (.apply (.pruneExpired s.clock) rfl)
  | refuse => exact .inr (.apply (.requeueDelivery _ _ s.clock) rfl)
  | turn | full | finalResult | query | handOver | handed | take | finish | close | advance =>
    exact .inr .same

/-- A message that waits goes on waiting, until it is indexed. -/
theorem LoopStep.waits (hs : LoopStep ecrecover s label t) (hd : s.deferredIndexed = some message) :
    t.deferredIndexed = some message ∨ s.pool.canIndex message = true ∧ ∃ insertedAt now,
      t.pool = ((PoolOp.noteIndexed message insertedAt now).apply ecrecover s.pool).1 := by
  cases hs with
  | @resume indexed insertedAt now hp hi hc =>
    obtain rfl : indexed = message := by
      rw [hi] at hd
      cases hd
      rfl
    exact .inr ⟨hc, insertedAt, now, rfl⟩
  | indexed _ _ _ _ hn | full _ _ hn =>
    rw [hn] at hd
    cases hd
  | _ => exact .inl hd

theorem LoopStep.stopped (hs : LoopStep ecrecover s label t) (hp : s.pc = .stopped) :
    t.pc = .stopped := by
  cases hs <;> simp_all

theorem LoopStep.inMemory {chainKey : ChainKey} (hs : LoopStep ecrecover s label t)
    (h : s.InMemory chainKey) : t.pc = .stopped ∨ t.InMemory chainKey := by
  rcases hs.turned h.filled with hp | hturn
  · exact .inl hp
  · refine .inr ⟨?_, ?_, hturn.tidy h.tidy, hturn.serves h.serves⟩
    · cases hs <;> exact h.memory
    · have hmem := h.memory
      have hfilled := h.filled
      intro tick
      cases hs with
      | tick => simp [hmem]
      | @handed next => cases next <;> simp [Next.pc]
      | take | finish | close | advance => exact hfilled tick
      | _ => simp [PoolSys.handing, PoolSys.withPool]

/-- The pool keeps a message that it took and that is not resolved. -/
theorem LoopStep.has (hs : LoopStep ecrecover s label t) (h : s.InMemory message.chainKey)
    (hm : s.Has message) (hn : ¬s.Resolved message) : t.pc = .stopped ∨ t.Has message := by
  rcases hs.turned h.filled with hp | hturn
  · exact .inl hp
  right
  rcases hm with hloaded | hd
  · obtain ⟨slot, hslot⟩ := Option.isSome_iff_exists.mp hloaded
    refine .inl (PoolSys.loaded_iff.mpr fun hnone => hn ⟨slot, hslot, ?_⟩)
    have hacc : s.pool.account message.chainKey message.messageId = some slot.account := by
      rw [State.account_eq, hslot]
      rfl
    exact hturn.evicts hacc hnone
  · rcases hs.waits hd with hw | ⟨hc, insertedAt, now, e⟩
    · exact .inr hw
    · left
      rw [PoolSys.loaded_iff, e]
      exact State.noteIndexed_loads ecrecover h.tidy h.serves hc insertedAt now

theorem Receives.has (h : Receives ecrecover message s t) (hs : s.InMemory message.chainKey) :
    t.Has message := by
  cases h with
  | indexed insertedAt now hp hd hc =>
    exact .inl (PoolSys.loaded_iff.mpr
      (State.noteIndexed_loads ecrecover hs.tidy hs.serves hc insertedAt now))
  | full hp hd hc =>
    right
    simp [hs.memory]

end

/-! ## Runs -/

/-- In every run of the pool without a store: a message for one of its routes that it took from its
channel is loaded, or waits for room, for as long as the pool runs, unless it was resolved in the
meantime. -/
theorem received_held {routes : List RouteAttestors} {cache : VoteCacheConfig}
    {deliveryTxs : Map ChainKey Lane} {clock : Instant} {l l' : List LoopLabel} {s t u : PoolSys}
    {message : IndexedMessage}
    (hr : Run (LoopStep ecrecover) (.start routes cache deliveryTxs false clock) l s)
    (hm : Receives ecrecover message s t)
    (hs : (State.new routes cache).Serves message.chainKey)
    (ht : Run (LoopStep ecrecover) t l' u) :
    u.pc = .stopped ∨ u.Has message ∨ ∃ l₁ l₂ v, l' = l₁ ++ l₂ ∧ Run (LoopStep ecrecover) t l₁ v ∧
      v.Resolved message ∧ Run (LoopStep ecrecover) v l₂ u := by
  have hstart : (PoolSys.start routes cache deliveryTxs false clock).InMemory message.chainKey :=
    ⟨rfl, nofun, State.new_tidy routes cache, hs⟩
  have hkept : ∀ s label t, LoopStep ecrecover s label t →
      s.pc = .stopped ∨ s.InMemory message.chainKey →
      t.pc = .stopped ∨ t.InMemory message.chainKey := by
    intro s label t hs h
    rcases h with hp | h
    · exact .inl (hs.stopped hp)
    · exact hs.inMemory h
  have hpc : s.pc ≠ .stopped := by
    cases hm with
    | indexed _ _ hp | full hp => rw [hp]; nofun
  have hmem := (hr.inv hkept (.inr hstart)).resolve_left hpc
  have hhas := hm.has hmem
  have htaken := hkept _ _ _ hm.step (.inr hmem)
  have hstep : ∀ s label t, LoopStep ecrecover s label t →
      s.pc = .stopped ∨ s.InMemory message.chainKey ∧ s.Has message → ¬s.Resolved message →
      t.pc = .stopped ∨ t.InMemory message.chainKey ∧ t.Has message := by
    intro s label t hs h hn
    rcases h with hp | ⟨hi, hm⟩
    · exact .inl (hs.stopped hp)
    · rcases hs.has hi hm hn with hp | hm'
      · exact .inl hp
      · exact (hs.inMemory hi).imp_right fun hi' => ⟨hi', hm'⟩
  rcases ht.kept_until hstep (htaken.imp_right fun hi => ⟨hi, hhas⟩) with (hp | ⟨-, hu⟩) | hq
  · exact .inl hp
  · exact .inr (.inl hu)
  · exact .inr (.inr hq)

/-- A working set of one message. -/
def smallCache : VoteCacheConfig := { sampleCache with maxMessages := 1 }

/-- The pool that has loaded `sampleMessage`, and has no room left. -/
def fullPool : State :=
  ((PoolOp.noteIndexed sampleMessage 1 1).apply (fun _ _ => .ok 9) (.new [sampleRoute] smallCache)).1

/-- Another message for the full pool. -/
def waitingMessage : IndexedMessage := { sampleMessage with messageId := 6 }

theorem received_held_full : ∃ s t u : PoolSys, s.pool = fullPool ∧
    Receives (fun _ _ => .ok 9) waitingMessage s t ∧
    Run (LoopStep fun _ _ => .ok 9) t [.internal] u ∧
    (u.Has waitingMessage ∨ ∃ l₁ l₂ v, [LoopLabel.internal] = l₁ ++ l₂ ∧
      Run (LoopStep fun _ _ => .ok 9) t l₁ v ∧ v.Resolved waitingMessage ∧
      Run (LoopStep fun _ _ => .ok 9) v l₂ u) := by
  have hj : ((PoolOp.noteIndexed sampleMessage 1 1).apply (fun _ _ => .ok 9)
      (.new [sampleRoute] smallCache)).2 = [] := by decide
  have hnofit : fullPool.canIndex waitingMessage = false := by decide
  obtain ⟨s, l, hs, hp, hd, hmem, hr⟩ : ∃ (s : PoolSys) (l : List LoopLabel), s.pool = fullPool ∧
      s.pc = .select ∧ s.deferredIndexed = none ∧ s.durable = false ∧
      Run (LoopStep fun _ _ => .ok 9) (.start [sampleRoute] smallCache ∅ false 0) l s :=
    ⟨_, _, rfl, rfl, rfl, rfl, (((Run.nil.snoc (.turn rfl rfl)).snoc (.indexed sampleMessage 1 1 rfl
      rfl (by decide))).snoc (@LoopStep.handed _ _ .head
      (congrArg (Pc.handing · .head) hj))).snoc (.turn rfl rfl)⟩
  rw [← hs] at hnofit
  have hm : Receives (fun _ _ => .ok 9) waitingMessage s
      { s with deferredIndexed := some waitingMessage, pc := .head } := by
    have hfull : Receives (fun _ _ => .ok 9) waitingMessage s _ := .full hp hd hnofit
    simpa [hmem] using hfull
  have ht : LoopStep (fun _ _ => .ok 9) { s with deferredIndexed := some waitingMessage, pc := .head }
      .internal _ := .turn rfl hnofit
  have hserves : (State.new [sampleRoute] smallCache).Serves 2 := by
    rw [State.Serves]
    decide
  exact ⟨s, _, _, hs, hm, .single ht,
    (received_held hr hm hserves (.single ht)).resolve_left nofun⟩

end MessageRelayer

import MessageRelayer.Pool.Loop

/-!
# One delivery in flight

Of every message there is at most one job with a worker or result on its way
back, and exactly one if its slot is in flight (`PoolSys.Good.exact`): the
operations put in flight the slots whose jobs they return (`State.Moves`), a
refused job goes back to its slot, and the result of an accepted one clears
it. The same accounts give the attempts of a slot, and `collect_ready_deliveries`
leaves no message at quorum behind (`State.NoStranded`).
-/

namespace MessageRelayer

open Prog

variable {ecrecover : Ecrecover}

/-! ## Counting -/

def DeliveryResult.of (chainKey : ChainKey) (hash : B256) (result : DeliveryResult) : Bool :=
  decide (result.chainKey = chainKey ∧ result.messageId = hash)

theorem DeliveryResult.of_iff {chainKey : ChainKey} {hash : B256} {result : DeliveryResult} :
    result.of chainKey hash = true ↔ result.chainKey = chainKey ∧ result.messageId = hash :=
  decide_eq_true_iff

theorem DeliveryResult.of_false {chainKey : ChainKey} {hash : B256} {result : DeliveryResult}
    (h : ¬(chainKey = result.chainKey ∧ hash = result.messageId)) :
    result.of chainKey hash = false :=
  decide_eq_false fun e => h ⟨e.1.symm, e.2.symm⟩

/-- The jobs of a message in its delivery channel or its worker. -/
def laneCount (deliveryTxs : Map ChainKey Lane) (chainKey : ChainKey) (hash : B256) : Nat :=
  deliveryTxs[chainKey]?.elim 0 fun lane => lane.jobs.countP (·.of chainKey hash)

theorem laneCount_insert (deliveryTxs : Map ChainKey Lane) (a : ChainKey) (lane : Lane)
    (chainKey : ChainKey) (hash : B256) :
    laneCount (deliveryTxs.insert a lane) chainKey hash =
      if chainKey = a then lane.jobs.countP (·.of chainKey hash)
      else laneCount deliveryTxs chainKey hash := by
  simp only [laneCount, Map.get_insert]
  split <;> rfl

theorem laneCount_get {deliveryTxs : Map ChainKey Lane} {chainKey : ChainKey} {lane : Lane}
    (h : deliveryTxs[chainKey]? = some lane) (hash : B256) :
    laneCount deliveryTxs chainKey hash = lane.jobs.countP (·.of chainKey hash) := by
  rw [laneCount, h]; rfl

/-- The jobs of a message in its delivery channel or its worker, and its results on the way back. -/
def PoolSys.outstanding (s : PoolSys) (chainKey : ChainKey) (hash : B256) : Nat :=
  laneCount s.deliveryTxs chainKey hash + s.results.countP (·.of chainKey hash)

/-- The jobs of a message that the pool is about to hand over. -/
def Pc.inHand (chainKey : ChainKey) (hash : B256) : Pc → Nat
  | handing jobs _ => jobs.countP (·.of chainKey hash)
  | head | select | completing _ | refilling _ | collecting _ | stopped => 0

/-- With the result that the pool is noting. -/
def Pc.held (chainKey : ChainKey) (hash : B256) : Pc → Nat
  | completing result => (result.of chainKey hash).toNat
  | pc => pc.inHand chainKey hash

/-- 1 if the slot is in flight. -/
def flying (o : Option Account) : Nat := (o.any (·.inFlight)).toNat

theorem Move.flying {o o' : Option Account} {n : Nat} (h : Move o n o') :
    flying o' = flying o + n := by
  cases h with
  | quiet => rfl
  | evict hf => simp [MessageRelayer.flying, hf]
  | load | loadDispatch => rfl
  | dispatch hf => simp [MessageRelayer.flying, hf, Account.dispatched]

/-- The attempts of a slot are the jobs handed over since its admission, and the one in hand. -/
def Counted (o : Option Account) (handed inHand : Nat) : Prop :=
  ∀ a ∈ o, handed < u32Max → a.attempts = handed + inHand

theorem Move.counted {o o' : Option Account} {n handed : Nat} (h : Move o n o')
    (hc : Counted o handed 0) (hz : o = none → handed = 0) :
    Counted o' (if o'.isSome then handed else 0) n := by
  cases h with
  | quiet =>
    intro a ha
    rw [ha]; exact hc a ha
  | evict => exact fun _ ha => by cases ha
  | load =>
    intro a ha _
    cases ha
    simp [hz rfl, Account.fresh]
  | @dispatch b =>
    intro a ha hl
    cases ha
    have := hc b rfl hl
    simp only [Option.isSome_some, if_true] at hl ⊢
    simp only [Account.dispatched, satAdd32, this]
    omega
  | loadDispatch =>
    intro a ha _
    cases ha
    simp only [hz rfl]
    decide

/-! ## Nothing is stranded -/

/-- An unresolved slot at quorum is in flight, or its next attempt is later than `tick`. -/
def MessageSlot.Waits (slot : MessageSlot) (threshold : Nat) (tick : Instant) : Prop :=
  slot.resolved = false → slot.hasQuorum threshold = true →
    slot.inFlight = true ∨ ∃ next, slot.nextDeliveryAttemptAt = some next ∧ tick < next

def State.NoStranded (s : State) (tick : Instant) : Prop :=
  ∀ (chainKey : ChainKey) (route : RouteState), s.byRoute[chainKey]? = some route →
    ∀ (hash : B256) (slot : MessageSlot), route.byMessage[hash]? = some slot →
      slot.Waits route.threshold tick

namespace RouteState

/-- A slot that `dispatch_if_ready` with probes leaves alone waits. -/
theorem waits_of_not_ready {slot : MessageSlot} {threshold : Nat} {now : Instant}
    (h : slot.ready threshold now true = false) : slot.Waits threshold now := by
  intro hr hq
  cases hf : slot.inFlight with
  | true => exact .inl rfl
  | false =>
    refine .inr ?_
    simp only [MessageSlot.resolved, Bool.or_eq_false_iff] at hr
    have h : slot.nextDeliveryAttemptAt.any (fun next => decide (now < next)) = true := by
      simpa [MessageSlot.ready, hr.1, hr.2, hf, hq] using h
    obtain ⟨next, hn, hl⟩ := (Option.any_eq_true _ _).mp h
    exact ⟨next, hn, of_decide_eq_true hl⟩

theorem dispatchIfReady_waits (route : RouteState) (chainKey : ChainKey) (hash : B256)
    (now : Instant) (a : B256) {slot : MessageSlot}
    (hs : (route.dispatchIfReady chainKey hash now true).1.byMessage[a]? = some slot)
    (ha : a ≠ hash → ∀ slot : MessageSlot, route.byMessage[a]? = some slot →
      slot.Waits route.threshold now) : slot.Waits route.threshold now := by
  unfold dispatchIfReady at hs
  split at hs
  · rename_i hn
    exact ha (fun e => by rw [e, hn] at hs; cases hs) slot hs
  · rename_i old ho
    split at hs
    · simp only [Map.get_insert] at hs
      split at hs
      · cases hs; exact fun _ _ => .inl rfl
      · rename_i hne; exact ha hne slot hs
    · rename_i hr
      by_cases e : a = hash
      · rw [e, ho] at hs
        cases hs
        exact waits_of_not_ready (Bool.not_eq_true _ ▸ hr)
      · exact ha e slot hs

theorem dispatchEach_waits (chainKey : ChainKey) (now : Instant) (hashes : List B256) :
    ∀ (route : RouteState) (a : B256) (slot : MessageSlot),
      (route.dispatchEach chainKey (fun _ => now) true hashes).1.byMessage[a]? = some slot →
      (a ∉ hashes → ∀ slot : MessageSlot, route.byMessage[a]? = some slot →
        slot.Waits route.threshold now) → slot.Waits route.threshold now := by
  induction hashes with
  | nil => exact fun route a slot hs ha => ha List.not_mem_nil slot hs
  | cons hash hashes ih =>
    intro route a slot hs ha
    have := ih (route.dispatchIfReady chainKey hash now true).1 a slot hs fun hm slot hs => by
      rw [dispatchIfReady_threshold]
      exact dispatchIfReady_waits route chainKey hash now a hs fun hne =>
        ha fun hm' => (List.mem_cons.mp hm').elim hne hm
    rwa [dispatchIfReady_threshold] at this

end RouteState

theorem State.collectReadyDeliveries_waits (s : State) (now : Instant) :
    (s.collectReadyDeliveries now).1.NoStranded now := by
  intro chainKey route hr hash slot hs
  rw [collectReadyDeliveries, eachRoute_keys_get] at hr
  obtain ⟨old, ho, rfl⟩ := Option.map_eq_some_iff.mp hr
  have hw := RouteState.dispatchEach_waits chainKey now old.byMessage.keys old hash slot hs
    fun hn slot hs => absurd (Map.mem_keys.mpr ⟨slot, hs⟩) hn
  rwa [(RouteState.dispatchEach_config chainKey _ _ _ old).2]

/-- A refused job waits two seconds from now. -/
theorem State.requeueDelivery_waits {s : State} {tick now : Instant} (h : s.NoStranded tick)
    (ht : tick ≤ now) (a : ChainKey) (b : B256) : (s.requeueDelivery a b now).NoStranded tick := by
  intro chainKey route hr hash slot hs
  rw [requeueDelivery, onRoute_get] at hr
  split at hr
  · obtain ⟨old, ho, rfl⟩ := Option.map_eq_some_iff.mp hr
    simp only [RouteState.onSlot, Map.get_modify] at hs
    split at hs
    · obtain ⟨slot, hs', rfl⟩ := Option.map_eq_some_iff.mp hs
      refine fun _ _ => .inr ⟨_, rfl, Nat.lt_of_le_of_lt ht ?_⟩
      exact Nat.lt_add_of_pos_right (by decide)
    · exact h _ old ho hash slot hs
  · exact h _ route hr hash slot hs

theorem State.NoStranded.mono {s : State} {tick tick' : Instant} (h : s.NoStranded tick)
    (ht : tick' ≤ tick) : s.NoStranded tick' := fun chainKey route hr hash slot hs hu hq =>
  (h chainKey route hr hash slot hs hu hq).imp_right fun ⟨next, hn, hl⟩ =>
    ⟨next, hn, Nat.lt_of_le_of_lt ht hl⟩

/-! ## The invariant -/

/-- A prune tick in progress fired before now, and what it has collected is not stranded. -/
def PoolSys.TickOk (s : PoolSys) : Prop :=
  match s.pc with
  | .refilling tick | .collecting tick | .handing _ (.collect tick) => tick ≤ s.clock
  | .handing _ (.ticked tick) => tick ≤ s.clock ∧ s.pool.NoStranded tick
  | .head | .select | .completing _ | .handing _ .head | .handing _ .select | .stopped => True

structure PoolSys.Good (ecrecover : Ecrecover) (s : PoolSys) : Prop where
  sound : s.pool.Sound ecrecover
  idle : s.pool.Idle
  lanes : ∀ (chainKey : ChainKey) (lane : Lane), s.deliveryTxs[chainKey]? = some lane →
    ∀ job ∈ lane.jobs, job.chainKey = chainKey
  exact : ∀ chainKey hash, s.outstanding chainKey hash + s.pc.held chainKey hash =
    flying (s.pool.account chainKey hash)
  fresh : ∀ chainKey hash, s.pool.account chainKey hash = none → s.handed chainKey hash = 0
  attempts : ∀ chainKey hash, Counted (s.pool.account chainKey hash) (s.handed chainKey hash)
    (s.pc.inHand chainKey hash)
  tick : s.TickOk

/-- The pool holds no job and no result. -/
def Pc.Rests (pc : Pc) : Prop := ∀ chainKey hash, pc.held chainKey hash = 0 ∧ pc.inHand chainKey hash = 0

theorem Pc.rests_of {pc : Pc} (h : pc = .head ∨ pc = .select ∨ (∃ tick, pc = .refilling tick) ∨
    ∃ tick, pc = .collecting tick) : pc.Rests := by
  rcases h with rfl | rfl | ⟨tick, rfl⟩ | ⟨tick, rfl⟩ <;> exact fun _ _ => ⟨rfl, rfl⟩

namespace PoolSys

variable {s : PoolSys}

/-- An operation on the pool at rest, after which it hands over the jobs or rests again. -/
theorem Good.moves (h : s.Good ecrecover) (hr : s.pc.Rests) {p : State × List DeliveryJob}
    (hm : s.pool.Moves p) (hs : p.1.Sound ecrecover) {pc : Pc}
    (hpc : ∀ chainKey hash, pc.held chainKey hash = p.2.countP (·.of chainKey hash) ∧
      pc.inHand chainKey hash = p.2.countP (·.of chainKey hash))
    (ht : TickOk { s.withPool p.1 with pc }) : Good ecrecover { s.withPool p.1 with pc } where
  sound := hs
  idle := hm.idle h.idle
  lanes := h.lanes
  exact chainKey hash := by
    have he := h.exact chainKey hash
    rw [(hr chainKey hash).1] at he
    show s.outstanding chainKey hash + pc.held chainKey hash = flying (p.1.account chainKey hash)
    rw [(hpc chainKey hash).1, (hm chainKey hash).flying, ← he, Nat.add_zero]
  fresh chainKey hash hz := by
    show (if (p.1.account chainKey hash).isSome then _ else 0) = 0
    rw [show p.1.account chainKey hash = none from hz]; rfl
  attempts chainKey hash := by
    have hc := h.attempts chainKey hash
    rw [(hr chainKey hash).2] at hc
    show Counted (p.1.account chainKey hash)
      (if (p.1.account chainKey hash).isSome then s.handed chainKey hash else 0)
      (pc.inHand chainKey hash)
    rw [(hpc chainKey hash).2]
    exact (hm chainKey hash).counted hc (h.fresh chainKey hash)
  tick := ht

theorem Good.handing (h : s.Good ecrecover) (hr : s.pc.Rests) {p : State × List DeliveryJob}
    (hm : s.pool.Moves p) (hs : p.1.Sound ecrecover) {next : Next}
    (ht : TickOk (s.handing p next)) : (s.handing p next).Good ecrecover :=
  h.moves hr hm hs (fun _ _ => ⟨rfl, rfl⟩) ht

/-- The pool turns to another place in its loop. -/
theorem Good.goto (h : s.Good ecrecover) {pc : Pc}
    (hpc : ∀ chainKey hash, pc.held chainKey hash = s.pc.held chainKey hash ∧
      pc.inHand chainKey hash = s.pc.inHand chainKey hash)
    (ht : TickOk { s with pc }) : Good ecrecover { s with pc } where
  sound := h.sound
  idle := h.idle
  lanes := h.lanes
  exact chainKey hash := by
    have he := h.exact chainKey hash
    rw [← (hpc chainKey hash).1] at he
    exact he
  fresh := h.fresh
  attempts chainKey hash := by
    have hc := h.attempts chainKey hash
    rw [← (hpc chainKey hash).2] at hc
    exact hc
  tick := ht

/-- The pool takes a result. -/
theorem Good.receive (h : s.Good ecrecover) (hr : s.pc.Rests) {result : DeliveryResult}
    {results : List DeliveryResult} (he : s.results = result :: results) :
    Good ecrecover { s with results, pc := .completing result } where
  sound := h.sound
  idle := h.idle
  lanes := h.lanes
  exact chainKey hash := by
    have := h.exact chainKey hash
    rw [(hr chainKey hash).1, outstanding, he, List.countP_cons] at this
    show laneCount s.deliveryTxs chainKey hash + results.countP (·.of chainKey hash) +
      (result.of chainKey hash).toNat = flying (s.pool.account chainKey hash)
    rw [← this]
    cases result.of chainKey hash <;> rfl
  fresh := h.fresh
  attempts chainKey hash := by
    have := h.attempts chainKey hash
    rw [(hr chainKey hash).2] at this
    exact this
  tick := trivial

/-- A job comes back to its slot, as a result or refused: `g` is what becomes of the account. -/
theorem Good.back (h : s.Good ecrecover) {a : ChainKey} {b : B256} {g : Account → Account}
    {pool : State} {pc : Pc} (hs : pool.Sound ecrecover) (hg : ∀ x, (g x).inFlight = false)
    (ha : ∀ chainKey hash, pool.account chainKey hash = if chainKey = a ∧ hash = b
      then (s.pool.account chainKey hash).map g else s.pool.account chainKey hash)
    (hk : s.outstanding a b + pc.held a b = 0)
    (hn : ∀ x ∈ s.pool.account a b, s.handed a b < u32Max →
      (g x).attempts = s.handed a b + pc.inHand a b)
    (ho : ∀ chainKey hash, ¬(chainKey = a ∧ hash = b) →
      pc.held chainKey hash = s.pc.held chainKey hash ∧
      pc.inHand chainKey hash = s.pc.inHand chainKey hash)
    (ht : TickOk { s.withPool pool with pc }) : Good ecrecover { s.withPool pool with pc } := by
  have hh : ∀ chainKey hash, (if (pool.account chainKey hash).isSome then s.handed chainKey hash
      else 0) = s.handed chainKey hash := fun chainKey hash => by
    rw [ha]
    cases hz : s.pool.account chainKey hash with
    | none => rw [h.fresh chainKey hash hz, ite_self]
    | some x => split <;> rfl
  refine ⟨hs, fun chainKey hash x hm => ?_, h.lanes, fun chainKey hash => ?_,
    fun chainKey hash hz => ?_, fun chainKey hash x hm hl => ?_, ht⟩ <;>
    dsimp only [withPool] at *
  · rw [ha] at hm
    split at hm
    · obtain ⟨y, -, rfl⟩ := Option.map_eq_some_iff.mp hm
      exact fun _ => hg y
    · exact h.idle chainKey hash x hm
  · show s.outstanding chainKey hash + pc.held chainKey hash = flying (pool.account chainKey hash)
    rw [ha]
    by_cases e : chainKey = a ∧ hash = b
    · rw [if_pos e, e.1, e.2, hk]
      cases s.pool.account a b with
      | none => rfl
      | some x => simp [flying, hg]
    · rw [if_neg e, (ho _ _ e).1, h.exact]
  · rw [hz]; rfl
  · rw [hh] at hl ⊢
    rw [ha] at hm
    by_cases e : chainKey = a ∧ hash = b
    · rw [if_pos e] at hm
      obtain ⟨y, hy, rfl⟩ := Option.map_eq_some_iff.mp hm
      rw [e.1, e.2] at hl hy ⊢
      exact hn y hy hl
    · rw [if_neg e] at hm
      rw [(ho _ _ e).2]
      exact h.attempts chainKey hash x hm hl

/-- The pool notes the result that it holds. -/
theorem Good.note (h : s.Good ecrecover) {result : DeliveryResult}
    (hp : s.pc = .completing result) (now later : Instant) (wall : Option Nat) :
    Good ecrecover
      { s.withPool (s.pool.noteDeliveryResult result now later wall) with pc := .head } := by
  have he := h.exact result.chainKey result.messageId
  have hc := h.attempts result.chainKey result.messageId
  rw [hp] at he hc
  refine h.back (State.noteDeliveryResult_sound h.sound _ _ _ _) (fun _ => rfl)
    (State.account_noteDeliveryResult s.pool result now later wall) ?_ hc (fun chainKey hash e => ?_)
    trivial
  · -- its job was the only one
    have : result.of result.chainKey result.messageId = true := DeliveryResult.of_iff.mpr ⟨rfl, rfl⟩
    simp only [Pc.held, this, Bool.toNat_true] at he
    have : flying (s.pool.account result.chainKey result.messageId) ≤ 1 := Bool.toNat_le _
    show s.outstanding result.chainKey result.messageId + 0 = 0
    omega
  · rw [hp]
    simp only [Pc.held, Pc.inHand, DeliveryResult.of_false e, Bool.toNat_false, and_self]

theorem inHand_cons {jobs rest : List DeliveryJob} {job : DeliveryJob} (h : jobs.Perm (job :: rest))
    (next : Next) (chainKey : ChainKey) (hash : B256) :
    Pc.inHand chainKey hash (.handing jobs next) =
      Pc.inHand chainKey hash (.handing rest next) + (job.of chainKey hash).toNat := by
  rw [Pc.inHand, h.countP_eq, List.countP_cons, Pc.inHand]
  cases job.of chainKey hash <;> rfl

/-- A job that its worker accepts. -/
theorem Good.handOver (h : s.Good ecrecover) {jobs rest : List DeliveryJob} {job : DeliveryJob}
    {next : Next} {deliveryTxs : Map ChainKey Lane} (hp : s.pc = .handing jobs next)
    (hj : jobs.Perm (job :: rest))
    (hd : dispatchDeliveryJob s.deliveryTxs job = .ok deliveryTxs) :
    Good ecrecover
      { s with
        deliveryTxs
        pc := .handing rest next
        handed := fun chainKey hash => s.handed chainKey hash + (job.of chainKey hash).toNat } := by
  obtain ⟨tx, ht, rfl⟩ := dispatchDeliveryJob_ok hd
  have hl : ∀ chainKey hash, laneCount (s.deliveryTxs.insert job.chainKey
      { tx with queue := tx.queue ++ [job] }) chainKey hash =
      laneCount s.deliveryTxs chainKey hash + (job.of chainKey hash).toNat := fun chainKey hash => by
    rw [laneCount_insert]
    split
    · rename_i e
      rw [e, laneCount_get ht]
      simp only [Lane.jobs, List.countP_append, List.countP_singleton]
      cases job.of job.chainKey hash with
      | true => simp only [if_true, Bool.toNat_true]; omega
      | false => simp
    · rename_i e
      rw [DeliveryJob.of_false fun e' => e e'.1, Bool.toNat_false, Nat.add_zero]
  refine ⟨h.sound, h.idle, fun chainKey lane hg job' hm => ?_, fun chainKey hash => ?_,
    fun chainKey hash hz => ?_, fun chainKey hash a ha hlt => ?_, ?_⟩
  · rw [Map.get_insert] at hg
    split at hg
    · rename_i e
      cases hg
      simp only [Lane.jobs, List.append_assoc, List.mem_append, List.mem_singleton] at hm
      rcases hm with hm | rfl | hm
      · exact e ▸ h.lanes _ tx ht job' (List.mem_append_left _ hm)
      · exact e.symm
      · exact e ▸ h.lanes _ tx ht job' (List.mem_append_right _ hm)
    · exact h.lanes chainKey lane hg job' hm
  · have he := h.exact chainKey hash
    have hi := inHand_cons hj next chainKey hash
    rw [hp] at he
    simp only [outstanding, hl, Pc.held] at he ⊢
    omega
  · have he := h.exact chainKey hash
    have hi := inHand_cons hj next chainKey hash
    rw [hp, show s.pool.account chainKey hash = none from hz] at he
    simp only [Pc.held, flying, Option.any_none, Bool.toNat_false] at he
    have hf := h.fresh chainKey hash hz
    show s.handed chainKey hash + (job.of chainKey hash).toNat = 0
    omega
  · have hi := inHand_cons hj next chainKey hash
    have hc := h.attempts chainKey hash a ha
    rw [hp] at hc
    dsimp only at hlt ⊢
    have := hc (by omega)
    omega
  · have ht := h.tick
    simp only [TickOk, hp] at ht ⊢
    cases next <;> exact ht

/-- A job that is refused. -/
theorem Good.refuse (h : s.Good ecrecover) {jobs rest : List DeliveryJob} {job : DeliveryJob}
    {next : Next} (hp : s.pc = .handing jobs next) (hj : jobs.Perm (job :: rest)) :
    Good ecrecover
      { s.withPool (s.pool.requeueDelivery job.chainKey job.messageId s.clock) with
        pc := .handing rest next } := by
  have he := h.exact job.chainKey job.messageId
  have hc := h.attempts job.chainKey job.messageId
  have hi := inHand_cons hj next
  have hof : job.of job.chainKey job.messageId = true := DeliveryJob.of_iff.mpr ⟨rfl, rfl⟩
  have hi' := hi job.chainKey job.messageId
  rw [hof, Bool.toNat_true] at hi'
  rw [hp] at he hc
  have hf : flying (s.pool.account job.chainKey job.messageId) ≤ 1 := Bool.toNat_le _
  simp only [Pc.held] at he
  refine h.back (State.requeueDelivery_sound h.sound _ _ _) (fun _ => rfl)
    (State.account_requeueDelivery s.pool _ _ _) ?_ (fun a ha hl => ?_) (fun chainKey hash e => ?_) ?_
  · simp only [Pc.held]; omega
  · have := hc a ha hl
    simp only [Account.requeued]
    omega
  · have hi := hi chainKey hash
    rw [DeliveryJob.of_false e, Bool.toNat_false, Nat.add_zero] at hi
    rw [hp]
    exact ⟨hi.symm, hi.symm⟩
  · have ht := h.tick
    simp only [TickOk, hp] at ht ⊢
    cases next with
    | head | select => trivial
    | collect tick => exact ht
    | ticked tick => exact ⟨ht.1, State.requeueDelivery_waits ht.2 ht.1 _ _⟩

/-- A worker that turns its lane from `lane` to `lane'`, and may send a result. -/
theorem Good.work (h : s.Good ecrecover) {a : ChainKey} {lane : Lane} (lane' : Lane)
    (sent : List DeliveryResult) (hl : s.deliveryTxs[a]? = some lane)
    (hs : ∀ job ∈ lane'.jobs, job ∈ lane.jobs)
    (hc : ∀ hash, lane'.jobs.countP (·.of a hash) + sent.countP (·.of a hash) =
      lane.jobs.countP (·.of a hash))
    (hk : ∀ result ∈ sent, result.chainKey = a) :
    Good ecrecover
      { s with deliveryTxs := s.deliveryTxs.insert a lane', results := s.results ++ sent } := by
  refine ⟨h.sound, h.idle, fun chainKey lane₁ hg job hm => ?_, fun chainKey hash => ?_, h.fresh,
    h.attempts, h.tick⟩
  · rw [Map.get_insert] at hg
    split at hg
    · rename_i e
      cases hg
      exact e ▸ h.lanes a lane hl job (hs job hm)
    · exact h.lanes chainKey lane₁ hg job hm
  · rw [← h.exact chainKey hash]
    simp only [outstanding, laneCount_insert, List.countP_append]
    split
    · rename_i e
      subst e
      rw [laneCount_get hl]
      have := hc hash
      omega
    · rename_i e
      have hz : sent.countP (·.of chainKey hash) = 0 := List.countP_eq_zero.mpr fun result hr ho =>
        e ((DeliveryResult.of_iff.mp ho).1.symm.trans (hk result hr))
      rw [hz, Nat.add_zero]

theorem Good.take (h : s.Good ecrecover) {chainKey : ChainKey} {lane : Lane} {job : DeliveryJob}
    {queue : List DeliveryJob} (hl : s.deliveryTxs[chainKey]? = some lane) (hb : lane.busy = none)
    (hq : lane.queue = job :: queue) :
    Good ecrecover
      { s with
        deliveryTxs := s.deliveryTxs.insert chainKey { lane with queue, busy := some job } } := by
  have hp : (Lane.jobs { lane with queue, busy := some job }).Perm lane.jobs := by
    simp only [Lane.jobs, hb, hq, Option.toList_some, Option.toList_none, List.append_nil]
    exact List.perm_append_singleton job queue
  have := h.work { lane with queue, busy := some job } [] hl
    (fun _ hm => hp.mem_iff.mp hm) (fun hash => hp.countP_eq _) fun _ hm => absurd hm List.not_mem_nil
  rwa [List.append_nil] at this

theorem Good.finish (h : s.Good ecrecover) {chainKey : ChainKey} {lane : Lane} {job : DeliveryJob}
    (outcome : DeliveryResultKind) (hl : s.deliveryTxs[chainKey]? = some lane)
    (hb : lane.busy = some job) :
    Good ecrecover
      { s with
        deliveryTxs := s.deliveryTxs.insert chainKey { lane with busy := none }
        results := s.results ++ [⟨job.chainKey, job.messageId, outcome⟩] } := by
  have hm : job ∈ lane.jobs := by simp [Lane.jobs, hb]
  refine h.work _ _ hl (fun _ hm => ?_) (fun hash => ?_) fun result hr => ?_
  · simp only [Lane.jobs, Option.toList_none, List.append_nil] at hm
    exact List.mem_append_left _ hm
  · simp only [Lane.jobs, hb, Option.toList_none, Option.toList_some, List.append_nil,
      List.countP_append, List.countP_singleton]
    rfl
  · rw [List.mem_singleton.mp hr]
    exact h.lanes chainKey lane hl job hm

end PoolSys

/-- Every step keeps the invariant, until the pool stops. -/
theorem LoopStep.good {s t : PoolSys} {label : LoopLabel} (hs : LoopStep ecrecover s label t)
    (h : s.pc = .stopped ∨ s.Good ecrecover) : t.pc = .stopped ∨ t.Good ecrecover := by
  by_cases hp : s.pc = .stopped
  · left
    cases hs <;> simp_all
  have h := h.resolve_left hp
  clear hp
  cases hs with
  | resume insertedAt now hp =>
    have h' : PoolSys.Good ecrecover { s with deferredIndexed := none } :=
      ⟨h.sound, h.idle, h.lanes, h.exact, h.fresh, h.attempts, h.tick⟩
    exact .inr (h'.handing (Pc.rests_of (.inl hp))
      (State.noteIndexed_moves h.sound h.idle _ _ _) (State.noteIndexed_keeps h.sound _ _ _).1 trivial)
  | turn hp => exact .inr (h.goto (fun _ _ => by rw [hp]; exact ⟨rfl, rfl⟩) trivial)
  | setUpdate update now hp =>
    exact .inr (h.handing (Pc.rests_of (.inr (.inl hp))) (State.applyAttestorSet_moves h.sound _ _)
      (State.onRoute_keeps h.sound _ _ fun _ hr =>
        RouteState.applyAttestorSet_keeps hr _ _ _).1 trivial)
  | indexed indexed insertedAt now hp =>
    exact .inr (h.handing (Pc.rests_of (.inr (.inl hp)))
      (State.noteIndexed_moves h.sound h.idle _ _ _) (State.noteIndexed_keeps h.sound _ _ _).1 trivial)
  | full indexed hp =>
    have h' : PoolSys.Good ecrecover { s with
        deferredIndexed := if s.durable then none else some indexed } :=
      ⟨h.sound, h.idle, h.lanes, h.exact, h.fresh, h.attempts, h.tick⟩
    exact .inr (h'.goto (fun _ _ => by dsimp only; rw [hp]; exact ⟨rfl, rfl⟩) trivial)
  | vote vote now hp =>
    exact .inr (h.handing (Pc.rests_of (.inr (.inl hp))) (State.noteVote_moves h.sound _ _)
      (State.onRoute_keeps? h.sound _ _ fun _ hr => RouteState.noteVote_keeps hr _ _ _).1 trivial)
  | result now later wall hp hr =>
    exact .inr ((h.receive (Pc.rests_of (.inr (.inl hp))) hr).note rfl now later wall)
  | finalResult hp hr => exact .inr (h.receive (Pc.rests_of (.inr (.inl hp))) hr)
  | completed now later wall hp => exact .inr (h.note hp now later wall)
  | query hp => exact .inr (h.goto (fun _ _ => by rw [hp]; exact ⟨rfl, rfl⟩) trivial)
  | tick hp =>
    refine .inr (h.moves (Pc.rests_of (.inr (.inl hp))) (State.pruneExpired_moves h.idle s.clock)
      (State.pruneExpired_sound h.sound _) (fun _ _ => ?_) ?_)
    · split <;> exact ⟨rfl, rfl⟩
    · cases hd : s.durable <;> exact Nat.le_refl _
  | refilled clock hp hx =>
    have ht := h.tick
    rw [PoolSys.TickOk, hp] at ht
    exact .inr (h.handing (Pc.rests_of (.inr (.inr (.inl ⟨_, hp⟩))))
      ((hx.post (State.refillRoutes_moves _ _ (Map.nodup_keys _) h.sound h.idle)).moves _ rfl)
      (hx.post (State.refillRoutes_keeps unloadedStore _ _ _ _ () h.sound)).1 ht)
  | collect hp =>
    have ht := h.tick
    rw [PoolSys.TickOk, hp] at ht
    have hs := State.collectStalled_sound h.sound s.clock
    have hm := State.collectReadyDeliveries_moves hs s.clock
    rw [State.Moves, State.collectStalled_account] at hm
    exact .inr (h.handing (Pc.rests_of (.inr (.inr (.inr ⟨_, hp⟩)))) hm
      (State.collectReadyDeliveries_keeps hs _).1
      ⟨ht, (State.collectReadyDeliveries_waits _ _).mono ht⟩)
  | handOver hp hj hd => exact .inr (h.handOver hp hj hd)
  | refuse hp hj hd =>
    cases dispatchDeliveryJob_error hd
    exact .inr (h.refuse hp hj)
  | @handed next hp =>
    refine .inr (h.goto (fun _ _ => ?_) ?_)
    · rw [hp]; cases next <;> exact ⟨rfl, rfl⟩
    · have ht := h.tick
      rw [PoolSys.TickOk, hp] at ht
      cases next with
      | collect => exact ht
      | head | select | ticked => trivial
  | stop hp => exact .inl rfl
  | take hl hb hq => exact .inr (h.take hl hb hq)
  | finish outcome hl hb => exact .inr (h.finish outcome hl hb)
  | @close chainKey lane hl =>
    have := h.work { lane with closed := true } [] hl (fun _ hm => hm)
      (fun hash => rfl) fun _ hm => absurd hm List.not_mem_nil
    rw [List.append_nil] at this
    exact .inr this
  | @advance clock hc =>
    refine .inr ⟨h.sound, h.idle, h.lanes, h.exact, h.fresh, h.attempts, ?_⟩
    have ht := h.tick
    unfold PoolSys.TickOk at ht ⊢
    dsimp only
    split at ht
    · exact Nat.le_trans ht hc
    · exact Nat.le_trans ht hc
    · exact Nat.le_trans ht hc
    · exact ⟨Nat.le_trans ht.1 hc, ht.2⟩
    all_goals trivial

/-- What a step makes of the pool's state. -/
theorem LoopStep.pool_cases {s t : PoolSys} {label : LoopLabel} (hs : LoopStep ecrecover s label t)
    (h : s.Good ecrecover) : t.pc = .stopped ∨ (∃ jobs, s.pool.Moves (t.pool, jobs)) ∨
      (∃ result now later wall, t.pool = s.pool.noteDeliveryResult result now later wall) ∨
      ∃ chainKey messageId now, label = .refused chainKey messageId ∧
        t.pool = s.pool.requeueDelivery chainKey messageId now := by
  cases hs with
  | resume | indexed =>
    exact .inr (.inl ⟨_, State.noteIndexed_moves h.sound h.idle _ _ _⟩)
  | setUpdate update now => exact .inr (.inl ⟨_, State.applyAttestorSet_moves h.sound _ _⟩)
  | vote vote now => exact .inr (.inl ⟨_, State.noteVote_moves h.sound _ _⟩)
  | result now later wall => exact .inr (.inr (.inl ⟨_, now, later, wall, rfl⟩))
  | completed now later wall => exact .inr (.inr (.inl ⟨_, now, later, wall, rfl⟩))
  | tick => exact .inr (.inl ⟨_, State.pruneExpired_moves h.idle s.clock⟩)
  | refilled clock hp hx =>
    exact .inr (.inl ⟨_, (hx.post (State.refillRoutes_moves _ _ (Map.nodup_keys _) h.sound
      h.idle)).moves _ rfl⟩)
  | collect =>
    have hm := State.collectReadyDeliveries_moves (State.collectStalled_sound h.sound s.clock) s.clock
    rw [State.Moves, State.collectStalled_account] at hm
    exact .inr (.inl ⟨_, hm⟩)
  | refuse => exact .inr (.inr (.inr ⟨_, _, _, rfl, rfl⟩))
  | stop => exact .inl rfl
  | turn | full | finalResult | query | handOver | handed | take | finish | close | advance =>
    exact .inr (.inl ⟨[], .quiet rfl⟩)

/-! ## Every run -/

theorem PoolSys.start_good (routes : List RouteAttestors) (cache : VoteCacheConfig)
    {deliveryTxs : Map ChainKey Lane} (durable : Bool) (clock : Instant)
    (hq : ∀ (chainKey : ChainKey) (lane : Lane), deliveryTxs[chainKey]? = some lane →
      lane.jobs = []) : (start routes cache deliveryTxs durable clock).Good ecrecover := by
  have hn : ∀ (chainKey : ChainKey) (hash : B256),
      (State.new routes cache).account chainKey hash = none := fun chainKey hash => by
    cases hr : (State.new routes cache).byRoute[chainKey]? with
    | none => rw [State.account, hr]; rfl
    | some route =>
      rw [State.account, hr, Option.bind_some, RouteState.account, (State.new_route hr).1]
      simp
  refine ⟨State.new_sound routes cache, fun chainKey hash a ha => ?_, fun chainKey lane hl job hj => ?_,
    fun chainKey hash => ?_, fun _ _ _ => rfl, fun chainKey hash a ha => ?_, trivial⟩
  · rw [show (start routes cache deliveryTxs durable clock).pool = State.new routes cache from rfl,
      hn] at ha
    cases ha
  · rw [hq chainKey lane hl] at hj; cases hj
  · show laneCount deliveryTxs chainKey hash + 0 + 0 =
      flying ((State.new routes cache).account chainKey hash)
    rw [hn, laneCount]
    cases hl : deliveryTxs[chainKey]? with
    | none => rfl
    | some lane => rw [Option.elim_some, hq chainKey lane hl]; rfl
  · rw [show (start routes cache deliveryTxs durable clock).pool = State.new routes cache from rfl,
      hn] at ha
    cases ha

/-- Whether a job of the slot is in flight. -/
def State.inFlight (s : State) (chainKey : ChainKey) (hash : B256) : Bool :=
  (s.slot chainKey hash).any (·.inFlight)

theorem State.account_eq (s : State) (chainKey : ChainKey) (hash : B256) :
    s.account chainKey hash = (s.slot chainKey hash).map MessageSlot.account := by
  rw [account, slot]
  cases s.byRoute[chainKey]? <;> rfl

theorem State.flying_eq (s : State) (chainKey : ChainKey) (hash : B256) :
    flying (s.account chainKey hash) = (s.inFlight chainKey hash).toNat := by
  rw [account_eq, inFlight]
  cases s.slot chainKey hash <;> rfl

/-- A full, closed or missing channel refuses. -/
theorem dispatchDeliveryJob_refuses {deliveryTxs : Map ChainKey Lane} {job : DeliveryJob}
    (h : ∀ tx : Lane, deliveryTxs[job.chainKey]? = some tx →
      tx.closed = true ∨ tx.capacity ≤ tx.queue.length) :
    dispatchDeliveryJob deliveryTxs job = .error (job.chainKey, job.messageId) := by
  unfold dispatchDeliveryJob
  split
  · rfl
  · rename_i tx ht
    rcases h tx ht with hc | hf
    · rw [if_pos hc]
    · split
      · rfl
      · rw [if_neg (Nat.not_lt.mpr hf)]

/-- In every interleaving of the pool with its workers, until the pool stops: the jobs of a
message in its channel and worker and its results on the way back, with what the pool itself holds
between two waits, are one if its slot is in flight and none otherwise; where the pool waits for
its next event it holds nothing. A step never takes a slot in flight out of the working set. A
refused job goes back to its slot, which is then not in flight, and a full, closed or missing
channel refuses. The attempts of a slot are the jobs handed over since its admission (and the one
in hand), below the bound of their counter. After a prune tick, every unresolved slot at quorum is
in flight or has its next attempt later than the tick. -/
theorem one_delivery_in_flight (routes : List RouteAttestors) (cache : VoteCacheConfig)
    {deliveryTxs : Map ChainKey Lane} (durable : Bool) (clock : Instant)
    (hq : ∀ (chainKey : ChainKey) (lane : Lane), deliveryTxs[chainKey]? = some lane → lane.jobs = [])
    {l : List LoopLabel} {s : PoolSys}
    (hr : Run (LoopStep ecrecover) (.start routes cache deliveryTxs durable clock) l s)
    (hn : s.pc ≠ .stopped) :
    (∀ chainKey hash, s.outstanding chainKey hash + s.pc.held chainKey hash =
      if s.pool.inFlight chainKey hash then 1 else 0) ∧
    (s.pc = .head ∨ s.pc = .select → ∀ chainKey hash, s.outstanding chainKey hash =
      if s.pool.inFlight chainKey hash then 1 else 0) ∧
    (∀ chainKey hash slot, s.pool.slot chainKey hash = some slot →
      s.handed chainKey hash < u32Max →
      slot.deliveryAttempts = s.handed chainKey hash + s.pc.inHand chainKey hash) ∧
    (∀ jobs rest job next, s.pc = .handing jobs next → jobs.Perm (job :: rest) →
      (∀ tx : Lane, s.deliveryTxs[job.chainKey]? = some tx →
        tx.closed = true ∨ tx.capacity ≤ tx.queue.length) →
      ∃ t, LoopStep ecrecover s (.refused job.chainKey job.messageId) t) ∧
    ∀ label t, LoopStep ecrecover s label t → t.pc ≠ .stopped →
      (∀ chainKey hash, s.pool.inFlight chainKey hash = true →
        t.pool.slot chainKey hash ≠ none) ∧
      (∀ chainKey hash, label = .refused chainKey hash →
        t.pool = s.pool.requeueDelivery chainKey hash s.clock ∧
        t.pool.inFlight chainKey hash = false) ∧
      ∀ tick, label = .ticked tick → t.pool.NoStranded tick := by
  have h : s.Good ecrecover := (hr.inv (I := fun s => s.pc = .stopped ∨ s.Good ecrecover)
    (fun _ _ _ hs h => hs.good h) (.inr (PoolSys.start_good routes cache durable clock hq))).resolve_left hn
  have he : ∀ chainKey hash, s.outstanding chainKey hash + s.pc.held chainKey hash =
      if s.pool.inFlight chainKey hash then 1 else 0 := fun chainKey hash => by
    rw [h.exact, State.flying_eq]
    cases s.pool.inFlight chainKey hash <;> rfl
  refine ⟨he, fun hp chainKey hash => ?_, fun chainKey hash slot hs hl => ?_,
    fun jobs rest job next hp hj hf => ⟨_, .refuse hp hj (dispatchDeliveryJob_refuses hf)⟩,
    fun label t hst hnt => ⟨fun chainKey hash hf => ?_, fun chainKey hash e => ?_, fun tick e => ?_⟩⟩
  · rw [← he chainKey hash]
    rcases hp with hp | hp <;> rw [hp] <;> rfl
  · exact h.attempts chainKey hash slot.account (by rw [State.account_eq, hs]; rfl) hl
  · have hf : flying (s.pool.account chainKey hash) = 1 := by rw [State.flying_eq, hf]; rfl
    suffices hz : t.pool.account chainKey hash ≠ none by
      rw [State.account_eq] at hz
      exact fun e => hz (by rw [e]; rfl)
    intro hz
    rcases hst.pool_cases h with hp | ⟨jobs, hm⟩ | ⟨result, now, later, wall, e⟩ | ⟨_, _, _, -, e⟩
    · exact hnt hp
    · have := (hm chainKey hash).flying
      rw [hz, hf, flying, Option.any_none, Bool.toNat_false] at this
      omega
    · rw [e, State.account_noteDeliveryResult] at hz
      split at hz
      · rw [Option.map_eq_none_iff.mp hz] at hf; cases hf
      · rw [hz] at hf; cases hf
    · rw [e, State.account_requeueDelivery] at hz
      split at hz
      · rw [Option.map_eq_none_iff.mp hz] at hf; cases hf
      · rw [hz] at hf; cases hf
  · have e' : t.pool = s.pool.requeueDelivery chainKey hash s.clock := by
      cases hst with
      | refuse => cases e; rfl
      | @handed next => cases next <;> cases e
      | _ => cases e
    refine ⟨e', ?_⟩
    have hz : flying (t.pool.account chainKey hash) = 0 := by
      rw [e', State.account_requeueDelivery, if_pos ⟨rfl, rfl⟩]
      cases s.pool.account chainKey hash <;> rfl
    rw [State.flying_eq] at hz
    exact Bool.toNat_eq_zero.mp hz
  · cases hst with
    | @handed next hp =>
      have ht := h.tick
      rw [PoolSys.TickOk, hp] at ht
      cases next with
      | ticked tick' => cases e; exact ht.2
      | head | select | collect => cases e
    | _ => cases e

/-- The run that indexes `sampleMessage` and takes the vote for it. -/
theorem one_delivery_in_flight_vote : ∃ s : PoolSys, s.pool.inFlight 2 5 = true ∧
    s.outstanding 2 5 + s.pc.held 2 5 = 1 := by
  have hj : ((PoolOp.noteIndexed sampleMessage 1 1).apply (fun _ _ => .ok 9)
      (.new [sampleRoute] sampleCache)).2 = [] := by decide
  have hr : Run (LoopStep fun _ _ => .ok 9) (.start [sampleRoute] sampleCache ∅ true 0) _ _ :=
    (((((Run.nil.snoc (.turn rfl rfl)).snoc (.indexed sampleMessage 1 1 rfl rfl
      (by decide))).snoc (@LoopStep.handed _ _ .head
      (congrArg (Pc.handing · .head) hj))).snoc (.turn rfl rfl)).snoc (.vote sampleVote 2 rfl))
  have h := one_delivery_in_flight [sampleRoute] sampleCache true 0 (fun _ _ hl => by simp at hl) hr
    (by simp [PoolSys.handing])
  have hf := (by decide :
    ((PoolOp.noteVote sampleVote 2).apply (fun _ _ => .ok 9) sampleIndexed).1.inFlight 2 5 = true)
  exact ⟨_, hf, (h.1 2 5).trans (if_pos hf)⟩

end MessageRelayer

import MessageRelayer.Pool.Accounts

/-!
# The loop of the vote pool and the delivery workers

`pool::run` as a step relation, interleaved with the delivery workers it feeds
(`LoopStep`). The pool is at the head of its loop, in its `select!`, or at one
of the places where an arm of it awaits or hands jobs over (`Pc`); anywhere,
a worker may take a job from its channel or send the result of its job. The
order in which an arm hands over its jobs is any order.

An accepted job stays with its worker until it yields a result, also when the
channel is closed: shutdown is left out. `handed` is not in the source: it
counts the jobs of a message that were handed over since the message was
admitted.
-/

namespace MessageRelayer

open Prog

/-! ## Channels -/

/-- A delivery channel and the worker that it feeds. -/
structure Lane where
  queue : List DeliveryJob
  capacity : Nat
  closed : Bool
  busy : Option DeliveryJob

/-- The jobs that the worker has yet to answer. -/
def Lane.jobs (lane : Lane) : List DeliveryJob := lane.queue ++ lane.busy.toList

/-- Hand a job to its worker without waiting; without room for it, its key comes back. -/
def dispatchDeliveryJob (deliveryTxs : Map ChainKey Lane) (job : DeliveryJob) :
    Except (ChainKey × B256) (Map ChainKey Lane) :=
  match deliveryTxs[job.chainKey]? with
  | none => .error (job.chainKey, job.messageId)
  | some tx =>
    if tx.closed then .error (job.chainKey, job.messageId)
    else if tx.queue.length < tx.capacity then
      .ok (deliveryTxs.insert job.chainKey { tx with queue := tx.queue ++ [job] })
    else .error (job.chainKey, job.messageId)

theorem dispatchDeliveryJob_ok {deliveryTxs deliveryTxs' : Map ChainKey Lane} {job : DeliveryJob}
    (h : dispatchDeliveryJob deliveryTxs job = .ok deliveryTxs') :
    ∃ tx : Lane, deliveryTxs[job.chainKey]? = some tx ∧
      deliveryTxs' = deliveryTxs.insert job.chainKey { tx with queue := tx.queue ++ [job] } := by
  unfold dispatchDeliveryJob at h
  split at h
  · cases h
  · rename_i tx ht
    split at h
    · cases h
    · split at h
      · cases h; exact ⟨tx, ht, rfl⟩
      · cases h

theorem dispatchDeliveryJob_error {deliveryTxs : Map ChainKey Lane} {job : DeliveryJob}
    {key : ChainKey × B256} (h : dispatchDeliveryJob deliveryTxs job = .error key) :
    key = (job.chainKey, job.messageId) := by
  unfold dispatchDeliveryJob at h
  split at h
  · cases h; rfl
  · split at h
    · cases h; rfl
    · split at h
      · cases h
      · cases h; rfl

/-! ## The system -/

/-- What the pool does after it has handed over the jobs of an arm. -/
inductive Next where
  | head
  | select
  /-- The rest of the prune tick that fired at `tick`. -/
  | collect (tick : Instant)
  /-- The end of the prune tick that fired at `tick`. -/
  | ticked (tick : Instant)

/-- Where the pool is in its loop. -/
inductive Pc where
  | head
  | select
  /-- Awaiting `work.complete` for a final result. -/
  | completing (result : DeliveryResult)
  /-- Awaiting `refill` in the prune tick that fired at `tick`. -/
  | refilling (tick : Instant)
  | collecting (tick : Instant)
  | handing (jobs : List DeliveryJob) (next : Next)
  | stopped

def Next.pc : Next → Pc
  | head | ticked _ => .head
  | select => .select
  | collect tick => .collecting tick

structure PoolSys where
  pool : State
  pc : Pc
  deferredIndexed : Option IndexedMessage
  deliveryTxs : Map ChainKey Lane
  results : List DeliveryResult
  clock : Instant
  /-- Whether the unfinished messages are persisted (`work.is_some()`). -/
  durable : Bool
  handed : ChainKey → B256 → Nat

/-- The start of `run`. -/
def PoolSys.start (routes : List RouteAttestors) (cache : VoteCacheConfig)
    (deliveryTxs : Map ChainKey Lane) (durable : Bool) (clock : Instant) : PoolSys where
  pool := .new routes cache
  pc := .head
  deferredIndexed := none
  deliveryTxs := deliveryTxs
  results := []
  clock := clock
  durable := durable
  handed := fun _ _ => 0

/-- A new state of the pool; a message that is not loaded has no count. -/
def PoolSys.withPool (s : PoolSys) (pool : State) : PoolSys :=
  { s with
    pool
    handed := fun chainKey hash =>
      if (pool.account chainKey hash).isSome then s.handed chainKey hash else 0 }

/-- The pool has done an operation and turns to the jobs that it returned. -/
def PoolSys.handing (s : PoolSys) (p : State × List DeliveryJob) (next : Next) : PoolSys :=
  { s.withPool p.1 with pc := .handing p.2 next }

/-! ## Steps -/

inductive LoopLabel where
  | internal
  | handedOver (chainKey : ChainKey) (messageId : B256)
  | refused (chainKey : ChainKey) (messageId : B256)
  | ticked (tick : Instant)

def Next.label : Next → LoopLabel
  | ticked tick => .ticked tick
  | head | select | collect _ => .internal

inductive LoopStep (ecrecover : Ecrecover) : PoolSys → LoopLabel → PoolSys → Prop where
  /-- The deferred message fits now. -/
  | resume {s : PoolSys} {indexed : IndexedMessage} (insertedAt now : Instant) (hp : s.pc = .head)
      (hd : s.deferredIndexed = some indexed) (hc : s.pool.canIndex indexed = true) :
      LoopStep ecrecover s .internal
        ({ s with deferredIndexed := none }.handing
          ((PoolOp.noteIndexed indexed insertedAt now).apply ecrecover s.pool) .select)
  | turn {s : PoolSys} (hp : s.pc = .head)
      (hd : s.deferredIndexed.any (s.pool.canIndex ·) = false) :
      LoopStep ecrecover s .internal { s with pc := .select }
  | setUpdate {s : PoolSys} (update : RouteAttestors) (now : B256 → Instant) (hp : s.pc = .select) :
      LoopStep ecrecover s .internal (s.handing (s.pool.applyAttestorSet update now) .head)
  | indexed {s : PoolSys} (indexed : IndexedMessage) (insertedAt now : Instant)
      (hp : s.pc = .select) (hd : s.deferredIndexed = none)
      (hc : s.pool.canIndex indexed = true) :
      LoopStep ecrecover s .internal
        (s.handing ((PoolOp.noteIndexed indexed insertedAt now).apply ecrecover s.pool) .head)
  /-- A message that does not fit is deferred, or stays on disk. -/
  | full {s : PoolSys} (indexed : IndexedMessage) (hp : s.pc = .select)
      (hd : s.deferredIndexed = none) (hc : s.pool.canIndex indexed = false) :
      LoopStep ecrecover s .internal
        { s with deferredIndexed := if s.durable then none else some indexed, pc := .head }
  | vote {s : PoolSys} (vote : MessageVote) (now : Instant) (hp : s.pc = .select) :
      LoopStep ecrecover s .internal
        (s.handing ((PoolOp.noteVote vote now).apply ecrecover s.pool) .head)
  | result {s : PoolSys} {result : DeliveryResult} {results : List DeliveryResult}
      (now later : Instant) (wall : Option Nat) (hp : s.pc = .select)
      (hr : s.results = result :: results) (hf : (s.durable && result.outcome.final) = false) :
      LoopStep ecrecover s .internal
        { s.withPool (s.pool.noteDeliveryResult result now later wall) with results, pc := .head }
  | finalResult {s : PoolSys} {result : DeliveryResult} {results : List DeliveryResult}
      (hp : s.pc = .select) (hr : s.results = result :: results)
      (hf : (s.durable && result.outcome.final) = true) :
      LoopStep ecrecover s .internal { s with results, pc := .completing result }
  | completed {s : PoolSys} {result : DeliveryResult} (now later : Instant) (wall : Option Nat)
      (hp : s.pc = .completing result) :
      LoopStep ecrecover s .internal
        { s.withPool (s.pool.noteDeliveryResult result now later wall) with pc := .head }
  /-- A query, or one of the inputs whose end the loop outlives. -/
  | query {s : PoolSys} (hp : s.pc = .select) : LoopStep ecrecover s .internal { s with pc := .head }
  | tick {s : PoolSys} (hp : s.pc = .select) :
      LoopStep ecrecover s .internal
        { s.withPool (s.pool.pruneExpired s.clock) with
          pc := if s.durable then .refilling s.clock else .collecting s.clock }
  | refilled {s : PoolSys} {tick : Instant} {pool : State} {jobs : List DeliveryJob}
      (clock : B256 → Instant × Instant) (hp : s.pc = .refilling tick)
      (hx : Exec unloadedStore (s.pool.refill s.clock clock) () () (pool, .ok jobs)) :
      LoopStep ecrecover s .internal (s.handing (pool, jobs) (.collect tick))
  | collect {s : PoolSys} {tick : Instant} (hp : s.pc = .collecting tick) :
      LoopStep ecrecover s .internal
        (s.handing ((s.pool.collectStalledReobservations s.clock).1.collectReadyDeliveries s.clock)
          (.ticked tick))
  | handOver {s : PoolSys} {jobs rest : List DeliveryJob} {job : DeliveryJob} {next : Next}
      {deliveryTxs : Map ChainKey Lane} (hp : s.pc = .handing jobs next)
      (hj : jobs.Perm (job :: rest)) (hd : dispatchDeliveryJob s.deliveryTxs job = .ok deliveryTxs) :
      LoopStep ecrecover s (.handedOver job.chainKey job.messageId)
        { s with
          deliveryTxs
          pc := .handing rest next
          handed := fun chainKey hash =>
            s.handed chainKey hash + (job.of chainKey hash).toNat }
  | refuse {s : PoolSys} {jobs rest : List DeliveryJob} {job : DeliveryJob} {next : Next}
      {chainKey : ChainKey} {messageId : B256} (hp : s.pc = .handing jobs next)
      (hj : jobs.Perm (job :: rest))
      (hd : dispatchDeliveryJob s.deliveryTxs job = .error (chainKey, messageId)) :
      LoopStep ecrecover s (.refused chainKey messageId)
        { s.withPool (s.pool.requeueDelivery chainKey messageId s.clock) with
          pc := .handing rest next }
  | handed {s : PoolSys} {next : Next} (hp : s.pc = .handing [] next) :
      LoopStep ecrecover s next.label { s with pc := next.pc }
  /-- An input that the pool needs is closed, or a store operation failed. -/
  | stop {s : PoolSys} {pool : State} (hp : s.pc = .select ∨ (∃ r, s.pc = .completing r) ∨
      ∃ tick, s.pc = .refilling tick) :
      LoopStep ecrecover s .internal { s with pool, pc := .stopped }
  | take {s : PoolSys} {chainKey : ChainKey} {lane : Lane} {job : DeliveryJob}
      {queue : List DeliveryJob} (hl : s.deliveryTxs[chainKey]? = some lane)
      (hb : lane.busy = none) (hq : lane.queue = job :: queue) :
      LoopStep ecrecover s .internal
        { s with
          deliveryTxs := s.deliveryTxs.insert chainKey { lane with queue, busy := some job } }
  | finish {s : PoolSys} {chainKey : ChainKey} {lane : Lane} {job : DeliveryJob}
      (outcome : DeliveryResultKind) (hl : s.deliveryTxs[chainKey]? = some lane)
      (hb : lane.busy = some job) :
      LoopStep ecrecover s .internal
        { s with
          deliveryTxs := s.deliveryTxs.insert chainKey { lane with busy := none }
          results := s.results ++ [⟨job.chainKey, job.messageId, outcome⟩] }
  | close {s : PoolSys} {chainKey : ChainKey} {lane : Lane}
      (hl : s.deliveryTxs[chainKey]? = some lane) :
      LoopStep ecrecover s .internal
        { s with deliveryTxs := s.deliveryTxs.insert chainKey { lane with closed := true } }
  | advance {s : PoolSys} {clock : Instant} (hc : s.clock ≤ clock) :
      LoopStep ecrecover s .internal { s with clock }

end MessageRelayer

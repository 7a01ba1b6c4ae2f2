import MessageRelayer.Delivery.Sends
import MessageRelayer.Relay.Jobs
import MessageRelayer.Relay.Watch

/-!
# The relayer with its delivery workers

The relayer from the logs of its sources to its broadcasts, as one step
relation (`FleetStep`): the watchers (`WatchStep`), the vote pool with its use
of the store of unfinished messages, a channel and a worker for each route, and
the results on their way back. A worker runs `handle_job` on one job at a time;
each of its questions is a step (`FleetEvent.asked`), answered in any way, so
everything interleaves anywhere, and the process may be gone at any point and
start again from the disk. What the relayer keeps of messages moves as in
`RelayStep` (`FleetStep.relay`), so what holds of it there holds with the
workers, such as that the copies of a message agree (`fleet_settled`).

A job that finds no room in its channel is not handed over; its slot is given
back by a `requeueDelivery` of its own.
-/

namespace MessageRelayer

open Prog hiding ask

/-! ## The state -/

/-- What the relayer is configured with. -/
structure FleetConfig where
  ecrecover : Ecrecover
  inbox : InboxCodec
  routes : ChainKey → DeliveryRoute
  delivery : DeliveryConfig
  /-- The sets of attestors that the configuration and the validators supply. -/
  sets : RouteAttestors → Prop

/-- A job with a worker, and what was said in it so far. -/
structure JobRun where
  job : DeliveryJob
  funding : MessageFunding
  /-- The worker's ledger of failed retries at its start. -/
  memory : Memory
  said : DeliverySaid

abbrev JobRest := DeliveryProg (DeliveryResultKind × Memory)

structure FleetProcess where
  relay : RelayProcess
  /-- The delivery channels. -/
  lanes : ChainKey → List DeliveryJob
  /-- The workers that run a job, each with what is left of it. -/
  workers : ChainKey → Option (JobRun × JobRest)
  memories : ChainKey → Memory
  results : List DeliveryResult

def FleetProcess.start (routes : List RouteAttestors) (cache : VoteCacheConfig) : FleetProcess where
  relay := .start routes cache
  lanes := fun _ => []
  workers := fun _ => none
  memories := fun _ => ∅
  results := []

/-- The pool has gone on and hands jobs over. -/
def FleetProcess.hand (p : FleetProcess) (relay : RelayProcess) (jobs : List DeliveryJob) :
    FleetProcess :=
  { p with
    relay
    lanes := fun chainKey => p.lanes chainKey ++ jobs.filter (·.chainKey = chainKey) }

def FleetProcess.withWorker (p : FleetProcess) (chainKey : ChainKey)
    (worker : Option (JobRun × JobRest)) : FleetProcess :=
  { p with workers := fun c => if c = chainKey then worker else p.workers c }

structure Fleet where
  disk : Disk
  process : Option FleetProcess

/-- The parts that `RelayStep` is about. -/
def Fleet.relay (s : Fleet) : Relay := ⟨s.disk, s.process.map (·.relay)⟩

inductive FleetEvent where
  | relay (e : RelayEvent)
  | taken (job : DeliveryJob)
  /-- The worker of a job asks a question. -/
  | asked (job : DeliveryJob) (c : DeliveryCall)
  | finished (run : JobRun) (outcome : DeliveryResultKind) (memory : Memory)

/-! ## Steps -/

/-- The operations that the pool does for a vote, a set of attestors, a refused job or a tick. -/
def PoolOp.unprompted : PoolOp → Bool
  | noteIndexed .. | refill .. | noteDeliveryResult .. => false
  | noteVote .. | applyAttestorSet .. | requeueDelivery .. | pruneExpired _
  | collectReadyDeliveries _ | collectStalledReobservations _ => true

inductive FleetStep (config : FleetConfig) {codec : SourceCodec} (chain : SourceChain codec)
    (reported : Log → Prop) (watched : Watched) : Fleet → FleetEvent → Fleet → Prop where
  | boot {d : Disk} (routes : List RouteAttestors) (cache : VoteCacheConfig)
      (hr : ∀ r ∈ routes, config.sets r) :
      FleetStep config chain reported watched ⟨d, none⟩ (.relay .internal)
        ⟨d, some (.start routes cache)⟩
  /-- The process is gone, also within an operation on the store. -/
  | gone {d d' : Disk} {p : FleetProcess} {e : RelayEvent}
      (h : RelayStep config.ecrecover codec chain ⟨d, some p.relay⟩ e ⟨d', none⟩) :
      FleetStep config chain reported watched ⟨d, some p⟩ (.relay e) ⟨d', none⟩
  | watch {d d' : Disk} {p : FleetProcess} {relay : RelayProcess} {e : RelayEvent}
      (h : WatchStep chain reported watched (d, p.relay) e (d', relay)) :
      FleetStep config chain reported watched ⟨d, some p⟩ (.relay e) ⟨d', some { p with relay }⟩
  -- the pool
  | index {d : Disk} {p : FleetProcess} {message : IndexedMessage} {indexed : List IndexedMessage}
      {handed : List DeliveryJob} (insertedAt now : Instant) (ht : p.relay.task = .idle)
      (hi : p.relay.indexed = message :: indexed) (hc : p.relay.pool.canIndex message = true)
      (hh : handed.Subperm
        ((PoolOp.noteIndexed message insertedAt now).apply config.ecrecover p.relay.pool).2) :
      FleetStep config chain reported watched ⟨d, some p⟩ (.relay .internal)
        ⟨d, some (p.hand { p.relay with
          indexed
          pool := ((PoolOp.noteIndexed message insertedAt now).apply config.ecrecover
            p.relay.pool).1 } handed)⟩
  | full {d : Disk} {p : FleetProcess} {message : IndexedMessage} {indexed : List IndexedMessage}
      (ht : p.relay.task = .idle) (hi : p.relay.indexed = message :: indexed)
      (hc : p.relay.pool.canIndex message = false) :
      FleetStep config chain reported watched ⟨d, some p⟩ (.relay .internal)
        ⟨d, some { p with relay := { p.relay with indexed } }⟩
  | operate {d : Disk} {p : FleetProcess} {handed : List DeliveryJob} (op : PoolOp)
      (ht : p.relay.task = .idle) (ho : op.unprompted = true) (hs : op.Supplied config.sets)
      (hh : handed.Subperm (op.apply config.ecrecover p.relay.pool).2) :
      FleetStep config chain reported watched ⟨d, some p⟩ (.relay .internal)
        ⟨d, some (p.hand { p.relay with pool := (op.apply config.ecrecover p.relay.pool).1 } handed)⟩
  | noted {d : Disk} {p : FleetProcess} {result : DeliveryResult} {results : List DeliveryResult}
      (now later : Instant) (wall : Option Nat) (ht : p.relay.task = .idle)
      (hr : p.results = result :: results) (hf : result.outcome.final = false) :
      FleetStep config chain reported watched ⟨d, some p⟩ (.relay .internal)
        ⟨d, some { p with
          results
          relay := { p.relay with
            pool := p.relay.pool.noteDeliveryResult result now later wall } }⟩
  | complete {d : Disk} {p : FleetProcess} {result : DeliveryResult} {results : List DeliveryResult}
      (ht : p.relay.task = .idle) (hr : p.results = result :: results)
      (hf : result.outcome.final = true) :
      FleetStep config chain reported watched ⟨d, some p⟩ (.relay .internal)
        ⟨d, some { p with results, relay := { p.relay with task := .completing result } }⟩
  | completed {d d' : Disk} {p : FleetProcess} {result : DeliveryResult} {readers : Readers}
      (now later : Instant) (wall : Option Nat) (ht : p.relay.task = .completing result)
      (h : storeEnv (trueDisk (some result)) (p.relay.readers, d)
        (.complete result.chainKey result.messageId) (.ok ()) (readers, d')) :
      FleetStep config chain reported watched ⟨d, some p⟩
        (.relay (.completing result.chainKey result.messageId))
        ⟨d', some { p with relay := { p.relay with
          readers, task := .idle
          pool := p.relay.pool.noteDeliveryResult result now later wall } }⟩
  | refill {d : Disk} {p : FleetProcess} (now : Instant) (clock : B256 → Instant × Instant)
      (ht : p.relay.task = .idle) :
      FleetStep config chain reported watched ⟨d, some p⟩ (.relay .internal)
        ⟨d, some { p with relay := { p.relay with
          task := .refilling (p.relay.pool.refill now clock) } }⟩
  | refillAsk {d d' : Disk} {p : FleetProcess} {c : WorkCall}
      {k : c.Answer → WorkProg (State × Except Error (List DeliveryJob))} {a : c.Answer}
      {readers : Readers} (ht : p.relay.task = .refilling (.ask c k))
      (h : storeEnv (trueDisk none) (p.relay.readers, d) c a (readers, d')) :
      FleetStep config chain reported watched ⟨d, some p⟩ (.relay .internal)
        ⟨d', some { p with relay := { p.relay with readers, task := .refilling (k a) } }⟩
  | refilled {d : Disk} {p : FleetProcess} {pool : State} {jobs handed : List DeliveryJob}
      (ht : p.relay.task = .refilling (.ret (pool, .ok jobs))) (hh : handed.Subperm jobs) :
      FleetStep config chain reported watched ⟨d, some p⟩ (.relay .internal)
        ⟨d, some (p.hand { p.relay with pool, task := .idle } handed)⟩
  -- the workers
  | take {d : Disk} {p : FleetProcess} {chainKey : ChainKey} {job : DeliveryJob}
      {queue : List DeliveryJob} (funding : MessageFunding) (topUp : Bool)
      (hw : p.workers chainKey = none) (hl : p.lanes chainKey = job :: queue) :
      FleetStep config chain reported watched ⟨d, some p⟩ (.taken job)
        ⟨d, some { p.withWorker chainKey (some (⟨job, funding, p.memories chainKey, []⟩,
            (handleJob config.inbox true (config.routes chainKey) job config.delivery funding
              topUp).run (p.memories chainKey))) with
          lanes := fun c => if c = chainKey then queue else p.lanes c }⟩
  | answer {d : Disk} {p : FleetProcess} {chainKey : ChainKey} {run : JobRun} {c : DeliveryCall}
      {k : c.Answer → JobRest} (a : c.Answer) (hw : p.workers chainKey = some (run, .ask c k)) :
      FleetStep config chain reported watched ⟨d, some p⟩ (.asked run.job c)
        ⟨d, some (p.withWorker chainKey
          (some ({ run with said := run.said ++ [⟨c, a⟩] }, k a)))⟩
  | finish {d : Disk} {p : FleetProcess} {chainKey : ChainKey} {run : JobRun}
      {outcome : DeliveryResultKind} {memory : Memory}
      (hw : p.workers chainKey = some (run, .ret (outcome, memory))) :
      FleetStep config chain reported watched ⟨d, some p⟩ (.finished run outcome memory)
        ⟨d, some { p.withWorker chainKey none with
          memories := fun c => if c = chainKey then memory else p.memories c
          results := p.results ++ [⟨run.job.chainKey, run.job.messageId, outcome⟩] }⟩

section
variable {config : FleetConfig} {codec : SourceCodec} {chain : SourceChain codec}
  {reported : Log → Prop} {watched : Watched} {s t : Fleet}

theorem PoolOp.unprompted_inMemory {op : PoolOp} (h : op.unprompted = true) : op.inMemory = true := by
  cases op <;> first | rfl | cases h

/-- What an event is to the relayer without its workers. -/
def FleetEvent.relayed : FleetEvent → List RelayEvent
  | relay e => [e]
  | taken _ | asked .. | finished .. => []

/-- What the relayer keeps of messages moves as in `RelayStep`, and the workers leave it alone. -/
theorem FleetStep.relay {e : FleetEvent} (h : FleetStep config chain reported watched s e t) :
    Run (RelayStep config.ecrecover codec chain) s.relay e.relayed t.relay := by
  cases h with
  | boot routes cache => exact .single (.boot routes cache)
  | gone h => exact .single h
  | watch h => exact .single (h.relay config.ecrecover).1
  | index insertedAt now ht hi hc => exact .single (.index insertedAt now ht hi hc)
  | full ht hi hc => exact .single (.full ht hi hc)
  | operate op ht ho => exact .single (.operate op ht (PoolOp.unprompted_inMemory ho))
  | @noted d p result results now later wall ht hr hf =>
    have hm : PoolOp.inMemory (.noteDeliveryResult result now later wall) = true := by
      simp [PoolOp.inMemory, hf]
    exact .single (.operate (.noteDeliveryResult _ now later wall) ht hm)
  | complete ht hr hf => exact .single (.complete _ ht hf)
  | completed now later wall ht h => exact .single (.completed now later wall ht h)
  | refill now clock ht => exact .single (.refill now clock ht)
  | refillAsk ht h => exact .single (.refillAsk ht h)
  | refilled ht => exact .single (.refilled ht)
  | take | answer | finish => exact .nil

/-- While every log that is found has the content of the copies of its message, all copies of a message
agree, whatever the workers do meanwhile. -/
theorem fleet_settled {d : Disk} {l : List FleetEvent}
    (h : Run (fun s e t => FleetStep config chain reported watched s e t ∧
      ∀ r ∈ e.relayed, s.relay.Agrees r) ⟨d, none⟩ l t) : Settled t.relay := by
  have hr : Run (AgreeingStep config.ecrecover codec chain) ⟨d, none⟩ (l.flatMap FleetEvent.relayed)
      t.relay := by
    refine h.simulate Fleet.relay FleetEvent.relayed fun s e t he => ?_
    have hrelay := he.1.relay
    cases e with
    | relay r => exact .single ⟨hrelay.of_single, he.2 r List.mem_cons_self⟩
    | taken | asked | finished =>
      rw [hrelay.eq_of_nil]
      exact .nil
  exact hr.inv (fun _ _ _ => AgreeingStep.settled) (.start d)

end

/-- A relayer of the route of the demo chain, with the Inbox `inbox`. -/
def demoFleet (inbox : InboxCodec) : FleetConfig where
  ecrecover := fun _ _ => .ok 9
  inbox := inbox
  routes := fun _ => demoRoute
  delivery := ⟨true, 3⟩
  sets := fun set => set = sampleRoute

def twoLogReported (log : Log) : Prop := log = firstLog ∨ log = secondLog

def demoWatched : Watched := ⟨fun chainKey => { demoSource with chainKey }, fun _ => rfl⟩

abbrev DemoFleetStep (inbox : InboxCodec) :=
  FleetStep (demoFleet inbox) twoLogChain twoLogReported demoWatched

end MessageRelayer

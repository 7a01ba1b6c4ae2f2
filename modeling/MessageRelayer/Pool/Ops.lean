import MessageRelayer.Lib.Runs
import MessageRelayer.Pool.State
import MessageRelayer.Work.Store

/-!
# The operations of the vote pool

`State::refill`, which trades stalled slots for unfinished messages of the
durable store, as a program over the calls it makes on the store; and the
operations of the pool as one type (`PoolOp`), each with the states and jobs
it may lead to (`PoolStep`).
-/

namespace MessageRelayer

open Prog

/-! ## Refill -/

/-- The slots that `refill` may rotate out, in insertion order. -/
def RouteState.candidates (route : RouteState) (now : Instant) : List B256 :=
  (route.order.filter fun id => route.byMessage[id]?.any fun slot =>
    !slot.inFlight && !slot.delivered && !slot.terminal &&
      decide (workingSetResidence ≤ now - slot.insertedAt)).take (max (route.cacheMax / 4) 1)

/-- Record the slots that are about to leave memory once more. -/
def RouteState.reaffirm (route : RouteState) : List B256 → WorkProg (Except Error Unit)
  | [] => pure (.ok ())
  | id :: ids =>
    match route.byMessage[id]? with
    | none => reaffirm route ids
    | some slot => do
      match ← workRecord slot.indexed with
      | .error e => pure (.error e)
      | .ok () => reaffirm route ids

/-- `note_indexed` of several messages in turn; `clock` has the two readings for each. -/
def State.noteEach (clock : B256 → Instant × Instant) :
    List IndexedMessage → State → State × List DeliveryJob
  | [], s => (s, [])
  | indexed :: rest, s =>
    let times := clock indexed.messageId
    let (s, job) := s.noteIndexed indexed times.1 times.2
    let (s, jobs) := noteEach clock rest s
    (s, job.toList ++ jobs)

/-- The working set without the rotated slots. -/
def RouteState.rotate (route : RouteState) (ids : List B256) : RouteState :=
  ids.foldl RouteState.forget route

/-- `refill` of one route; with an error, the state is the one it was left in. -/
def State.refillRoute (now : Instant) (clock : B256 → Instant × Instant) (s : State)
    (chainKey : ChainKey) : WorkProg (State × Except Error (List DeliveryJob)) :=
  match s.byRoute[chainKey]? with
  | none => pure (s, .ok [])
  | some route => do
    let capacity := route.cacheMax - route.byMessage.size
    let candidates := route.candidates now
    match ← workPending chainKey route.byMessage.keys (capacity + candidates.length) with
    | .error e => pure (s, .error e)
    | .ok pending =>
      let replaced := candidates.take (pending.length - capacity)
      match ← route.reaffirm replaced with
      | .error e => pure (s, .error e)
      | .ok () =>
        let (s, jobs) := State.noteEach clock pending
          (s.onRoute chainKey () fun route => (route.rotate replaced, ())).1
        pure (s, .ok jobs)

def State.refillRoutes (now : Instant) (clock : B256 → Instant × Instant) :
    List ChainKey → State → WorkProg (State × Except Error (List DeliveryJob))
  | [], s => pure (s, .ok [])
  | chainKey :: chainKeys, s => do
    match ← s.refillRoute now clock chainKey with
    | (s, .error e) => pure (s, .error e)
    | (s, .ok jobs) =>
      let (s, r) ← refillRoutes now clock chainKeys s
      pure (s, r.map (jobs ++ ·))

/-- Load unfinished messages into the working set, over slots that stalled in it. -/
def State.refill (s : State) (now : Instant) (clock : B256 → Instant × Instant) :
    WorkProg (State × Except Error (List DeliveryJob)) :=
  s.refillRoutes now clock s.byRoute.keys

/-! ## Steps -/

/-- An operation of the pool, with the readings of the clock that it makes. -/
inductive PoolOp where
  | noteIndexed (indexed : IndexedMessage) (insertedAt now : Instant)
  | noteVote (vote : MessageVote) (now : Instant)
  | applyAttestorSet (update : RouteAttestors) (now : B256 → Instant)
  | noteDeliveryResult (result : DeliveryResult) (now later : Instant) (wall : Option Nat)
  | requeueDelivery (chainKey : ChainKey) (messageId : B256) (now : Instant)
  | pruneExpired (now : Instant)
  | refill (now : Instant) (clock : B256 → Instant × Instant)
  | collectReadyDeliveries (now : Instant)
  | collectStalledReobservations (now : Instant)

/-- What the loop does with the store when it receives a result. -/
def completeFinal (result : DeliveryResult) : WorkProg (Except Error Unit) :=
  if result.outcome.final then workComplete result.chainKey result.messageId else pure (.ok ())

/-- A store that may answer anything. -/
def anyStore : Env WorkCall WorkCall.Answer Unit := fun _ _ _ _ => True

/-- What an operation other than `refill` makes of the state, and the jobs it returns. -/
def PoolOp.apply (ecrecover : Ecrecover) (s : State) : PoolOp → State × List DeliveryJob
  | noteIndexed indexed insertedAt now =>
    let (s, job) := s.noteIndexed indexed insertedAt now
    (s, job.toList)
  | noteVote vote now =>
    let (s, job) := s.noteVote ecrecover vote now
    (s, job.toList)
  | applyAttestorSet update now => s.applyAttestorSet update now
  | noteDeliveryResult result now later wall => (s.noteDeliveryResult result now later wall, [])
  | requeueDelivery chainKey messageId now => (s.requeueDelivery chainKey messageId now, [])
  | pruneExpired now => (s.pruneExpired now, [])
  | refill _ _ => (s, [])
  | collectReadyDeliveries now => s.collectReadyDeliveries now
  | collectStalledReobservations now => ((s.collectStalledReobservations now).1, [])

/-- The jobs and the state that an operation may lead to. -/
inductive PoolStep (ecrecover : Ecrecover) : State → PoolOp × List DeliveryJob → State → Prop where
  | apply {s : State} {op : PoolOp} (h : ∀ now clock, op ≠ .refill now clock) :
      PoolStep ecrecover s (op, (op.apply ecrecover s).2) (op.apply ecrecover s).1
  /-- The store may answer anything; a failed refill returns no jobs. -/
  | refill {s s' : State} {now : Instant} {clock : B256 → Instant × Instant}
      {r : Except Error (List DeliveryJob)} (h : Exec anyStore (s.refill now clock) () () (s', r)) :
      PoolStep ecrecover s (.refill now clock, r.toOption.getD []) s'

end MessageRelayer

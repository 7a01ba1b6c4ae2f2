import MessageRelayer.Delivery.Job

/-!
# The state of the vote pool

The working set of the pool (`pool::State`, `RouteState`, `MessageSlot`) and
its operations, in the source's order and under its names. The pool is one
task: its operations are functions of the state. A reading of the clock is an
argument; an operation that reads it once per message takes a function of the
message.

The source keeps its tables in hash maps. Here they are `Map`s, walked in the
order of their keys; where the order can be observed (the jobs that one
operation returns), the pool's loop allows every order.
-/

namespace MessageRelayer

/-! ## Constants -/

def reobsStallAfter : Duration := fromSecs 60
def reobsRepeatEvery : Duration := fromSecs 60
def workingSetResidence : Duration := fromSecs (5 * 60)
def deliveryRetryBase : Nat := 30
def deliveryRetryMax : Nat := 5 * 60
def deliveryChannelFullRequeueDelay : Duration := fromSecs 2

/-- The backoff after a delivery that failed transiently. -/
def deliveryRetryDelay (attempts : Nat) : Duration :=
  fromSecs (min (satMul64 deliveryRetryBase (2 ^ min (attempts - 1) 4)) deliveryRetryMax)

/-! ## The signer of a vote -/

/-- secp256k1's half-order, most significant byte first. -/
def secp256k1HalfOrderBe : Bytes := [
  0x7F, 0xFF, 0xFF, 0xFF, 0xFF, 0xFF, 0xFF, 0xFF, 0xFF, 0xFF, 0xFF, 0xFF, 0xFF, 0xFF, 0xFF, 0xFF,
  0x5D, 0x57, 0x6E, 0x73, 0x57, 0xA4, 0x50, 0x1D, 0xDF, 0xE9, 0x2F, 0x46, 0x68, 0x1B, 0x20, 0xA0]

/-- Recovery of the signer of a digest, by the library; its errors carry the source's context. -/
abbrev Ecrecover := B256 → RawSignature → Except String Address

def sigV (raw : RawSignature) : Byte := raw[64]

def sigS (raw : RawSignature) : Nat := beNat ((raw.toList.drop 32).take 32)

/-- The signer of `hash`, if the signature is one that the `EOAValidator` contract accepts. -/
def recoverSigner (ecrecover : Ecrecover) (hash : B256) (raw : RawSignature) :
    Except String Address :=
  if sigV raw ≠ 27 ∧ sigV raw ≠ 28 then
    .error s!"non-canonical signature: v={sigV raw} (only 27/28 accepted)"
  else if sigS raw > beNat secp256k1HalfOrderBe then
    .error "non-canonical signature: high-s value rejected (EIP-2)"
  else ecrecover hash raw

/-! ## Slots, routes and the state -/

structure RouteAttestors where
  chainKey : ChainKey
  attestors : List Address
  threshold : Nat

structure VoteCacheConfig where
  ttlSeconds : Nat
  maxMessages : Nat

/-- Votes for a message that is not indexed yet, by recovered signer. -/
structure EarlyVotes where
  signers : Map Address RawSignature
  firstSeen : Instant

structure MessageSlot where
  indexed : IndexedMessage
  signers : Map Address RawSignature
  delivered : Bool
  terminal : Bool
  inFlight : Bool
  lastReconciledAt : Option Instant
  executionAccepted : Bool
  deliveryAttempts : Nat
  nextDeliveryAttemptAt : Option Instant
  insertedAt : Instant
  lastReobsRequest : Option Instant

/-- Delivered or terminal: nothing is left to do for the message. -/
def MessageSlot.resolved (slot : MessageSlot) : Bool := slot.delivered || slot.terminal

structure RouteState where
  attestors : List Address
  threshold : Nat
  byMessage : Map B256 MessageSlot
  /-- Insertion order. -/
  order : List B256
  cacheMax : Nat
  earlyVotes : Map B256 EarlyVotes

structure State where
  byRoute : Map ChainKey RouteState
  cache : VoteCacheConfig

def State.new (routes : List RouteAttestors) (cache : VoteCacheConfig) : State where
  byRoute := routes.foldl (fun m r => m.insert r.chainKey
    { attestors := r.attestors, threshold := r.threshold, byMessage := ∅, order := [],
      cacheMax := cache.maxMessages, earlyVotes := ∅ }) ∅
  cache := cache

/-- The slot of a message, if it is loaded. -/
def State.slot (s : State) (chainKey : ChainKey) (hash : B256) : Option MessageSlot :=
  s.byRoute[chainKey]?.bind fun route => route.byMessage[hash]?

/-- An operation on one route; nothing happens on a chain that is not configured. -/
def State.onRoute {α : Type} (s : State) (chainKey : ChainKey) (default : α)
    (f : RouteState → RouteState × α) : State × α :=
  match s.byRoute[chainKey]? with
  | none => (s, default)
  | some route => ({ s with byRoute := s.byRoute.insert chainKey (f route).1 }, (f route).2)

/-- An operation on one slot; nothing happens for a message that is not loaded. -/
def RouteState.onSlot (route : RouteState) (hash : B256) (f : MessageSlot → MessageSlot) :
    RouteState :=
  { route with byMessage := route.byMessage.modify hash f }

/-! ## Dispatch -/

/-- The job of a slot (its attempt already counted), and the slot with the job in flight. -/
def MessageSlot.dispatch (slot : MessageSlot) (chainKey : ChainKey) (hasQuorum : Bool) :
    MessageSlot × DeliveryJob :=
  let signatures := slot.signers.vals
  ({ slot with
      inFlight := true
      deliveryAttempts := satAdd32 slot.deliveryAttempts 1
      nextDeliveryAttemptAt := none },
   { chainKey
     messageId := slot.indexed.messageId
     emitter := slot.indexed.emitter
     outbox := slot.indexed.outbox
     sequence := slot.indexed.sequence
     payload := slot.indexed.payload
     votesCalldata := encodeVotes signatures
     signerCount := signatures.length
     indexedAt := slot.insertedAt
     reconcileOnly := slot.executionAccepted || !hasQuorum })

def MessageSlot.hasQuorum (slot : MessageSlot) (threshold : Nat) : Bool :=
  decide (0 < threshold) && decide (threshold ≤ slot.signers.size)

def MessageSlot.canReconcile (slot : MessageSlot) (now : Instant) (allowProbe : Bool) : Bool :=
  slot.executionAccepted || (allowProbe &&
    slot.lastReconciledAt.all fun last => decide (fromSecs deliveryRetryMax ≤ now - last))

/-- Whether `dispatch_if_ready` dispatches the slot. -/
def MessageSlot.ready (slot : MessageSlot) (threshold : Nat) (now : Instant) (allowProbe : Bool) :
    Bool :=
  !(slot.delivered || slot.terminal || slot.inFlight ||
    (!slot.hasQuorum threshold && !slot.canReconcile now allowProbe)) &&
  !slot.nextDeliveryAttemptAt.any fun next => decide (now < next)

def RouteState.dispatchIfReady (chainKey : ChainKey) (hash : B256) (route : RouteState)
    (now : Instant) (allowProbe : Bool) : RouteState × Option DeliveryJob :=
  match route.byMessage[hash]? with
  | none => (route, none)
  | some slot =>
    if slot.ready route.threshold now allowProbe then
      let (slot, job) := slot.dispatch chainKey (slot.hasQuorum route.threshold)
      ({ route with byMessage := route.byMessage.insert hash slot }, some job)
    else (route, none)

/-- `dispatch_if_ready` of several messages in turn, with the jobs that it returns. -/
def RouteState.dispatchEach (chainKey : ChainKey) (now : B256 → Instant) (allowProbe : Bool) :
    List B256 → RouteState → RouteState × List DeliveryJob
  | [], route => (route, [])
  | hash :: hashes, route =>
    let (route, job) := route.dispatchIfReady chainKey hash (now hash) allowProbe
    let (route, jobs) := dispatchEach chainKey now allowProbe hashes route
    (route, job.toList ++ jobs)

/-! ## Room in the working set -/

/-- One resolved slot that `make_room` may reuse. -/
def RouteState.victim (route : RouteState) : Option B256 :=
  route.order.find? fun hash => route.byMessage[hash]?.any MessageSlot.resolved

def RouteState.forget (route : RouteState) (hash : B256) : RouteState :=
  { route with
    order := route.order.filter (· ≠ hash)
    byMessage := route.byMessage.erase hash }

/-- The loop of `make_room`; every round shortens `order`. -/
def RouteState.makeRoomLoop : Nat → RouteState → RouteState × Bool
  | fuel, route =>
    if route.byMessage.size < route.cacheMax then (route, true)
    else match route.victim, fuel with
      | some hash, fuel + 1 => makeRoomLoop fuel (route.forget hash)
      | _, _ => (route, false)

/-- Reuse resolved slots until there is room for one more message. -/
def RouteState.makeRoom (route : RouteState) : RouteState × Bool :=
  makeRoomLoop route.order.length route

/-- The early votes first seen earliest (of the least hash, if there are several). -/
def RouteState.oldestEarly (route : RouteState) : Option B256 :=
  (route.earlyVotes.toList.foldl (fun best (kv : B256 × EarlyVotes) =>
    match best with
    | none => some kv
    | some b => if kv.2.firstSeen < b.2.firstSeen then some kv else some b) none).map (·.1)

/-- The loop of `evict_early_overflow`; every round removes one entry. -/
def RouteState.evictEarlyLoop : Nat → RouteState → RouteState
  | 0, route => route
  | fuel + 1, route =>
    if route.earlyVotes.size > route.cacheMax then
      match route.oldestEarly with
      | none => route
      | some hash => evictEarlyLoop fuel { route with earlyVotes := route.earlyVotes.erase hash }
    else route

def RouteState.evictEarlyOverflow (route : RouteState) : RouteState :=
  evictEarlyLoop route.earlyVotes.size route

/-! ## Votes -/

section
variable (ecrecover : Ecrecover)

/-- The signer of a vote, if its claimed signer is one of the attestors and did sign. -/
def RouteState.voter (route : RouteState) (hash : B256) (vote : MessageVote) : Option Address :=
  if !route.attestors.contains vote.signer then none
  else match recoverSigner ecrecover hash vote.signature with
    | .error _ => none
    | .ok recovered => if recovered ≠ vote.signer then none else some recovered

def RouteState.bufferEarlyVote (route : RouteState) (hash : B256) (vote : MessageVote)
    (now : Instant) : RouteState :=
  match route.voter ecrecover hash vote with
  | none => route
  | some recovered =>
    let entry := route.earlyVotes[hash]?.getD { signers := ∅, firstSeen := now }
    let entry := { entry with signers := entry.signers.insert recovered vote.signature }
    { route with earlyVotes := route.earlyVotes.insert hash entry }.evictEarlyOverflow

def RouteState.noteVote (chainKey : ChainKey) (route : RouteState) (vote : MessageVote)
    (now : Instant) : RouteState × Option DeliveryJob :=
  let hash := vote.messageId
  match route.byMessage[hash]? with
  | none => (route.bufferEarlyVote ecrecover hash vote now, none)
  | some slot =>
    if slot.delivered || slot.terminal then (route, none)
    else match route.voter ecrecover hash vote with
      | none => (route, none)
      | some recovered =>
        if slot.signers.contains recovered then (route, none)
        else
          let slot := { slot with signers := slot.signers.insert recovered vote.signature }
          let route := { route with byMessage := route.byMessage.insert hash slot }
          if slot.signers.size < route.threshold || slot.inFlight then (route, none)
          else route.dispatchIfReady chainKey hash now false

def State.noteVote (s : State) (vote : MessageVote) (now : Instant) :
    State × Option DeliveryJob :=
  s.onRoute vote.chainKey none fun route => route.noteVote ecrecover vote.chainKey vote now

end

/-! ## Indexed messages -/

def MessageSlot.new (indexed : IndexedMessage) (now : Instant) : MessageSlot where
  indexed := indexed
  signers := ∅
  delivered := false
  terminal := false
  inFlight := false
  lastReconciledAt := none
  executionAccepted := false
  deliveryAttempts := 0
  nextDeliveryAttemptAt := none
  insertedAt := now
  lastReobsRequest := none

/-- The votes kept of a bundle when the attestors may have changed since. -/
def keepMembers (attestors : List Address) (signers : Map Address RawSignature) :
    Map Address RawSignature :=
  signers.filter fun signer _ => attestors.contains signer

/-- The votes buffered for a message that was just indexed move to its slot. -/
def RouteState.adopt (route : RouteState) (hash : B256) (early : EarlyVotes) : RouteState :=
  { route.onSlot hash fun slot =>
      { slot with signers := keepMembers route.attestors early.signers } with
    earlyVotes := route.earlyVotes.erase hash }

def RouteState.noteIndexed (chainKey : ChainKey) (route : RouteState) (indexed : IndexedMessage)
    (insertedAt now : Instant) : RouteState × Option DeliveryJob :=
  let hash := indexed.messageId
  if route.byMessage.contains hash then (route, none)
  else
    let (route, room) := route.makeRoom
    if !room then (route, none)
    else
      let route := { route with
        byMessage := route.byMessage.insert hash (.new indexed insertedAt)
        order := route.order ++ [hash] }
      match route.earlyVotes[hash]? with
      | none => (route, none)
      | some early => (route.adopt hash early).dispatchIfReady chainKey hash now false

def State.noteIndexed (s : State) (indexed : IndexedMessage) (insertedAt now : Instant) :
    State × Option DeliveryJob :=
  s.onRoute indexed.chainKey none fun route =>
    route.noteIndexed indexed.chainKey indexed insertedAt now

def State.canIndex (s : State) (indexed : IndexedMessage) : Bool :=
  s.byRoute[indexed.chainKey]?.all fun route =>
    route.byMessage.contains indexed.messageId || decide (route.byMessage.size < route.cacheMax) ||
      route.byMessage.vals.any MessageSlot.resolved

/-! ## Attestor sets -/

def RouteState.applyAttestorSet (chainKey : ChainKey) (route : RouteState)
    (update : RouteAttestors) (now : B256 → Instant) : RouteState × List DeliveryJob :=
  let changed := route.attestors ≠ update.attestors ∨ route.threshold ≠ update.threshold
  let route := { route with attestors := update.attestors, threshold := update.threshold }
  if ¬changed then (route, [])
  else
    let route := { route with byMessage := route.byMessage.map fun _ (slot : MessageSlot) =>
      if slot.delivered || slot.terminal then slot
      else { slot with signers := keepMembers route.attestors slot.signers } }
    let ready := route.byMessage.toList.filter fun (_, (slot : MessageSlot)) =>
      !(slot.delivered || slot.terminal) &&
        !(slot.inFlight || decide (slot.signers.size < route.threshold))
    route.dispatchEach chainKey now false (ready.map (·.1))

def State.applyAttestorSet (s : State) (update : RouteAttestors) (now : B256 → Instant) :
    State × List DeliveryJob :=
  s.onRoute update.chainKey [] fun route => route.applyAttestorSet update.chainKey update now

/-! ## Results and requeued jobs -/

/-- The slot after a result; `now` and `later` are readings of the clock, `wall` is the wall
clock in seconds, if it is past the epoch. -/
def MessageSlot.noteDeliveryResult (slot : MessageSlot) (outcome : DeliveryResultKind)
    (now later : Instant) (wall : Option Nat) : MessageSlot :=
  let slot := { slot with inFlight := false }
  match outcome with
  | .delivered => { slot with delivered := true }
  | .terminal => { slot with terminal := true }
  | .awaitingVotes =>
    { slot with
      lastReconciledAt := some now
      executionAccepted := false
      nextDeliveryAttemptAt := none }
  | .awaitingExecution retryAfter =>
    let delay := pendingRetryDelay (slot.deliveryAttempts - 1) retryAfter wall
    { slot with
      lastReconciledAt := some now
      executionAccepted := true
      nextDeliveryAttemptAt := some (later + delay) }
  | .retryable =>
    { slot with nextDeliveryAttemptAt := some (now + deliveryRetryDelay slot.deliveryAttempts) }

def State.noteDeliveryResult (s : State) (result : DeliveryResult) (now later : Instant)
    (wall : Option Nat) : State :=
  (s.onRoute result.chainKey () fun route =>
    (route.onSlot result.messageId (·.noteDeliveryResult result.outcome now later wall), ())).1

/-- The slot of a job that could not be handed over; the attempt is not counted. -/
def MessageSlot.requeueDelivery (slot : MessageSlot) (now : Instant) : MessageSlot :=
  { slot with
    inFlight := false
    deliveryAttempts := slot.deliveryAttempts - 1
    nextDeliveryAttemptAt := some (now + deliveryChannelFullRequeueDelay) }

def State.requeueDelivery (s : State) (chainKey : ChainKey) (messageId : B256) (now : Instant) :
    State :=
  (s.onRoute chainKey () fun route => (route.onSlot messageId (·.requeueDelivery now), ())).1

/-! ## The prune tick -/

/-- An operation on every route in turn, with what it returns for each. -/
def State.eachRoute {α : Type} (f : ChainKey → RouteState → RouteState × List α) :
    List ChainKey → State → State × List α
  | [], s => (s, [])
  | chainKey :: chainKeys, s =>
    let (s, xs) := s.onRoute chainKey [] (f chainKey)
    let (s, ys) := eachRoute f chainKeys s
    (s, xs ++ ys)

def RouteState.pruneExpired (route : RouteState) (now : Instant) (ttl : Duration) : RouteState :=
  let byMessage := route.byMessage.filter fun _ slot =>
    !(slot.delivered || (slot.terminal && decide (ttl < now - slot.insertedAt)))
  { route with
    byMessage
    order := route.order.filter fun h => byMessage.contains h
    earlyVotes := route.earlyVotes.filter fun _ votes => decide (now - votes.firstSeen ≤ ttl) }

def State.pruneExpired (s : State) (now : Instant) : State :=
  let ttl := fromSecs s.cache.ttlSeconds
  (s.eachRoute (fun _ route => (route.pruneExpired now ttl, ([] : List Unit))) s.byRoute.keys).1

def State.collectReadyDeliveries (s : State) (now : Instant) : State × List DeliveryJob :=
  s.eachRoute (fun chainKey route =>
    route.dispatchEach chainKey (fun _ => now) true route.byMessage.keys) s.byRoute.keys

/-- Whether the attestors should be asked again for a message that is stuck below quorum. -/
def MessageSlot.stalled (slot : MessageSlot) (threshold : Nat) (now : Instant) : Bool :=
  !(slot.delivered || slot.terminal || slot.inFlight || slot.executionAccepted ||
    decide (threshold ≤ slot.signers.size)) &&
  !decide (now - slot.insertedAt < reobsStallAfter) &&
  !slot.lastReobsRequest.any fun t => decide (now - t < reobsRepeatEvery)

def RouteState.collectStalled (chainKey : ChainKey) (route : RouteState) (now : Instant) :
    RouteState × List ReobservationRequest :=
  let requests := route.byMessage.vals.filterMap fun slot =>
    if slot.stalled route.threshold now then some
      { chainKey, messageId := slot.indexed.messageId, txHash := slot.indexed.txHash,
        blockHeight := slot.indexed.blockHeight }
    else none
  ({ route with byMessage := route.byMessage.map fun _ (slot : MessageSlot) =>
      if slot.stalled route.threshold now then { slot with lastReobsRequest := some now }
      else slot }, requests)

def State.collectStalledReobservations (s : State) (now : Instant) :
    State × List ReobservationRequest :=
  s.eachRoute (fun chainKey route => route.collectStalled chainKey now) s.byRoute.keys

end MessageRelayer

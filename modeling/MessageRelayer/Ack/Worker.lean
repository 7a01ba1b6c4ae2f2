import MessageRelayer.Ack.History
import MessageRelayer.Ack.Settle
import MessageRelayer.Tracking

/-!
# The acknowledgment worker

`ack::run`: the worker scans the destination for the Inbox's delivery events
(`discoverDelivered`), tracks their transactions, and tries to settle those
that are due (`processPending`). A queue at its capacity does not evict: the
scan stops before the first block with a transaction that was not admitted.
The attempts of a batch run side by side; they are one question, whose answer
has them in the order in which they ended.
-/

namespace MessageRelayer.Ack

open Prog hiding ask

def maxPendingAcks : Nat := 10_000
def maxDoneTracked : Nat := 10_000
def maxAcksPerTick : Nat := 256
def maxBlocksPerScan : Nat := 2_000

/-! ## Delivery events -/

/-- The delivery events of the Inbox. -/
inductive DeliveryKind where
  | received
  | queued
  | deferred
  | executed
  deriving DecidableEq

def DeliveryKind.all : List DeliveryKind := [received, queued, deferred, executed]

/-- The ABI of the delivery events. -/
structure DeliveryCodec where
  signatureHash : DeliveryKind → B256
  /-- The message id of an event's log. -/
  decodeLog : DeliveryKind → List B256 → Bytes → Except String B256

/-- A delivery event with its transaction. -/
structure Delivery where
  txHash : B256
  block : Nat
  event : DeliveryEvent
  deriving DecidableEq

section
variable (codec : DeliveryCodec)

/-- The kind of a log by its first topic, with the message id; none for any other log. -/
def decodeDeliveryLog (log : Log) : Except String (Option (DeliveryKind × B256)) :=
  match log.topics.head?.bind fun sig => DeliveryKind.all.find? fun k => sig == codec.signatureHash k with
  | none => .ok none
  | some kind => (codec.decodeLog kind log.topics log.data).map fun id => some (kind, id)

/-- The deliveries of an answer; one log that is out of place spoils it. -/
def decodeLogs (inbox : Address) (fromBlock toBlock : Nat) : List Log → Except Error (List Delivery)
  | [] => .ok []
  | log :: logs =>
    if log.address ≠ inbox ∨ log.removed = true then
      .error ["delivery RPC returned a removed log or a different Inbox"]
    else match log.transactionHash, log.blockNumber with
      | none, _ => .error ["delivery log without transaction hash"]
      | some _, none => .error ["delivery log without block number"]
      | some txHash, some block =>
        if block < fromBlock ∨ toBlock < block then
          .error ["delivery RPC returned a log outside the requested range"]
        else match decodeDeliveryLog codec log with
          | .error e => .error ["decoding delivery log", e]
          | .ok none => decodeLogs inbox fromBlock toBlock logs
          | .ok (some (kind, messageId)) => do
            let rest ← decodeLogs inbox fromBlock toBlock logs
            pure ({ txHash, block, event := ⟨messageId, kind == .executed⟩ } :: rest)

end

/-! ## The questions of the worker -/

/-- An attempt that has ended, with what it heard. -/
structure AckAttempt where
  txHash : B256
  messages : List DeliveryEvent
  said : SettleSaid
  outcome : Except Error AckOutcome

inductive AckCall where
  | getBlockNumber
  /-- The delivery logs of the Inbox in a range of blocks. -/
  | getLogs (inbox : Address) (fromBlock toBlock : Nat)
  | now
  | iter (seen : Map B256 (PendingTx DeliveryEvent))
  | attempts (outboxes : FinSet Address) (batch : List (B256 × List DeliveryEvent))

abbrev AckCall.Answer : AckCall → Type
  | getBlockNumber => Except String Height
  | getLogs .. => Except String (List Log)
  | now => Instant
  | iter seen => Map.Iteration seen
  | attempts .. => List AckAttempt

abbrev AckProg := Prog AckCall AckCall.Answer

abbrev AckM := ExceptT Error AckProg

abbrev AckSaid := Said AckCall AckCall.Answer

def AckM.ask (c : AckCall) : AckM c.Answer := ExceptT.lift (call c)

/-- What the worker has in memory. -/
structure AckWorker where
  lastSeen : Nat
  pending : PendingTxs DeliveryEvent
  done : BoundedSeen

def AckWorker.new (lastSeen : Nat) : AckWorker where
  lastSeen := lastSeen
  pending := .new maxPendingAcks
  done := .new maxDoneTracked

/-! ## Discovery -/

/-- Track the transactions of deliveries; with the lowest block of one that did not fit. -/
def admitAll (done : BoundedSeen) : List Delivery → PendingTxs DeliveryEvent → Option Nat →
    AckProg (PendingTxs DeliveryEvent × Option Nat)
  | [], pending, firstUnadmitted => pure (pending, firstUnadmitted)
  | d :: deliveries, pending, firstUnadmitted =>
    if done.contains d.txHash then admitAll done deliveries pending firstUnadmitted
    else if pending.contains d.txHash then
      admitAll done deliveries (pending.noteMeta d.txHash d.event) firstUnadmitted
    else if pending.isFull then
      -- the rest may still have events of transactions that are tracked
      admitAll done deliveries pending (some (firstUnadmitted.elim d.block (min · d.block)))
    else do
      let now ← call AckCall.now
      let (pending, _) ←
        pending.insert (fun seen => call (AckCall.iter seen)) d.txHash now d.block [d.event]
      admitAll done deliveries pending firstUnadmitted

section
variable (codec : DeliveryCodec) (route : AckRoute)

/-- Scan for new delivery events and track their transactions. -/
def discoverDelivered (w : AckWorker) : AckM AckWorker := do
  let tip ← orThrow ((← AckM.ask .getBlockNumber).mapError ([·]))
  let confirmed := tip.val - route.confirmationDepth
  if confirmed ≤ w.lastSeen then pure w
  else
    let fromBlock := w.lastSeen + 1
    let toBlock := min confirmed (satAdd64 w.lastSeen maxBlocksPerScan)
    let answer ← AckM.ask (.getLogs route.inboxAddress fromBlock toBlock)
    let logs ← orThrow (answer.mapError fun e =>
      ["eth_getLogs MessageReceived/MessageQueued/MessageDeferred/MessageExecuted from " ++
        toString fromBlock ++ " to " ++ toString toBlock ++ " failed", e])
    let deliveries ← orThrow (decodeLogs codec route.inboxAddress fromBlock toBlock logs)
    let (pending, firstUnadmitted) ← ExceptT.lift (admitAll w.done deliveries w.pending none)
    pure { w with lastSeen := firstUnadmitted.elim toBlock (· - 1), pending }

/-- Where a worker starts to scan. -/
def resumeCursor (checkpoint : Option Nat) : AckM Nat :=
  match checkpoint, route.startBlock with
  | some block, _ => pure (block - route.scanLookbackBlocks)
  | none, some start => pure (start - 1)
  | none, none => do
    let tip ← AckM.ask .getBlockNumber
    let tip ← orThrow (tip.mapError fun e => ["chain_key " ++ toString route.chainKey ++
      ": ack submitter failed to read chain head", e])
    pure tip.val

/-- The cursor to persist. -/
def AckWorker.cursor (w : AckWorker) : Nat := w.pending.heldCursor w.lastSeen

end

/-! ## Attempts -/

/-- The transaction is finished. -/
def AckWorker.finish (w : AckWorker) (txHash : B256) : AckWorker :=
  { w with pending := w.pending.remove txHash, done := w.done.insert txHash }

section
variable (route : AckRoute)

/-- What an attempt's outcome does; with the transaction, if it is finished. None where the delay
before the next attempt panics. -/
def AckWorker.settle (w : AckWorker) (now : Instant) (a : AckAttempt) :
    Option (AckWorker × Option B256) :=
  match a.outcome with
  | .ok .acknowledged => some (w.finish a.txHash, some a.txHash)
  | .ok (.terminal _) => some (w.finish a.txHash, some a.txHash)
  | .ok (.notReady _) => do
    let waited := (w.pending.age a.txHash now).getD 0
    let retryIn ← route.notReadyPolicy.nextDelay waited
    some ({ w with pending := w.pending.defer a.txHash (now + retryIn) }, none)
  | .ok (.rejected _) =>
    some ({ w with pending := w.pending.defer a.txHash (now + transientBackoffMax) }, none)
  | .error _ => some ({ w with pending := w.pending.recordTransientFailure a.txHash now }, none)

def AckWorker.settleAll (now : Instant) : List AckAttempt → AckWorker → Option (AckWorker × List B256)
  | [], w => some (w, [])
  | a :: attempts, w => do
    let (w, finished) ← w.settle route now a
    let (w, more) ← settleAll now attempts w
    some (w, finished.toList ++ more)

/-- Try every transaction that is due; with those that are finished. -/
def processPending (outboxes : FinSet Address) (w : AckWorker) :
    AckProg (Option (AckWorker × List B256)) := do
  let now ← call AckCall.now
  let order ← call (AckCall.iter w.pending.seen)
  let batch := w.pending.ready maxAcksPerTick now order
  if batch.isEmpty then pure (some (w, []))
  else
    let attempts ← call (AckCall.attempts outboxes batch)
    let now ← call AckCall.now
    pure (w.settleAll route now attempts)

end

/-! ## The surroundings -/

section
variable (settle : SettleCodec) (route : AckRoute) (sourceChainId : Nat) (blockOf : B256 → Nat)

/-- What is relied on: a log carries the number of its transaction's block, and the attempts of a
batch are runs of `acknowledgeTx`. -/
def Faithful : (c : AckCall) → c.Answer → Prop
  | .getLogs .., .ok logs => ∀ log ∈ logs, ∀ tx b, log.transactionHash = some tx →
      log.blockNumber = some b → blockOf tx = b
  | .attempts outboxes batch, attempts =>
      (attempts.map fun a => (a.txHash, a.messages)).Perm batch ∧ ∀ a ∈ attempts, Exec heard
        (acknowledgeTx settle route sourceChainId outboxes a.messages a.txHash).run [] a.said a.outcome
  | .getBlockNumber, _ | .getLogs .., .error _ | .now, _ | .iter _, _ => True

/-- Surroundings that answer truthfully, and what they said. -/
def ackEnv : Env AckCall AckCall.Answer AckSaid :=
  fun said c a said' => said' = said ++ [⟨c, a⟩] ∧ Faithful settle route sourceChainId blockOf c a

end

end MessageRelayer.Ack

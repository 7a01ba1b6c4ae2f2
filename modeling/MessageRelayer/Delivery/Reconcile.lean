import MessageRelayer.Delivery.FailedRetry
import MessageRelayer.Delivery.Job
import MessageRelayer.Delivery.Revert

/-!
# Reconciling an accepted message

`delivery::reconcile_execution`: one supervised attempt at the execution of a
message that the Inbox has accepted. The Inbox says whether the message was
executed, waits for its dispatcher (`retryPendingMessage`) or failed at its
destination (`retryFailedMessage`, which the ledger of failed retries bounds).
Every call on the node may fail or run into its timeout (`Reply`).
-/

namespace MessageRelayer

open Prog hiding ask

/-! ## The questions of a delivery worker -/

/-- The answer of a contract call under its timeout. -/
inductive Reply (α : Type) where
  | elapsed
  | failed (err : CallError)
  | done (answer : α)

/-- The end of a broadcast under the signer's lock. -/
inductive Broadcast where
  /-- No slot, or no answer in time; the transaction may have reached the node. -/
  | stalled
  | failed (err : CallError)
  | sent (txHash : B256)

/-- A `deliverMessage` transaction. -/
structure DeliverTx where
  messageId : B256
  outbox : Address
  emitter : Address
  sequence : Nat
  payload : Bytes
  votes : Bytes
  value : Nat
  gas : Option Nat
  deriving DecidableEq

inductive DeliveryCall where
  /-- `now_unix`. -/
  | now
  | blockNumber
  /-- At the latest block, or at the given one. -/
  | processedAt (id : B256) (block : Option Nat)
  | isPending (id : B256)
  | isRetryable (id : B256)
  /-- `retryPendingMessage`, or else `retryFailedMessage`. -/
  | estimateRetry (pending : Bool) (id : B256)
  | callRetry (pending : Bool) (id : B256) (gas : Nat) (block : Option Nat)
  | sendRetry (pending : Bool) (id : B256) (gas : Nat)
  /-- `deliverMessage` as a call, from the signer or from nobody. -/
  | callDeliver (tx : DeliverTx) (signed : Bool) (block : Option Nat)
  | estimateDeliver (tx : DeliverTx)
  | sendDeliver (tx : DeliverTx)
  | awaitReceipt (txHash : B256)
  | sleep (duration : Duration)
  /-- The detached request for more funded gas. -/
  | requestTopUp (id : B256) (additionalGas : Nat)
  | sidecar (c : SidecarCall)

abbrev DeliveryCall.Answer : DeliveryCall → Type
  | now => Option Nat
  | blockNumber | processedAt .. | estimateRetry .. | estimateDeliver _ => Reply Nat
  | isPending _ | isRetryable _ | callDeliver .. => Reply Bool
  | callRetry .. => Reply Unit
  | sendRetry .. | sendDeliver _ => Broadcast
  | awaitReceipt _ => Reply Receipt
  | sleep _ | requestTopUp .. => Unit
  | sidecar c => c.Answer

abbrev DeliveryProg := Prog DeliveryCall DeliveryCall.Answer

/-- A job of the worker, on the ledger's copy in memory. -/
abbrev DeliveryM := StateT Memory DeliveryProg

namespace DeliveryM

def ask (c : DeliveryCall) : DeliveryM c.Answer := StateT.lift (call c)

/-- An operation of the ledger. -/
def ledger {α : Type} (m : LedgerM α) : DeliveryM α :=
  fun memory => (m.run memory).embed DeliveryCall.sidecar fun _ a => a

/-- `now_unix().unwrap_or_default()`. -/
def nowUnix : DeliveryM Nat := do
  return (← ask .now).getD 0

section
variable {W : Type} {H : Env DeliveryCall DeliveryCall.Answer W} (memory : Memory) (w : W)

@[simp] theorem wp_deliveryAsk (c : DeliveryCall) (Q : W → c.Answer × Memory → Prop) :
    wp (α := no_index (c.Answer × Memory)) H (StateT.run (α := no_index c.Answer) (ask c) memory) w Q ↔
      ∀ a w', H w c a w' → Q w' (a, memory) := Iff.rfl

@[simp] theorem wp_nowUnix (Q : W → Nat × Memory → Prop) :
    wp H (nowUnix.run memory) w Q ↔ ∀ now w', H w .now now w' → Q w' (now.getD 0, memory) := Iff.rfl

/-- The surroundings, as the ledger sees them. -/
def sidecarOf (H : Env DeliveryCall DeliveryCall.Answer W) : Env SidecarCall SidecarCall.Answer W :=
  Env.pull H DeliveryCall.sidecar fun _ a => a

theorem sidecarOf_iff {c : SidecarCall} {a : c.Answer} {w' : W} :
    sidecarOf H w c a w' ↔ H w (.sidecar c) a w' :=
  ⟨fun ⟨_, ha, e⟩ => e ▸ ha, fun h => ⟨a, h, rfl⟩⟩

@[simp] theorem wp_ledger {α : Type} (m : LedgerM α) (Q : W → α × Memory → Prop) :
    wp H ((ledger m).run memory) w Q ↔ wp (sidecarOf H) (m.run memory) w Q := wp_embed

end

end DeliveryM

open DeliveryM

/-- What the worker reads of its route (`config::ChainRoute`). -/
structure DeliveryRoute where
  chainKey : ChainKey
  inboxAddress : Address
  blockConfirmationDepth : Nat
  maxNativeCoinValueWei : Nat
  maxGasLimit : Nat
  failedRetry : FailedRetryPolicy

/-! ## What the Inbox says -/

inductive ExecutionState where
  | executed
  | confirming
  | pending
  | failed
  | unaccepted
  deriving DecidableEq

/-- Why reading the state ended early. -/
inductive Interrupted where
  | elapsed
  | failed (err : CallError)

/-- A program that a call may end early, under one timeout. -/
abbrev ReadM := ExceptT Interrupted DeliveryProg

def orInterrupt {α : Type} : Reply α → ReadM α
  | .elapsed => throw .elapsed
  | .failed err => throw (.failed err)
  | .done a => pure a

def readCall (c : DeliveryCall) : ReadM c.Answer := ExceptT.lift (call c)

section
variable {W : Type} {H : Env DeliveryCall DeliveryCall.Answer W} (w : W)

@[simp] theorem wp_orInterrupt {α : Type} (r : Reply α) (Q : W → Except Interrupted α → Prop) :
    wp H (orInterrupt r).run w Q ↔
      match r with
      | .elapsed => Q w (.error .elapsed)
      | .failed err => Q w (.error (.failed err))
      | .done a => Q w (.ok a) := by cases r <;> exact Iff.rfl

@[simp] theorem wp_readCall (c : DeliveryCall) (Q : W → Except Interrupted c.Answer → Prop) :
    wp (α := no_index (Except Interrupted c.Answer)) H
        (ExceptT.run (α := no_index c.Answer) (readCall c)) w Q ↔
      ∀ a w', H w c a w' → Q w' (.ok a) := wp_run_lift H (call c) w Q

end

/-- Whether the Inbox executed the message at the route's confirmation depth, and if not, what it
waits for. -/
def executionState (route : DeliveryRoute) (id : B256) : ReadM ExecutionState := do
  let processedAt ← orInterrupt (← readCall (.processedAt id none))
  if processedAt ≠ 0 then
    if 0 < route.blockConfirmationDepth then
      let tip ← orInterrupt (← readCall .blockNumber)
      let confirmed := tip - route.blockConfirmationDepth
      if confirmed < processedAt then return .confirming
      else
        -- the reads above can straddle a reorganization
        let confirmedAt ← orInterrupt (← readCall (.processedAt id (some confirmed)))
        return if confirmedAt = 0 then .confirming else .executed
    else return .executed
  else if ← orInterrupt (← readCall (.isPending id)) then return .pending
  else if ← orInterrupt (← readCall (.isRetryable id)) then return .failed
  else return .unaccepted

/-! ## Giving up -/

/-- Retain the work, for the pool to try again. -/
abbrev awaiting (retryAfter : Option Nat) : DeliveryResultKind := .awaitingExecution retryAfter

section
variable (codec : InboxCodec) (work : Bool) (route : DeliveryRoute) (id : B256)

def giveUpFailedRetries (state : FailedRetryState) : DeliveryM DeliveryResultKind := do
  if state.gaveUpAt.isSome then return .terminal
  else
    let now ← nowUnix
    let _ ← ledger (FailedRetries.giveUp work id state now)
    return .terminal

/-- A retry was spent and the destination is, or may be, still failing. -/
def afterFailedRetry (spent : FailedRetryState) (retryDeferred : Option Nat) :
    DeliveryM DeliveryResultKind := do
  if route.failedRetry.maxAttempts ≤ spent.attempts then giveUpFailedRetries work id spent
  else return awaiting (some (retryDeferred.elim spent.nextAttemptAt (max · spent.nextAttemptAt)))

/-- The destination call failed for the first time. -/
def startFailedRetries : DeliveryM DeliveryResultKind := do
  let now ← nowUnix
  let state ← ledger (FailedRetries.start work id route.failedRetry now)
  if route.failedRetry.maxAttempts ≤ state.attempts then giveUpFailedRetries work id state
  else return awaiting (some state.nextAttemptAt)

/-- Count a retry that may have reached the node. -/
def countRetry : DeliveryM FailedRetryState := do
  let now ← nowUnix
  ledger (FailedRetries.recordAttempt work id route.failedRetry now)

/-- An attempt that the node took; only failed messages have a budget. -/
def chargeRetry (pending : Bool) : DeliveryM (Option FailedRetryState) := do
  if pending then return none
  else
    let spent ← countRetry work route id
    return some spent

/-! ## One attempt -/

/-- What the receipt of an attempt shows: the result, and whether the destination failed again. -/
structure Observed where
  result : DeliveryResultKind
  /-- The destination is, or may be, still failing. -/
  failedAgain : Bool
  /-- The receipt has a `DestinationFailed`. -/
  destinationFailed : Bool

/-- The logs of a successful receipt. -/
def observeLogs (receipt : Receipt) : Observed :=
  match classifySuccessLogs codec route.inboxAddress id receipt.logs with
  | .delivered =>
    ⟨if route.blockConfirmationDepth = 0 then .delivered else awaiting none, false, false⟩
  | .pending => ⟨awaiting none, false, false⟩
  | .destinationFailed _ => ⟨awaiting none, true, true⟩
  | .unknown => ⟨awaiting none, true, false⟩

/-- Await the receipt; a revert is replayed for the time it may name. -/
def observeRetry (pending : Bool) (gas : Nat) (txHash : B256) : DeliveryM Observed := do
  match ← ask (.awaitReceipt txHash) with
  | .done receipt =>
    if receipt.status then
      let observed := observeLogs codec route id receipt
      if observed.result = .delivered then ledger (FailedRetries.forget work id)
      return observed
    else
      match ← ask (.callRetry pending id gas receipt.blockNumber) with
      | .failed err => return ⟨awaiting (decodeRetryDeferred codec err), true, false⟩
      | .elapsed | .done () => return ⟨awaiting none, true, false⟩
  | .elapsed | .failed _ => return ⟨awaiting none, true, false⟩

/-- The result, once the attempt is charged. -/
def settleRetry (spent : Option FailedRetryState) (observed : Observed) :
    DeliveryM DeliveryResultKind := do
  match spent with
  | some spent =>
    if observed.failedAgain then
      let hint := match observed.result with
        | .awaitingExecution retryAfter => retryAfter
        | _ => none
      afterFailedRetry work route id spent hint
    else return observed.result
  | none =>
    if observed.destinationFailed then startFailedRetries work route id
    else return observed.result

/-- Broadcast; a retry that may have reached the node is counted before anything else. -/
def sendRetry (pending : Bool) (gas : Nat) : DeliveryM DeliveryResultKind := do
  match ← ask (.sendRetry pending id gas) with
  | .failed err => return awaiting (decodeRetryDeferred codec err)
  | .stalled =>
    if pending then return awaiting none
    else
      let spent ← countRetry work route id
      afterFailedRetry work route id spent none
  | .sent txHash =>
    let spent ← chargeRetry work route id pending
    let observed ← observeRetry codec work route id pending gas txHash
    settleRetry work route id spent observed

/-- Estimate, check the exact gas limit, and broadcast. -/
def retryExecution (pending : Bool) : DeliveryM DeliveryResultKind := do
  match ← ask (.estimateRetry pending id) with
  | .elapsed => return awaiting none
  | .failed err => return awaiting (decodeRetryDeferred codec err)
  | .done gas =>
    if gas ≤ route.maxGasLimit then
      let gas := min (satAdd64 gas (gas / 4)) route.maxGasLimit
      match ← ask (.callRetry pending id gas none) with
      | .elapsed => return awaiting none
      | .failed err => return awaiting (decodeRetryDeferred codec err)
      | .done () => sendRetry codec work route id pending gas
    else return awaiting none

/-- One supervised execution attempt. -/
def reconcileExecution : DeliveryM DeliveryResultKind := do
  match ← StateT.lift (executionState route id).run with
  | .ok .executed =>
    ledger (FailedRetries.forget work id)
    return .delivered
  | .ok .confirming => return awaiting none
  | .ok .unaccepted => return .awaitingVotes
  | .error _ => return .retryable
  | .ok .pending => retryExecution codec work route id true
  | .ok .failed =>
    let now ← nowUnix
    match ← ledger (FailedRetries.gate work id route.failedRetry now) with
    | .proceed => retryExecution codec work route id false
    | .wait due => return awaiting (some due)
    | .giveUp state => giveUpFailedRetries work id state

end

end MessageRelayer

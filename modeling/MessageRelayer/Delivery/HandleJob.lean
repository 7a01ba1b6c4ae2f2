import MessageRelayer.Delivery.Reconcile

/-!
# Handling a delivery job

`delivery::handle_job`: refuse what the route's caps or the funded gas rule
out, simulate, and send until the attempts of the job are spent
(`sendLoop`); then what became of the send decides the result. A job that only
reconciles goes to `reconcileExecution` at once, and so does whatever turns out
to be a duplicate.
-/

namespace MessageRelayer

open Prog hiding ask
open DeliveryM

/-! ## Terms and funding -/

/-- What the relayer acts on in an envelope; a payload that is none carries no value. -/
structure EnvelopeTerms where
  nativeValue : Nat
  /-- The attested gas limit; none when the payload is not an envelope. -/
  gasLimit : Option Nat
  deriving DecidableEq

def envelopeTerms (codec : InboxCodec) (payload : Bytes) : EnvelopeTerms :=
  match codec.decodeEnvelope payload with
  | some (nativeValue, gasLimit) => ⟨nativeValue, some gasLimit⟩
  | none => ⟨0, none⟩

/-- What the fee ledger says of a message. -/
structure MessageFunding where
  /-- The funded gas, when there is a plausible one. -/
  gas : Option Nat
  deliveryDeadline : Option Nat
  relaySettled : Bool
  deriving DecidableEq

/-- Nothing is known: permissive in every field. -/
def MessageFunding.unknown : MessageFunding := ⟨none, none, false⟩

def topUpDeadlineGrace : Nat := 900

/-- Why a top-up can no longer help, if it cannot. -/
def MessageFunding.topUpForeclosed (funding : MessageFunding) (now : Option Nat) : Option String :=
  if funding.relaySettled then some "relay fee already settled (RelayAlreadySettled)"
  else
    match funding.deliveryDeadline, now with
    | some deadline, some now =>
      if satAdd64 deadline topUpDeadlineGrace < now then
        some "delivery deadline passed (DeliveryDeadlineReached)"
      else none
    | _, _ => none

structure DeliveryConfig where
  simulateBeforeSend : Bool
  maxRetries : Nat

/-! ## The send loop -/

inductive SendOutcome where
  | succeeded (txHash : B256)
  | alreadyValidated
  /-- The dispatcher queued or deferred the message. -/
  | pending (txHash : B256)
  /-- The destination call failed; the message is not consumed. -/
  | destinationFailed (dispatcher : Address) (txHash : B256) (blockNumber : Option Nat)
  | reverted (revert : Option DeliveryRevert)
  /-- The infrastructure failed. -/
  | failed

def initialBackoff : Duration := fromSecs 1
def maxBackoff : Duration := fromSecs 60

/-- The gas limit after one that was too low: a quarter more, up to `cap`. -/
def bumpedGasLimit (current envelopeGas : Option Nat) (cap : Nat) : Option Nat :=
  match current.or envelopeGas with
  | none => none
  | some base =>
    if cap ≤ base then none
    else some (min (max (satMul64 base 5 / 4) (satAdd64 base 1)) cap)

/-- A revert before the send: the result, or go on and send with more gas. -/
def settlePreSendRevert : DeliveryRevert → Option DeliveryResultKind
  | .insufficientGasForDestination => none
  | .duplicate | .validationFailedWithNativeValue | .invalidMessageDispatcher | .other =>
    some .retryable

section
variable (codec : InboxCodec) (work : Bool) (route : DeliveryRoute) (job : DeliveryJob)

/-- The job's transaction, with a gas limit pinned or not. -/
def deliverTx (gas : Option Nat) : DeliverTx where
  messageId := job.messageId
  outbox := job.outbox
  emitter := job.emitter
  sequence := job.sequence
  payload := job.payload
  votes := job.votesCalldata
  value := (envelopeTerms codec job.payload).nativeValue
  gas := gas

/-- The class of a mined revert, from a replay at its block. -/
def replayRevertReason (gas blockNumber : Option Nat) : DeliveryM (Option DeliveryRevert) := do
  match ← ask (.callDeliver (deliverTx codec job gas) false blockNumber) with
  | .failed err => return classifyDeliveryRevert codec err
  | .elapsed | .done _ => return none

/-- Send again with more gas, if there is more to be had and an attempt left. -/
def bumpOr (again : Option (Option Nat → DeliveryM SendOutcome)) (gas : Option Nat) :
    DeliveryM SendOutcome :=
  match again with
  | none => pure (.reverted (some .insufficientGasForDestination))
  | some again =>
    let envelopeGas := (envelopeTerms codec job.payload).gasLimit.map (min · u64Max)
    match bumpedGasLimit gas envelopeGas route.maxGasLimit with
    | some next => again (some next)
    | none => pure (.reverted (some .insufficientGasForDestination))

/-- What the receipt of a mined send says. -/
def settleReceipt (again : Option (Option Nat → DeliveryM SendOutcome)) (gas : Option Nat)
    (receipt : Receipt) : DeliveryM SendOutcome := do
  if receipt.status then
    match classifySuccessLogs codec route.inboxAddress job.messageId receipt.logs with
    | .unknown => return .failed
    | .delivered => return .succeeded receipt.transactionHash
    | .pending => return .pending receipt.transactionHash
    | .destinationFailed dispatcher =>
      return .destinationFailed dispatcher receipt.transactionHash receipt.blockNumber
  else
    match ← replayRevertReason codec job gas receipt.blockNumber with
    | some .duplicate => return .alreadyValidated
    | some .insufficientGasForDestination => bumpOr codec route job again gas
    | revert => return .reverted revert

/-- A send that failed, also in the check before it. -/
def settleSendError (again : Option (Option Nat → DeliveryM SendOutcome)) (gas : Option Nat)
    (err : CallError) : DeliveryM SendOutcome :=
  match classifyDeliveryRevert codec err with
  | some .duplicate => pure .alreadyValidated
  | some .insufficientGasForDestination => bumpOr codec route job again gas
  | some revert => pure (.reverted (some revert))
  | none =>
    match again with
    | some again => again gas
    | none => pure .failed

/-- One attempt; `again` is the next one, while there is one left. -/
def sendAttempt (again : Option (Option Nat → DeliveryM SendOutcome)) (gas : Option Nat) :
    DeliveryM SendOutcome := do
  let tx := deliverTx codec job gas
  -- a pinned gas limit bypasses the node's estimate: check it before spending it
  match ← ask (.callDeliver tx true none) with
  | .elapsed | .done false => return .failed
  | .failed err => settleSendError codec route job again gas err
  | .done true =>
    match ← ask (.sendDeliver tx) with
    | .stalled =>
      match again with
      | some again => again gas
      | none => return .failed
    | .failed err => settleSendError codec route job again gas err
    | .sent txHash =>
      match ← ask (.awaitReceipt txHash) with
      | .done receipt => settleReceipt codec route job again gas receipt
      | .failed _ =>
        match again with
        | some again => again gas
        | none => return .failed
      | .elapsed => return .failed

/-- The attempts of a job, `retries` of them after the first. The source compares a 32-bit counter
with `max_retries`: its loop is this one as long as the counter cannot wrap, and at the largest
`max_retries` it does. -/
def sendLoop (retries : Nat) (backoff : Duration) (gas : Option Nat) : DeliveryM SendOutcome :=
  match retries with
  | 0 => sendAttempt codec route job none gas
  | retries + 1 => sendAttempt codec route job (some fun gas => do
      ask (.sleep backoff)
      sendLoop retries (min (backoff * 2) maxBackoff) gas) gas

/-! ## The job -/

/-- A duplicate without an observable execution is ambiguous, never proof of delivery. -/
def settleDuplicateRevert : DeliveryM DeliveryResultKind := do
  match ← reconcileExecution codec work route job.messageId with
  | .awaitingVotes => return .retryable
  | result => return result

def settleOutcome : SendOutcome → DeliveryM DeliveryResultKind
  | .succeeded _ => return if route.blockConfirmationDepth = 0 then .delivered else awaiting none
  | .destinationFailed .. => startFailedRetries work route job.messageId
  | .alreadyValidated => settleDuplicateRevert codec work route job
  | .pending _ => return awaiting none
  | .reverted _ | .failed => return .retryable

/-- Submit, and see what became of it. -/
def submit (config : DeliveryConfig) (funding : MessageFunding) : DeliveryM DeliveryResultKind := do
  let outcome ← sendLoop codec route job config.maxRetries initialBackoff funding.gas
  settleOutcome codec work route job outcome

/-- A revert in the simulation or in the estimate; `next` is what follows otherwise. -/
def settleCallError (err : CallError) (next : DeliveryM DeliveryResultKind) :
    DeliveryM DeliveryResultKind :=
  match classifyDeliveryRevert codec err with
  | some .duplicate => settleDuplicateRevert codec work route job
  | some revert =>
    match settlePreSendRevert revert with
    | some kind => pure kind
    | none => next
  | none => pure .retryable

/-- Do not send what the funded gas does not cover. -/
def checkFunding (config : DeliveryConfig) (funding : MessageFunding) (topUp : Bool) :
    DeliveryM DeliveryResultKind := do
  match funding.gas with
  | none => submit codec work route job config funding
  | some gas =>
    match ← ask (.estimateDeliver (deliverTx codec job none)) with
    | .elapsed => return .retryable
    | .failed err =>
      settleCallError codec work route job err (submit codec work route job config funding)
    | .done est =>
      if gas < est then
        let now ← ask .now
        if (funding.topUpForeclosed now).isSome then return .terminal
        else
          if topUp then ask (.requestTopUp job.messageId (est - gas))
          return .retryable
      else submit codec work route job config funding

/-- Simulate, where the configuration says so. -/
def simulate (config : DeliveryConfig) (funding : MessageFunding) (topUp : Bool) :
    DeliveryM DeliveryResultKind := do
  if config.simulateBeforeSend then
    match ← ask (.callDeliver (deliverTx codec job none) false none) with
    | .elapsed | .done false => return .retryable
    | .done true => checkFunding codec work route job config funding topUp
    | .failed err =>
      settleCallError codec work route job err (checkFunding codec work route job config funding topUp)
  else checkFunding codec work route job config funding topUp

/-- One job, with what the fee ledger says of its message; `topUp` is whether more gas may be
requested. -/
def handleJob (config : DeliveryConfig) (funding : MessageFunding) (topUp : Bool) :
    DeliveryM DeliveryResultKind := do
  if job.reconcileOnly then reconcileExecution codec work route job.messageId
  else
    let terms := envelopeTerms codec job.payload
    if route.maxNativeCoinValueWei < terms.nativeValue then return .terminal
    else if terms.gasLimit.any (fun gasLimit => decide (route.maxGasLimit < gasLimit)) then
      return .terminal
    else simulate codec work route job config funding topUp

end

end MessageRelayer

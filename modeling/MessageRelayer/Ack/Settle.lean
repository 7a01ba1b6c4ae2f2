import MessageRelayer.Backoff
import MessageRelayer.Claim.Submit

/-!
# One attempt at a settlement

`ack::acknowledge_tx`: a transaction of the destination that delivered messages
is settled on Creditcoin with a proof of it. The messages that it executed are
acknowledged through the validators of the Outboxes that published them
(`ack::routes::validators`), and the relay fees of its deliveries are claimed
from the fee ledger. A submission that fails does not stop the others; the
source's finalized state decides, once before them and once after.
-/

namespace MessageRelayer.Ack

open Prog hiding ask
open Claim (showSecs stalledText)

def maxEncodedTransactionBytes : Nat := 500_000
def receiptTimeout : Duration := fromSecs 120

/-! ## The contracts -/

/-- What a log of the Inbox says of a message. -/
structure DeliveryEvent where
  messageId : B256
  executed : Bool
  deriving DecidableEq

/-- `IOutbox::OutboxMessage`, but for its timestamp. -/
structure OutboxMessage where
  emitter : Address
  sequence : Nat
  canAck : Bool
  acknowledged : Bool
  payloadHash : B256
  deriving DecidableEq

/-- The fields of `IRelayerContract::MessageInfo` that are read. -/
structure MessageInfo where
  payer : Address
  relaySettled : Bool
  deriving DecidableEq

/-- The errors of the Outbox, the validator and the fee ledger. -/
inductive SettleError where
  | messageCannotBeAcknowledged
  | messageAlreadyAcknowledged
  | messageNotFound
  | proofInvalid
  | noMessageExecutedLogs
  | relayAlreadySettled
  | unknownOperation
  | nativeTransferFailed
  deriving DecidableEq

namespace SettleError

/-- Those that a diagnostic names. -/
def named : List SettleError :=
  [messageCannotBeAcknowledged, messageAlreadyAcknowledged, messageNotFound, proofInvalid,
    noMessageExecutedLogs, relayAlreadySettled, unknownOperation]

def name : SettleError → String
  | messageCannotBeAcknowledged => "MessageCannotBeAcknowledged"
  | messageAlreadyAcknowledged => "MessageAlreadyAcknowledged"
  | messageNotFound => "MessageNotFound"
  | proofInvalid => "ProofInvalid"
  | noMessageExecutedLogs => "NoMessageExecutedLogs"
  | relayAlreadySettled => "RelayAlreadySettled"
  | unknownOperation => "UnknownOperation"
  | nativeTransferFailed => "NativeTransferFailed"

end SettleError

/-- The ABI of the contracts, and what else comes from libraries. -/
structure SettleCodec where
  keccak256 : Bytes → B256
  selector : SettleError → Bytes
  proofs : ProofGenCodec

/-- What the worker submits once a proof is there. -/
inductive SettlementMode where
  | ack
  | ackAndClaim (relayerContract : Address) (chainKey : B256)

/-- What the worker reads of its route (`config::ChainRoute`, `config::AckConfig`). -/
structure AckRoute where
  chainKey : ChainKey
  inboxAddress : Address
  /-- The base of the proof-gen client. -/
  proofGenUrl : String
  submitterAddress : Address
  mode : SettlementMode
  confirmationDepth : Nat
  startBlock : Option Nat
  scanLookbackBlocks : Nat
  notReadyPolicy : NotReadyPolicy

/-- The `Display` of an address: its digits in the case that its hash says. -/
def showAddress (codec : SettleCodec) (a : Address) : String :=
  let digits := Hex.encode (beBytes 20 a.toNat)
  let hash := Hex.encode (word (codec.keccak256 (Hex.utf8 digits)).toNat)
  "0x" ++ String.ofList
    ((digits.toList.zip hash.toList).map fun (c, h) => if '8' ≤ h then c.toUpper else c)

/-- The id of a message that an Outbox published. -/
def messageId (codec : SettleCodec) (outbox : Address) (message : OutboxMessage)
    (sourceChainId : Nat) : B256 :=
  codec.keccak256 (word outbox.toNat ++ word message.emitter.toNat ++ word message.sequence ++
    word message.payloadHash.toNat ++ word sourceChainId)

/-! ## What is submitted -/

/-- `BlockProverTypes.InclusionProof`. -/
structure InclusionProof where
  kind : Nat
  root : B256
  data : Bytes
  deriving DecidableEq

/-- The ABI encoding of a transaction and the siblings of its proof. -/
def encodeInclusion (txBytes : Bytes) (siblings : List (B256 × Bool)) : Bytes :=
  let tail := encodeBytes txBytes
  word 64 ++ word (64 + tail.length) ++ tail ++ word siblings.length ++
    siblings.flatMap fun (hash, isLeft) => word hash.toNat ++ word isLeft.toNat

/-- `SingleContinuityResponse::to_inclusion_and_continuity`. -/
def toInclusionAndContinuity (proof : SingleContinuityResponse) :
    Except Error (InclusionProof × ContinuityProof) := do
  let txBytes ← proof.encodedTransaction
  let (merkle, continuity) ← proof.toProofs
  pure ({ kind := 0, root := merkle.root, data := encodeInclusion txBytes merkle.siblings }, continuity)

/-- The call of a submission. -/
inductive Settlement where
  | submitAcknowledgment (validator : Address)
  | claimDelivery (ledger : Address) (id chainKey : B256)
  deriving DecidableEq

def Settlement.name : Settlement → String
  | submitAcknowledgment _ => "submitAcknowledgment"
  | claimDelivery .. => "claimDelivery"

structure SettleTx where
  submitter : Address
  settlement : Settlement
  height : Nat
  inclusion : InclusionProof
  continuity : ContinuityProof
  deriving DecidableEq

/-! ## The questions of an attempt -/

inductive SettleCall where
  /-- The record of a message on an Outbox, at the finalized block. -/
  | getMessage (outbox : Address) (id : B256)
  | outboxValidator (outbox : Address)
  | validatorOutbox (authority : Address)
  | validatorDestination (authority : Address)
  /-- The record of a message in the fee ledger, at the finalized block. -/
  | getMessageInfo (ledger : Address) (id : B256)
  | getProof (url : String)
  /-- A broadcast as the only one of its signer. -/
  | send (tx : SettleTx)
  | awaitReceipt (txHash : B256) (within : Duration)
  deriving DecidableEq

abbrev SettleCall.Answer : SettleCall → Type
  | getMessage .. => Except String OutboxMessage
  | outboxValidator _ | validatorOutbox _ => Except String Address
  | validatorDestination _ => Except String Nat
  | getMessageInfo .. => Except String MessageInfo
  | getProof _ => HttpResult
  | send _ => Except BroadcastLocks.Stalled (Except CallError B256)
  | awaitReceipt .. => Reply Receipt

abbrev SettleProg := Prog SettleCall SettleCall.Answer

abbrev SettleM := ExceptT Error SettleProg

abbrev SettleSaid := Said SettleCall SettleCall.Answer

def SettleM.ask (c : SettleCall) : SettleM c.Answer := ExceptT.lift (call c)

inductive AckOutcome where
  | acknowledged
  | notReady (reason : ProofNotReady)
  | rejected (reason : ProofRejected)
  /-- A permanent condition. -/
  | terminal (reason : String)

/-- What became of a submission that did not fail for a while only. -/
inductive SubmitOutcome where
  | confirmed (txHash : B256)
  | terminal (reason : String)

/-- `Option::get_or_insert`: of several failures the first is kept. -/
def getOrInsert (failure : Option Error) (err : Error) : Option Error := failure.or (some err)

/-- `status`, `code` and `message` of a proof that is not served. -/
def notServedText (status : Nat) (code message : String) : String :=
  "HTTP " ++ toString status ++ " " ++ code ++ if message = "" then "" else ": " ++ message

/-! ## Reverts -/

section
variable (codec : SettleCodec)

def ackRevertName (sel : Bytes) : Option String :=
  (SettleError.named.find? fun e => sel == codec.selector e).map (·.name)

/-- Whether the error of a send is a revert, other than of a transfer that may succeed later. -/
def isTerminalRevert (s : String) : Bool :=
  if revertSelector s = some (codec.selector .nativeTransferFailed) ||
      containsText s "NativeTransferFailed" then false
  else isRevert s || containsText s "AlreadyAcknowledged" || containsText s "CannotBeAcknowledged" ||
    containsText s "DoesNotRequireAck" || containsText s "MessageNotFound" ||
    containsText s "ProofInvalid" || containsText s "NoMessageExecutedLogs" ||
    containsText s "RelayAlreadySettled" || containsText s "UnknownOperation"

/-- A revert, with the name of its error where the selector is known. -/
def describeRevert (s : String) : String :=
  match (revertSelector s).bind (ackRevertName codec) with
  | some name => name ++ ": " ++ s
  | none => s

/-- What became of a broadcast. -/
def classifySubmit (name : String) : Except CallError B256 → SettleM SubmitOutcome
  | .error err =>
    if isTerminalRevert codec err.text then pure (.terminal (describeRevert codec err.text))
    else throw [name ++ " send failed: " ++ err.text]
  | .ok txHash => do
    match ← SettleM.ask (.awaitReceipt txHash receiptTimeout) with
    | .elapsed =>
      throw ["no receipt within " ++ showSecs receiptTimeout ++ " (" ++ name ++ " tx possibly stuck)"]
    | .failed err => throw ["receipt fetch failed: " ++ err.text]
    | .done receipt =>
      if receipt.status then pure (.confirmed receipt.transactionHash)
      else pure (.terminal "tx mined but reverted")

end

/-! ## The source's state -/

/-- The validators that have something to acknowledge, and the first failure. -/
structure Resolution where
  authorities : FinSet Address := ∅
  failure : Option Error := none

section
variable (codec : SettleCodec) (route : AckRoute) (sourceChainId : Nat)

/-- `.context(..)?` on the answer. -/
def reading {α : Type} (context : String) (answer : Except String α) : SettleM α :=
  orThrow (answer.mapError fun e => [context, e])

/-- The validator of an Outbox; it must be bound to it, and to the destination. -/
def boundAuthority (outbox : Address) : SettleM Address := do
  let authority ← reading "reading Outbox validator" (← SettleM.ask (.outboxValidator outbox))
  ensure (authority ≠ 0)
    ["Outbox " ++ showAddress codec outbox ++ " has no acknowledgment validator"]
  let bound ← reading "reading validator Outbox" (← SettleM.ask (.validatorOutbox authority))
  ensure (bound = outbox) ["acknowledgment validator " ++ showAddress codec authority ++
    " is not bound to Outbox " ++ showAddress codec outbox]
  let destination ← reading "reading validator destination"
    (← SettleM.ask (.validatorDestination authority))
  ensure (destination = route.chainKey) ["acknowledgment validator " ++ showAddress codec authority ++
    " is bound to another destination chain"]
  pure authority

/-- The validator that acknowledges a message, none if nothing is to be acknowledged: it is that of
the first of the Outboxes on which the message's record is its own. -/
def validatorFor (id : B256) : List Address → Option Error → SettleM (Option Address)
  | [], some err => throw (("resolving original Outbox for " ++ Hex.prefixed (word id.toNat)) :: err)
  | [], none => throw ["original Outbox for " ++ Hex.prefixed (word id.toNat) ++
      " is not known yet; awaiting complete support history"]
  | outbox :: candidates, failure => do
    match ← SettleM.ask (.getMessage outbox id) with
    | .error err =>
      if revertSelector err = some (codec.selector .messageNotFound) then
        validatorFor id candidates failure
      else validatorFor id candidates (some [err])
    | .ok message =>
      if message.emitter = 0 ∨ messageId codec outbox message sourceChainId ≠ id then
        validatorFor id candidates failure
      else if message.canAck && !message.acknowledged then
        pure (some (← boundAuthority codec route outbox))
      else pure none

/-- Resolve message after message. -/
def resolveEach (candidates : FinSet Address) : List B256 → Resolution → SettleProg Resolution
  | [], resolution => pure resolution
  | id :: ids, resolution => do
    match ← (validatorFor codec route sourceChainId id candidates.toList none).run with
    | .ok (some authority) =>
      resolveEach candidates ids
        { resolution with authorities := resolution.authorities.insert authority }
    | .ok none => resolveEach candidates ids resolution
    | .error err =>
      resolveEach candidates ids { resolution with failure := getOrInsert resolution.failure err }

def validators (candidates : FinSet Address) (ids : List B256) : SettleProg Resolution :=
  resolveEach codec route sourceChainId candidates ids
    { failure := if ids.isEmpty then some ["cannot route settlement without message ids"] else none }

end

/-- The messages whose relay fee is funded and not settled. -/
def relayClaimableIds (ledger : Address) : List B256 → SettleM (List B256)
  | [] => pure []
  | id :: ids => do
    let info ← reading "IRelayerContract.getMessageInfo call failed"
      (← SettleM.ask (.getMessageInfo ledger id))
    let claimable ← relayClaimableIds ledger ids
    pure (if info.payer ≠ 0 ∧ info.relaySettled = false then id :: claimable else claimable)

/-! ## The attempt -/

/-- The ids of the events of one kind, each once, in their order. -/
def eventIds (executed : Bool) (messages : List DeliveryEvent) : List B256 :=
  ((∅ : FinSet B256).insertMany
    ((messages.filter fun event => event.executed == executed).map (·.messageId))).toList

section
variable (codec : SettleCodec) (route : AckRoute) (sourceChainId : Nat)

/-- The validators of the messages that were executed. -/
def ackRoutes (outboxes : FinSet Address) (executedIds : List B256) : SettleProg Resolution :=
  if executedIds.isEmpty then pure {} else validators codec route sourceChainId outboxes executedIds

/-- The messages to claim for; all of them, where the ledger does not answer. -/
def claimIds (messageIds : List B256) : SettleProg (List B256) :=
  match route.mode with
  | .ack => pure []
  | .ackAndClaim ledger _ => do
    match ← (relayClaimableIds ledger messageIds).run with
    | .ok ids => pure ids
    | .error _ => pure messageIds

/-- The submissions of an attempt, acknowledgments first. -/
def settlements (authorities : FinSet Address) (ids : List B256) : List Settlement :=
  authorities.toList.map .submitAcknowledgment ++
    match route.mode with
    | .ack => []
    | .ackAndClaim ledger chainKey => ids.map (.claimDelivery ledger · chainKey)

/-- One submission; its failure is kept, if it is the first. -/
def submitOne (proof : SingleContinuityResponse) (settlement : Settlement) (failure : Option Error) :
    SettleM (Option Error) := do
  let (inclusion, continuity) ← orThrow (toInclusionAndContinuity proof)
  let tx : SettleTx :=
    { submitter := route.submitterAddress
      settlement
      height := proof.headerNumber
      inclusion
      continuity }
  match ← SettleM.ask (.send tx) with
  | .error stalled => pure (getOrInsert failure [settlement.name ++ " " ++ stalledText stalled])
  | .ok sent =>
    match ← ExceptT.lift (classifySubmit codec settlement.name sent).run with
    | .ok _ => pure failure
    | .error err => pure (getOrInsert failure err)

/-- Every submission, one after the other. -/
def submitAll (proof : SingleContinuityResponse) :
    List Settlement → Option Error → SettleM (Option Error)
  | [], failure => pure failure
  | settlement :: rest, failure => do
    submitAll proof rest (← submitOne codec route proof settlement failure)

/-- What is still to be acknowledged is a failure. -/
def recheckAcks (outboxes : FinSet Address) (executedIds : List B256) (failure : Option Error) :
    SettleProg (Option Error) := do
  if executedIds.isEmpty then pure failure
  else
    let remaining ← validators codec route sourceChainId outboxes executedIds
    let failure := remaining.failure.elim failure (getOrInsert failure)
    pure (if remaining.authorities.isEmpty then failure
      else getOrInsert failure ["executed messages remain unacknowledged on their original Outboxes"])

/-- A relay fee that is still to be claimed is a failure. -/
def recheckFees (ids : List B256) (failure : Option Error) : SettleProg (Option Error) :=
  match route.mode with
  | .ack => pure failure
  | .ackAndClaim ledger _ => do
    match ← (relayClaimableIds ledger ids).run with
    | .ok remaining =>
      pure (if remaining.isEmpty then failure
        else getOrInsert failure ["relay fees remain unsettled in the configured ledger"])
    | .error err => pure (getOrInsert failure err)

/-- Submit what is left to settle with a proof, and check it on the source. -/
def submitProof (outboxes : FinSet Address) (executedIds ids : List B256) (authorities : FinSet Address)
    (failure : Option Error) (proof : SingleContinuityResponse) : SettleM AckOutcome := do
  let encodedTx ← orThrow proof.encodedTransaction
  if maxEncodedTransactionBytes < encodedTx.length then
    pure (.terminal ("encodedTransaction " ++ toString encodedTx.length ++
      " bytes exceeds on-chain max " ++ toString maxEncodedTransactionBytes ++ " bytes"))
  else
    let failure ← submitAll codec route proof (settlements route authorities ids) failure
    let failure ← ExceptT.lift (recheckAcks codec route sourceChainId outboxes executedIds failure)
    match ← ExceptT.lift (recheckFees route ids failure) with
    | some err => throw err
    | none => pure .acknowledged

/-- Fetch the proof of a transaction and submit it. -/
def settleTx (outboxes : FinSet Address) (executedIds ids : List B256) (authorities : FinSet Address)
    (failure : Option Error) (txHash : B256) : SettleM AckOutcome := do
  let url := proofByTxUrl route.proofGenUrl route.chainKey txHash
  let result ← SettleM.ask (.getProof url)
  match ← orThrow (proofByTx codec.proofs url result), failure with
  | .ready proof, failure =>
    submitProof codec route sourceChainId outboxes executedIds ids authorities failure proof
  | .notReady reason, none => pure (.notReady reason)
  | .notReady reason, some err =>
    throw (("delivery proof also not ready: " ++
      notServedText reason.status reason.code reason.message) :: err)
  | .rejected reason, none => pure (.rejected reason)
  | .rejected reason, some err =>
    throw (("delivery proof also rejected: " ++
      notServedText reason.status reason.code reason.message) :: err)

/-- The whole attempt. A failure to resolve ends it only where nothing else is left to settle. -/
def acknowledgeTx (outboxes : FinSet Address) (messages : List DeliveryEvent) (txHash : B256) :
    SettleM AckOutcome := do
  let executedIds := eventIds true messages
  let routes ← ExceptT.lift (ackRoutes codec route sourceChainId outboxes executedIds)
  let ids ← ExceptT.lift (claimIds route (eventIds false messages))
  match ids.isEmpty && routes.authorities.isEmpty, routes.failure with
  | true, some err => throw err
  | true, none =>
    pure (.terminal "nothing left to settle (no message requires an ack, no unsettled relay fee)")
  | false, failure =>
    settleTx codec route sourceChainId outboxes executedIds ids routes.authorities failure txHash

end

end MessageRelayer.Ack

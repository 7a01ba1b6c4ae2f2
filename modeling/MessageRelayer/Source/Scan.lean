import MessageRelayer.Chain
import MessageRelayer.Checkpoint

/-!
# The scan of the source chain

`events::poll_once` and what it is made of: the choice of the last block to
scan (`finality::pick_to_block`), the log query with its fallback to receipts,
the authority of each log's Outbox at its own block, and the record of each
authorized publication. A poll is a program over `SourceCall`; the variables
that its caller keeps between polls (`last_seen`, the finality tracker) are
passed in and set by calls. Before the first poll comes `events::watch_outbox`
up to its loop.

The codecs of the contracts' ABI and the display of addresses are parameters
(`SourceCodec`).
-/

namespace MessageRelayer

open Prog

/-! ## Finality -/

def finalityStallTimeout : Duration := fromSecs 600

inductive FinalityPolicy where
  | finalized
  /-- For test chains without deterministic finality. -/
  | depth (depth : Nat)

structure FinalityTracker where
  lastFinalized : Option Nat
  lastAdvance : Instant
  stalled : Bool
  deriving DecidableEq

def FinalityTracker.new (now : Instant) : FinalityTracker := ⟨none, now, false⟩

/-- The last block to scan, and the tracker that has seen it. -/
def pickToBlock (finalized : Option Nat) (tip : Nat) (policy : FinalityPolicy)
    (tracker : FinalityTracker) (now : Instant) : Except Error (Nat × FinalityTracker) :=
  match policy with
  | .depth depth => .ok (tip - depth, tracker)
  | .finalized =>
    match finalized with
    | none => .error ["finalized head unavailable; source scan paused"]
    | some finalized =>
      if tracker.lastFinalized.any fun previous => decide (finalized < previous) then
        .error ["finalized head regressed; source scan paused"]
      else if tracker.lastFinalized.all fun previous => decide (previous < finalized) then
        .ok (finalized, ⟨some finalized, now, false⟩)
      else
        .ok (finalized,
          { tracker with stalled := decide (finalityStallTimeout ≤ now - tracker.lastAdvance) })

/-- Under the finalized policy the head that is picked is the one the tracker has, and no earlier
than the one it had. -/
theorem pickToBlock_finalized {finalized : Option Nat} {tip : Nat} {tracker tracker' : FinalityTracker}
    {now : Instant} {confirmed : Nat}
    (h : pickToBlock finalized tip .finalized tracker now = .ok (confirmed, tracker')) :
    finalized = some confirmed ∧ tracker'.lastFinalized = some confirmed ∧
      ∀ previous ∈ tracker.lastFinalized, previous ≤ confirmed := by
  cases finalized with
  | none => cases h
  | some finalized =>
    simp only [pickToBlock] at h
    split at h
    · cases h
    · rename_i hr
      split at h
      · rename_i ha
        cases h
        refine ⟨rfl, rfl, fun previous hp => ?_⟩
        rw [hp, Option.all_some, decide_eq_true_eq] at ha
        exact Nat.le_of_lt ha
      · rename_i ha
        cases h
        cases ht : tracker.lastFinalized with
        | none => rw [ht] at ha; exact absurd rfl ha
        | some previous =>
          rw [ht, Option.any_some, decide_eq_true_eq] at hr
          rw [ht, Option.all_some, decide_eq_true_eq] at ha
          obtain rfl : previous = confirmed := by omega
          exact ⟨rfl, rfl, fun p hp => by cases hp; exact Nat.le_refl _⟩

/-! ## The calls of a scan -/

inductive Sent where
  | sent
  /-- The cancellation came first. -/
  | cancelled
  /-- The receiver is gone; `cancelled` tells whether a cancellation is why. -/
  | closed (cancelled : Bool)

inductive SourceCall where
  | connect
  | chainId
  /-- `CheckpointStore::get` and `has_durable_work` of the watcher's key. -/
  | cursor (key : String)
  /-- `WorkStore::prepare_route`. -/
  | prepareRoute (chainKey : ChainKey) (resuming : Bool)
  | finalizedHead
  | blockNumber
  | now
  /-- The poll sets its caller's tracker. -/
  | setFinality (tracker : FinalityTracker)
  | getLogs (fromBlock toBlock : Nat) (address : Option Address)
  | getBlock (number : Nat)
  | getReceipt (hash : B256)
  /-- `get_outbox_discovery_address` at a block. -/
  | discoveryAddress (chainKey : ChainKey) (block : Nat)
  /-- `isActiveOutbox` of a registry, at a block. -/
  | isActiveOutbox (discovery : Address) (chainKey : ChainKey) (outbox : Address) (block : Nat)
  /-- `WorkStore::record`. -/
  | record (message : IndexedMessage)
  /-- To the vote pool. -/
  | send (message : IndexedMessage)
  /-- The poll sets its caller's `last_seen`. -/
  | setLastSeen (block : Nat)

abbrev SourceCall.Answer : SourceCall → Type
  | connect | prepareRoute .. | record _ => Except Error Unit
  | cursor _ => Option Nat × Bool
  | finalizedHead | getBlock _ => Rpc (Option Block)
  | chainId | blockNumber => Rpc Nat
  | now => Instant
  | setFinality _ | setLastSeen _ => Unit
  | getLogs .. => Rpc (List Log)
  | getReceipt _ => Rpc (Option Receipt)
  | discoveryAddress .. | isActiveOutbox .. => Rpc Bytes
  | send _ => Sent

abbrev SourceProg := Prog SourceCall SourceCall.Answer

/-- A program of the scan that may fail. -/
abbrev SourceM := ExceptT Error SourceProg

def SourceM.ask (c : SourceCall) : SourceM c.Answer := ExceptT.lift (call c)

open SourceM

/-- The data of a `MessagePublished` log. -/
structure Published where
  messageId : B256
  emitterAddress : B256
  sequence : Nat
  payload : Bytes

/-- What the scan needs of the contracts' ABI. -/
structure SourceCodec where
  /-- The signature hash of `MessagePublished`. -/
  publishedTopic : B256
  decodePublished : Log → Except String Published
  decodeDiscovery : Bytes → Except String (Address × Bool)
  decodeActive : Bytes → Except String Bool
  displayAddress : Address → String

structure SourceRoute where
  chainKey : ChainKey
  destinationChainKey : B256
  creditcoinChainId : Nat
  outboxOverride : Option Address

section
variable (codec : SourceCodec)

def readFinalizedHead : SourceM Nat := do
  let block ← orTimeout ["finalized head lookup timed out; source scan paused"]
    ["finalized head lookup failed; source scan paused"] (← ask .finalizedHead)
  let block ← orMissing ["finalized head unavailable; source scan paused"] block
  return block.number

/-! ## The log query -/

def logLimitError (message : String) : Bool :=
  let message := message.toLower
  ["query returned more than", "too many results", "too many logs", "log response size exceeded"].any
    fun text => decide (text.toList <:+: message.toList)

/-- Whether the receipt fallback keeps a log. -/
def SourceCodec.keeps (pinned : Option Address) (log : Log) : Bool :=
  decide (log.topics.head? = some codec.publishedTopic) &&
    pinned.all fun address => decide (log.address = address)

/-- The publications in the receipts of a block's transactions. -/
def logsOfReceipts (block : Block) (pinned : Option Address) : List B256 → SourceM (List Log)
  | [] => pure []
  | hash :: hashes => do
    let receipt ← orTimeout ["receipt fallback lookup timed out"] [] (← ask (.getReceipt hash))
    let receipt ← orMissing ["receipt fallback transaction missing"] receipt
    ensure (receipt.transactionHash = hash ∧ receipt.blockNumber = some block.number ∧
        receipt.blockHash = some block.hash)
      ["receipt fallback returned inconsistent provenance"]
    ensure (∀ log ∈ receipt.logs, log.blockNumber = some block.number ∧
        log.blockHash = receipt.blockHash ∧ log.transactionHash = some hash ∧ log.removed = false)
      ["receipt fallback log has inconsistent provenance"]
    let logs ← logsOfReceipts block pinned hashes
    return receipt.logs.filter (codec.keeps pinned) ++ logs

def messageLogsFromReceipts (number : Nat) (pinned : Option Address) : SourceM (List Log) := do
  let block ← orTimeout ["receipt fallback block lookup timed out"] [] (← ask (.getBlock number))
  let block ← orMissing ["receipt fallback block missing"] block
  ensure (block.number = number) ["receipt fallback returned wrong block"]
  ensure (block.transactions ≠ [])
    ["receipt fallback returned no transactions for a result-limited block"]
  logsOfReceipts codec block pinned block.transactions

/-- A failed log query. -/
inductive FetchError (fromBlock toBlock : Nat) where
  /-- Only of a range of several blocks. -/
  | logRangeTooLarge (several : fromBlock < toBlock)
  | other (error : Error)

def fetchMessageLogs (fromBlock toBlock : Nat) (pinned : Option Address) :
    SourceProg (Except (FetchError fromBlock toBlock) (List Log)) := do
  match (← call (SourceCall.getLogs fromBlock toBlock pinned) : Rpc (List Log)) with
  | .elapsed => pure (.error (.other ["source log query timed out"]))
  | .done logs => pure (.ok logs)
  | .failed text =>
    if logLimitError text then
      if several : fromBlock < toBlock then pure (.error (.logRangeTooLarge several))
      else do
        match ← (messageLogsFromReceipts codec fromBlock pinned).run with
        | .ok logs => pure (.ok logs)
        | .error e => pure (.error (.other e))
    else pure (.error (.other ["source log query failed", text]))

/-- The logs of a range and its last block; the logs of a `smaller` one if it is too large. -/
def fetchOr (fromBlock toBlock : Nat) (pinned : Option Address)
    (smaller : fromBlock < toBlock → SourceM (List Log × Nat)) : SourceM (List Log × Nat) := do
  match ← ExceptT.lift (fetchMessageLogs codec fromBlock toBlock pinned) with
  | .ok logs => pure (logs, toBlock)
  | .error (.logRangeTooLarge several) => smaller several
  | .error (.other e) => throw e

/-- The logs of a range from `fromBlock`, halved while it is too large, and its last block. At most
`room` blocks follow the first, fewer after each halving. -/
def fetchRange (fromBlock : Nat) (pinned : Option Address) :
    (room toBlock : Nat) → toBlock - fromBlock ≤ room → SourceM (List Log × Nat)
  | 0, toBlock, hr => fetchOr codec fromBlock toBlock pinned fun several => absurd several (by omega)
  | room + 1, toBlock, hr => fetchOr codec fromBlock toBlock pinned fun several =>
    fetchRange fromBlock pinned room (fromBlock + (toBlock - fromBlock) / 2) (by omega)

/-! ## Authority -/

/-- `decode_response`: a response that its decoding does not encode to is refused. -/
def decodeResponse {α : Type} (decode : Bytes → Except String α) (encode : α → Bytes) (bytes : Bytes) :
    Except Error α :=
  match decode bytes with
  | .error e => .error [e]
  | .ok decoded =>
    if encode decoded = bytes then .ok decoded else .error ["non-canonical authorization response"]

def encodeBool (b : Bool) : Bytes := word b.toNat

/-- The Outbox registry that governance had selected, by the response of the precompile. -/
def discoveryOf (bytes : Bytes) : Except Error (Option Address) :=
  match decodeResponse codec.decodeDiscovery (fun r => word r.1.toNat ++ encodeBool r.2) bytes with
  | .error e => .error ("malformed historical Discovery response" :: e)
  | .ok (discovery, present) => .ok (if present && discovery != 0 then some discovery else none)

/-- The membership of an Outbox, by the response of its registry. -/
def membershipOf (bytes : Bytes) : Except Error Bool :=
  match decodeResponse codec.decodeActive encodeBool bytes with
  | .error e => .error ("malformed historical Outbox membership response" :: e)
  | .ok active => .ok active

def registryChainKey (chainKey : ChainKey) : Except Error Nat :=
  if chainKey ≤ u32Max then .ok chainKey
  else .error ["chain_key exceeds the uint32 Outbox registry key",
    "out of range integral type conversion attempted"]

def discoveryAt (chainKey : ChainKey) (block : Nat) : SourceM (Option Address) := do
  let _ ← orThrow (registryChainKey chainKey)
  let bytes ← orTimeout ["historical Discovery lookup timed out"]
    ["historical Discovery lookup failed"] (← ask (.discoveryAddress chainKey block))
  orThrow (discoveryOf codec bytes)

def authorizedAt (chainKey : ChainKey) (discovery outbox : Address) (block : Nat) : SourceM Bool := do
  let chainKey ← orThrow (registryChainKey chainKey)
  let bytes ← orTimeout ["historical membership lookup timed out"]
    ["historical membership lookup failed"] (← ask (.isActiveOutbox discovery chainKey outbox block))
  orThrow (membershipOf codec bytes)

/-- What a poll has read of the authority at its blocks. -/
structure Caches where
  discoveries : List (Nat × Option Address)
  memberships : List ((Nat × Address) × Bool)

def cachedDiscovery (source : SourceRoute) (caches : Caches) (block : Nat) :
    SourceM (Option Address × Caches) :=
  match caches.discoveries.lookup block with
  | some discovery => pure (discovery, caches)
  | none => do
    let discovery ← discoveryAt codec source.chainKey block
    return (discovery, { caches with discoveries := (block, discovery) :: caches.discoveries })

def cachedMembership (source : SourceRoute) (caches : Caches) (discovery outbox : Address)
    (block : Nat) : SourceM (Bool × Caches) :=
  match caches.memberships.lookup (block, outbox) with
  | some authorized => pure (authorized, caches)
  | none => do
    let authorized ← authorizedAt codec source.chainKey discovery outbox block
    return (authorized,
      { caches with memberships := ((block, outbox), authorized) :: caches.memberships })

/-- Whether the Outbox of a log was authorized at the log's block. -/
def authorize (source : SourceRoute) (caches : Caches) (outbox : Address) (block : Nat) :
    SourceM (Bool × Caches) :=
  match source.outboxOverride with
  | some pinned => do
    ensure (outbox = pinned) ["provider returned a log outside the pinned Outbox"]
    return (true, caches)
  | none => do
    match ← cachedDiscovery codec source caches block with
    | (none, caches) => return (false, caches)
    | (some discovery, caches) => cachedMembership codec source caches discovery outbox block

/-! ## The poll -/

/-- The message of a decoded log. -/
def indexedMessage (source : SourceRoute) (log : Log) (block : Nat) (decoded : Published)
    (txHash : B256) : IndexedMessage where
  chainKey := source.chainKey
  messageId := decoded.messageId
  emitter := (decoded.emitterAddress >>> 96).setWidth 160
  outbox := log.address
  sequence := decoded.sequence
  destinationChainKey := source.destinationChainKey
  creditcoinChainId := source.creditcoinChainId
  payload := decoded.payload
  txHash := txHash
  blockHeight := block

/-- The message that a log of an authorized Outbox publishes. -/
def decodeLog (source : SourceRoute) (log : Log) (block : Nat) : Except Error IndexedMessage :=
  match codec.decodePublished log with
  | .error e => .error ["invalid MessagePublished from authorized Outbox " ++
      codec.displayAddress log.address ++ " at block " ++ toString block, e]
  | .ok decoded =>
    match log.transactionHash with
    | none => .error ["authorized MessagePublished has no transaction hash"]
    | some txHash => .ok (indexedMessage source log block decoded txHash)

/-- Send a message to the pool; false if cancelled. -/
def send (message : IndexedMessage) : SourceM Bool := do
  match (← ask (.send message) : Sent) with
  | .sent => return true
  | .cancelled => return false
  | .closed cancelled => if cancelled then return false else throw ["vote pool channel closed"]

/-- Record a message, if unfinished work is `durable`, and send it. -/
def recordAndSend (durable : Bool) (message : IndexedMessage) : SourceM Bool := do
  if durable then orThrow (← ask (.record message))
  send message

/-- Handle one log of the range; none if cancelled. -/
def indexLog (source : SourceRoute) (durable : Bool) (fromBlock toBlock : Nat) (caches : Caches)
    (log : Log) : SourceM (Option Caches) := do
  let block ← orMissing ["MessagePublished has no block number"] log.blockNumber
  ensure (log.removed = false ∧ fromBlock ≤ block ∧ block ≤ toBlock)
    ["MessagePublished is removed or outside the requested range"]
  let (authorized, caches) ← authorize codec source caches log.address block
  if !authorized then return some caches
  let message ← orThrow (decodeLog codec source log block)
  return if ← recordAndSend durable message then some caches else none

/-- Handle the logs of the range in turn; false if cancelled. -/
def indexLogs (source : SourceRoute) (durable : Bool) (fromBlock toBlock : Nat) :
    Caches → List Log → SourceM Bool
  | _, [] => return true
  | caches, log :: logs => do
    match ← indexLog codec source durable fromBlock toBlock caches log with
    | none => return false
    | some caches => indexLogs source durable fromBlock toBlock caches logs

def maxBlocksPerScan : Nat := 2000

/-- Scan the range after `last_seen`, at most up to `confirmed`: its last block, none if cancelled. -/
def scanRange (source : SourceRoute) (durable : Bool) (lastSeen confirmed : Nat) :
    SourceM (Option Nat) := do
  let fromBlock := lastSeen + 1
  let toBlock := min confirmed (satAdd64 lastSeen maxBlocksPerScan)
  let (logs, toBlock) ←
    fetchRange codec fromBlock source.outboxOverride (toBlock - fromBlock) toBlock (Nat.le_refl _)
  return if ← indexLogs codec source durable fromBlock toBlock ⟨[], []⟩ logs then some toBlock else none

/-- The finalized head and the tip, as far as the policy asks for them. -/
def readHeads : FinalityPolicy → SourceM (Option Nat × Nat)
  | .finalized => do return (some (← readFinalizedHead), 0)
  | .depth _ => do
    return (none, ← orTimeout ["source tip lookup timed out"] [] (← ask .blockNumber))

/-- `poll_once` up to its last assignment: the last block of the range it has scanned, if any. -/
def pollRange (source : SourceRoute) (policy : FinalityPolicy) (durable : Bool)
    (finality : FinalityTracker) (lastSeen : Nat) : SourceM (Option Nat) := do
  let (finalized, tip) ← readHeads policy
  let now ← ask .now
  let (confirmed, finality) ← orThrow (pickToBlock finalized tip policy finality now)
  ask (.setFinality finality)
  if confirmed ≤ lastSeen then return none
  scanRange codec source durable lastSeen confirmed

def pollOnce (source : SourceRoute) (policy : FinalityPolicy) (durable : Bool)
    (finality : FinalityTracker) (lastSeen : Nat) : SourceM Unit := do
  match ← pollRange codec source policy durable finality lastSeen with
  | none => return ()
  | some toBlock => ask (.setLastSeen toBlock)

/-! ## Before the first poll -/

/-- One cursor covers every Outbox of a route; a pinned Outbox has its own. -/
def checkpointKey (chainKey : ChainKey) : Option Address → String
  | some address =>
    "outbox-pinned:" ++ toString chainKey ++ ":" ++ codec.displayAddress address
  | none => "outboxes:" ++ toString chainKey

/-- Where the scan resumes: only a cursor that unfinished work backs is believed. -/
def resumeCursor (checkpoint : Option Nat) (durableWork : Bool) (startBlock : Option Nat)
    (lookback : Nat) : Nat :=
  match checkpoint.filter fun _ => durableWork with
  | none => startBlock.getD 1 - 1
  | some block => block - lookback

/-- What a watcher needs of its route's configuration. -/
structure ChainRoute where
  chainKey : ChainKey
  outboxAddress : Option Address
  startBlock : Option Nat
  scanLookbackBlocks : Nat

/-- What `watch_outbox` requires of its route. -/
def checkRoute (route : ChainRoute) : Except Error Unit :=
  match route.outboxAddress with
  | none => (registryChainKey route.chainKey).map fun _ => ()
  | some address =>
    if address ≠ 0 then .ok () else .error ["outbox_address override must not be zero"]

/-- `watch_outbox` up to its loop, with checkpoints and unfinished work persisted: the route as
it is scanned, and the last block seen. -/
def watchOutbox (route : ChainRoute) : SourceM (SourceRoute × Nat) := do
  let chainKey := route.chainKey
  orThrow (checkRoute route)
  let connected : Except Error Unit ← ask .connect
  orThrow (connected.mapError
    (("chain_key " ++ toString chainKey ++ ": failed to connect to source RPC") :: ·))
  let creditcoinChainId ← orTimeout ["source chain ID lookup timed out"] [] (← ask .chainId)
  let (persisted, durableWork) ← ask (.cursor (checkpointKey codec chainKey route.outboxAddress))
  orThrow (← ask (.prepareRoute chainKey durableWork))
  return (⟨chainKey, BitVec.ofNat 256 chainKey, creditcoinChainId, route.outboxAddress⟩,
    resumeCursor persisted durableWork route.startBlock route.scanLookbackBlocks)

end

end MessageRelayer

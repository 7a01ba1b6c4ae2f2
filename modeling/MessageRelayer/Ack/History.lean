import MessageRelayer.Chain

/-!
# The history of settlement routes

`ack::routes::RouteHistory`: the Outboxes that an Inbox ever supported, with the
range of blocks whose `SupportedOutboxSet` events were read. Current support is
only a hint (`seed`, `seedValidator`); `refresh` extends the range at both ends,
by pieces that the node's limits may shrink (`scan`, `scanBackwards`). The
range and the Outboxes are written to a file together, before either changes in
memory (`commit`).
-/

namespace MessageRelayer.Ack

open Prog hiding ask

def historyScanBlocks : Nat := 2_000

/-! ## What the node shows -/

/-- A number that fits into 64 bits. -/
abbrev Height := { n : Nat // n ≤ u64Max }

structure HistoryLog where
  address : Address
  topics : List B256
  data : Bytes
  blockNumber : Option Nat
  blockHash : Option B256
  transactionHash : Option B256
  transactionIndex : Option Nat
  logIndex : Option Nat
  removed : Bool
  deriving DecidableEq

structure HistoryReceipt where
  transactionHash : B256
  transactionIndex : Option Nat
  blockNumber : Option Nat
  blockHash : Option B256
  logs : List HistoryLog

/-- `IInbox::SupportedOutboxSet`. -/
structure SupportedOutboxSet where
  outbox : Address
  supported : Bool

/-- The ABI of the event, as the generated bindings have it. -/
structure HistoryCodec where
  signatureHash : B256
  decodeLog : List B256 → Bytes → Except String SupportedOutboxSet

/-! ## The history -/

structure History where
  inbox : Address
  sourceChainId : Nat
  /-- The contiguous range already scanned, both ends included. -/
  scanned : Option (Nat × Nat)
  outboxes : FinSet Address

/-- What the text of a history file says. -/
inductive HistoryText where
  | malformed (text : String)
  | json (history : History)

structure RouteHistory where
  path : Option String
  state : History
  inboxSeeded : Bool
  validatorSeeded : Bool

/-- No historical coverage yet. -/
def History.unread (inbox : Address) (sourceChainId : Nat) : History := ⟨inbox, sourceChainId, none, ∅⟩

def RouteHistory.of (path : Option String) (state : History) : RouteHistory := ⟨path, state, false, false⟩

/-! ## The questions -/

inductive HistoryCall where
  | blockNumber
  /-- `supportedOutboxes` of the Inbox, under its timeout. -/
  | supportedOutboxes (inbox : Address)
  /-- `outbox` of an acknowledgment validator, under its timeout. -/
  | validatorOutbox (authority : Address)
  /-- The `SupportedOutboxSet` logs of a range of blocks. -/
  | getLogs (inbox : Address) (fromBlock toBlock : Nat)
  | getBlock (number : Nat)
  | getBlockReceipts (number : Nat)
  /-- `spawn_blocking`, whose task may be cancelled before it starts. -/
  | spawnBlocking
  | file (c : FileCall HistoryText)

abbrev HistoryCall.Answer : HistoryCall → Type
  | blockNumber => Except String Height
  | supportedOutboxes _ => Rpc (List Address)
  | validatorOutbox _ => Rpc Address
  | getLogs .. => Except String (List HistoryLog)
  | getBlock _ => Except String (Option Block)
  | getBlockReceipts _ => Except String (Option (List HistoryReceipt))
  | spawnBlocking => Except String Unit
  | file c => c.Answer

abbrev HistoryProg := Prog HistoryCall HistoryCall.Answer

abbrev HistoryM := ExceptT Error HistoryProg

def HistoryM.ask (c : HistoryCall) : HistoryM c.Answer := ExceptT.lift (call c)

/-- `.context(..)?` on the answer. -/
def orContext {α : Type} (context : Error) (answer : Except String α) : HistoryM α :=
  orThrow (answer.mapError fun e => context ++ [e])

open HistoryM

/-! ## The logs of a range -/

section
variable (codec : HistoryCodec)

/-- The logs of a receipt that the filter of the range would have; every log must be its own. -/
def receiptLogs (inbox : Address) (receipt : HistoryReceipt) :
    List HistoryLog → Except Error (List HistoryLog)
  | [] => .ok []
  | log :: logs =>
    if log.blockHash ≠ receipt.blockHash ∨ log.blockNumber ≠ receipt.blockNumber ∨
        log.transactionHash ≠ some receipt.transactionHash ∨
        log.transactionIndex ≠ receipt.transactionIndex then
      .error ["support-history log does not belong to its receipt"]
    else do
      let rest ← receiptLogs inbox receipt logs
      if log.address = inbox ∧ log.topics.head? = some codec.signatureHash then pure (log :: rest)
      else pure rest

/-- The logs of the receipts of a block, each of which must be of another transaction of it. -/
def receiptsLogs (inbox : Address) (block : Block) (number : Nat) :
    List HistoryReceipt → FinSet B256 → Except Error (List HistoryLog)
  | [], _ => .ok []
  | receipt :: receipts, seen =>
    let expectedHash := receipt.transactionIndex.bind fun index => block.transactions[index]?
    if receipt.blockNumber ≠ some number ∨ receipt.blockHash ≠ some block.hash ∨
        expectedHash ≠ some receipt.transactionHash ∨ receipt.transactionHash ∈ seen then
      .error ["support-history receipt is missing or mismatches block provenance"]
    else do
      let logs ← receiptLogs codec inbox receipt receipt.logs
      let rest ← receiptsLogs inbox block number receipts (seen.insert receipt.transactionHash)
      pure (logs ++ rest)

/-- The logs of a single block, from its receipts: these are not subject to a limit. -/
def blockLogs (inbox : Address) (number : Nat) : HistoryM (List HistoryLog) := do
  let block ← orContext ["support-history fallback block lookup"] (← ask (.getBlock number))
  let block ← orMissing ["support-history fallback block unavailable"] block
  let expected := block.transactions
  ensure (block.number = number ∧ block.hash ≠ 0 ∧ expected ≠ [] ∧ expected.Nodup)
    ["support-history fallback block has invalid transaction coverage"]
  let receipts ← orContext ["single-block support-history receipt fallback"]
    (← ask (.getBlockReceipts number))
  let receipts ← orMissing ["support-history block receipts unavailable"] receipts
  ensure (receipts.length = expected.length)
    ["support-history fallback receipts do not cover every block transaction"]
  orThrow (receiptsLogs codec inbox block number receipts ∅)

/-- Where a log of the range is not from the range, or not final. -/
def HistoryLog.Misplaced (log : HistoryLog) (fromBlock toBlock : Nat) : Prop :=
  log.removed = true ∨ (log.blockNumber.all fun block => decide (block < fromBlock ∨ toBlock < block)) ∨
    log.blockHash = none ∨ log.transactionHash = none ∨ log.transactionIndex = none ∨
    log.logIndex = none

instance (log : HistoryLog) (fromBlock toBlock : Nat) : Decidable (log.Misplaced fromBlock toBlock) := by
  unfold HistoryLog.Misplaced
  infer_instance

/-- The Outboxes that the logs of a range name, be they added or removed. -/
def namedOutboxes (inbox : Address) (fromBlock toBlock : Nat) :
    List HistoryLog → FinSet Address → Except Error (FinSet Address)
  | [], addresses => .ok addresses
  | log :: logs, addresses =>
    if log.address ≠ inbox then .error ["support-history RPC returned a log from another Inbox"]
    else if log.Misplaced fromBlock toBlock then
      .error ["support-history RPC returned a removed log or invalid provenance"]
    else
      match codec.decodeLog log.topics log.data with
      | .error e => .error ["decoding Inbox support history", e]
      | .ok event =>
        namedOutboxes inbox fromBlock toBlock logs
          (if event.outbox ≠ 0 then addresses.insert event.outbox else addresses)

/-- The Outboxes that were added or removed in a range of blocks. -/
def readRange (inbox : Address) (fromBlock toBlock : Nat) : HistoryM (FinSet Address) := do
  let logs ← match ← ask (.getLogs inbox fromBlock toBlock) with
    | .ok logs => pure logs
    | .error err => if fromBlock = toBlock then blockLogs codec inbox fromBlock else throw [err]
  orThrow (namedOutboxes codec inbox fromBlock toBlock logs ∅)

/-! ## A piece of a range -/

/-- Read a range from its lower end; the piece that was read ends at the returned block. Its callers
have `fromBlock ≤ toBlock`, so that what fails last is a single block. -/
def scan (inbox : Address) (fromBlock toBlock : Nat) : HistoryM (Nat × FinSet Address) := do
  match ← ExceptT.lift (readRange codec inbox fromBlock toBlock).run with
  | .ok addresses => pure (toBlock, addresses)
  | .error err =>
    if fromBlock < toBlock then scan inbox fromBlock (fromBlock + (toBlock - fromBlock) / 2)
    else throw ("scanning Inbox support history" :: err)
termination_by toBlock - fromBlock

/-- The same from its upper end; the piece starts at the returned block. -/
def scanBackwards (inbox : Address) (fromBlock toBlock : Nat) : HistoryM (Nat × FinSet Address) := do
  match ← ExceptT.lift (readRange codec inbox fromBlock toBlock).run with
  | .ok addresses => pure (fromBlock, addresses)
  | .error err =>
    -- `div_ceil`
    if fromBlock < toBlock then
      scanBackwards inbox (fromBlock + (toBlock - fromBlock + 1) / 2) toBlock
    else throw ("backfilling Inbox support history" :: err)
termination_by toBlock - fromBlock

end

/-! ## The operations -/

namespace RouteHistory

/-- Read the file, if there is one. -/
def load (path : Option String) (inbox : Address) (sourceChainId : Nat) : HistoryM RouteHistory :=
  match path with
  | none => pure (.of path (.unread inbox sourceChainId))
  | some _ => do
    match ← ask (.file .read) with
    | .ok (.malformed e) =>
      throw ["invalid settlement route history; refusing to skip history", e]
    | .ok (.json state) =>
      if state.inbox ≠ inbox ∨ state.sourceChainId ≠ sourceChainId then
        throw ["settlement route history belongs to a different Inbox/source chain"]
      else if state.scanned.any fun range => decide (range.2 < range.1) then
        throw ["settlement route history has an invalid scanned range"]
      else pure (.of path state)
    | .error .notFound => pure (.of path (.unread inbox sourceChainId))
    | .error (.other e) => throw ["reading settlement route history", e]

/-- The history as it is written, in a task of its own. -/
def persist (next : History) : HistoryM Unit := do
  orContext ["settlement route history persistence task failed"] (← ask .spawnBlocking)
  ExceptT.mk ((writeAtomic (HistoryText.json next)).run.embed HistoryCall.file fun _ a => a)

/-- The history and its range reach the file before either is published in memory. -/
def commit (h : RouteHistory) (next : History) : HistoryProg (Except Error Unit × RouteHistory) := do
  if h.path.isSome then
    match ← (persist next).run with
    | .error e => pure (.error e, h)
    | .ok () => pure (.ok (), { h with state := next })
  else pure (.ok (), { h with state := next })

/-- Current support, as a hint; it is asked for until it is known. -/
def seed (h : RouteHistory) : HistoryProg (Except Error Unit × RouteHistory) := do
  if h.inboxSeeded then pure (.ok (), h)
  else
    match ← call (HistoryCall.supportedOutboxes h.state.inbox) with
    | Rpc.elapsed => pure (.error ["current Inbox Outbox hint timed out"], h)
    | Rpc.failed e => pure (.error ["reading current Inbox Outboxes", e], h)
    | Rpc.done supported =>
      let (r, h) ← h.commit { h.state with outboxes := h.state.outboxes.insertMany supported }
      match r with
      | .error e => pure (.error e, h)
      | .ok () => pure (.ok (), { h with inboxSeeded := true })

/-- The Outbox of the configured validator, as a hint. -/
def seedValidator (h : RouteHistory) (authority : Address) :
    HistoryProg (Except Error Unit × RouteHistory) := do
  if h.validatorSeeded then pure (.ok (), h)
  else
    match ← call (HistoryCall.validatorOutbox authority) with
    | Rpc.elapsed => pure (.error ["configured validator Outbox hint timed out"], h)
    | Rpc.failed e => pure (.error ["reading configured validator's Outbox hint", e], h)
    | Rpc.done outbox =>
      let (r, h) ← if outbox ≠ 0 then
          h.commit { h.state with outboxes := h.state.outboxes.insert outbox }
        else pure (.ok (), h)
      match r with
      | .error e => pure (.error e, h)
      | .ok () => pure (.ok (), { h with validatorSeeded := true })

section
variable (codec : HistoryCodec)

/-- Scan one more piece above the range. -/
def forward (h : RouteHistory) (low high confirmed : Nat) :
    HistoryProg (Except Error Unit × RouteHistory) := do
  if high < confirmed then
    let toBlock := min confirmed (satAdd64 high historyScanBlocks)
    match ← (scan codec h.state.inbox (high + 1) toBlock).run with
    | .error e => pure (.error e, h)
    | .ok (stop, addresses) =>
      h.commit { h.state with scanned := some (low, stop), outboxes := h.state.outboxes ∪ addresses }
  else pure (.ok (), h)

/-- Scan one more piece below the range, unless the range starts at the genesis. -/
def backward (h : RouteHistory) (low high : Nat) :
    HistoryProg (Except Error Unit × RouteHistory) := do
  if 0 < low then
    match ← (scanBackwards codec h.state.inbox (low - historyScanBlocks) (low - 1)).run with
    | .error e => pure (.error e, h)
    | .ok (start, addresses) =>
      h.commit { h.state with scanned := some (start, high), outboxes := h.state.outboxes ∪ addresses }
  else pure (.ok (), h)

/-- The first piece, at the confirmed head. -/
def begin (h : RouteHistory) (confirmed : Nat) : HistoryProg (Except Error Unit × RouteHistory) := do
  let fromBlock := confirmed - (historyScanBlocks - 1)
  match ← (scanBackwards codec h.state.inbox fromBlock confirmed).run with
  | .error e => pure (.error e, h)
  | .ok (start, addresses) =>
    h.commit { h.state with scanned := some (start, confirmed),
                            outboxes := h.state.outboxes ∪ addresses }

/-- Extend the range at both ends, forward first. -/
def refresh (h : RouteHistory) (confirmationDepth : Nat) :
    HistoryProg (Except Error Unit × RouteHistory) := do
  match ← call HistoryCall.blockNumber with
  | Except.error e => pure (.error [e], h)
  | Except.ok tip =>
    let confirmed := tip.val - confirmationDepth
    match h.state.scanned with
    | none => h.begin codec confirmed
    | some (low, high) =>
      let (r, h) ← h.forward codec low high confirmed
      match r with
      | .error e => pure (.error e, h)
      | .ok () => h.backward codec low (h.state.scanned.elim high (·.2))

end

end RouteHistory

end MessageRelayer.Ack

import MessageRelayer.Checkpoint.Agree
import MessageRelayer.Claim.Submit
import MessageRelayer.Pending

/-!
# The claim worker

`claim::run`: the worker scans the client chain for `Locked` logs
(`discoverLocks`), tracks their transactions, and tries to claim those that are
due (`processPending`). The attempts of a batch run side by side; they are one
question, whose answer has them in the order in which they ended.
-/

namespace MessageRelayer.Claim

open Prog hiding ask

def maxPendingClaims : Nat := 10_000
def maxDoneTracked : Nat := 10_000
def maxClaimsPerTick : Nat := 256
def maxBlocksPerScan : Nat := 2_000
def notReadyRetry : Duration := fromSecs 15
def maxClaimAge : Duration := fromSecs (24 * 60 * 60)

/-! ## The questions of the worker -/

/-- An attempt that has ended, with what it heard. -/
structure Attempt where
  txHash : B256
  keys : List B256
  said : AttemptSaid
  outcome : Except Error ClaimOutcome

inductive ClaimCall where
  | getBlockNumber
  /-- The `Locked` logs of the bridge in a range of blocks. -/
  | getLogs (address : Address) (fromBlock toBlock : Nat)
  | now
  | iter (seen : Map B256 (PendingTx B256))
  | attempts (batch : List (B256 × List B256))

abbrev ClaimCall.Answer : ClaimCall → Type
  | getBlockNumber => Except String Nat
  | getLogs .. => Except String (List Log)
  | now => Instant
  | iter seen => Map.Iteration seen
  | attempts _ => List Attempt

abbrev ClaimProg := Prog ClaimCall ClaimCall.Answer

abbrev ClaimM := ExceptT Error ClaimProg

abbrev ClaimSaid := Said ClaimCall ClaimCall.Answer

def ClaimM.ask (c : ClaimCall) : ClaimM c.Answer := ExceptT.lift (call c)

/-- What the worker has in memory. -/
structure ClaimWorker where
  lastSeen : Nat
  pending : PendingTxs B256
  done : BoundedSeen

def ClaimWorker.new (lastSeen : Nat) : ClaimWorker where
  lastSeen := lastSeen
  pending := .new maxPendingClaims
  done := .new maxDoneTracked

/-! ## Discovery -/

section
variable (codec : ClaimCodec) (route : ClaimRoute)

/-- Track the transactions of `Locked` logs; with those that were evicted for them. -/
def enqueueLocks (done : BoundedSeen) (fromBlock : Nat) :
    List Log → PendingTxs B256 → ClaimProg (PendingTxs B256 × List B256)
  | [], pending => pure (pending, [])
  | log :: logs, pending =>
    match log.transactionHash, codec.decodeLocked log with
    | none, _ | some _, .error _ => enqueueLocks done fromBlock logs pending
    | some txHash, .ok locked =>
      let key := claimKey codec locked
      if done.contains txHash then enqueueLocks done fromBlock logs pending
      else if pending.contains txHash then
        enqueueLocks done fromBlock logs (pending.noteMeta txHash key)
      else do
        let now ← call ClaimCall.now
        let block := log.blockNumber.getD fromBlock
        let (pending, evicted) ←
          pending.insert (fun seen => call (ClaimCall.iter seen)) txHash now block [key]
        let (pending, more) ← enqueueLocks done fromBlock logs pending
        pure (pending, evicted.toList ++ more)

/-- Scan for new `Locked` logs and track their transactions. -/
def discoverLocks (w : ClaimWorker) : ClaimM (ClaimWorker × List B256) := do
  let tip ← orThrow ((← ClaimM.ask .getBlockNumber).mapError ([·]))
  let confirmed := tip - route.confirmationDepth
  if confirmed ≤ w.lastSeen then pure (w, [])
  else
    let fromBlock := w.lastSeen + 1
    let toBlock := min confirmed (satAdd64 w.lastSeen maxBlocksPerScan)
    let answer ← ClaimM.ask (.getLogs route.sourceBridgeAddress fromBlock toBlock)
    let logs ← orThrow (answer.mapError fun e => ["eth_getLogs Locked from " ++ toString fromBlock ++
      " to " ++ toString toBlock ++ " failed", e])
    let (pending, evicted) ← ExceptT.lift (enqueueLocks codec w.done fromBlock logs w.pending)
    pure ({ w with lastSeen := toBlock, pending }, evicted)

/-- Where a worker starts to scan. -/
def resumeCursor (checkpoint : Option Nat) : ClaimM Nat :=
  match checkpoint, route.startBlock with
  | some block, _ => pure (block - route.scanLookbackBlocks)
  | none, some start => pure (start - 1)
  | none, none => do
    let tip ← ClaimM.ask .getBlockNumber
    orThrow (tip.mapError fun e => ["chain_key " ++ toString route.chainKey ++
      ": claim submitter failed to read chain head", e])

/-- The cursor to persist: it never passes a transaction that is still pending. -/
def ClaimWorker.cursor (w : ClaimWorker) : Nat :=
  match w.pending.oldestPendingBlock with
  | none => w.lastSeen
  | some b => min w.lastSeen (b - 1)

end

/-! ## Attempts -/

/-- The transaction is finished. -/
def ClaimWorker.finish (w : ClaimWorker) (txHash : B256) : ClaimWorker :=
  { w with pending := w.pending.remove txHash, done := w.done.insert txHash }

/-- What an attempt's outcome does; with the transaction, if it is finished. -/
def ClaimWorker.settle (w : ClaimWorker) (now : Instant) (a : Attempt) : ClaimWorker × Option B256 :=
  match a.outcome with
  | .ok .claimed => (w.finish a.txHash, some a.txHash)
  | .ok (.terminal _) => (w.finish a.txHash, some a.txHash)
  | .ok .notReady =>
    if (w.pending.age a.txHash now).any (fun age => decide (maxClaimAge < age)) then
      (w.finish a.txHash, some a.txHash)
    else ({ w with pending := w.pending.defer a.txHash (now + notReadyRetry) }, none)
  | .ok (.rejected _) =>
    ({ w with pending := w.pending.defer a.txHash (now + transientBackoffMax) }, none)
  | .error _ => ({ w with pending := w.pending.recordTransientFailure a.txHash now }, none)

def ClaimWorker.settleAll (now : Instant) : List Attempt → ClaimWorker → ClaimWorker × List B256
  | [], w => (w, [])
  | a :: attempts, w =>
    let (w, finished) := w.settle now a
    let (w, more) := settleAll now attempts w
    (w, finished.toList ++ more)

/-- Try every transaction that is due; with those that are finished. -/
def processPending (w : ClaimWorker) : ClaimProg (ClaimWorker × List B256) := do
  let now ← call ClaimCall.now
  let order ← call (ClaimCall.iter w.pending.seen)
  let batch := w.pending.ready maxClaimsPerTick now order
  if batch.isEmpty then pure (w, [])
  else
    let attempts ← call (ClaimCall.attempts batch)
    let now ← call ClaimCall.now
    pure (w.settleAll now attempts)

/-! ## The surroundings -/

section
variable (codec : ClaimCodec) (route : ClaimRoute) (blockOf : B256 → Nat)

/-- What is relied on: block numbers are 64 bits wide, logs lie in the range that was asked for and
carry the number of their transaction's block, and the attempts of a batch are runs of `claimTx`. -/
def Truthful : (c : ClaimCall) → c.Answer → Prop
  | .getBlockNumber, .ok tip => tip ≤ u64Max
  | .getLogs _ fromBlock toBlock, .ok logs => ∀ log ∈ logs, ∃ b, log.blockNumber = some b ∧
      fromBlock ≤ b ∧ b ≤ toBlock ∧ ∀ tx, log.transactionHash = some tx → blockOf tx = b
  | .attempts batch, attempts => (attempts.map fun a => (a.txHash, a.keys)).Perm batch ∧
      ∀ a ∈ attempts, Exec heard (claimTx codec route a.keys a.txHash).run [] a.said a.outcome
  | .getBlockNumber, .error _ | .getLogs .., .error _ | .now, _ | .iter _, _ => True

/-- Surroundings that answer truthfully, and what they said. -/
def claimEnv : Env ClaimCall ClaimCall.Answer ClaimSaid :=
  fun said c a said' => said' = said ++ [⟨c, a⟩] ∧ Truthful codec route blockOf c a

end

end MessageRelayer.Claim

import MessageRelayer.Lib.Runs
import MessageRelayer.Pool.Ops
import MessageRelayer.Source.Cursor
import MessageRelayer.Work.Disk

/-!
# The relayer and its disk

The tasks of the relayer that share its files, as a step relation on the disk
and the process (`HostStep`): the watcher of each route, the vote pool as far
as it uses the store of unfinished messages, and the other watchers that write
cursors to the checkpoint file. A step is a single call of one task, so that
the tasks interleave anywhere; the process may be gone after any step
(`HostStep.crash`) and start again from the disk (`HostStep.boot`).

The mutexes of the two stores are part of the process: an operation has the
cursors or the entries while it runs. Unfinished work is persisted.
-/

namespace MessageRelayer

open Prog hiding ask

/-! ## The source chain -/

/-- The finalized history of the source chain. -/
structure SourceChain (codec : SourceCodec) where
  /-- The `MessagePublished` logs. -/
  published : Log → Prop
  topic : ∀ log, published log → log.topics.head? = some codec.publishedTopic
  discovery : ChainKey → Nat → Bytes
  membership : Address → ChainKey → Address → Nat → Bytes

namespace SourceChain

variable {codec : SourceCodec}

/-- The Outbox of a log was authorized for the route at the log's block. -/
def Authorized (chain : SourceChain codec) (chainKey : ChainKey) (block : Nat) (log : Log) : Prop :=
  ∃ discovery, discoveryOf codec (chain.discovery chainKey block) = .ok (some discovery) ∧
    membershipOf codec (chain.membership discovery chainKey log.address block) = .ok true

/-- The answers of a node that, when it answers, shows the chain: historical reads are those of the
chain, and the logs of a range, a block's transactions and a transaction's logs are complete. -/
def Answers (chain : SourceChain codec) : (c : SourceCall) → c.Answer → Prop
  | .getLogs fromBlock toBlock pinned, .done logs => ∀ log block, chain.published log →
      log.blockNumber = some block → fromBlock ≤ block → block ≤ toBlock →
      (∀ address ∈ pinned, log.address = address) → log ∈ logs
  | .getBlock number, .done (some block) => block.number = number → block.transactions ≠ [] →
      ∀ log, chain.published log → log.blockNumber = some number →
        ∃ hash ∈ block.transactions, log.transactionHash = some hash
  | .getReceipt hash, .done (some receipt) => receipt.transactionHash = hash →
      ∀ log, chain.published log → log.transactionHash = some hash →
        log.blockNumber = receipt.blockNumber → log ∈ receipt.logs
  | .discoveryAddress chainKey block, .done bytes => bytes = chain.discovery chainKey block
  | .isActiveOutbox discovery chainKey outbox block, .done bytes =>
      bytes = chain.membership discovery chainKey outbox block
  | _, _ => True

end SourceChain

/-! ## The process -/

/-- Who runs an operation on the store of unfinished messages. -/
inductive Owner where
  | watcher (chainKey : ChainKey)
  /-- The pool, for a result that it has received or else for a refill. -/
  | pool (result : Option DeliveryResult)

/-- The result that an operation is run for. -/
def Owner.cause : Owner → Option DeliveryResult
  | watcher _ => none
  | pool result => result

/-- The mutex of `WorkStore`. -/
inductive WorkMutex where
  | free (readers : Readers)
  | held (owner : Owner) (c : WorkCall) (op : Prog FsCall FsCall.Answer (c.Answer × Readers))

/-- The mutex of `CheckpointStore`; `owner` is none for a worker other than the source watchers. -/
inductive CheckpointMutex where
  | free (entries : Entries)
  | held (owner : Option ChainKey)
      (op : Prog (FileCall CheckpointText) FileCall.Answer (Except Error Unit × Entries))

/-- Where the watcher of a route is. -/
inductive WatcherPc where
  | absent
  | starting (p : SourceProg (Except Error (SourceRoute × Nat)))
  /-- In its `select!`. -/
  | waiting (source : SourceRoute) (state : ScanState)
  | polling (source : SourceRoute) (state : ScanState) (p : SourceProg (Except Error Unit))
  /-- About to persist its cursor, or doing so. -/
  | persisting (source : SourceRoute) (state : ScanState)
  | ended

/-- Where the pool is in its use of the store. -/
inductive PoolPc where
  | idle
  /-- In the result arm, for `result`, or in a refill. -/
  | running (result : Option DeliveryResult) (p : WorkProg Unit)

structure Process where
  work : WorkMutex
  checkpoint : CheckpointMutex
  watchers : ChainKey → WatcherPc
  pool : PoolPc

/-- A process that has loaded its checkpoints. -/
def Process.start (entries : Entries) : Process where
  work := .free ∅
  checkpoint := .free entries
  watchers := fun _ => .absent
  pool := .idle

def Process.withWatcher (p : Process) (chainKey : ChainKey) (pc : WatcherPc) : Process :=
  { p with watchers := fun c => if c = chainKey then pc else p.watchers c }

/-- Where a watcher is after a poll: a failed one keeps the cursor for a retry. -/
def WatcherPc.polled (source : SourceRoute) (state : ScanState) : Except Error Unit → WatcherPc
  | .ok () => persisting source state
  | .error _ => waiting source state

structure Host where
  disk : Disk
  process : Option Process

/-! ## Steps -/

/-- The calls of a watcher that other tasks answer: they are steps of their own. -/
def SourceCall.shared : SourceCall → Bool
  | cursor _ | record _ => true
  | connect | chainId | prepareRoute .. | finalizedHead | blockNumber | now | setFinality _
  | getLogs .. | getBlock _ | getReceipt _ | discoveryAddress .. | isActiveOutbox .. | send _
  | setLastSeen _ => false

/-- A step of the relayer; `startBlock` is the configured start of each route. -/
inductive HostStep (codec : SourceCodec) (chain : SourceChain codec)
    (startBlock : ChainKey → Option Nat) : Host → Unit → Host → Prop where
  | boot {d : Disk} {entries : Entries}
      (h : Exec (fileEnv false) CheckpointStore.load.run d.checkpoint d.checkpoint (.ok entries)) :
      HostStep codec chain startBlock ⟨d, none⟩ () ⟨d, some (.start entries)⟩
  | crash {d : Disk} {p : Process} : HostStep codec chain startBlock ⟨d, some p⟩ () ⟨d, none⟩
  -- the start of a watcher
  | launch {d : Disk} {p : Process} (route : ChainRoute)
      (hr : route.startBlock = startBlock route.chainKey) (hw : p.watchers route.chainKey = .absent) :
      HostStep codec chain startBlock ⟨d, some p⟩ ()
        ⟨d, some (p.withWatcher route.chainKey (.starting (watchOutbox codec route).run))⟩
  | startAsk {d : Disk} {p : Process} {chainKey : ChainKey} {c : SourceCall}
      {k : c.Answer → SourceProg (Except Error (SourceRoute × Nat))} (a : c.Answer)
      (hw : p.watchers chainKey = .starting (.ask c k)) (hc : c.shared = false) :
      HostStep codec chain startBlock ⟨d, some p⟩ ()
        ⟨d, some (p.withWatcher chainKey (.starting (k a)))⟩
  | readCursor {d : Disk} {p : Process} {chainKey : ChainKey} {key : String}
      {k : (SourceCall.cursor key).Answer → SourceProg (Except Error (SourceRoute × Nat))}
      {entries : Entries} (hw : p.watchers chainKey = .starting (.ask (.cursor key) k))
      (he : p.checkpoint = .free entries) :
      HostStep codec chain startBlock ⟨d, some p⟩ () ⟨d, some (p.withWatcher chainKey
        (.starting (k (CheckpointStore.get entries key, CheckpointStore.hasDurableWork entries key))))⟩
  | started {d : Disk} {p : Process} {chainKey : ChainKey} {source : SourceRoute} {lastSeen : Nat}
      (now : Instant) (hw : p.watchers chainKey = .starting (.ret (.ok (source, lastSeen)))) :
      HostStep codec chain startBlock ⟨d, some p⟩ ()
        ⟨d, some (p.withWatcher chainKey (.waiting source ⟨lastSeen, .new now⟩))⟩
  -- the loop of a watcher
  | poll {d : Disk} {p : Process} {chainKey : ChainKey} {source : SourceRoute} {state : ScanState}
      (hw : p.watchers chainKey = .waiting source state) :
      HostStep codec chain startBlock ⟨d, some p⟩ () ⟨d, some (p.withWatcher chainKey
        (.polling source state
          (pollOnce codec source .finalized true state.finality state.lastSeen).run))⟩
  | pollAsk {d : Disk} {p : Process} {chainKey : ChainKey} {source : SourceRoute} {state : ScanState}
      {c : SourceCall} {k : c.Answer → SourceProg (Except Error Unit)} (a : c.Answer)
      (hw : p.watchers chainKey = .polling source state (.ask c k)) (hc : c.shared = false)
      (ha : chain.Answers c a) :
      HostStep codec chain startBlock ⟨d, some p⟩ ()
        ⟨d, some (p.withWatcher chainKey (.polling source (state.set ⟨c, a⟩) (k a)))⟩
  | polled {d : Disk} {p : Process} {chainKey : ChainKey} {source : SourceRoute} {state : ScanState}
      {r : Except Error Unit} (hw : p.watchers chainKey = .polling source state (.ret r)) :
      HostStep codec chain startBlock ⟨d, some p⟩ ()
        ⟨d, some (p.withWatcher chainKey (.polled source state r))⟩
  | cancelled {d : Disk} {p : Process} {chainKey : ChainKey} {source : SourceRoute}
      {state : ScanState} (hw : p.watchers chainKey = .waiting source state) :
      HostStep codec chain startBlock ⟨d, some p⟩ () ⟨d, some (p.withWatcher chainKey .ended)⟩
  -- the checkpoint file
  | persist {d : Disk} {p : Process} {chainKey : ChainKey} {source : SourceRoute} {state : ScanState}
      {entries : Entries} (hw : p.watchers chainKey = .persisting source state)
      (he : p.checkpoint = .free entries) :
      HostStep codec chain startBlock ⟨d, some p⟩ () ⟨d, some { p with
        checkpoint := .held (some chainKey) (CheckpointStore.setJournaled entries
          (checkpointKey codec source.chainKey source.outboxOverride) state.lastSeen none) }⟩
  /-- Another worker, for acknowledgements or claims, persists its cursor. -/
  | persistOther {d : Disk} {p : Process} {entries : Entries} (worker : String) (chainKey : ChainKey)
      (block : Nat) (hk : worker = "ack:" ∨ worker = "claim:") (he : p.checkpoint = .free entries) :
      HostStep codec chain startBlock ⟨d, some p⟩ () ⟨d, some { p with
        checkpoint := .held none (CheckpointStore.set entries (worker ++ toString chainKey) block) }⟩
  | fileCall {d : Disk} {p : Process} {owner : Option ChainKey} {c : FileCall CheckpointText}
      {k : c.Answer → Prog (FileCall CheckpointText) FileCall.Answer (Except Error Unit × Entries)}
      {a : c.Answer} {file : Option CheckpointText} (he : p.checkpoint = .held owner (.ask c k))
      (ha : fileEnv false d.checkpoint c a file) :
      HostStep codec chain startBlock ⟨d, some p⟩ ()
        ⟨{ d with checkpoint := file }, some { p with checkpoint := .held owner (k a) }⟩
  | persisted {d : Disk} {p : Process} {chainKey : ChainKey} {source : SourceRoute} {state : ScanState}
      {r : Except Error Unit × Entries} (hw : p.watchers chainKey = .persisting source state)
      (he : p.checkpoint = .held (some chainKey) (.ret r)) :
      HostStep codec chain startBlock ⟨d, some p⟩ () ⟨d, some
        ({ p with checkpoint := .free r.2 }.withWatcher chainKey (.waiting source state))⟩
  | persistedOther {d : Disk} {p : Process} {r : Except Error Unit × Entries}
      (he : p.checkpoint = .held none (.ret r)) :
      HostStep codec chain startBlock ⟨d, some p⟩ () ⟨d, some { p with checkpoint := .free r.2 }⟩
  -- the store of unfinished messages
  | record {d : Disk} {p : Process} {chainKey : ChainKey} {source : SourceRoute} {state : ScanState}
      {message : IndexedMessage} {k : (SourceCall.record message).Answer → SourceProg (Except Error Unit)}
      {readers : Readers} (hw : p.watchers chainKey = .polling source state (.ask (.record message) k))
      (hs : p.work = .free readers) :
      HostStep codec chain startBlock ⟨d, some p⟩ () ⟨d, some { p with
        work := .held (.watcher chainKey) (.record message)
          ((WorkCall.body (.record message)).run.run readers) }⟩
  | recorded {d : Disk} {p : Process} {chainKey : ChainKey} {source : SourceRoute} {state : ScanState}
      {message : IndexedMessage} {k : (SourceCall.record message).Answer → SourceProg (Except Error Unit)}
      {r : (WorkCall.record message).Answer × Readers}
      (hw : p.watchers chainKey = .polling source state (.ask (.record message) k))
      (hs : p.work = .held (.watcher chainKey) (.record message) (.ret r)) :
      HostStep codec chain startBlock ⟨d, some p⟩ () ⟨d, some
        ({ p with work := .free r.2 }.withWatcher chainKey (.polling source state (k r.1)))⟩
  | fsCall {d d' : Disk} {p : Process} {owner : Owner} {w : WorkCall} {c : FsCall}
      {k : c.Answer → Prog FsCall FsCall.Answer (w.Answer × Readers)} {a : c.Answer}
      (hs : p.work = .held owner w (.ask c k)) (ha : diskEnv owner.cause d c a d') :
      HostStep codec chain startBlock ⟨d, some p⟩ () ⟨d', some { p with work := .held owner w (k a) }⟩
  -- the pool
  | result {d : Disk} {p : Process} (result : DeliveryResult) (hp : p.pool = .idle) :
      HostStep codec chain startBlock ⟨d, some p⟩ ()
        ⟨d, some { p with pool := .running (some result) (completeFinal result >>= fun _ => pure ()) }⟩
  | refill {d : Disk} {p : Process} (s : State) (now : Instant) (clock : B256 → Instant × Instant)
      (hp : p.pool = .idle) :
      HostStep codec chain startBlock ⟨d, some p⟩ ()
        ⟨d, some { p with pool := .running none (s.refill now clock >>= fun _ => pure ()) }⟩
  | poolAsk {d : Disk} {p : Process} {result : Option DeliveryResult} {c : WorkCall}
      {k : c.Answer → WorkProg Unit} {readers : Readers} (hp : p.pool = .running result (.ask c k))
      (hs : p.work = .free readers) :
      HostStep codec chain startBlock ⟨d, some p⟩ ()
        ⟨d, some { p with work := .held (.pool result) c (c.body.run.run readers) }⟩
  | poolAnswered {d : Disk} {p : Process} {result : Option DeliveryResult} {c : WorkCall}
      {k : c.Answer → WorkProg Unit} {r : c.Answer × Readers} (hp : p.pool = .running result (.ask c k))
      (hs : p.work = .held (.pool result) c (.ret r)) :
      HostStep codec chain startBlock ⟨d, some p⟩ ()
        ⟨d, some { p with work := .free r.2, pool := .running result (k r.1) }⟩
  | poolDone {d : Disk} {p : Process} {result : Option DeliveryResult}
      (hp : p.pool = .running result (.ret ())) :
      HostStep codec chain startBlock ⟨d, some p⟩ () ⟨d, some { p with pool := .idle }⟩

end MessageRelayer

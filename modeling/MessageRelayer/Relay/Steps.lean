import MessageRelayer.Pool.Slots
import MessageRelayer.Source.Host
import MessageRelayer.Work.Disk

/-!
# The contents of messages, from the scan to the pool

The relayer as a step relation on all the places that hold the content of a
source message (`RelayStep`): the records on disk, the polls of the watchers,
the channel to the vote pool, and the slots of the pool. `Source.Host` has the
same tasks and lets the pool be in any state; here its state is part of the
system, with all its operations (`PoolOp`).

An operation on the store holds its mutex, so it is a single step, which the
end of the process may cut anywhere. A poll and a refill take a step for each
of their calls, and the tasks interleave between these. Unfinished work is
persisted, so a message that does not fit into the pool stays on disk.
-/

namespace MessageRelayer

open Prog hiding ask

/-- Where the pool is in its use of the store. -/
inductive PoolTask where
  | idle
  /-- Awaiting `work.complete` for a final result. -/
  | completing (result : DeliveryResult)
  /-- In `refill`, with what is left of it. -/
  | refilling (p : WorkProg (State × Except Error (List DeliveryJob)))

/-- The process of the relayer. -/
structure RelayProcess where
  readers : Readers
  /-- The polls under way, each with what is left of it. -/
  polls : ChainKey → Option (SourceProg (Except Error Unit))
  /-- The channel from the watchers to the pool. -/
  indexed : List IndexedMessage
  pool : State
  task : PoolTask

/-- A process that has just started. -/
def RelayProcess.start (routes : List RouteAttestors) (cache : VoteCacheConfig) : RelayProcess where
  readers := ∅
  polls := fun _ => none
  indexed := []
  pool := .new routes cache
  task := .idle

def RelayProcess.withPoll (p : RelayProcess) (chainKey : ChainKey)
    (q : Option (SourceProg (Except Error Unit))) : RelayProcess :=
  { p with polls := fun c => if c = chainKey then q else p.polls c }

/-- The disk, and the process while it runs. -/
structure Relay where
  disk : Disk
  process : Option RelayProcess

inductive RelayEvent where
  | internal
  /-- A watcher records the message of an authorized log. -/
  | found (message : IndexedMessage)
  /-- The pool removes the record of a final message. -/
  | completing (chainKey : ChainKey) (messageId : B256)

/-- The operations of the arms of the pool's loop that use neither the store nor the channel. -/
def PoolOp.inMemory : PoolOp → Bool
  | noteIndexed .. | refill .. => false
  | noteDeliveryResult result _ _ _ => !result.outcome.final
  | noteVote .. | applyAttestorSet .. | requeueDelivery .. | pruneExpired _
  | collectReadyDeliveries _ | collectStalledReobservations _ => true

inductive RelayStep (ecrecover : Ecrecover) (codec : SourceCodec) (chain : SourceChain codec) :
    Relay → RelayEvent → Relay → Prop where
  | boot {d : Disk} (routes : List RouteAttestors) (cache : VoteCacheConfig) :
      RelayStep ecrecover codec chain ⟨d, none⟩ .internal ⟨d, some (.start routes cache)⟩
  | crash {d : Disk} {p : RelayProcess} :
      RelayStep ecrecover codec chain ⟨d, some p⟩ .internal ⟨d, none⟩
  -- a watcher
  | poll {d : Disk} {p : RelayProcess} (source : SourceRoute) (policy : FinalityPolicy)
      (finality : FinalityTracker) (lastSeen : Nat) (hq : p.polls source.chainKey = none) :
      RelayStep ecrecover codec chain ⟨d, some p⟩ .internal ⟨d, some (p.withPoll source.chainKey
        (some (pollOnce codec source policy true finality lastSeen).run))⟩
  | ask {d : Disk} {p : RelayProcess} {chainKey : ChainKey} {c : SourceCall}
      {k : c.Answer → SourceProg (Except Error Unit)} (a : c.Answer)
      (hq : p.polls chainKey = some (.ask c k)) (hc : c.shared = false)
      (hs : ∀ message, c ≠ .send message) (ha : chain.Answers c a) :
      RelayStep ecrecover codec chain ⟨d, some p⟩ .internal
        ⟨d, some (p.withPoll chainKey (some (k a)))⟩
  | record {d d' : Disk} {p : RelayProcess} {chainKey : ChainKey} {message : IndexedMessage}
      {k : (SourceCall.record message).Answer → SourceProg (Except Error Unit)}
      {a : (WorkCall.record message).Answer} {readers : Readers}
      (hq : p.polls chainKey = some (.ask (.record message) k))
      (h : storeEnv (trueDisk none) (p.readers, d) (.record message) a (readers, d')) :
      RelayStep ecrecover codec chain ⟨d, some p⟩ (.found message)
        ⟨d', some ({ p with readers }.withPoll chainKey (some (k a)))⟩
  | recordCut {d d' : Disk} {p : RelayProcess} {chainKey : ChainKey} {message : IndexedMessage}
      {k : (SourceCall.record message).Answer → SourceProg (Except Error Unit)}
      (hq : p.polls chainKey = some (.ask (.record message) k))
      (h : Cut (trueDisk none) ((WorkCall.body (.record message)).run.run p.readers) d d') :
      RelayStep ecrecover codec chain ⟨d, some p⟩ (.found message) ⟨d', none⟩
  | send {d : Disk} {p : RelayProcess} {chainKey : ChainKey} {message : IndexedMessage}
      {k : (SourceCall.send message).Answer → SourceProg (Except Error Unit)}
      (hq : p.polls chainKey = some (.ask (.send message) k)) :
      RelayStep ecrecover codec chain ⟨d, some p⟩ .internal
        ⟨d, some ({ p with indexed := p.indexed ++ [message] }.withPoll chainKey (some (k .sent)))⟩
  /-- The cancellation came first, or the pool is gone. -/
  | unsent {d : Disk} {p : RelayProcess} {chainKey : ChainKey} {message : IndexedMessage}
      {k : (SourceCall.send message).Answer → SourceProg (Except Error Unit)} (a : Sent)
      (hq : p.polls chainKey = some (.ask (.send message) k)) (ha : a ≠ .sent) :
      RelayStep ecrecover codec chain ⟨d, some p⟩ .internal
        ⟨d, some (p.withPoll chainKey (some (k a)))⟩
  | polled {d : Disk} {p : RelayProcess} {chainKey : ChainKey} {r : Except Error Unit}
      (hq : p.polls chainKey = some (.ret r)) :
      RelayStep ecrecover codec chain ⟨d, some p⟩ .internal ⟨d, some (p.withPoll chainKey none)⟩
  -- the pool
  | index {d : Disk} {p : RelayProcess} {message : IndexedMessage} {indexed : List IndexedMessage}
      (insertedAt now : Instant) (ht : p.task = .idle) (hi : p.indexed = message :: indexed)
      (hc : p.pool.canIndex message = true) :
      RelayStep ecrecover codec chain ⟨d, some p⟩ .internal ⟨d, some { p with
        indexed, pool := ((PoolOp.noteIndexed message insertedAt now).apply ecrecover p.pool).1 }⟩
  | full {d : Disk} {p : RelayProcess} {message : IndexedMessage} {indexed : List IndexedMessage}
      (ht : p.task = .idle) (hi : p.indexed = message :: indexed)
      (hc : p.pool.canIndex message = false) :
      RelayStep ecrecover codec chain ⟨d, some p⟩ .internal ⟨d, some { p with indexed }⟩
  | operate {d : Disk} {p : RelayProcess} (op : PoolOp) (ht : p.task = .idle)
      (ho : op.inMemory = true) :
      RelayStep ecrecover codec chain ⟨d, some p⟩ .internal
        ⟨d, some { p with pool := (op.apply ecrecover p.pool).1 }⟩
  | complete {d : Disk} {p : RelayProcess} (result : DeliveryResult) (ht : p.task = .idle)
      (hf : result.outcome.final = true) :
      RelayStep ecrecover codec chain ⟨d, some p⟩ .internal
        ⟨d, some { p with task := .completing result }⟩
  | completed {d d' : Disk} {p : RelayProcess} {result : DeliveryResult} {readers : Readers}
      (now later : Instant) (wall : Option Nat) (ht : p.task = .completing result)
      (h : storeEnv (trueDisk (some result)) (p.readers, d)
        (.complete result.chainKey result.messageId) (.ok ()) (readers, d')) :
      RelayStep ecrecover codec chain ⟨d, some p⟩ (.completing result.chainKey result.messageId)
        ⟨d', some { p with
          readers, task := .idle, pool := p.pool.noteDeliveryResult result now later wall }⟩
  /-- The pool ends where the completion fails. -/
  | completeCut {d d' : Disk} {p : RelayProcess} {result : DeliveryResult}
      (ht : p.task = .completing result)
      (h : Cut (trueDisk (some result))
        ((WorkCall.body (.complete result.chainKey result.messageId)).run.run p.readers) d d') :
      RelayStep ecrecover codec chain ⟨d, some p⟩ (.completing result.chainKey result.messageId)
        ⟨d', none⟩
  | refill {d : Disk} {p : RelayProcess} (now : Instant) (clock : B256 → Instant × Instant)
      (ht : p.task = .idle) :
      RelayStep ecrecover codec chain ⟨d, some p⟩ .internal
        ⟨d, some { p with task := .refilling (p.pool.refill now clock) }⟩
  | refillAsk {d d' : Disk} {p : RelayProcess} {c : WorkCall}
      {k : c.Answer → WorkProg (State × Except Error (List DeliveryJob))} {a : c.Answer}
      {readers : Readers} (ht : p.task = .refilling (.ask c k))
      (h : storeEnv (trueDisk none) (p.readers, d) c a (readers, d')) :
      RelayStep ecrecover codec chain ⟨d, some p⟩ .internal
        ⟨d', some { p with readers, task := .refilling (k a) }⟩
  | refillCut {d d' : Disk} {p : RelayProcess} {c : WorkCall}
      {k : c.Answer → WorkProg (State × Except Error (List DeliveryJob))}
      (ht : p.task = .refilling (.ask c k))
      (h : Cut (trueDisk none) (c.body.run.run p.readers) d d') :
      RelayStep ecrecover codec chain ⟨d, some p⟩ .internal ⟨d', none⟩
  /-- The pool ends where the refill fails. -/
  | refilled {d : Disk} {p : RelayProcess} {pool : State} {jobs : List DeliveryJob}
      (ht : p.task = .refilling (.ret (pool, .ok jobs))) :
      RelayStep ecrecover codec chain ⟨d, some p⟩ .internal
        ⟨d, some { p with pool, task := .idle }⟩

end MessageRelayer

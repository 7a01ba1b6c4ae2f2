import Mathlib.Logic.Function.Basic
import MessageRelayer.Basic
import MessageRelayer.Lib.Prog

/-!
# Broadcasts, one at a time

`broadcast::BroadcastLocks`: a send waits in line for the slot of its signer
(a tokio mutex, first come first served), reads the signer's pending nonce from
the node and broadcasts while it holds the slot, and gives the slot back. Both
waits are bounded. `broadcast` is the program of one send; `SendStep` runs any
number of them against the slots, the clock and the nodes: a send may fail at
any point, or hang. Timers fire when they are due, and a program runs on
without delay between its waits, so time passes only while every send waits
and none is overdue.
-/

namespace MessageRelayer.BroadcastLocks

open Prog

/-! ## One send -/

/-- Upper bound on waiting for a signer's broadcast slot. -/
def queueTimeout : Duration := fromSecs 120

/-- Why a serialized broadcast did not complete. -/
inductive Stalled where
  | queue (within : Duration)
  /-- The transaction may have reached the node. -/
  | broadcast (within : Duration)

/-- What the send itself came to: the node has taken the transaction, or an error. -/
inductive SendOutput where
  | sent
  | failed
  deriving DecidableEq

inductive LockCall where
  /-- `lock_owned` on the slot of the signer, which `slot_for` makes on first use. -/
  | lockOwned (signer : Address) (within : Duration)
  /-- The future `send`. -/
  | send (within : Duration)
  /-- The guard is dropped. -/
  | dropGuard (signer : Address)

/-- None where the time elapsed. -/
abbrev LockCall.Answer : LockCall → Type
  | lockOwned .. => Option Unit
  | send _ => Option SendOutput
  | dropGuard _ => Unit

/-- In line for the slot of the signer. -/
def lockOwned (signer : Address) (within : Duration) : Prog LockCall LockCall.Answer (Option Unit) :=
  call (LockCall.lockOwned signer within)

def sendWithin (within : Duration) : Prog LockCall LockCall.Answer (Option SendOutput) :=
  call (LockCall.send within)

def dropGuard (signer : Address) : Prog LockCall LockCall.Answer Unit :=
  call (LockCall.dropGuard signer)

abbrev SendProg := Prog LockCall LockCall.Answer (Except Stalled SendOutput)

/-- Run `send` as the only broadcast for `signer` (`BroadcastLocks::broadcast`). -/
def broadcast (signer : Address) (timeout : Duration) : SendProg := do
  match ← lockOwned signer queueTimeout with
  | none => pure (.error (.queue queueTimeout))
  | some () =>
    let output ← sendWithin timeout
    dropGuard signer
    pure (output.elim (.error (.broadcast timeout)) .ok)

/-! ## The nodes -/

/-- The transactions of a signer that the chain accepted. -/
structure Account where
  /-- The first nonce that was free. -/
  base : Nat
  accepted : List Nat

/-- The pending nonce: the first that is still free. -/
def Account.pending (a : Account) : Nat :=
  (((List.range (a.accepted.length + 1)).map (a.base + ·)).find? fun n =>
    decide (n ∉ a.accepted)).getD a.base

/-! ## Many sends -/

/-- A send under way. -/
structure Sender where
  signer : Address
  timeout : Duration
  /-- What is left of its program. -/
  rest : SendProg
  /-- When its timer was started. -/
  since : Instant
  /-- The nonce that was filled in. -/
  nonce : Option Nat
  accepted : Bool

/-- The slot of a signer: who holds the guard, and who waits for it, in order. -/
structure Slot where
  holder : Option Nat
  line : List Nat

structure SendState where
  now : Instant
  senders : Nat → Option Sender
  slots : Address → Slot
  accounts : Address → Account

namespace SendState

def setSender (s : SendState) (id : Nat) (t : Sender) : SendState :=
  { s with senders := Function.update s.senders id (some t) }

def setSlot (s : SendState) (signer : Address) (slot : Slot) : SendState :=
  { s with slots := Function.update s.slots signer slot }

def setAccount (s : SendState) (signer : Address) (a : Account) : SendState :=
  { s with accounts := Function.update s.accounts signer a }

end SendState

/-- Whether a send still waits at an instant. -/
def Sender.Waits (t : Sender) (at' : Instant) : Prop :=
  match t.rest with
  | .ret _ => True
  | .ask (.lockOwned _ within) _ | .ask (.send within) _ => at' ≤ t.since + within
  | .ask (.dropGuard _) _ => False

inductive SendEvent where
  | start (id : Nat) (signer : Address) (timeout : Duration)
  | lock (id : Nat)
  | lockElapsed (id : Nat)
  | read (id : Nat)
  | accept (id : Nat)
  | sendDone (id : Nat) (output : SendOutput)
  | sendElapsed (id : Nat)
  | dropGuard (id : Nat)
  | tick (d : Duration)

/-- What the sends, the clock and the nodes may do. -/
inductive SendStep : SendState → SendEvent → SendState → Prop where
  /-- A worker calls `broadcast`, and is in line. -/
  | start {s : SendState} {id : Nat} {signer : Address} {timeout : Duration} :
      s.senders id = none →
      SendStep s (.start id signer timeout)
        ((s.setSender id
          { signer, timeout, rest := broadcast signer timeout, since := s.now, nonce := none,
            accepted := false }).setSlot signer
          { s.slots signer with line := (s.slots signer).line ++ [id] })
  /-- The first in line takes a free slot, and starts to send. -/
  | lock {s : SendState} {id : Nat} {t : Sender} {signer : Address} {within : Duration}
      {k : Option Unit → SendProg} {line : List Nat} :
      s.senders id = some t → t.rest = .ask (.lockOwned signer within) k →
      s.slots signer = { holder := none, line := id :: line } →
      SendStep s (.lock id)
        ((s.setSender id { t with rest := k (some ()), since := s.now }).setSlot signer
          { holder := some id, line })
  | lockElapsed {s : SendState} {id : Nat} {t : Sender} {signer : Address} {within : Duration}
      {k : Option Unit → SendProg} :
      s.senders id = some t → t.rest = .ask (.lockOwned signer within) k →
      t.since + within ≤ s.now →
      SendStep s (.lockElapsed id)
        ((s.setSender id { t with rest := k none, since := s.now }).setSlot signer
          { s.slots signer with line := (s.slots signer).line.filter (· != id) })
  /-- The nonce filler reads the pending nonce, from the node that takes the broadcast. -/
  | read {s : SendState} {id : Nat} {t : Sender} {within : Duration}
      {k : Option SendOutput → SendProg} :
      s.senders id = some t → t.rest = .ask (.send within) k → t.nonce = none →
      SendStep s (.read id) (s.setSender id { t with nonce := some (s.accounts t.signer).pending })
  /-- The transaction reaches the node, which takes it. -/
  | accept {s : SendState} {id n : Nat} {t : Sender} {within : Duration}
      {k : Option SendOutput → SendProg} :
      s.senders id = some t → t.rest = .ask (.send within) k → t.nonce = some n →
      t.accepted = false →
      SendStep s (.accept id)
        ((s.setSender id { t with accepted := true }).setAccount t.signer
          { s.accounts t.signer with accepted := (s.accounts t.signer).accepted ++ [n] })
  /-- The send returns, sent only if the node has taken it. -/
  | sendDone {s : SendState} {id : Nat} {t : Sender} {within : Duration}
      {k : Option SendOutput → SendProg} {output : SendOutput} :
      s.senders id = some t → t.rest = .ask (.send within) k →
      (output = .sent → t.accepted = true) →
      SendStep s (.sendDone id output)
        (s.setSender id { t with rest := k (some output), since := s.now })
  | sendElapsed {s : SendState} {id : Nat} {t : Sender} {within : Duration}
      {k : Option SendOutput → SendProg} :
      s.senders id = some t → t.rest = .ask (.send within) k → t.since + within ≤ s.now →
      SendStep s (.sendElapsed id) (s.setSender id { t with rest := k none, since := s.now })
  | dropGuard {s : SendState} {id : Nat} {t : Sender} {signer : Address} {k : Unit → SendProg} :
      s.senders id = some t → t.rest = .ask (.dropGuard signer) k →
      SendStep s (.dropGuard id)
        ((s.setSender id { t with rest := k () }).setSlot signer
          { s.slots signer with holder := none })
  | tick {s : SendState} {d : Duration} :
      (∀ id t, s.senders id = some t → t.Waits (s.now + d)) →
      SendStep s (.tick d) { s with now := s.now + d }

end MessageRelayer.BroadcastLocks

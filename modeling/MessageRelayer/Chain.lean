import MessageRelayer.Files

/-!
# Chains as their nodes show them

The answers of a chain's JSON-RPC node that the relayer's scans read: blocks,
logs and receipts, each within a timeout (`Rpc`).
-/

namespace MessageRelayer

open Prog

/-- The answer of a node to a call under `tokio::time::timeout`. -/
inductive Rpc (α : Type) where
  | elapsed
  | failed (text : String)
  | done (answer : α)

structure Log where
  address : Address
  topics : List B256
  data : Bytes
  blockNumber : Option Nat
  blockHash : Option B256
  transactionHash : Option B256
  removed : Bool
  deriving DecidableEq

/-- A block with the hashes of its transactions. -/
structure Block where
  number : Nat
  hash : B256
  transactions : List B256
  inRange : number ≤ u64Max

structure Receipt where
  transactionHash : B256
  blockNumber : Option Nat
  blockHash : Option B256
  /-- Whether the transaction succeeded. -/
  status : Bool
  logs : List Log
  deriving DecidableEq

/-! ## Programs that fail -/

section
variable {E : Type} {A : E → Type} {α : Type}

/-- `.context(late)?` on the timeout, then `?` on the call in its own contexts. -/
def orTimeout (late context : Error) : Rpc α → ExceptT Error (Prog E A) α
  | .elapsed => throw late
  | .failed text => throw (context ++ [text])
  | .done answer => pure answer

/-- `.context(missing)?` on an option. -/
def orMissing (missing : Error) : Option α → ExceptT Error (Prog E A) α
  | none => throw missing
  | some a => pure a

/-- `anyhow::ensure!`. -/
def ensure (p : Prop) [Decidable p] (error : Error) : ExceptT Error (Prog E A) Unit :=
  if p then pure () else throw error

/-- A result that is at hand. -/
def orThrow : Except Error α → ExceptT Error (Prog E A) α
  | .ok a => pure a
  | .error e => throw e

variable {W : Type} {H : Env E A W} {G : W → E → Prop}

@[simp] theorem wp_orTimeout (late context : Error) (r : Rpc α) (w : W)
    (Q : W → Except Error α → Prop) : wp H (orTimeout late context r).run w Q ↔
      match r with
      | .elapsed => Q w (.error late)
      | .failed text => Q w (.error (context ++ [text]))
      | .done answer => Q w (.ok answer) := by cases r <;> exact Iff.rfl

@[simp] theorem wp_orMissing (missing : Error) (o : Option α) (w : W)
    (Q : W → Except Error α → Prop) : wp H (orMissing missing o).run w Q ↔
      match o with
      | none => Q w (.error missing)
      | some a => Q w (.ok a) := by cases o <;> exact Iff.rfl

@[simp] theorem wp_ensure (p : Prop) [Decidable p] (error : Error) (w : W)
    (Q : W → Except Error Unit → Prop) : wp H (ensure p error).run w Q ↔
      if p then Q w (.ok ()) else Q w (.error error) := by
  rw [ensure]; split <;> exact Iff.rfl

@[simp] theorem wp_orThrow (r : Except Error α) (w : W) (Q : W → Except Error α → Prop) :
    wp H (orThrow r).run w Q ↔ Q w r := by cases r <;> exact Iff.rfl

@[simp] theorem asks_orTimeout (late context : Error) (r : Rpc α) (w : W) :
    asks H G (orTimeout late context r).run w := by cases r <;> trivial

@[simp] theorem asks_orMissing (missing : Error) (o : Option α) (w : W) :
    asks H G (orMissing missing o).run w := by cases o <;> trivial

@[simp] theorem asks_ensure (p : Prop) [Decidable p] (error : Error) (w : W) :
    asks H G (ensure p error).run w := by rw [ensure]; split <;> trivial

@[simp] theorem asks_orThrow (r : Except Error α) (w : W) : asks H G (orThrow r).run w := by
  cases r <;> trivial

variable {P : E → Prop}

theorem only_orThrow (r : Except Error α) :
    Only P (orThrow r : ExceptT Error (Prog E A) α).run := by cases r <;> trivial

theorem only_orMissing (missing : Error) (o : Option α) :
    Only P (orMissing missing o : ExceptT Error (Prog E A) α).run := by cases o <;> trivial

theorem only_ensure (p : Prop) [Decidable p] (error : Error) :
    Only P (ensure p error : ExceptT Error (Prog E A) Unit).run := by rw [ensure]; split <;> trivial

end

end MessageRelayer

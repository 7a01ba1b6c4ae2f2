import MessageRelayer.Files
import MessageRelayer.Lib.Map

/-!
# The budget of failed retries

`delivery::failed_retry::FailedRetries`: how often a message whose destination
call failed was retried, and when it may be again. One route's delivery worker
holds a copy in memory (the state of `LedgerM`) and, when persistence is
enabled, one file per message beside the unfinished messages; what it reads is
the stricter of the two (`stricter`), so that a failed write or read never
hands a message a fresh budget within a process.
-/

namespace MessageRelayer

open Prog

/-! ## The schedule -/

/-- Bookkeeping of one message's retries (`work::FailedRetryState`). -/
structure FailedRetryState where
  /-- The retries that were broadcast. -/
  attempts : Nat
  /-- The Unix second before which the next one must not be sent. -/
  nextAttemptAt : Nat
  /-- When the relayer stopped retrying; a tombstone. -/
  gaveUpAt : Option Nat
  deriving DecidableEq

def FailedRetryState.default : FailedRetryState := ⟨0, 0, none⟩

/-- How a route retries (`config::FailedRetryPolicy`). -/
structure FailedRetryPolicy where
  maxAttempts : Nat
  initialBackoffSecs : Nat
  maxBackoffSecs : Nat
  inRange : maxAttempts ≤ u32Max

/-- Seconds before the next retry when `attempts` have been spent; a shift by the width of a `u64`
or more is none. -/
def FailedRetryPolicy.backoff (policy : FailedRetryPolicy) (attempts : Nat) : Nat :=
  let factor := if attempts < 64 then 2 ^ attempts else u64Max
  min (satMul64 policy.initialBackoffSecs factor) policy.maxBackoffSecs

/-- Two views of the same message, combined to the one that spends less. -/
def stricter (a b : FailedRetryState) : FailedRetryState where
  attempts := max a.attempts b.attempts
  nextAttemptAt := max a.nextAttemptAt b.nextAttemptAt
  gaveUpAt := a.gaveUpAt.or b.gaveUpAt

/-- What the worker may do with a candidate for a retry. -/
inductive Gate where
  | proceed
  /-- Too early; the retry is due at this Unix second. -/
  | wait (due : Nat)
  /-- The budget is spent, or was given up. -/
  | giveUp (state : FailedRetryState)
  deriving DecidableEq

/-! ## The files -/

/-- What the text of a message's file says. -/
inductive SidecarText where
  | malformed (text : String)
  | state (state : FailedRetryState)

/-- The calls on the directory of a route's files. -/
inductive SidecarCall where
  /-- `create_dir_durable` of the directory. -/
  | createDir (id : B256)
  | tryExists (id : B256)
  | file (id : B256) (c : FileCall SidecarText)
  | syncDir (id : B256)

abbrev SidecarCall.Result : SidecarCall → Type
  | createDir _ | syncDir _ => Unit
  | tryExists _ => Bool
  | file _ c => c.Result

abbrev SidecarCall.Answer (c : SidecarCall) : Type := Except IoError c.Result

/-- An operation on the files, which may fail. -/
abbrev SidecarM := ExceptT Error (Prog SidecarCall SidecarCall.Answer)

namespace SidecarM

/-- A call whose failure is the operation's. -/
def io (context : Error) (c : SidecarCall) : SidecarM c.Result := do
  match ← ExceptT.lift (call c) with
  | .ok a => pure a
  | .error e => throw (context ++ [e.text])

end SidecarM

open SidecarM

namespace WorkStore

/-- The persisted state of a message, if any. -/
def failedRetry (id : B256) : SidecarM (Option FailedRetryState) := do
  match ← ExceptT.lift (call (SidecarCall.file id .read)) with
  | .ok (SidecarText.state state) => pure (some state)
  | .ok (SidecarText.malformed text) => throw ["decoding failed-retry state", text]
  | .error .notFound => pure none
  | .error (.other e) => throw ["reading failed-retry state", e]

/-- Replace the persisted state of a message. -/
def putFailedRetry (id : B256) (state : FailedRetryState) : SidecarM Unit := do
  io ["creating pending-message directory"] (.createDir id)
  let existed ← io ["checking failed-retry state"] (.tryExists id)
  ExceptT.mk ((writeAtomic (SidecarText.state state)).run.embed (SidecarCall.file id) fun _ a => a)
  if existed then pure () else io ["syncing pending-message directory"] (.syncDir id)

/-- Drop the persisted state of a message. -/
def forgetFailedRetry (id : B256) : SidecarM Unit := do
  match ← ExceptT.lift (call (SidecarCall.file id .remove)) with
  | .ok () => io ["syncing pending-message directory"] (.syncDir id)
  | .error .notFound => pure ()
  | .error (.other e) => throw ["removing failed-retry state", e]

end WorkStore

/-! ## The ledger -/

abbrev Memory := Map B256 FailedRetryState

/-- An operation of the ledger, on its copy in memory. -/
abbrev LedgerM := StateT Memory (Prog SidecarCall SidecarCall.Answer)

namespace FailedRetries

/-- An operation on the files. -/
def sidecar {α : Type} (m : SidecarM α) : LedgerM (Except Error α) := StateT.lift m.run

def modify (f : Memory → Memory) : LedgerM Unit := StateT.modifyGet fun memory => ((), f memory)

/-- Both views of a message. -/
def merge : Option FailedRetryState → Option FailedRetryState → Option FailedRetryState
  | some a, some b => some (stricter a b)
  | a, b => a.or b

/-- What the file of a message says, where there are files (`work`). -/
def readDisk (work : Bool) (id : B256) : LedgerM (Except Error (Option FailedRetryState)) :=
  if work then sidecar (WorkStore.failedRetry id) else pure (.ok none)

/-- The state of a message, or an error when only the file has it and cannot be read. -/
def get (work : Bool) (id : B256) : LedgerM (Except Unit (Option FailedRetryState)) := do
  let memory := (← StateT.get)[id]?
  match ← readDisk work id with
  | .error _ =>
    match memory with
    | some state => return .ok (some state)
    | none => return .error ()
  | .ok disk =>
    match merge memory disk with
    | some state =>
      -- a later read that fails falls back to what was read now
      modify (·.insert id state)
      return .ok (some state)
    | none => return .ok none

def put (work : Bool) (id : B256) (state : FailedRetryState) : LedgerM Unit := do
  modify (·.insert id state)
  if work then
    let _ ← sidecar (WorkStore.putFailedRetry id state)

/-- The execution is confirmed. -/
def forget (work : Bool) (id : B256) : LedgerM Unit := do
  modify (·.erase id)
  if work then
    let _ ← sidecar (WorkStore.forgetFailedRetry id)

/-- The destination call failed for the first time; an entry that exists is kept. -/
def start (work : Bool) (id : B256) (policy : FailedRetryPolicy) (now : Nat) :
    LedgerM FailedRetryState := do
  let state : FailedRetryState := ⟨0, satAdd64 now (policy.backoff 0), none⟩
  match ← get work id with
  | .ok (some existing) => return existing
  | .ok none =>
    put work id state
    return state
  | .error () => return state

/-- May a retry be sent now? -/
def gate (work : Bool) (id : B256) (policy : FailedRetryPolicy) (now : Nat) : LedgerM Gate := do
  match ← get work id with
  | .error () => return .wait (satAdd64 now (policy.backoff 0))
  | .ok state =>
    let state := state.getD FailedRetryState.default
    if state.gaveUpAt.isSome ∨ policy.maxAttempts ≤ state.attempts then return .giveUp state
    else if now < state.nextAttemptAt then return .wait state.nextAttemptAt
    else return .proceed

/-- Count a retry that was broadcast, and schedule the next one. -/
def recordAttempt (work : Bool) (id : B256) (policy : FailedRetryPolicy) (now : Nat) :
    LedgerM FailedRetryState := do
  let previous := match ← get work id with
    | .ok (some state) => state
    | _ => FailedRetryState.default
  let attempts := satAdd32 previous.attempts 1
  let state : FailedRetryState := ⟨attempts, satAdd64 now (policy.backoff attempts), none⟩
  put work id state
  return state

/-- Leave a tombstone. -/
def giveUp (work : Bool) (id : B256) (state : FailedRetryState) (now : Nat) :
    LedgerM FailedRetryState := do
  let state := { state with gaveUpAt := some (state.gaveUpAt.getD now) }
  put work id state
  return state

/-! ## What the operations do -/

/-- What the two views of a message come to. -/
def view (memory : Option FailedRetryState) :
    Except Error (Option FailedRetryState) → Except Unit (Option FailedRetryState)
  | .error _ => memory.elim (.error ()) fun state => .ok (some state)
  | .ok disk => .ok (merge memory disk)

/-- The copy in memory after a look at a message. -/
def cached (memory : Memory) (id : B256) : Except Unit (Option FailedRetryState) → Memory
  | .ok (some state) => memory.insert id state
  | _ => memory

/-- A tombstone that is seen is in one of the two views. -/
theorem view_buried {memory : Option FailedRetryState} {read : Except Error (Option FailedRetryState)}
    {state : FailedRetryState} (h : view memory read = .ok (some state)) (hg : state.gaveUpAt.isSome) :
    (∃ a, memory = some a ∧ a.gaveUpAt.isSome) ∨ ∃ b, read = .ok (some b) ∧ b.gaveUpAt.isSome := by
  rcases memory with _ | a <;> rcases read with e | _ | b <;> cases h
  · exact .inr ⟨_, rfl, hg⟩
  · exact .inl ⟨_, rfl, hg⟩
  · exact .inl ⟨_, rfl, hg⟩
  · rw [stricter, Option.isSome_or, Bool.or_eq_true] at hg
    exact hg.imp (fun h => ⟨_, rfl, h⟩) fun h => ⟨_, rfl, h⟩

/-- What a read of a message's file comes to. -/
def readResult (id : B256) : (SidecarCall.file id .read).Answer → Except Error (Option FailedRetryState)
  | .ok (.state state) => .ok (some state)
  | .ok (.malformed text) => .error ["decoding failed-retry state", text]
  | .error .notFound => .ok none
  | .error (.other e) => .error ["reading failed-retry state", e]

section
variable {W : Type} {H : Env SidecarCall SidecarCall.Answer W} (work : Bool) (id : B256)
  (memory : Memory) (w : W)

@[simp] theorem wp_modify (f : Memory → Memory) (Q : W → Unit × Memory → Prop) :
    wp H ((modify f).run memory) w Q ↔ Q w ((), f memory) := Iff.rfl

@[simp] theorem wp_sidecar {α : Type} (m : SidecarM α) (Q : W → Except Error α × Memory → Prop) :
    wp H ((sidecar m).run memory) w Q ↔ wp H m.run w fun w' r => Q w' (r, memory) :=
  wp_state_lift H m.run memory w Q

theorem wp_readDisk (Q : W → Except Error (Option FailedRetryState) × Memory → Prop) :
    wp H ((readDisk work id).run memory) w Q ↔
      if work then ∀ a w', H w (.file id .read) a w' → Q w' (readResult id a, memory)
      else Q w (.ok none, memory) := by
  cases work with
  | false => exact Iff.rfl
  | true =>
    simp only [readDisk, if_true, wp_sidecar, WorkStore.failedRetry, wp_run_bind, wp_run_lift, wp_call]
    refine forall_congr' fun a => forall_congr' fun w' => imp_congr Iff.rfl ?_
    rcases a with (_ | _) | _ | _ <;> exact Iff.rfl

/-- The read of a message, and nothing else, decides what is known of it. -/
theorem wp_get (Q : W → Except Unit (Option FailedRetryState) × Memory → Prop) :
    wp H ((get work id).run memory) w Q ↔ wp H ((readDisk work id).run memory) w fun w' read =>
      Q w' (view memory[id]? read.1, cached memory id (view memory[id]? read.1)) := by
  have hread : ∀ (w : W) (read : Except Error (Option FailedRetryState)),
      wp H (StateT.run (match read with
        | .error _ =>
          match memory[id]? with
          | some state => pure (.ok (some state))
          | none => pure (.error ())
        | .ok disk =>
          match merge memory[id]? disk with
          | some state => do
            modify (·.insert id state)
            pure (.ok (some state))
          | none => pure (.ok none)) memory) w Q ↔
        Q w (view memory[id]? read, cached memory id (view memory[id]? read)) := by
    intro w read
    rcases read with e | disk
    · cases hm : memory[id]? with
      | none => exact Iff.rfl
      | some state =>
        simp only [wp_state_pure, view, Option.elim_some, cached, Map.insert_get hm]
    · dsimp only [view]
      cases merge memory[id]? disk <;> exact Iff.rfl
  rw [get, wp_state_bind, wp_state_get, wp_state_bind, wp_readDisk, wp_readDisk]
  split
  · exact forall_congr' fun a => forall_congr' fun w' => imp_congr Iff.rfl (hread w' _)
  · exact hread w (.ok none)

@[simp] theorem wp_put (state : FailedRetryState) (Q : W → Unit × Memory → Prop) :
    wp H ((put work id state).run memory) w Q ↔
      wp H (if work then (WorkStore.putFailedRetry id state).run else pure (.ok ())) w
        fun w' _ => Q w' ((), memory.insert id state) := by
  cases work with
  | false => exact Iff.rfl
  | true => simp only [put, if_true, wp_state_bind, wp_modify, wp_sidecar, wp_state_pure]

@[simp] theorem wp_forget (Q : W → Unit × Memory → Prop) :
    wp H ((forget work id).run memory) w Q ↔
      wp H (if work then (WorkStore.forgetFailedRetry id).run else pure (.ok ())) w
        fun w' _ => Q w' ((), memory.erase id) := by
  cases work with
  | false => exact Iff.rfl
  | true => simp only [forget, if_true, wp_state_bind, wp_modify, wp_sidecar, wp_state_pure]

/-- The verdict on what is known of a message. -/
def verdict (policy : FailedRetryPolicy) (now : Nat) : Except Unit (Option FailedRetryState) → Gate
  | .error () => .wait (satAdd64 now (policy.backoff 0))
  | .ok state =>
    let state := state.getD .default
    if state.gaveUpAt.isSome ∨ policy.maxAttempts ≤ state.attempts then .giveUp state
    else if now < state.nextAttemptAt then .wait state.nextAttemptAt
    else .proceed

theorem verdict_giveUp {policy : FailedRetryPolicy} {now : Nat}
    {known : Except Unit (Option FailedRetryState)} {state : FailedRetryState}
    (h : verdict policy now known = .giveUp state) :
    (state.gaveUpAt.isSome → known = .ok (some state)) ∧
      (state.gaveUpAt.isSome ∨ policy.maxAttempts ≤ state.attempts) := by
  rcases known with _ | known
  · cases h
  · simp only [verdict] at h
    split at h
    · rename_i hg
      cases h
      refine ⟨fun hg => ?_, hg⟩
      cases known with
      | none => cases hg
      | some => rfl
    · split at h <;> cases h

theorem wp_gate (policy : FailedRetryPolicy) (now : Nat) (Q : W → Gate × Memory → Prop) :
    wp H ((gate work id policy now).run memory) w Q ↔
      wp H ((readDisk work id).run memory) w fun w' read =>
        Q w' (verdict policy now (view memory[id]? read.1), cached memory id (view memory[id]? read.1)) := by
  rw [gate, wp_state_bind, wp_get]
  refine wp_congr fun w' read => ?_
  rcases view memory[id]? read.1 with _ | state
  · exact Iff.rfl
  · simp only [verdict]
    split
    · exact Iff.rfl
    · split <;> exact Iff.rfl

/-- The state of a message after one more retry. -/
def attempted (policy : FailedRetryPolicy) (now : Nat) (known : Except Unit (Option FailedRetryState)) :
    FailedRetryState :=
  let attempts := satAdd32 (known.toOption.join.getD .default).attempts 1
  ⟨attempts, satAdd64 now (policy.backoff attempts), none⟩

theorem wp_recordAttempt (policy : FailedRetryPolicy) (now : Nat)
    (Q : W → FailedRetryState × Memory → Prop) :
    wp H ((recordAttempt work id policy now).run memory) w Q ↔
      wp H ((readDisk work id).run memory) w fun w' read =>
        let state := attempted policy now (view memory[id]? read.1)
        wp H ((put work id state).run (cached memory id (view memory[id]? read.1))) w' fun w' r =>
          Q w' (state, r.2) := by
  rw [recordAttempt, wp_state_bind, wp_get]
  refine wp_congr fun w' read => ?_
  rcases view memory[id]? read.1 with _ | _ | state <;> exact wp_state_bind _ _ _ _ _ _

/-- The state of a message whose destination call failed for the first time. -/
def scheduled (policy : FailedRetryPolicy) (now : Nat) : FailedRetryState :=
  ⟨0, satAdd64 now (policy.backoff 0), none⟩

theorem wp_start (policy : FailedRetryPolicy) (now : Nat) (Q : W → FailedRetryState × Memory → Prop) :
    wp H ((start work id policy now).run memory) w Q ↔
      wp H ((readDisk work id).run memory) w fun w' read =>
        match view memory[id]? read.1 with
        | .ok (some state) => Q w' (state, memory.insert id state)
        | .ok none => wp H ((put work id (scheduled policy now)).run memory) w' fun w' r =>
            Q w' (scheduled policy now, r.2)
        | .error () => Q w' (scheduled policy now, memory) := by
  rw [start, wp_state_bind, wp_get]
  refine wp_congr fun w' read => ?_
  rcases view memory[id]? read.1 with _ | _ | state
  · exact Iff.rfl
  · exact wp_state_bind _ _ _ _ _ _
  · exact Iff.rfl

/-- A state with a tombstone. -/
def buried (state : FailedRetryState) (now : Nat) : FailedRetryState :=
  { state with gaveUpAt := some (state.gaveUpAt.getD now) }

theorem wp_giveUp (state : FailedRetryState) (now : Nat) (Q : W → FailedRetryState × Memory → Prop) :
    wp H ((giveUp work id state now).run memory) w Q ↔
      wp H ((put work id (buried state now)).run memory) w fun w' r => Q w' (buried state now, r.2) := by
  rw [giveUp, wp_state_bind]
  exact Iff.rfl

end

end FailedRetries

end MessageRelayer

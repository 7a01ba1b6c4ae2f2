import MessageRelayer.Delivery.FailedRetry
import MessageRelayer.Lib.Runs

/-!
# The budget holds

Runs of the ledger of failed retries (`LedgerStep`): its operations, whatever
its files do, and restarts of a process whose files were written. An attempt is
recorded only right after the gate let it proceed. What was recorded of a
message since it was last forgotten is read off the run (`spent`); the
invariant (`LedgerOk`) is that the copy in memory, and without one the file, is
at least as strict as that; so no run spends more than the budget
(`failed_retry_ledger`).
-/

namespace MessageRelayer

open Prog

/-! ## The files -/

abbrev Files := B256 → Option SidecarText

/-- The calls without which a state is not written. -/
def SidecarCall.needed : SidecarCall → Bool
  | createDir _ | tryExists _ | file _ .createDirAll | file _ (.writeTmp _) | file _ (.rename _) => true
  | syncDir _ | file _ .syncDir | file _ .read | file _ .remove => false

/-- The files of a route, and whether everything was written so far. -/
structure Sidecars where
  files : Files
  written : Bool

def ledgerEnv : Env SidecarCall SidecarCall.Answer Sidecars := fun w c a w' =>
  w'.written = (w.written && (!c.needed || a.isOk)) ∧
    match c, a with
    | .file id c, a => (∀ i, i ≠ id → w'.files i = w.files i) ∧
        fileEnv false (w.files id) c a (w'.files id)
    | .createDir _, _ | .tryExists _, _ | .syncDir _, _ => w'.files = w.files

/-- What a read of a message's file tells. -/
def Truth (work : Bool) (file : Option SidecarText) (read : Except Error (Option FailedRetryState)) :
    Prop :=
  match read with
  | .ok (some state) => work = true ∧ file = some (.state state)
  | .ok none => work = true → file = none
  | .error _ => True

/-- The calls that leave every file as it is. -/
def SidecarCall.quiet : SidecarCall → Bool
  | createDir _ | tryExists _ | syncDir _ | file _ .createDirAll | file _ (.writeTmp _)
  | file _ .syncDir | file _ .read => true
  | file _ (.rename _) | file _ .remove => false

section
variable {id : B256} {c : SidecarCall} {a : c.Answer} {w w' : Sidecars}

theorem ledgerEnv_written (h : ledgerEnv w c a w') (hw : w'.written = true) :
    w.written = true ∧ (c.needed = true → a.isOk = true) := by
  rw [h.1, Bool.and_eq_true, Bool.or_eq_true] at hw
  refine ⟨hw.1, fun hn => hw.2.resolve_left ?_⟩
  rw [hn]
  simp

theorem ledgerEnv_quiet (h : ledgerEnv w c a w') (hq : c.quiet = true) : w'.files = w.files := by
  cases c with
  | createDir | tryExists | syncDir => exact h.2
  | file id c =>
    obtain ⟨-, hf, ha⟩ := h
    have he : w'.files id = w.files id := by
      cases c with
      | rename | remove => cases hq
      | createDirAll | writeTmp | syncDir =>
        cases a with
        | ok => exact ha
        | error => exact ha.elim (fun h => h) fun h => h.2
      | read => rcases a with (_ | _) | _ <;> first | exact ha | exact ha.2
    refine funext fun i => ?_
    by_cases hi : i = id
    · rw [hi, he]
    · exact hf i hi

end

/-- What writing a message's state does. -/
structure Writes (id : B256) (state : FailedRetryState) (w w' : Sidecars) : Prop where
  other : ∀ i, i ≠ id → w'.files i = w.files i
  file : w'.files id = w.files id ∨ w'.files id = some (.state state)
  written : w'.written = true → w.written = true ∧ w'.files id = some (.state state)

namespace Writes

variable {id : B256} {state : FailedRetryState} {w w' w'' : Sidecars}

/-- A call before the state was written that failed. -/
theorem failed {c : SidecarCall} {e : IoError} (h : ledgerEnv w c (.error e) w')
    (hq : c.quiet = true) (hn : c.needed = true) : Writes id state w w' := by
  have hf := ledgerEnv_quiet h hq
  exact ⟨fun _ _ => by rw [hf], .inl (by rw [hf]), fun hw => by cases (ledgerEnv_written h hw).2 hn⟩

theorem after {c : SidecarCall} {a : c.Answer} (h : ledgerEnv w c a w') (hq : c.quiet = true)
    (hw : Writes id state w' w'') : Writes id state w w'' := by
  have hf := ledgerEnv_quiet h hq
  exact ⟨fun i hi => by rw [hw.other i hi, hf], by rw [← hf]; exact hw.file,
    fun hw' => ⟨(ledgerEnv_written h (hw.written hw').1).1, (hw.written hw').2⟩⟩

theorem before {c : SidecarCall} {a : c.Answer} (hw : Writes id state w w')
    (h : ledgerEnv w' c a w'') (hq : c.quiet = true) : Writes id state w w'' := by
  have hf := ledgerEnv_quiet h hq
  exact ⟨fun i hi => by rw [hf, hw.other i hi], by rw [hf]; exact hw.file,
    fun hw' => by rw [hf]; exact hw.written (ledgerEnv_written h hw').1⟩

/-- The call that gives the file its new contents. -/
theorem renamed {a : (SidecarCall.file id (.rename (.state state))).Answer}
    (h : ledgerEnv w (.file id (.rename (.state state))) a w') : Writes id state w w' := by
  refine ⟨h.2.1, ?_, fun hw => ⟨(ledgerEnv_written h hw).1, ?_⟩⟩
  · cases a with
    | ok => exact .inr h.2.2
    | error => exact h.2.2.imp_right And.right
  · cases a with
    | ok => exact h.2.2
    | error => cases (ledgerEnv_written h hw).2 rfl

end Writes

/-- A call on the files. -/
theorem wp_sidecarIo {W : Type} {H : Env SidecarCall SidecarCall.Answer W} (context : Error)
    (c : SidecarCall) (w : W) (Q : W → Except Error c.Result → Prop) :
    wp (α := no_index (Except Error c.Result)) H
        (ExceptT.run (α := no_index c.Result) (SidecarM.io context c)) w Q ↔ ∀ a w', H w c a w' →
      match a with
      | .ok a => Q w' (.ok a)
      | .error e => Q w' (.error (context ++ [e.text])) := by
  rw [SidecarM.io, wp_run_bind, wp_run_lift, wp_call]
  refine forall_congr' fun a => forall_congr' fun w' => imp_congr Iff.rfl ?_
  cases a <;> exact Iff.rfl

namespace FailedRetries

variable {work : Bool} {id : B256} {memory : Memory} {state : FailedRetryState}

theorem writeAtomic_writes (w : Sidecars) : wp ledgerEnv
    ((writeAtomic (SidecarText.state state)).run.embed (SidecarCall.file id) fun _ a => a) w
    fun w' _ => Writes id state w w' := by
  rw [wp_embed, writeAtomic]
  simp only [wp_run_bind, wp_io, wp_run_lift, wp_call, wp_run_pure]
  rintro (e | _) w₁ ⟨_, h₁, rfl⟩
  · exact .failed h₁ rfl rfl
  rintro (e | _) w₂ ⟨_, h₂, rfl⟩
  · exact .after h₁ rfl (.failed h₂ rfl rfl)
  rintro (e | _) w₃ ⟨_, h₃, rfl⟩
  · exact .after h₁ rfl (.after h₂ rfl (.renamed h₃))
  rintro a w₄ ⟨_, h₄, rfl⟩
  exact .after h₁ rfl (.after h₂ rfl ((Writes.renamed h₃).before h₄ rfl))

theorem putFailedRetry_writes (w : Sidecars) : wp ledgerEnv (WorkStore.putFailedRetry id state).run w
    fun w' _ => Writes id state w w' := by
  rw [WorkStore.putFailedRetry]
  simp only [wp_run_bind, wp_sidecarIo, wp_run_mk]
  rintro (e | _) w₁ h₁
  · exact .failed h₁ rfl rfl
  rintro (e | existed) w₂ h₂
  · exact .after h₁ rfl (.failed h₂ rfl rfl)
  refine wp_mono (writeAtomic_writes w₂) fun w₃ r h₃ => ?_
  have h₃ : Writes id state w w₃ := .after h₁ rfl (.after h₂ rfl h₃)
  cases r with
  | error e => exact h₃
  | ok =>
    dsimp only
    split
    · exact h₃
    · rw [wp_sidecarIo]
      rintro (e | _) w₄ h₄ <;> exact h₃.before h₄ rfl

/-- What a put does: the copy in memory is the state, and where there are files so is the message's,
unless the write failed. -/
theorem put_writes (w : Sidecars) : wp ledgerEnv ((put work id state).run memory) w fun w' r =>
    r.2 = memory.insert id state ∧ if work then Writes id state w w' else w' = w := by
  rw [wp_put]
  cases work with
  | true => exact wp_mono (putFailedRetry_writes w) fun w' _ h => ⟨rfl, h⟩
  | false => exact ⟨rfl, rfl⟩

theorem readDisk_truth (w : Sidecars) : wp ledgerEnv ((readDisk work id).run memory) w fun w' r =>
    w' = w ∧ Truth work (w.files id) r.1 := by
  rw [wp_readDisk]
  split
  · rename_i hw
    rintro a w' h
    have hf := ledgerEnv_quiet h rfl
    have hwritten : w'.written = w.written := by simpa [SidecarCall.needed] using h.1
    refine ⟨?_, ?_⟩
    · cases w
      cases w'
      cases hf
      cases hwritten
      rfl
    · rcases a with (_ | _) | _ | _
      · exact fun _ => h.2.2.1
      · trivial
      · trivial
      · exact ⟨hw, h.2.2.1⟩
  · exact ⟨rfl, fun h => absurd h ‹_›⟩

/-- What dropping the state of a message does. -/
theorem forget_drops (w : Sidecars) : wp ledgerEnv ((forget work id).run memory) w fun w' r =>
    r.2 = memory.erase id ∧ (∀ i, i ≠ id → w'.files i = w.files i) ∧
      (w'.written = true → w.written = true) := by
  rw [wp_forget]
  cases work with
  | false => exact ⟨rfl, fun _ _ => rfl, fun h => h⟩
  | true =>
    simp only [if_true, WorkStore.forgetFailedRetry, wp_run_bind, wp_run_lift, wp_call]
    intro a w₁ h₁
    have hw := fun hw => (ledgerEnv_written h₁ hw).1
    rcases a with (_ | _) | _
    · exact ⟨trivial, h₁.2.1, hw⟩
    · exact ⟨trivial, h₁.2.1, hw⟩
    · dsimp only
      rw [wp_sidecarIo]
      rintro (e | _) w₂ h₂
      all_goals
        have hf := ledgerEnv_quiet h₂ rfl
        exact ⟨trivial, fun i hi => by rw [hf, h₁.2.1 i hi], fun h => hw (ledgerEnv_written h₂ h).1⟩

end FailedRetries

/-! ## What the operations write -/

section
variable {W : Type} {H : Env SidecarCall SidecarCall.Answer W} {G : W → SidecarCall → Prop}
  {work : Bool} {id : B256} {memory : Memory} {state : FailedRetryState}

theorem asks_sidecarIo (context : Error) {c : SidecarCall} (h : ∀ w, G w c) (w : W) :
    asks H G (SidecarM.io context c).run w := by
  refine asks_run_bind ⟨h w, fun _ _ _ => trivial⟩ (wp_iff.mpr fun w' r hx => ?_)
  rcases r with _ | _ | _ <;> trivial

/-- The only call of a put that changes a file gives the message's the new state. -/
theorem asks_putFailedRetry (hq : ∀ w c, c.quiet = true → G w c)
    (hr : ∀ w, G w (.file id (.rename (.state state)))) (w : W) :
    asks H G (WorkStore.putFailedRetry id state).run w := by
  refine asks_run_bind_all (asks_sidecarIo _ fun w => hq w _ rfl) (fun _ => ?_) w
  refine asks_run_bind_all (asks_sidecarIo _ fun w => hq w _ rfl) fun existed => ?_
  refine asks_run_bind_all (fun w => asks_embed (asks_writeAtomic (fun w c hc => ?_) w)) fun _ w => ?_
  · cases c with
    | createDirAll | writeTmp | syncDir | read => exact hq w _ rfl
    | rename contents =>
      rcases hc with hc | hc
      · cases hc none
      · exact hc ▸ hr w
    | remove =>
      rcases hc with hc | hc
      · cases hc (some (.state state))
      · cases hc
  · cases existed with
    | true => trivial
    | false => exact asks_sidecarIo _ (fun w => hq w _ rfl) w

namespace FailedRetries

theorem asks_put (hq : ∀ w c, c.quiet = true → G w c)
    (hr : work = true → ∀ w, G w (.file id (.rename (.state state)))) (memory : Memory) (w : W) :
    asks H G ((put work id state).run memory) w := by
  cases work with
  | false => trivial
  | true =>
    rw [put]
    refine asks_state_bind (p := modify _) trivial ?_
    rw [wp_modify, if_pos rfl]
    refine asks_state_bind ?_ (wp_iff.mpr fun _ _ _ => trivial)
    exact asks_bind (asks_putFailedRetry hq (hr rfl) w) (wp_iff.mpr fun _ _ _ => trivial)

theorem asks_readDisk (hq : ∀ w c, c.quiet = true → G w c) (memory : Memory) (w : W) :
    asks H G ((readDisk work id).run memory) w := by
  cases work with
  | false => trivial
  | true =>
    refine ⟨hq w _ rfl, fun a w' _ => ?_⟩
    rcases a with (_ | _) | _ | _ <;> trivial

theorem asks_get (hq : ∀ w c, c.quiet = true → G w c) (memory : Memory) (w : W) :
    asks H G ((get work id).run memory) w := by
  rw [get]
  refine asks_state_bind (p := StateT.get) trivial ?_
  refine asks_state_bind (asks_readDisk hq memory w) (wp_iff.mpr fun w' r _ => ?_)
  dsimp only
  split
  · split <;> trivial
  · split <;> trivial

theorem asks_gate (hq : ∀ w c, c.quiet = true → G w c) (policy : FailedRetryPolicy) (now : Nat)
    (memory : Memory) (w : W) : asks H G ((gate work id policy now).run memory) w := by
  rw [gate]
  refine asks_state_bind (asks_get hq memory w) (wp_iff.mpr fun w' r _ => ?_)
  split
  · trivial
  · dsimp only
    split
    · trivial
    · split <;> trivial

/-- The only file that a message's execution removes is its own. -/
theorem asks_forget (hr : ∀ w, G w (.file id .remove)) (hs : ∀ w, G w (.syncDir id)) (memory : Memory)
    (w : W) : asks H G ((forget work id).run memory) w := by
  cases work with
  | false => trivial
  | true =>
    rw [forget]
    refine asks_state_bind (p := modify _) trivial ?_
    rw [wp_modify, if_pos rfl]
    refine asks_state_bind ?_ (wp_iff.mpr fun _ _ _ => trivial)
    refine asks_bind ⟨hr w, fun a w' _ => ?_⟩ (wp_iff.mpr fun _ _ _ => trivial)
    rcases a with (_ | _) | _
    · trivial
    · trivial
    · exact asks_sidecarIo _ hs w'

end FailedRetries

end

/-! ## What was spent on a message -/

/-- What was recorded of a message since it was last forgotten. -/
structure Spent where
  attempts : Nat
  /-- When the next retry is due by the last attempt. -/
  due : Nat
  gaveUp : Bool

def Spent.nothing : Spent := ⟨0, 0, false⟩

/-- The state knows of what was spent: of a tombstone, and without one of the attempts. -/
def Spent.Within (x : Spent) (state : FailedRetryState) : Prop :=
  (x.gaveUp = true → state.gaveUpAt.isSome) ∧
    (x.gaveUp = false → x.attempts ≤ state.attempts ∧ x.due ≤ state.nextAttemptAt)

inductive LedgerEvent where
  | gated (id : B256) (policy : FailedRetryPolicy) (now : Nat) (gate : Gate)
  | started (id : B256)
  | recorded (id : B256) (policy : FailedRetryPolicy) (now : Nat)
  | gaveUp (id : B256)
  | forgot (id : B256)
  | restarted

namespace LedgerEvent

/-- The message that the event is about. -/
def about : LedgerEvent → Option B256
  | gated id .. | started id | recorded id .. | gaveUp id | forgot id => some id
  | restarted => none

def spend (x : Spent) : LedgerEvent → Spent
  | recorded _ policy now =>
    { x with attempts := x.attempts + 1, due := satAdd64 now (policy.backoff (x.attempts + 1)) }
  | gaveUp _ => { x with gaveUp := true }
  | forgot _ => .nothing
  | gated .. | started _ | restarted => x

end LedgerEvent

def spent (id : B256) (l : List LedgerEvent) : Spent :=
  (l.filter fun e => decide (e.about = some id)).foldl LedgerEvent.spend .nothing

/-- What was spent on each message, after one event more. -/
def LedgerEvent.charge (e : LedgerEvent) (x : B256 → Spent) : B256 → Spent := fun id =>
  if e.about = some id then e.spend (x id) else x id

namespace LedgerEvent

variable {e : LedgerEvent} {x : B256 → Spent} {id i : B256}

theorem charge_self (h : e.about = some id) : e.charge x id = e.spend (x id) := if_pos h

theorem charge_other (h : e.about = some id) (hi : i ≠ id) : e.charge x i = x i :=
  if_neg (by rw [h]; exact fun hc => hi (Option.some.inj hc).symm)

end LedgerEvent

theorem spent_concat {id : B256} {e : LedgerEvent} (h : e.about = some id) (l : List LedgerEvent) :
    spent id (l ++ [e]) = e.spend (spent id l) := by
  simp [spent, h]

theorem spent_charge (e : LedgerEvent) (l : List LedgerEvent) :
    (fun id => spent id (l ++ [e])) = e.charge fun id => spent id l := by
  funext id
  by_cases h : e.about = some id
  · rw [LedgerEvent.charge_self h, spent_concat h]
  · simp [LedgerEvent.charge, spent, h]

/-! ## Runs -/

structure LedgerHost where
  sidecars : Sidecars
  memory : Memory
  /-- The policy of a gate that let a message proceed, if nothing was done with the message since. -/
  armed : B256 → Option FailedRetryPolicy

def LedgerHost.arm (s : LedgerHost) (w : Sidecars) (memory : Memory) (id : B256)
    (armed : Option FailedRetryPolicy) : LedgerHost :=
  ⟨w, memory, fun i => if i = id then armed else s.armed i⟩

inductive LedgerStep (work : Bool) : LedgerHost → LedgerEvent → LedgerHost → Prop where
  | gate {s : LedgerHost} {id : B256} {policy : FailedRetryPolicy} {now : Nat} {w' : Sidecars}
      {memory' : Memory} {g : Gate}
      (hx : Exec ledgerEnv ((FailedRetries.gate work id policy now).run s.memory) s.sidecars w'
        (g, memory')) :
      LedgerStep work s (.gated id policy now g)
        (s.arm w' memory' id (if g = .proceed then some policy else none))
  | start {s : LedgerHost} {id : B256} {policy : FailedRetryPolicy} {now : Nat} {w' : Sidecars}
      {memory' : Memory} {state : FailedRetryState}
      (hx : Exec ledgerEnv ((FailedRetries.start work id policy now).run s.memory) s.sidecars w'
        (state, memory')) :
      LedgerStep work s (.started id) (s.arm w' memory' id none)
  | record {s : LedgerHost} {id : B256} {policy : FailedRetryPolicy} {now : Nat} {w' : Sidecars}
      {memory' : Memory} {state : FailedRetryState} (ha : s.armed id = some policy)
      (hx : Exec ledgerEnv ((FailedRetries.recordAttempt work id policy now).run s.memory) s.sidecars
        w' (state, memory')) :
      LedgerStep work s (.recorded id policy now) (s.arm w' memory' id none)
  | giveUp {s : LedgerHost} {id : B256} (state : FailedRetryState) {now : Nat} {w' : Sidecars}
      {memory' : Memory} {state' : FailedRetryState}
      (hx : Exec ledgerEnv ((FailedRetries.giveUp work id state now).run s.memory) s.sidecars w'
        (state', memory')) :
      LedgerStep work s (.gaveUp id) (s.arm w' memory' id none)
  | forget {s : LedgerHost} {id : B256} {w' : Sidecars} {memory' : Memory}
      (hx : Exec ledgerEnv ((FailedRetries.forget work id).run s.memory) s.sidecars w'
        ((), memory')) :
      LedgerStep work s (.forgot id) (s.arm w' memory' id none)
  -- a process whose states were all written is gone, and the next one starts
  | restart {s : LedgerHost} (hw : work = true) (hs : s.sidecars.written = true) :
      LedgerStep work s .restarted ⟨s.sidecars, ∅, fun _ => none⟩

/-! ## The invariant -/

/-- What the file of a message knows of what was spent; nothing is asked of one that cannot be read. -/
def FileOk (x : Spent) : Option SidecarText → Prop
  | none => x = .nothing
  | some (.state state) => x.Within state
  | some (.malformed _) => True

/-- What is known of a message that was spent on. -/
structure EntryOk (work : Bool) (x : Spent) (copy : Option FailedRetryState)
    (file : Option SidecarText) (complete : Bool) (allowed : Option FailedRetryPolicy) : Prop where
  memory : ∀ state, copy = some state → x.Within state
  unseen : copy = none → if work then FileOk x file else x = .nothing
  written : work = true → complete = true → FileOk x file
  armed : ∀ policy, allowed = some policy →
    x.gaveUp = false ∧ x.attempts < policy.maxAttempts ∧ (copy = none → x = .nothing)

/-- What was spent on each message is known. -/
def LedgerOk (work : Bool) (x : B256 → Spent) (s : LedgerHost) : Prop :=
  ∀ id, EntryOk work (x id) s.memory[id]? (s.sidecars.files id) s.sidecars.written (s.armed id)

section
variable {x : Spent} {a b : FailedRetryState}

theorem Spent.within_nothing (state : FailedRetryState) : Spent.nothing.Within state :=
  ⟨fun h => Bool.noConfusion h, fun _ => ⟨Nat.zero_le _, Nat.zero_le _⟩⟩

theorem Spent.Within.stricter (h : x.Within a) : x.Within (MessageRelayer.stricter a b) := by
  refine ⟨fun hg => ?_, fun hg => ?_⟩
  · show (a.gaveUpAt.or b.gaveUpAt).isSome
    rw [Option.isSome_or, h.1 hg, Bool.true_or]
  · have ha : a.attempts ≤ max a.attempts b.attempts := Nat.le_max_left _ _
    have hd : a.nextAttemptAt ≤ max a.nextAttemptAt b.nextAttemptAt := Nat.le_max_left _ _
    exact ⟨Nat.le_trans (h.2 hg).1 ha, Nat.le_trans (h.2 hg).2 hd⟩

theorem fileOk_nothing (file : Option SidecarText) : FileOk .nothing file := by
  rcases file with _ | _ | state
  · rfl
  · trivial
  · exact Spent.within_nothing state

theorem backoff_mono (policy : FailedRetryPolicy) {j k : Nat} (h : j ≤ k) :
    policy.backoff j ≤ policy.backoff k := by
  have hf : (if j < 64 then 2 ^ j else u64Max) ≤ if k < 64 then 2 ^ k else u64Max := by
    split
    · split
      · exact Nat.pow_le_pow_right (by decide) h
      · rename_i hj _
        have h63 : 2 ^ j ≤ 2 ^ 63 := Nat.pow_le_pow_right (by decide) (by omega)
        have hmax : (2 : Nat) ^ 63 ≤ u64Max := by decide
        omega
    · exact Nat.le_of_eq (if_neg (by omega)).symm
  have hm := Nat.mul_le_mul_left policy.initialBackoffSecs hf
  simp only [FailedRetryPolicy.backoff, satMul64]
  omega

end

/-- The call changes no file but the message's own, and only to a state that knows of what was
spent. -/
def SidecarCall.Puts (work : Bool) (id : B256) (x : Spent) : SidecarCall → Prop
  | .file i (.rename contents) => work = true ∧ i = id ∧ FileOk x (some contents)
  | .file _ .remove => False
  | _ => True

theorem SidecarCall.Puts.of_quiet {work : Bool} {id : B256} {x : Spent} {c : SidecarCall}
    (h : c.quiet = true) : c.Puts work id x := by
  cases c with
  | createDir | tryExists | syncDir => trivial
  | file i c =>
    cases c with
    | createDirAll | writeTmp | syncDir | read => trivial
    | rename | remove => cases h

/-! ## What an operation sees and leaves -/

section
variable {work : Bool} {x : Spent} {copy : Option FailedRetryState} {file : Option SidecarText}
  {complete : Bool} {allowed : Option FailedRetryPolicy}
  {read : Except Error (Option FailedRetryState)}

/-- What is seen of a message is at least what was spent; where nothing is, nothing was; and only
where there is no copy can nothing be known. -/
def Seen (x : Spent) (copy : Option FailedRetryState) :
    Except Unit (Option FailedRetryState) → Prop
  | .ok (some state) => x.Within state
  | .ok none => x = .nothing
  | .error () => copy = none

theorem EntryOk.seen (h : EntryOk work x copy file complete allowed) (hr : Truth work file read) :
    Seen x copy (FailedRetries.view copy read) := by
  cases copy with
  | some state =>
    have hs := h.memory state rfl
    rcases read with _ | _ | _
    · exact hs
    · exact hs
    · exact hs.stricter
  | none =>
    have hu := h.unseen rfl
    rcases read with _ | _ | _
    · rfl
    · cases work with
      | false => exact hu
      | true => rw [hr rfl] at hu; exact hu
    · rw [if_pos hr.1, hr.2] at hu
      exact hu

/-- The copy after a look at a message. -/
theorem EntryOk.cached (h : EntryOk work x copy file complete allowed)
    {known : Except Unit (Option FailedRetryState)} (hk : Seen x copy known)
    {allowed' : Option FailedRetryPolicy} (ha : ∀ policy, allowed' = some policy →
      x.gaveUp = false ∧ x.attempts < policy.maxAttempts ∧ known.toOption.isSome) :
    EntryOk work x (known.toOption.join.or copy) file complete allowed' := by
  refine ⟨fun state he => ?_, fun hc => ?_, h.written, fun policy hp => ?_⟩
  · rcases known with _ | _ | state'
    · exact h.memory state he
    · exact h.memory state he
    · cases he
      exact hk
  · rw [Option.or_eq_none_iff] at hc
    exact h.unseen hc.2
  · obtain ⟨hg, hm, hs⟩ := ha policy hp
    refine ⟨hg, hm, fun hc => ?_⟩
    rcases known with _ | _ | state'
    · cases hs
    · exact hk
    · cases hc

/-- The copy that an operation puts is the state, and so is what it left in the file. -/
theorem EntryOk.put {state : FailedRetryState} (h : x.Within state)
    (hf : work = true → complete = true → file = some (.state state)) :
    EntryOk work x (some state) file complete none := by
  refine ⟨fun state' he => ?_, fun he => ?_, fun hw hc => ?_, fun policy hp => ?_⟩
  · cases he
    exact h
  · cases he
  · rw [hf hw hc]
    exact h
  · cases hp

end

namespace FailedRetries

variable {memory : Memory} {id i : B256} {known : Except Unit (Option FailedRetryState)}

theorem cached_self : (cached memory id known)[id]? = known.toOption.join.or memory[id]? := by
  rcases known with _ | _ | state
  · rfl
  · rfl
  · exact Map.get_insert_self memory id state

theorem cached_other (hi : i ≠ id) : (cached memory id known)[i]? = memory[i]? := by
  rcases known with _ | _ | state
  · rfl
  · rfl
  · exact Map.get_insert_ne hi

end FailedRetries

/-! ## One step -/

namespace LedgerOk

variable {work : Bool} {x : B256 → Spent} {s : LedgerHost} {id : B256} {e : LedgerEvent}
  {w' : Sidecars} {memory memory' : Memory} {allowed : Option FailedRetryPolicy}

/-- An operation on one message leaves the others as they are. -/
theorem arm (h : LedgerOk work x s) (he : e.about = some id)
    (hf : ∀ i, i ≠ id → w'.files i = s.sidecars.files i)
    (hw : w'.written = true → s.sidecars.written = true)
    (hm : ∀ i, i ≠ id → memory'[i]? = s.memory[i]?)
    (hid : EntryOk work (e.spend (x id)) memory'[id]? (w'.files id) w'.written allowed) :
    LedgerOk work (e.charge x) (s.arm w' memory' id allowed) := by
  intro i
  by_cases hi : i = id
  · subst hi
    rw [LedgerEvent.charge_self he]
    simpa [LedgerHost.arm] using hid
  · have ho := h i
    rw [LedgerEvent.charge_other he hi]
    simp only [LedgerHost.arm, if_neg hi, hf i hi, hm i hi]
    exact ⟨ho.memory, ho.unseen, fun hwork hc => ho.written hwork (hw hc), ho.armed⟩

/-- A look at a message. -/
theorem look (h : LedgerOk work x s) (he : e.about = some id) (hs : e.spend (x id) = x id)
    (known : Except Unit (Option FailedRetryState)) (hk : Seen (x id) s.memory[id]? known)
    (ha : ∀ policy, allowed = some policy → (x id).gaveUp = false ∧
      (x id).attempts < policy.maxAttempts ∧ known.toOption.isSome) :
    LedgerOk work (e.charge x)
      (s.arm s.sidecars (FailedRetries.cached s.memory id known) id allowed) := by
  refine h.arm he (fun _ _ => rfl) (fun hw => hw) (fun i hi => FailedRetries.cached_other hi) ?_
  rw [hs, FailedRetries.cached_self]
  exact (h id).cached hk ha

/-- A put of a state that knows of what was spent. -/
theorem put (h : LedgerOk work x s) (he : e.about = some id) {state : FailedRetryState}
    (hs : (e.spend (x id)).Within state) (hm : ∀ i, i ≠ id → memory[i]? = s.memory[i]?)
    (hw : if work then Writes id state s.sidecars w' else w' = s.sidecars) :
    LedgerOk work (e.charge x) (s.arm w' (memory.insert id state) id none) := by
  have hwrites : (∀ i, i ≠ id → w'.files i = s.sidecars.files i) ∧
      (w'.written = true → s.sidecars.written = true) ∧
      (work = true → w'.written = true → w'.files id = some (.state state)) := by
    split at hw
    · exact ⟨hw.other, fun hc => (hw.written hc).1, fun _ hc => (hw.written hc).2⟩
    · rename_i hwork
      subst hw
      exact ⟨fun _ _ => rfl, fun hc => hc, fun hc => absurd hc hwork⟩
  refine h.arm he hwrites.1 hwrites.2.1 (fun i hi => ?_) ?_
  · rw [Map.get_insert_ne hi, hm i hi]
  · rw [Map.get_insert_self]
    exact .put hs hwrites.2.2

end LedgerOk

namespace Seen

variable {x : Spent} {copy : Option FailedRetryState} {known : Except Unit (Option FailedRetryState)}
  {policy : FailedRetryPolicy} {now : Nat}

/-- A message that is known to have anything left was not given up, and its next retry is due. -/
theorem proceed (hk : Seen x copy known) (h : FailedRetries.verdict policy now known = .proceed) :
    x.gaveUp = false ∧ x.attempts < policy.maxAttempts ∧ x.due ≤ now ∧ known.toOption.isSome := by
  rcases known with _ | known
  · cases h
  · have hx : x.Within (known.getD .default) := by
      cases known with
      | none => rw [show x = .nothing from hk]; exact Spent.within_nothing _
      | some => exact hk
    simp only [FailedRetries.verdict] at h
    split at h
    · cases h
    · rename_i hg
      rw [not_or] at hg
      split at h
      · cases h
      · rename_i hn
        have hgave : x.gaveUp = false := by
          by_contra hc
          exact hg.1 (hx.1 (by simpa using hc))
        have ha := (hx.2 hgave).1
        have hd := (hx.2 hgave).2
        exact ⟨hgave, by omega, by omega, rfl⟩

/-- The state after one more attempt counts it. -/
theorem attempted (hk : Seen x copy known) (hg : x.gaveUp = false)
    (hm : x.attempts < policy.maxAttempts) (hc : copy = none → x = .nothing) (id : B256) (now : Nat) :
    ((LedgerEvent.recorded id policy now).spend x).Within
      (FailedRetries.attempted policy now known) := by
  have ha : x.attempts ≤ (known.toOption.join.getD FailedRetryState.default).attempts := by
    rcases known with _ | _ | state
    · rw [hc hk]
      exact Nat.zero_le _
    · rw [show x = .nothing from hk]
      exact Nat.zero_le _
    · exact (hk.2 hg).1
  have hmax := policy.inRange
  have hs : x.attempts + 1 ≤ (FailedRetries.attempted policy now known).attempts := by
    simp only [FailedRetries.attempted, satAdd32]
    omega
  have hb : policy.backoff (x.attempts + 1) ≤ policy.backoff
      (satAdd32 (known.toOption.join.getD .default).attempts 1) := backoff_mono policy hs
  refine ⟨fun hgave => ?_, fun _ => ⟨hs, ?_⟩⟩
  · rw [show x.gaveUp = true from hgave] at hg
    cases hg
  · show satAdd64 now _ ≤ satAdd64 now _
    simp only [satAdd64]
    omega

end Seen

namespace LedgerOk

variable {work : Bool} {x : B256 → Spent} {s : LedgerHost} (id : B256)

theorem gate (h : LedgerOk work x s) (policy : FailedRetryPolicy) (now : Nat) :
    wp ledgerEnv ((FailedRetries.gate work id policy now).run s.memory) s.sidecars fun w' r =>
      LedgerOk work ((LedgerEvent.gated id policy now r.1).charge x)
        (s.arm w' r.2 id (if r.1 = .proceed then some policy else none)) ∧
      (r.1 = .proceed → (x id).gaveUp = false ∧
        (x id).attempts < policy.maxAttempts ∧ (x id).due ≤ now) := by
  rw [FailedRetries.wp_gate]
  refine wp_mono (FailedRetries.readDisk_truth s.sidecars) fun w' r ⟨hw, hr⟩ => ?_
  subst hw
  have hk := (h id).seen hr
  refine ⟨h.look rfl rfl _ hk fun policy' hp => ?_, fun hp => ?_⟩
  · split at hp
    · cases hp
      obtain ⟨hg, hm, -, hs⟩ := hk.proceed ‹_›
      exact ⟨hg, hm, hs⟩
    · cases hp
  · obtain ⟨hg, hm, hd, -⟩ := hk.proceed hp
    exact ⟨hg, hm, hd⟩

theorem start (h : LedgerOk work x s) (policy : FailedRetryPolicy) (now : Nat) :
    wp ledgerEnv ((FailedRetries.start work id policy now).run s.memory) s.sidecars fun w' r =>
      LedgerOk work ((LedgerEvent.started id).charge x) (s.arm w' r.2 id none) := by
  rw [FailedRetries.wp_start]
  refine wp_mono (FailedRetries.readDisk_truth s.sidecars) fun w' r ⟨hw, hr⟩ => ?_
  subst hw
  have hk := (h id).seen hr
  generalize FailedRetries.view s.memory[id]? r.1 = known at hk ⊢
  rcases known with _ | _ | state
  · exact h.look rfl rfl (.error ()) hk fun _ hp => by cases hp
  · refine wp_mono (FailedRetries.put_writes _) fun w' r ⟨hm, hw⟩ => ?_
    rw [hm]
    refine h.put rfl ?_ (fun _ _ => rfl) hw
    show (x id).Within _
    rw [show x id = .nothing from hk]
    exact Spent.within_nothing _
  · exact h.look rfl rfl (.ok (some state)) hk fun _ hp => by cases hp

theorem record (h : LedgerOk work x s) {policy : FailedRetryPolicy} (ha : s.armed id = some policy)
    (now : Nat) :
    wp ledgerEnv ((FailedRetries.recordAttempt work id policy now).run s.memory) s.sidecars fun w' r =>
      LedgerOk work ((LedgerEvent.recorded id policy now).charge x) (s.arm w' r.2 id none) := by
  rw [FailedRetries.wp_recordAttempt]
  refine wp_mono (FailedRetries.readDisk_truth s.sidecars) fun w' r ⟨hw, hr⟩ => ?_
  subst hw
  have hk := (h id).seen hr
  obtain ⟨hg, hmax, hc⟩ := (h id).armed policy ha
  refine wp_mono (FailedRetries.put_writes _) fun w' r ⟨hm, hw⟩ => ?_
  rw [hm]
  exact h.put rfl (hk.attempted hg hmax hc id now) (fun i hi => FailedRetries.cached_other hi) hw

theorem giveUp (h : LedgerOk work x s) (state : FailedRetryState) (now : Nat) :
    wp ledgerEnv ((FailedRetries.giveUp work id state now).run s.memory) s.sidecars fun w' r =>
      LedgerOk work ((LedgerEvent.gaveUp id).charge x) (s.arm w' r.2 id none) := by
  rw [FailedRetries.wp_giveUp]
  refine wp_mono (FailedRetries.put_writes _) fun w' r ⟨hm, hw⟩ => ?_
  rw [hm]
  exact h.put rfl ⟨fun _ => rfl, fun hc => Bool.noConfusion hc⟩ (fun _ _ => rfl) hw

/-- What a first failure writes knows of what was spent. -/
theorem start_puts (h : LedgerOk work x s) (policy : FailedRetryPolicy) (now : Nat) :
    asks ledgerEnv (fun _ c => c.Puts work id (x id))
      ((FailedRetries.start work id policy now).run s.memory) s.sidecars := by
  rw [FailedRetries.start]
  refine asks_state_bind (FailedRetries.asks_get (fun _ _ => .of_quiet) _ _) ?_
  rw [FailedRetries.wp_get]
  refine wp_mono (FailedRetries.readDisk_truth s.sidecars) fun w' r h' => ?_
  obtain ⟨rfl, hr⟩ := h'
  have hk := (h id).seen hr
  generalize FailedRetries.view s.memory[id]? r.1 = known at hk ⊢
  rcases known with _ | _ | state
  · trivial
  · have hx : x id = .nothing := hk
    refine asks_state_bind ?_ (wp_iff.mpr fun _ _ _ => trivial)
    refine FailedRetries.asks_put (fun _ _ => .of_quiet) (fun hwork _ => ⟨hwork, rfl, ?_⟩) _ _
    rw [hx]
    exact Spent.within_nothing _
  · trivial

/-- What is written of one more attempt knows of it. -/
theorem record_puts (h : LedgerOk work x s) {policy : FailedRetryPolicy}
    (ha : s.armed id = some policy) (now : Nat) :
    asks ledgerEnv
      (fun _ c => c.Puts work id ((LedgerEvent.recorded id policy now).spend (x id)))
      ((FailedRetries.recordAttempt work id policy now).run s.memory) s.sidecars := by
  rw [FailedRetries.recordAttempt]
  refine asks_state_bind (FailedRetries.asks_get (fun _ _ => .of_quiet) _ _) ?_
  rw [FailedRetries.wp_get]
  refine wp_mono (FailedRetries.readDisk_truth s.sidecars) fun w' r h' => ?_
  obtain ⟨rfl, hr⟩ := h'
  have hk := (h id).seen hr
  obtain ⟨hg, hmax, hc⟩ := (h id).armed policy ha
  have hattempted := hk.attempted hg hmax hc id now
  generalize FailedRetries.view s.memory[id]? r.1 = known at hattempted ⊢
  rcases known with _ | _ | state
  all_goals
    refine asks_state_bind ?_ (wp_iff.mpr fun _ _ _ => trivial)
    exact FailedRetries.asks_put (fun _ _ => .of_quiet) (fun hwork _ => ⟨hwork, rfl, hattempted⟩) _ _

/-- A tombstone knows of whatever was spent. -/
theorem giveUp_puts (state : FailedRetryState) (now : Nat) (memory : Memory) (w : Sidecars) :
    asks ledgerEnv (fun _ c => c.Puts work id ((LedgerEvent.gaveUp id).spend (x id)))
      ((FailedRetries.giveUp work id state now).run memory) w := by
  refine asks_state_bind ?_ (wp_iff.mpr fun _ _ _ => trivial)
  refine FailedRetries.asks_put (fun _ _ => .of_quiet) (fun hwork _ => ⟨hwork, rfl, ?_⟩) _ _
  exact ⟨fun _ => rfl, fun hc => Bool.noConfusion hc⟩

theorem forget (h : LedgerOk work x s) :
    wp ledgerEnv ((FailedRetries.forget work id).run s.memory) s.sidecars fun w' r =>
      LedgerOk work ((LedgerEvent.forgot id).charge x) (s.arm w' r.2 id none) := by
  refine wp_mono (FailedRetries.forget_drops _) fun w' r ⟨hm, hf, hw⟩ => ?_
  rw [hm]
  refine h.arm rfl hf hw (fun i hi => Map.get_erase_ne hi) ?_
  have hnothing := fileOk_nothing (w'.files id)
  refine ⟨fun state _ => Spent.within_nothing state, fun _ => ?_, fun _ _ => hnothing,
    fun _ hp => by cases hp⟩
  split
  · exact hnothing
  · rfl

/-- A process that starts, where the files know what was spent. -/
theorem fresh {files : Files} (h : ∀ id, if work then FileOk (x id) (files id) else x id = .nothing)
    (written : Bool) : LedgerOk work x ⟨⟨files, written⟩, ∅, fun _ => none⟩ := by
  intro id
  have he : (∅ : Memory)[id]? = none := Std.ExtTreeMap.getElem?_empty
  refine ⟨fun state hc => ?_, fun _ => h id, fun hw _ => ?_, fun _ hp => by cases hp⟩
  · rw [he] at hc
    cases hc
  · have hf := h id
    rwa [if_pos hw] at hf

/-- A process whose states were all written leaves what the next one needs. -/
theorem restart (h : LedgerOk work x s) (hw : work = true) (hs : s.sidecars.written = true) :
    LedgerOk work (LedgerEvent.restarted.charge x) ⟨s.sidecars, ∅, fun _ => none⟩ := by
  refine fresh (fun id => ?_) s.sidecars.written
  rw [if_pos hw]
  exact (h id).written hw hs

/-- What a step keeps. -/
theorem step (h : LedgerOk work x s) {e : LedgerEvent} {t : LedgerHost}
    (hs : LedgerStep work s e t) : LedgerOk work (e.charge x) t := by
  cases hs with
  | gate hx => exact (hx.post (h.gate _ _ _)).1
  | start hx => exact hx.post (h.start _ _ _)
  | record ha hx => exact hx.post (h.record _ ha _)
  | giveUp state hx => exact hx.post (h.giveUp _ state _)
  | forget hx => exact hx.post (h.forget _)
  | restart hw hs => exact h.restart hw hs

/-- Before anything was spent, whatever the files say. -/
theorem init (work : Bool) (files : Files) (written : Bool) :
    LedgerOk work (fun _ => .nothing) ⟨⟨files, written⟩, ∅, fun _ => none⟩ := by
  refine fresh (fun id => ?_) written
  split
  · exact fileOk_nothing (files id)
  · rfl

end LedgerOk

/-! ## Every run -/

/-- A process of a relayer that just started. -/
def LedgerHost.fresh (files : Files) : LedgerHost := ⟨⟨files, true⟩, ∅, fun _ => none⟩

/-- An entry that cannot be read, and of which there is no copy, is not let proceed. -/
theorem FailedRetries.gate_unreadable {W : Type} {H : Env SidecarCall SidecarCall.Answer W}
    {memory : Memory} {id : B256} (hm : memory[id]? = none) {w : W}
    (hr : ∀ a w', H w (.file id .read) a w' → ∃ e, FailedRetries.readResult id a = .error e)
    (policy : FailedRetryPolicy) (now : Nat) :
    wp H ((FailedRetries.gate true id policy now).run memory) w fun _ r =>
      r.1 = .wait (satAdd64 now (policy.backoff 0)) := by
  rw [FailedRetries.wp_gate, FailedRetries.wp_readDisk, if_pos rfl]
  intro a w' h
  obtain ⟨e, he⟩ := hr a w' h
  rw [he, hm]
  rfl

/-- What is recorded stays within the budget; what proceeds is due by the last attempt and was not
given up since it was last forgotten; and what cannot be read does not proceed. -/
theorem failed_retry_ledger {work : Bool} {files : Files} {l : List LedgerEvent} {t : LedgerHost}
    (h : Run (LedgerStep work) (.fresh files) l t) :
    (∀ l₁ l₂ id policy now, l = l₁ ++ .recorded id policy now :: l₂ →
      (spent id (l₁ ++ [.recorded id policy now])).attempts ≤ policy.maxAttempts) ∧
    (∀ l₁ l₂ id policy now, l = l₁ ++ .gated id policy now .proceed :: l₂ →
      (spent id l₁).gaveUp = false ∧ (spent id l₁).attempts < policy.maxAttempts ∧
        (spent id l₁).due ≤ now) ∧
    ∀ {W : Type} (H : Env SidecarCall SidecarCall.Answer W) (w : W) (id : B256)
      (policy : FailedRetryPolicy) (now : Nat), t.memory[id]? = none →
      (∀ a w', H w (.file id .read) a w' → ∃ e, FailedRetries.readResult id a = .error e) →
      wp H ((FailedRetries.gate true id policy now).run t.memory) w fun _ r => r.1 ≠ .proceed := by
  have hinv : ∀ {l t}, Run (LedgerStep work) (.fresh files) l t →
      LedgerOk work (fun id => spent id l) t := fun hr =>
    hr.hist (I := fun l t => LedgerOk work (fun id => spent id l) t)
      (fun l _ e _ hs hl => spent_charge e l ▸ hl.step hs) (.init work files true)
  refine ⟨fun l₁ l₂ id policy now e => ?_, fun l₁ l₂ id policy now e => ?_,
    fun H w id policy now hm hr => ?_⟩
  · obtain ⟨s, s', h₁, hs, -⟩ := Run.split (e ▸ h)
    rw [spent_concat rfl]
    cases hs with
    | record ha => exact ((hinv h₁ id).armed policy ha).2.1
  · obtain ⟨s, s', h₁, hs, -⟩ := Run.split (e ▸ h)
    cases hs with
    | gate hx => exact (hx.post ((hinv h₁).gate id policy now)).2 rfl
  · refine wp_mono (FailedRetries.gate_unreadable hm hr policy now) fun _ r hg hp => ?_
    rw [hg] at hp
    cases hp

/-- One retry, no matter how early. -/
def demoOnce : FailedRetryPolicy := ⟨1, 0, 0, one_le_u32Max⟩

/-- A message is retried once. -/
theorem demoOnce_run : ∃ t, Run (LedgerStep false) (.fresh fun _ => none)
    [.gated 7 demoOnce 7 .proceed, .recorded 7 demoOnce 8] t := by
  have h₁ : LedgerStep false (.fresh fun _ => none) (.gated 7 demoOnce 7 .proceed)
      ((LedgerHost.fresh fun _ => none).arm ⟨fun _ => none, true⟩ ∅ 7 (some demoOnce)) :=
    .gate .ret
  have h₂ : LedgerStep false
      ((LedgerHost.fresh fun _ => none).arm ⟨fun _ => none, true⟩ ∅ 7 (some demoOnce))
      (.recorded 7 demoOnce 8) _ := .record (by simp [LedgerHost.arm]) .ret
  exact ⟨_, .snoc (.single h₁) h₂⟩

theorem failed_retry_ledger_once :
    (spent 7 [.gated 7 demoOnce 7 .proceed, .recorded 7 demoOnce 8]).attempts ≤ 1 ∧
      (spent 7 []).due ≤ 7 := by
  obtain ⟨t, h⟩ := demoOnce_run
  obtain ⟨hr, hg, -⟩ := failed_retry_ledger h
  exact ⟨hr [.gated 7 demoOnce 7 .proceed] [] 7 demoOnce 8 rfl,
    (hg [] [.recorded 7 demoOnce 8] 7 demoOnce 7 rfl).2.2⟩

/-- A message was given up after one retry. -/
def demoBuried : LedgerHost :=
  (LedgerHost.fresh fun _ => none).arm ⟨fun _ => none, true⟩ ((∅ : Memory).insert 7 ⟨1, 8, some 9⟩) 7
    none

def demoForgotten : LedgerHost := demoBuried.arm demoBuried.sidecars (demoBuried.memory.erase 7) 7 none

/-- A message that was given up and then forgotten proceeds again. -/
theorem failed_retry_forgotten : ¬ ∀ (work : Bool) (files : Files) (l : List LedgerEvent)
    (t : LedgerHost), Run (LedgerStep work) (.fresh files) l t → ∀ l₁ l₂ id policy now,
      l = l₁ ++ .gated id policy now .proceed :: l₂ → .gaveUp id ∉ l₁ := by
  intro h
  have hx : Exec ledgerEnv ((FailedRetries.giveUp false 7 ⟨1, 8, none⟩ 9).run ∅)
      ⟨fun _ => none, true⟩ ⟨fun _ => none, true⟩ (⟨1, 8, some 9⟩, demoBuried.memory) := .ret
  have h₁ : LedgerStep false (.fresh fun _ => none) (.gaveUp 7) demoBuried := .giveUp ⟨1, 8, none⟩ hx
  have h₂ : LedgerStep false demoBuried (.forgot 7) demoForgotten := .forget .ret
  have h₃ : LedgerStep false demoForgotten (.gated 7 demoOnce 10 .proceed)
      (demoForgotten.arm demoForgotten.sidecars demoForgotten.memory 7 (some demoOnce)) := .gate .ret
  exact h false (fun _ => none) _ _ (.snoc (.snoc (.single h₁) h₂) h₃) [.gaveUp 7, .forgot 7] []
    7 demoOnce 10 rfl (List.mem_cons_self ..)

end MessageRelayer

import MessageRelayer.Delivery.Budget
import MessageRelayer.Delivery.Outcome

/-!
# Retries that may have reached the node

Runs of `reconcile_execution` on a node that may accept a `retryFailedMessage`
whatever the relayer is told of the broadcast (`retryEnv`), and in which the
process may be gone at any time, also while a broadcast, a write or a receipt
is awaited (`RetryStep.cut`). At every moment, what the node has accepted of a
message since its execution was last confirmed is at most the budget and what
is lost (`retries_accounted`): what came back as an error although it was
accepted, and what was not written to the message's file before its process was
gone. So the budget holds while nothing is lost (`retries_budgeted`), and not
otherwise (`retries_uncharged`).
-/

namespace MessageRelayer

open Prog hiding ask
open DeliveryM

/-! ## The node -/

/-- The files of the route, and what the node did since the execution of a message was last
confirmed. -/
structure RetryNode where
  sidecars : Sidecars
  /-- The `retryFailedMessage` transactions that it accepted. -/
  accepted : B256 → Nat
  /-- Those of them that the process was not told had failed, and after which the message's file was
  not written yet. -/
  unwritten : B256 → Nat
  /-- Those of them that the relayer was told had failed, or that were unwritten when the process was
  gone. -/
  lost : B256 → Nat

namespace RetryNode

def accept (w : RetryNode) (id : B256) : RetryNode :=
  { w with
    accepted := Function.update w.accepted id (w.accepted id + 1)
    unwritten := Function.update w.unwritten id (w.unwritten id + 1) }

def disown (w : RetryNode) (id : B256) : RetryNode :=
  { w with
    accepted := Function.update w.accepted id (w.accepted id + 1)
    lost := Function.update w.lost id (w.lost id + 1) }

/-- The execution of some messages is confirmed. -/
def confirm (w : RetryNode) (p : B256 → Bool) : RetryNode :=
  { w with
    accepted := fun id => if p id then 0 else w.accepted id
    unwritten := fun id => if p id then 0 else w.unwritten id
    lost := fun id => if p id then 0 else w.lost id }

/-- The process is gone; the next one has written nothing yet. -/
def ended (w : RetryNode) : RetryNode :=
  { w with
    sidecars := ⟨w.sidecars.files, true⟩
    unwritten := fun _ => 0
    lost := fun id => w.lost id + w.unwritten id }

end RetryNode

section
variable (codec : InboxCodec) (route : DeliveryRoute)

/-- Whether the answer confirms that the message was executed, at the depth of the route. -/
def confirms (id : B256) : (c : DeliveryCall) → c.Answer → Bool
  | .processedAt i block, .done processedAt =>
    decide (i = id ∧ processedAt ≠ 0) && (route.blockConfirmationDepth == 0 || block.isSome)
  | .awaitReceipt _, .done receipt =>
    receipt.status && route.blockConfirmationDepth == 0 &&
      decide (classifySuccessLogs codec route.inboxAddress id receipt.logs = .delivered)
  | _, _ => false

/-- A node that may accept a retry whatever it answers, and files that may fail. -/
def retryEnv : Env DeliveryCall DeliveryCall.Answer RetryNode := fun w c a w' =>
  match c, a with
  | .sidecar c, a => ledgerEnv w.sidecars c a w'.sidecars ∧ w'.accepted = w.accepted ∧
      w'.lost = w.lost ∧ match c, a with
        | .file id (.rename _), .ok _ => w'.unwritten = Function.update w.unwritten id 0
        | _, _ => w'.unwritten = w.unwritten
  | .sendRetry false id _, .sent _ => w' = w.accept id
  | .sendRetry false id _, .stalled => w' = w ∨ w' = w.accept id
  | .sendRetry false id _, .failed _ => w' = w ∨ w' = w.disown id
  | c, a => w' = w.confirm fun id => confirms codec route id c a

end

/-! ## Runs -/

structure RetryHost where
  node : RetryNode
  /-- The ledger's copy in memory. -/
  memory : Memory

/-- What is seen of a run: jobs of a message, and ends of the process. -/
inductive RetryEvent where
  | job (id : B256)
  /-- The process is gone in a job. -/
  | cut (id : B256)
  | restarted

inductive RetryStep (codec : InboxCodec) (work : Bool) (route : DeliveryRoute) :
    RetryHost → RetryEvent → RetryHost → Prop where
  | job {s : RetryHost} {id : B256} {w' : RetryNode} {r : DeliveryResultKind} {memory' : Memory}
      (hx : Exec (retryEnv codec route) ((reconcileExecution codec work route id).run s.memory)
        s.node w' (r, memory')) :
      RetryStep codec work route s (.job id) ⟨w', memory'⟩
  /-- The process is gone at any point of a job, and the next one starts. -/
  | cut {s : RetryHost} {id : B256} {w' : RetryNode}
      (hx : Cut (retryEnv codec route) ((reconcileExecution codec work route id).run s.memory)
        s.node w') :
      RetryStep codec work route s (.cut id) ⟨w'.ended, ∅⟩
  /-- The same between two jobs. -/
  | restart {s : RetryHost} : RetryStep codec work route s .restarted ⟨s.node.ended, ∅⟩

/-- A process of a relayer that just started. -/
def RetryHost.fresh (files : Files) : RetryHost :=
  ⟨⟨⟨files, true⟩, fun _ => 0, fun _ => 0, fun _ => 0⟩, ∅⟩

/-! ## What holds at every moment -/

/-- The node has accepted no more than the budget and what is lost, and every message's file knows
what was accepted, unless it is lost or unwritten. -/
structure RetryHeld (work : Bool) (max : Nat) (w : RetryNode) : Prop where
  bound : ∀ i, w.accepted i ≤ max + w.lost i
  files : ∀ i, ∃ x : Spent, x.attempts ≤ max ∧
    w.accepted i ≤ x.attempts + w.lost i + w.unwritten i ∧
    if work then FileOk x (w.sidecars.files i) else x = .nothing

/-- What the questions of a job must satisfy: a retry is left, what is written of a message covers
what was accepted, and only the file of a message that was executed is removed. -/
def RetryGuard (work : Bool) (max : Nat) (w : RetryNode) : DeliveryCall → Prop
  | .sendRetry false id _ => w.accepted id < max + w.lost id
  | .sidecar (.file id (.rename contents)) => work = true ∧ ∃ x : Spent, x.attempts ≤ max ∧
      w.accepted id ≤ x.attempts + w.lost id ∧ FileOk x (some contents)
  | .sidecar (.file id .remove) => w.accepted id = 0
  | _ => True

section
variable {codec : InboxCodec} {route : DeliveryRoute} {work : Bool} {max : Nat} {w w' : RetryNode}

theorem RetryNode.confirm_none (w : RetryNode) : w.confirm (fun _ => false) = w := by
  cases w
  simp [RetryNode.confirm]

theorem RetryHeld.confirm (h : RetryHeld work max w) (p : B256 → Bool) :
    RetryHeld work max (w.confirm p) := by
  refine ⟨fun i => ?_, fun i => ?_⟩
  · have hb := h.bound i
    simp only [RetryNode.confirm]
    split <;> omega
  · obtain ⟨x, hx, ha, hf⟩ := h.files i
    refine ⟨x, hx, ?_, hf⟩
    simp only [RetryNode.confirm]
    split <;> omega

theorem RetryHeld.accept (h : RetryHeld work max w) {id : B256} (hg : w.accepted id < max + w.lost id) :
    RetryHeld work max (w.accept id) := by
  refine ⟨fun i => ?_, fun i => ?_⟩
  · have hb := h.bound i
    by_cases hi : i = id
    · subst hi
      simp only [RetryNode.accept, Function.update_self]
      omega
    · simpa [RetryNode.accept, hi] using hb
  · obtain ⟨x, hx, ha, hf⟩ := h.files i
    refine ⟨x, hx, ?_, hf⟩
    by_cases hi : i = id
    · subst hi
      simp only [RetryNode.accept, Function.update_self]
      omega
    · simpa [RetryNode.accept, hi] using ha

theorem RetryHeld.disown (h : RetryHeld work max w) (id : B256) : RetryHeld work max (w.disown id) := by
  refine ⟨fun i => ?_, fun i => ?_⟩
  · have hb := h.bound i
    by_cases hi : i = id
    · subst hi
      simp only [RetryNode.disown, Function.update_self]
      omega
    · simpa [RetryNode.disown, hi] using hb
  · obtain ⟨x, hx, ha, hf⟩ := h.files i
    refine ⟨x, hx, ?_, hf⟩
    by_cases hi : i = id
    · subst hi
      simp only [RetryNode.disown, Function.update_self]
      omega
    · simpa [RetryNode.disown, hi] using ha

/-- The process is gone. -/
theorem RetryHeld.ended (h : RetryHeld work max w) : RetryHeld work max w.ended := by
  refine ⟨fun i => ?_, fun i => ?_⟩
  · have hb := h.bound i
    simp only [RetryNode.ended]
    omega
  · obtain ⟨x, hx, ha, hf⟩ := h.files i
    refine ⟨x, hx, ?_, hf⟩
    simp only [RetryNode.ended]
    omega

/-- A call that changes the file of one message, if any. -/
theorem RetryHeld.write (h : RetryHeld work max w) (ha : w'.accepted = w.accepted) (hd : w'.lost = w.lost)
    (id : B256) (ho : ∀ i, i ≠ id → w'.sidecars.files i = w.sidecars.files i ∧
      w'.unwritten i = w.unwritten i)
    (hid : (w'.sidecars.files id = w.sidecars.files id ∧ w'.unwritten id = w.unwritten id) ∨
      ∃ x : Spent, x.attempts ≤ max ∧ w.accepted id ≤ x.attempts + w.lost id ∧
        if work then FileOk x (w'.sidecars.files id) else x = .nothing) : RetryHeld work max w' := by
  refine ⟨fun i => by rw [ha, hd]; exact h.bound i, fun i => ?_⟩
  rw [ha, hd]
  by_cases hi : i = id
  · subst hi
    rcases hid with ⟨hf, hu⟩ | ⟨x, hx, hacc, hf⟩
    · rw [hf, hu]
      exact h.files i
    · exact ⟨x, hx, by omega, hf⟩
  · obtain ⟨hf, hu⟩ := ho i hi
    rw [hf, hu]
    exact h.files i

/-- The calls on the files. -/
theorem RetryHeld.sidecar (h : RetryHeld work max w) {c : SidecarCall} {a : c.Answer}
    (hg : RetryGuard work max w (.sidecar c)) (hx : retryEnv codec route w (.sidecar c) a w') :
    RetryHeld work max w' := by
  obtain ⟨hl, ha, hd, hu⟩ := hx
  by_cases hq : c.quiet = true
  · have hf := ledgerEnv_quiet hl hq
    have hu : w'.unwritten = w.unwritten := by
      cases c with
      | createDir | tryExists | syncDir => exact hu
      | file id c => cases c <;> first | exact hu | cases hq
    exact h.write ha hd 0 (fun i _ => by rw [hf, hu]; exact ⟨rfl, rfl⟩)
      (.inl (by rw [hf, hu]; exact ⟨rfl, rfl⟩))
  cases c with
  | createDir | tryExists | syncDir => exact absurd rfl hq
  | file id c =>
    obtain ⟨-, hother, hfile⟩ := hl
    cases c with
    | createDirAll | writeTmp | syncDir | read => exact absurd rfl hq
    | remove =>
      have hu : w'.unwritten = w.unwritten := hu
      refine h.write ha hd _ (fun i hi => ⟨hother i hi, by rw [hu]⟩)
        (.inr ⟨.nothing, Nat.zero_le _, ?_, ?_⟩)
      · rw [show w.accepted id = 0 from hg]
        exact Nat.zero_le _
      · split
        · exact fileOk_nothing _
        · rfl
    | rename contents =>
      obtain ⟨hwork, x, hx, hacc, hf⟩ := hg
      have hnew : w'.sidecars.files id = some contents → ∃ x : Spent, x.attempts ≤ max ∧
          w.accepted id ≤ x.attempts + w.lost id ∧
          if work then FileOk x (w'.sidecars.files id) else x = .nothing := fun e =>
        ⟨x, hx, hacc, by rw [if_pos hwork, e]; exact hf⟩
      cases a with
      | ok =>
        have hu : w'.unwritten = Function.update w.unwritten id 0 := hu
        refine h.write ha hd _ (fun i hi => ⟨hother i hi, ?_⟩) (.inr (hnew hfile))
        rw [hu, Function.update_of_ne hi]
      | error =>
        have hu : w'.unwritten = w.unwritten := hu
        refine h.write ha hd _ (fun i hi => ⟨hother i hi, by rw [hu]⟩) ?_
        rcases hfile with hfile | ⟨-, hfile⟩
        · exact .inl ⟨hfile, by rw [hu]⟩
        · exact .inr (hnew hfile)

/-- An allowed question keeps what holds. -/
theorem RetryHeld.answer (h : RetryHeld work max w) {c : DeliveryCall} {a : c.Answer}
    (hg : RetryGuard work max w c) (ha : retryEnv codec route w c a w') : RetryHeld work max w' := by
  cases c with
  | sidecar c => exact h.sidecar hg ha
  | sendRetry pending id gas =>
    cases pending with
    | true => exact (show w' = _ from ha) ▸ h.confirm _
    | false =>
      cases a with
      | sent txHash => exact (show w' = _ from ha) ▸ h.accept hg
      | stalled =>
        rcases (ha : w' = w ∨ w' = w.accept id) with rfl | rfl
        · exact h
        · exact h.accept hg
      | failed err =>
        rcases (ha : w' = w ∨ w' = w.disown id) with rfl | rfl
        · exact h
        · exact h.disown id
  | _ => exact (show w' = _ from ha) ▸ h.confirm _

end

/-! ## What the ledger charged -/

/-- What the ledger charged covers what the node accepted; `slack` retries of the message `id` are
accepted and not charged yet. -/
structure Accounts (work : Bool) (max : Nat) (id : B256) (slack : Nat) (x : B256 → Spent)
    (w : RetryNode) (memory : Memory) (armed : B256 → Option FailedRetryPolicy) : Prop where
  ledger : LedgerOk work x ⟨w.sidecars, memory, armed⟩
  budget : ∀ i, (x i).attempts ≤ max
  accepted : ∀ i, w.accepted i ≤ (x i).attempts + w.lost i + if i = id then slack else 0

section
variable {codec : InboxCodec} {route : DeliveryRoute} {work : Bool} {max slack : Nat} {id : B256}
  {x : B256 → Spent} {w w' : RetryNode} {memory memory' : Memory}
  {armed armed' : B256 → Option FailedRetryPolicy}

/-- Nobody is owed anything, of any message. -/
theorem Accounts.of_zero (h : Accounts work max id 0 x w memory armed) (id' : B256) :
    Accounts work max id' 0 x w memory armed := by
  refine ⟨h.ledger, h.budget, fun i => ?_⟩
  have ha := h.accepted i
  split at ha <;> split <;> omega

/-- An operation of the ledger on the message, that charges it with `spent` more. -/
theorem Accounts.charged (slack spent : Nat) {e : LedgerEvent}
    (h : Accounts work max id (slack + spent) x w memory armed)
    (hl : LedgerOk work (e.charge x) ⟨w'.sidecars, memory', armed'⟩) (he : e.about = some id)
    (hs : (e.spend (x id)).attempts = (x id).attempts + spent) (hm : (x id).attempts + spent ≤ max)
    (ha : w'.accepted = w.accepted) (hd : w'.lost = w.lost) :
    Accounts work max id slack (e.charge x) w' memory' armed' := by
  refine ⟨hl, fun i => ?_, fun i => ?_⟩
  · by_cases hi : i = id
    · rw [hi, LedgerEvent.charge_self he, hs]
      exact hm
    · rw [LedgerEvent.charge_other he hi]
      exact h.budget i
  · have hacc := h.accepted i
    rw [ha, hd]
    by_cases hi : i = id
    · subst hi
      rw [LedgerEvent.charge_self he, hs]
      rw [if_pos rfl] at hacc ⊢
      omega
    · rw [LedgerEvent.charge_other he hi]
      rw [if_neg hi] at hacc ⊢
      exact hacc

theorem Accounts.confirm (h : Accounts work max id slack x w memory armed) (p : B256 → Bool) :
    Accounts work max id slack x (w.confirm p) memory armed := by
  refine ⟨h.ledger, h.budget, fun i => ?_⟩
  have ha := h.accepted i
  simp only [RetryNode.confirm]
  split
  · exact Nat.zero_le _
  · exact ha

theorem Accounts.accept (h : Accounts work max id 0 x w memory armed) :
    Accounts work max id 1 x (w.accept id) memory armed := by
  refine ⟨h.ledger, h.budget, fun i => ?_⟩
  have ha := h.accepted i
  by_cases hi : i = id
  · subst hi
    simp only [RetryNode.accept, Function.update_self, if_true] at ha ⊢
    omega
  · simpa [RetryNode.accept, hi] using ha

theorem Accounts.disown (h : Accounts work max id 0 x w memory armed) :
    Accounts work max id 0 x (w.disown id) memory armed := by
  refine ⟨h.ledger, h.budget, fun i => ?_⟩
  have ha := h.accepted i
  by_cases hi : i = id
  · subst hi
    simp only [RetryNode.disown, Function.update_self, if_true] at ha ⊢
    omega
  · simpa [RetryNode.disown, hi] using ha

theorem Accounts.slacken (h : Accounts work max id 0 x w memory armed) :
    Accounts work max id 1 x w memory armed := by
  refine ⟨h.ledger, h.budget, fun i => ?_⟩
  have ha := h.accepted i
  split at ha <;> omega

/-- A node whose files know what it accepted, for a process that starts. -/
theorem RetryHeld.accounts (h : RetryHeld work max w) (id : B256) :
    ∃ x, Accounts work max id 0 x w.ended ∅ fun _ => none := by
  choose x hx ha hf using h.files
  refine ⟨x, LedgerOk.fresh hf true, hx, fun i => ?_⟩
  have ha := ha i
  simp only [RetryNode.ended]
  split <;> omega

/-! ## The operations of the ledger -/

/-- A job of a route, with the questions that it may ask. -/
abbrev RetryRuns (codec : InboxCodec) (work : Bool) (route : DeliveryRoute) {α : Type}
    (m : DeliveryM α) (memory : Memory) (w : RetryNode) (Q : RetryNode → α × Memory → Prop) : Prop :=
  safe (retryEnv codec route) (RetryGuard work route.failedRetry.maxAttempts) (m.run memory) w Q

@[simp] theorem safe_deliveryAsk {W : Type} {H : Env DeliveryCall DeliveryCall.Answer W}
    {G : W → DeliveryCall → Prop} (c : DeliveryCall) (memory : Memory) (w : W)
    (Q : W → c.Answer × Memory → Prop) :
    safe (α := no_index (c.Answer × Memory)) H G
        (StateT.run (α := no_index c.Answer) (DeliveryM.ask c) memory) w Q ↔
      G w c ∧ ∀ a w', H w c a w' → Q w' (a, memory) :=
  and_congr ⟨And.left, fun h => ⟨h, fun _ _ _ => trivial⟩⟩ (wp_deliveryAsk memory w c Q)

theorem retries_nowUnix {Q : RetryNode → Nat × Memory → Prop} (h : ∀ now, Q w (now, memory)) :
    RetryRuns codec work route nowUnix memory w Q := by
  refine ⟨⟨trivial, fun _ _ _ => trivial⟩, ?_⟩
  rw [wp_nowUnix]
  intro now w₁ ha
  obtain rfl : w₁ = w := (show w₁ = _ from ha).trans w.confirm_none
  exact h _

/-- An operation of the ledger, on the node. -/
theorem retries_ledger {α : Type} {m : LedgerM α} {P : SidecarCall → Prop}
    {Q : Sidecars → α × Memory → Prop} (hq : wp ledgerEnv (m.run memory) w.sidecars Q)
    (hp : asks ledgerEnv (fun _ c => P c) (m.run memory) w.sidecars)
    (hg : ∀ w' : RetryNode, w'.accepted = w.accepted → w'.lost = w.lost → ∀ c, P c →
      RetryGuard work route.failedRetry.maxAttempts w' (.sidecar c)) :
    RetryRuns codec work route (DeliveryM.ledger m) memory w fun w' r =>
      Q w'.sidecars r ∧ w'.accepted = w.accepted ∧ w'.lost = w.lost := by
  have hsame : ∀ (w₁ : RetryNode) c a w₂, sidecarOf (retryEnv codec route) w₁ c a w₂ →
      w₁.accepted = w.accepted ∧ w₁.lost = w.lost → ledgerEnv w₁.sidecars c a w₂.sidecars ∧
        w₂.accepted = w.accepted ∧ w₂.lost = w.lost := fun w₁ c a w₂ hx hw => by
    obtain ⟨hl, ha, hd, -⟩ := (sidecarOf_iff _).mp hx
    exact ⟨hl, ha.trans hw.1, hd.trans hw.2⟩
  refine ⟨asks_embed (asks_map (f := RetryNode.sidecars) hsame
    (fun w' c hw hc => hg w' hw.1 hw.2 c hc) hp ⟨rfl, rfl⟩), ?_⟩
  rw [wp_ledger]
  refine wp_iff.mpr fun w' r hx => ⟨?_, ?_⟩
  · have hx' : Exec ledgerEnv (m.run memory) w.sidecars w'.sidecars r :=
      hx.map fun _ _ _ _ ha => ((sidecarOf_iff _).mp ha).1
    exact hx'.post hq
  · refine hx.inv (I := fun w' => w'.accepted = w.accepted ∧ w'.lost = w.lost)
      (fun w₁ c a w₂ ha hw => (hsame w₁ c a w₂ ha hw).2) ⟨rfl, rfl⟩

/-- What is written of a message covers what was accepted. -/
theorem Accounts.puts {e : LedgerEvent} {spent : Nat}
    (h : Accounts work max id spent x w memory armed)
    (hs : (e.spend (x id)).attempts = (x id).attempts + spent) (hm : (x id).attempts + spent ≤ max)
    (ha : w'.accepted = w.accepted) (hd : w'.lost = w.lost) {c : SidecarCall}
    (hc : c.Puts work id (e.spend (x id))) : RetryGuard work max w' (.sidecar c) := by
  cases c with
  | createDir | tryExists | syncDir => trivial
  | file i c =>
    cases c with
    | createDirAll | writeTmp | syncDir | read => trivial
    | remove => exact hc.elim
    | rename contents =>
      obtain ⟨hwork, rfl, hf⟩ := hc
      have hacc := h.accepted i
      rw [if_pos rfl] at hacc
      refine ⟨hwork, _, ?_, ?_, hf⟩
      · rw [hs]
        exact hm
      · rw [hs, ha, hd]
        omega

end

section
variable {codec : InboxCodec} {route : DeliveryRoute} {work : Bool} {slack : Nat} {id : B256}
  {x : B256 → Spent} {w w' : RetryNode} {memory : Memory}
  {armed : B256 → Option FailedRetryPolicy}

theorem Accounts.gate
    (h : Accounts work route.failedRetry.maxAttempts id 0 x w memory armed) (now : Nat) :
    RetryRuns codec work route (DeliveryM.ledger (FailedRetries.gate work id route.failedRetry now))
      memory w fun w' r => ∃ x' armed',
        Accounts work route.failedRetry.maxAttempts id 0 x' w' r.2 armed' ∧
          (r.1 = .proceed → armed' id = some route.failedRetry) := by
  have hputs : asks ledgerEnv (fun _ c => c.quiet = true)
      ((FailedRetries.gate work id route.failedRetry now).run memory) w.sidecars :=
    FailedRetries.asks_gate (fun _ _ hc => hc) _ _ _ _
  refine safe_mono (retries_ledger (h.ledger.gate id route.failedRetry now) hputs ?_) ?_
  · intro w' ha hd c hc
    have hc : c.Puts work id ((LedgerEvent.gated id route.failedRetry now .proceed).spend (x id)) :=
      .of_quiet hc
    exact h.puts rfl (h.budget id) ha hd hc
  · rintro w' r ⟨⟨hl, -⟩, ha, hd⟩
    refine ⟨_, _, h.charged 0 0 hl rfl rfl (h.budget id) ha hd, fun hp => ?_⟩
    simp [hp]

theorem Accounts.start
    (h : Accounts work route.failedRetry.maxAttempts id 0 x w memory armed) (now : Nat) :
    RetryRuns codec work route (DeliveryM.ledger (FailedRetries.start work id route.failedRetry now))
      memory w fun w' r => ∃ x' armed',
        Accounts work route.failedRetry.maxAttempts id 0 x' w' r.2 armed' := by
  refine safe_mono (retries_ledger (h.ledger.start id route.failedRetry now)
    (h.ledger.start_puts id route.failedRetry now) ?_) ?_
  · exact fun w' ha hd c hc => h.puts (e := .started id) rfl (h.budget id) ha hd hc
  · rintro w' r ⟨hl, ha, hd⟩
    exact ⟨_, _, h.charged 0 0 hl rfl rfl (h.budget id) ha hd⟩

theorem Accounts.giveUp
    (h : Accounts work route.failedRetry.maxAttempts id 0 x w memory armed)
    (state : FailedRetryState) (now : Nat) :
    RetryRuns codec work route (DeliveryM.ledger (FailedRetries.giveUp work id state now)) memory w
      fun w' r => ∃ x' armed',
        Accounts work route.failedRetry.maxAttempts id 0 x' w' r.2 armed' := by
  refine safe_mono (retries_ledger (h.ledger.giveUp id state now)
    (LedgerOk.giveUp_puts (x := x) id state now memory w.sidecars) ?_) ?_
  · exact fun w' ha hd c hc => h.puts (e := .gaveUp id) rfl (h.budget id) ha hd hc
  · rintro w' r ⟨hl, ha, hd⟩
    exact ⟨_, _, h.charged 0 0 hl rfl rfl (h.budget id) ha hd⟩

/-- One more attempt is charged, which the gate had left. -/
theorem Accounts.record
    (h : Accounts work route.failedRetry.maxAttempts id 1 x w memory armed)
    (harmed : armed id = some route.failedRetry) (now : Nat) :
    RetryRuns codec work route
      (DeliveryM.ledger (FailedRetries.recordAttempt work id route.failedRetry now)) memory w
      fun w' r => ∃ x' armed',
        Accounts work route.failedRetry.maxAttempts id 0 x' w' r.2 armed' := by
  have hleft := ((h.ledger id).armed route.failedRetry harmed).2.1
  refine safe_mono (retries_ledger (h.ledger.record id harmed now)
    (h.ledger.record_puts id harmed now) ?_) ?_
  · exact fun w' ha hd c hc =>
      h.puts (e := .recorded id route.failedRetry now) rfl hleft ha hd hc
  · rintro w' r ⟨hl, ha, hd⟩
    exact ⟨_, _, h.charged 0 1 hl rfl rfl hleft ha hd⟩

/-- The execution was confirmed. -/
theorem Accounts.forget
    (h : Accounts work route.failedRetry.maxAttempts id 0 x w memory armed)
    (hz : w.accepted id = 0) :
    RetryRuns codec work route (DeliveryM.ledger (FailedRetries.forget work id)) memory w
      fun w' r => ∃ x' armed',
        Accounts work route.failedRetry.maxAttempts id 0 x' w' r.2 armed' := by
  have hasks : asks ledgerEnv (fun _ c => c = .file id .remove ∨ c = .syncDir id)
      ((FailedRetries.forget work id).run memory) w.sidecars :=
    FailedRetries.asks_forget (fun _ => .inl rfl) (fun _ => .inr rfl) _ _
  refine safe_mono (retries_ledger (h.ledger.forget id) hasks ?_) ?_
  · rintro w' ha - c (rfl | rfl)
    · exact (congrFun ha id).trans hz
    · trivial
  · rintro w' r ⟨hl, ha, hd⟩
    refine ⟨_, _, hl, fun i => ?_, fun i => ?_⟩
    · by_cases hi : i = id
      · rw [hi, LedgerEvent.charge_self rfl]
        exact Nat.zero_le _
      · rw [LedgerEvent.charge_other rfl hi]
        exact h.budget i
    · rw [ha, hd]
      by_cases hi : i = id
      · rw [hi, hz]
        exact Nat.zero_le _
      · rw [LedgerEvent.charge_other rfl hi]
        exact h.accepted i

end

/-! ## A job -/

/-- What a job, or a part of it, leaves: everything that the node accepted is charged, or lost. -/
def RetrySettled (work : Bool) (max : Nat) (id : B256) {α : Type} (w : RetryNode) (r : α × Memory) :
    Prop :=
  ∃ x armed, Accounts work max id 0 x w r.2 armed

section
variable {codec : InboxCodec} {work : Bool} {route : DeliveryRoute} {id : B256}
  {x : B256 → Spent} {w : RetryNode} {memory : Memory}
  {armed : B256 → Option FailedRetryPolicy}

theorem Accounts.settled {max : Nat} {α : Type} (h : Accounts work max id 0 x w memory armed)
    (a : α) : RetrySettled work max id w (a, memory) := ⟨x, armed, h⟩

theorem giveUp_settles (h : Accounts work route.failedRetry.maxAttempts id 0 x w memory armed)
    (state : FailedRetryState) : RetryRuns codec work route (giveUpFailedRetries work id state) memory w
      (RetrySettled work route.failedRetry.maxAttempts id) := by
  rw [giveUpFailedRetries]
  split
  · exact (safe_state_pure ..).mpr (h.settled _)
  · simp only [safe_state_bind, safe_state_pure]
    refine retries_nowUnix fun now => ?_
    exact safe_mono (h.giveUp state _) fun w' r h => h

theorem afterFailedRetry_settles
    (h : Accounts work route.failedRetry.maxAttempts id 0 x w memory armed) (state : FailedRetryState)
    (retryDeferred : Option Nat) :
    RetryRuns codec work route (afterFailedRetry work route id state retryDeferred) memory w
      (RetrySettled work route.failedRetry.maxAttempts id) := by
  rw [afterFailedRetry]
  split
  · exact giveUp_settles h state
  · exact (safe_state_pure ..).mpr (h.settled _)

theorem startFailedRetries_settles
    (h : Accounts work route.failedRetry.maxAttempts id 0 x w memory armed) :
    RetryRuns codec work route (startFailedRetries work route id) memory w
      (RetrySettled work route.failedRetry.maxAttempts id) := by
  simp only [startFailedRetries, safe_state_bind]
  refine retries_nowUnix fun now => safe_mono (h.start now) fun w' r h => ?_
  obtain ⟨x', armed', h⟩ := h
  split
  · exact giveUp_settles h r.1
  · exact (safe_state_pure ..).mpr (h.settled _)

theorem countRetry_settles
    (h : Accounts work route.failedRetry.maxAttempts id 1 x w memory armed)
    (harmed : armed id = some route.failedRetry) :
    RetryRuns codec work route (countRetry work route id) memory w
      (RetrySettled work route.failedRetry.maxAttempts id) := by
  simp only [countRetry, safe_state_bind]
  exact retries_nowUnix fun now => h.record harmed now

/-- A retry that the node accepted is charged, before anything else. -/
theorem chargeRetry_settles {pending : Bool}
    (h : Accounts work route.failedRetry.maxAttempts id (if pending then 0 else 1) x w memory armed)
    (harmed : pending = false → armed id = some route.failedRetry) :
    RetryRuns codec work route (chargeRetry work route id pending) memory w
      (RetrySettled work route.failedRetry.maxAttempts id) := by
  cases pending with
  | true => exact (safe_state_pure ..).mpr (h.settled _)
  | false =>
    simp only [chargeRetry, Bool.false_eq_true, ↓reduceIte, safe_state_bind, safe_state_pure]
    exact safe_mono (countRetry_settles h (harmed rfl)) fun w' r h => h

/-- A receipt after which the message counts as delivered confirms its execution. -/
theorem observeLogs_confirms {receipt : Receipt} (hs : receipt.status = true)
    (hd : (observeLogs codec route id receipt).result = .delivered) (txHash : B256) :
    confirms codec route id (.awaitReceipt txHash) (.done receipt) = true := by
  rw [observeLogs] at hd
  split at hd
  · rename_i hc
    split at hd
    · rename_i h₀
      simp [confirms, hs, h₀, hc]
    · cases hd
  all_goals cases hd

theorem observeRetry_settles
    (h : Accounts work route.failedRetry.maxAttempts id 0 x w memory armed) (pending : Bool)
    (gas : Nat) (txHash : B256) :
    RetryRuns codec work route (observeRetry codec work route id pending gas txHash) memory w
      (RetrySettled work route.failedRetry.maxAttempts id) := by
  simp only [observeRetry, safe_state_bind, safe_deliveryAsk]
  refine ⟨trivial, fun a w₁ ha => ?_⟩
  obtain rfl : w₁ = _ := ha
  have h := h.confirm fun i => confirms codec route i (.awaitReceipt txHash) a
  cases a with
  | elapsed => exact (safe_state_pure ..).mpr (h.settled _)
  | failed => exact (safe_state_pure ..).mpr (h.settled _)
  | done receipt =>
    dsimp only
    split
    · rename_i hstatus
      split
      · rename_i hd
        -- the receipt confirms the execution that the ledger forgets
        have hz : (w.confirm fun i => confirms codec route i (.awaitReceipt txHash)
            (.done receipt)).accepted id = 0 := if_pos (observeLogs_confirms hstatus hd txHash)
        simp only [safe_state_bind, safe_state_pure]
        exact safe_mono (h.forget hz) fun w' r h => h
      · exact (safe_state_pure ..).mpr (h.settled _)
    · simp only [safe_state_bind, safe_deliveryAsk]
      refine ⟨trivial, fun a w₂ ha => ?_⟩
      obtain rfl : w₂ = _ := ha
      have h := h.confirm fun i =>
        confirms codec route i (.callRetry pending id gas receipt.blockNumber) a
      cases a <;> exact (safe_state_pure ..).mpr (h.settled _)

theorem settleRetry_settles (h : Accounts work route.failedRetry.maxAttempts id 0 x w memory armed)
    (spent : Option FailedRetryState) (observed : Observed) :
    RetryRuns codec work route (settleRetry work route id spent observed) memory w
      (RetrySettled work route.failedRetry.maxAttempts id) := by
  cases spent with
  | some spent =>
    rw [settleRetry]
    split
    · exact afterFailedRetry_settles h _ _
    · exact (safe_state_pure ..).mpr (h.settled _)
  | none =>
    rw [settleRetry]
    split
    · exact startFailedRetries_settles h
    · exact (safe_state_pure ..).mpr (h.settled _)

/-- What the answer to a broadcast says of what the node accepted. -/
theorem Accounts.sent {pending : Bool} {gas : Nat} {a : Broadcast} {w' : RetryNode}
    (h : Accounts work route.failedRetry.maxAttempts id 0 x w memory armed)
    (ha : retryEnv codec route w (.sendRetry pending id gas) a w') :
    match a with
    | .failed _ => Accounts work route.failedRetry.maxAttempts id 0 x w' memory armed
    | .stalled | .sent _ => Accounts work route.failedRetry.maxAttempts id (if pending then 0 else 1)
        x w' memory armed := by
  cases pending with
  | true =>
    have hc := h.confirm fun i => confirms codec route i (.sendRetry true id gas) a
    rw [← show w' = _ from ha] at hc
    cases a <;> exact hc
  | false =>
    cases a with
    | sent txHash => exact (show w' = _ from ha) ▸ h.accept
    | stalled =>
      rcases (ha : w' = w ∨ w' = w.accept id) with rfl | rfl
      · exact h.slacken
      · exact h.accept
    | failed err =>
      rcases (ha : w' = w ∨ w' = w.disown id) with rfl | rfl
      · exact h
      · exact h.disown

theorem sendRetry_settles (h : Accounts work route.failedRetry.maxAttempts id 0 x w memory armed)
    {pending : Bool} (harmed : pending = false → armed id = some route.failedRetry) (gas : Nat) :
    RetryRuns codec work route (sendRetry codec work route id pending gas) memory w
      (RetrySettled work route.failedRetry.maxAttempts id) := by
  simp only [sendRetry, safe_state_bind, safe_deliveryAsk]
  refine ⟨?_, fun a w₁ ha => ?_⟩
  · cases pending with
    | true => trivial
    | false =>
      have hacc := h.accepted id
      have hleft := ((h.ledger id).armed route.failedRetry (harmed rfl)).2.1
      rw [if_pos rfl] at hacc
      show w.accepted id < _ + w.lost id
      omega
  have hs := h.sent ha
  cases a with
  | failed err => exact (safe_state_pure ..).mpr (hs.settled _)
  | stalled =>
    cases pending with
    | true => exact (safe_state_pure ..).mpr (hs.settled _)
    | false =>
      simp only [Bool.false_eq_true, ↓reduceIte, safe_state_bind]
      refine safe_mono (countRetry_settles hs (harmed rfl)) fun w₂ r ⟨x', armed', h⟩ => ?_
      exact afterFailedRetry_settles h _ _
  | sent txHash =>
    simp only [safe_state_bind]
    refine safe_mono (chargeRetry_settles hs harmed) fun w₂ spent ⟨x', armed', h⟩ => ?_
    refine safe_mono (observeRetry_settles h _ _ _) fun w₃ observed ⟨x', armed', h⟩ => ?_
    exact settleRetry_settles h _ _

theorem retryExecution_settles
    (h : Accounts work route.failedRetry.maxAttempts id 0 x w memory armed) {pending : Bool}
    (harmed : pending = false → armed id = some route.failedRetry) :
    RetryRuns codec work route (retryExecution codec work route id pending) memory w
      (RetrySettled work route.failedRetry.maxAttempts id) := by
  simp only [retryExecution, safe_state_bind, safe_deliveryAsk]
  refine ⟨trivial, fun a w₁ ha => ?_⟩
  obtain rfl : w₁ = _ := ha
  have h := h.confirm fun i => confirms codec route i (.estimateRetry pending id) a
  cases a with
  | elapsed => exact (safe_state_pure ..).mpr (h.settled _)
  | failed => exact (safe_state_pure ..).mpr (h.settled _)
  | done gas =>
    dsimp only
    split
    · simp only [safe_state_bind, safe_deliveryAsk]
      refine ⟨trivial, fun a w₂ ha => ?_⟩
      obtain rfl : w₂ = _ := ha
      have h := h.confirm fun i => confirms codec route i (.callRetry pending id _ none) a
      cases a with
      | elapsed => exact (safe_state_pure ..).mpr (h.settled _)
      | failed => exact (safe_state_pure ..).mpr (h.settled _)
      | done => exact sendRetry_settles h harmed _
    · exact (safe_state_pure ..).mpr (h.settled _)

end

/-! ## Reading the state of the message -/

/-- The calls that read the Inbox's state of a message. -/
def DeliveryCall.reads : DeliveryCall → Bool
  | processedAt .. | blockNumber | isPending _ | isRetryable _ => true
  | _ => false

theorem only_readCall {c : DeliveryCall} (hc : c.reads = true) :
    Only (fun c => c.reads = true) (readCall c).run := ⟨hc, fun _ => trivial⟩

theorem only_orInterrupt {α : Type} (P : DeliveryCall → Prop) (r : Reply α) :
    Only P (orInterrupt r).run := by cases r <;> trivial

theorem executionState_reads (route : DeliveryRoute) (id : B256) :
    Only (fun c => c.reads = true) (executionState route id).run := by
  rw [executionState]
  refine (only_readCall rfl).run_bind fun r => (only_orInterrupt _ r).run_bind fun processedAt => ?_
  split
  · split
    · refine (only_readCall rfl).run_bind fun r => (only_orInterrupt _ r).run_bind fun tip => ?_
      dsimp only
      split
      · trivial
      · refine (only_readCall rfl).run_bind fun r => (only_orInterrupt _ r).run_bind fun at' => ?_
        trivial
    · trivial
  · refine (only_readCall rfl).run_bind fun r => (only_orInterrupt _ r).run_bind fun pending => ?_
    split
    · trivial
    · refine (only_readCall rfl).run_bind fun r => (only_orInterrupt _ r).run_bind fun retryable => ?_
      split <;> trivial

section
variable {codec : InboxCodec} {work : Bool} {route : DeliveryRoute} {id : B256}
  {x : B256 → Spent} {w : RetryNode} {memory : Memory}
  {armed : B256 → Option FailedRetryPolicy}

/-- A read of the state changes nothing but what it confirms. -/
theorem retryEnv_reads {c : DeliveryCall} {a : c.Answer} {w' : RetryNode} (hc : c.reads = true)
    (h : retryEnv codec route w c a w') :
    w' = w.confirm fun i => confirms codec route i c a := by
  cases c with
  | processedAt | blockNumber | isPending | isRetryable => exact h
  | _ => simp [DeliveryCall.reads] at hc

theorem RetryGuard.of_reads {max : Nat} {c : DeliveryCall} (hc : c.reads = true) :
    RetryGuard work max w c := by
  cases c with
  | processedAt | blockNumber | isPending | isRetryable => trivial
  | _ => simp [DeliveryCall.reads] at hc

/-- A message that counts as executed was confirmed. -/
theorem executionState_confirms (w : RetryNode) : wp (retryEnv codec route)
    (executionState route id).run w fun w' r => r = .ok .executed → w'.accepted id = 0 := by
  simp only [executionState, wp_run_bind, wp_readCall, wp_orInterrupt]
  rintro (_ | _ | processedAt) w₁ ha
  · exact fun e => by cases e
  · exact fun e => by cases e
  dsimp only
  split
  · rename_i hp
    split
    · simp only [wp_run_bind, wp_readCall, wp_orInterrupt]
      rintro (_ | _ | tip) w₂ -
      · exact fun e => by cases e
      · exact fun e => by cases e
      dsimp only
      split
      · exact fun e => by cases e
      simp only [wp_run_bind, wp_readCall, wp_orInterrupt]
      rintro (_ | _ | confirmedAt) w₃ hb
      · exact fun e => by cases e
      · exact fun e => by cases e
      intro e
      have hc : confirmedAt ≠ 0 := by
        rintro rfl
        cases e
      obtain rfl : w₃ = _ := hb
      simp [RetryNode.confirm, confirms, hc]
    · rename_i h₀
      intro _
      obtain rfl : w₁ = _ := ha
      simp [RetryNode.confirm, confirms, hp, Nat.eq_zero_of_not_pos h₀]
  · simp only [wp_run_bind, wp_readCall, wp_orInterrupt]
    rintro (_ | _ | pending) w₂ -
    · exact fun e => by cases e
    · exact fun e => by cases e
    dsimp only
    split
    · exact fun e => by cases e
    · simp only [wp_run_bind, wp_readCall, wp_orInterrupt]
      rintro (_ | _ | retryable) w₃ -
      · exact fun e => by cases e
      · exact fun e => by cases e
      dsimp only
      split <;> exact fun e => by cases e

theorem executionState_settles {max : Nat} (h : Accounts work max id 0 x w memory armed) :
    safe (retryEnv codec route) (RetryGuard work max) (executionState route id).run w fun w' r =>
      Accounts work max id 0 x w' memory armed ∧ (r = .ok .executed → w'.accepted id = 0) := by
  refine ⟨asks_mono ((executionState_reads route id).asks w) fun _ _ => .of_reads, wp_and ?_
    (executionState_confirms w)⟩
  refine wp_iff.mpr fun w' r hx => ?_
  refine hx.only (I := fun w' => Accounts work max id 0 x w' memory armed)
    (fun w₁ c a w₂ hc ha hw => ?_) (executionState_reads route id) h
  rw [retryEnv_reads hc ha]
  exact hw.confirm _

theorem reconcileExecution_settles
    (h : Accounts work route.failedRetry.maxAttempts id 0 x w memory armed) :
    RetryRuns codec work route (reconcileExecution codec work route id) memory w
      (RetrySettled work route.failedRetry.maxAttempts id) := by
  simp only [reconcileExecution, safe_state_bind, safe_state_lift]
  refine safe_mono (executionState_settles h) fun w₁ r hr => ?_
  obtain ⟨h, hz⟩ := hr
  split
  · simp only [safe_state_bind, safe_state_pure]
    exact safe_mono (h.forget (hz rfl)) fun w₂ r h => h
  · exact (safe_state_pure ..).mpr (h.settled _)
  · exact (safe_state_pure ..).mpr (h.settled _)
  · exact (safe_state_pure ..).mpr (h.settled _)
  · exact retryExecution_settles h (by simp)
  · simp only [safe_state_bind]
    refine retries_nowUnix fun now => safe_mono (h.gate now) fun w₂ r hr => ?_
    obtain ⟨x', armed', h, hp⟩ := hr
    split
    · rename_i hg
      exact retryExecution_settles h fun _ => hp hg
    · exact (safe_state_pure ..).mpr (h.settled _)
    · exact giveUp_settles h _

end

/-! ## Every run -/

/-- What the relayer keeps between two jobs. -/
structure Accounted (work : Bool) (max : Nat) (s : RetryHost) : Prop where
  held : RetryHeld work max s.node
  settled : ∀ id, RetrySettled work max id s.node ((), s.memory)

section
variable {codec : InboxCodec} {work : Bool} {route : DeliveryRoute} {files : Files}
  {l : List RetryEvent} {s t : RetryHost}

theorem Accounted.init (work : Bool) (max : Nat) (files : Files) :
    Accounted work max (.fresh files) := by
  refine ⟨⟨fun _ => Nat.zero_le _, fun i => ⟨.nothing, Nat.zero_le _, Nat.zero_le _, ?_⟩⟩, fun id =>
    ⟨_, _, LedgerOk.init work files true, fun _ => Nat.zero_le _, fun _ => Nat.zero_le _⟩⟩
  split
  · exact fileOk_nothing _
  · rfl

theorem RetryHeld.accounted {max : Nat} {w : RetryNode} (h : RetryHeld work max w) :
    Accounted work max ⟨w.ended, ∅⟩ := by
  refine ⟨h.ended, fun id => ?_⟩
  obtain ⟨x, hx⟩ := h.accounts id
  exact ⟨x, _, hx⟩

/-- At every moment of a job. -/
theorem Accounted.held_cut (h : Accounted work route.failedRetry.maxAttempts s) {id : B256}
    {w' : RetryNode} (hx : Cut (retryEnv codec route)
      ((reconcileExecution codec work route id).run s.memory) s.node w') :
    RetryHeld work route.failedRetry.maxAttempts w' := by
  obtain ⟨x, armed, hs⟩ := h.settled id
  exact hx.asked (fun _ _ _ _ hg ha hw => hw.answer hg ha) (reconcileExecution_settles hs).1 h.held

theorem Accounted.step {e : RetryEvent} (h : Accounted work route.failedRetry.maxAttempts s)
    (hs : RetryStep codec work route s e t) : Accounted work route.failedRetry.maxAttempts t := by
  cases hs with
  | @job id w' r memory' hx =>
    obtain ⟨x, armed, hj⟩ := h.settled id
    obtain ⟨x', armed', h'⟩ := hx.post (reconcileExecution_settles hj).2
    exact ⟨h.held_cut hx.cut, fun i => ⟨x', armed', h'.of_zero i⟩⟩
  | cut hx => exact (h.held_cut hx).accounted
  | restart => exact h.held.accounted

/-- In every run and at every moment of it: what the node accepted of any message since its execution
was last confirmed is at most the budget and what is lost. -/
theorem retries_accounted (h : Run (RetryStep codec work route) (.fresh files) l s) {id : B256}
    {w : RetryNode} (hx : Cut (retryEnv codec route)
      ((reconcileExecution codec work route id).run s.memory) s.node w) (i : B256) :
    w.accepted i ≤ route.failedRetry.maxAttempts + w.lost i := by
  have hs : Accounted work route.failedRetry.maxAttempts s :=
    h.inv (fun _ _ _ hs hi => hi.step hs) (.init work route.failedRetry.maxAttempts files)
  exact (hs.held_cut hx).bound i

/-- In every run and at every moment of it: while no accepted retry of a message is lost, the node has
accepted no more of them than the budget since its execution was last confirmed. -/
theorem retries_budgeted (h : Run (RetryStep codec work route) (.fresh files) l s) {id : B256}
    {w : RetryNode} (hx : Cut (retryEnv codec route)
      ((reconcileExecution codec work route id).run s.memory) s.node w) (i : B256)
    (ho : w.lost i = 0) : w.accepted i ≤ route.failedRetry.maxAttempts := by
  have hb := retries_accounted h hx i
  omega

end

/-! ## A route that retries once -/

def demoSingle : DeliveryRoute := ⟨2, 6, 2, 0, 5000000, demoOnce⟩

/-- No process before, and nothing accepted. -/
def demoUnspent : RetryHost := .fresh fun _ => none

/-- A connection that was closed before the node's answer. -/
def demoLost : CallError := ⟨"connection closed", none⟩

theorem RetryNode.confirm_of_false (w : RetryNode) {p : B256 → Bool} (h : ∀ id, p id = false) :
    w = w.confirm p := by
  rw [funext h]
  exact w.confirm_none.symm

abbrev demoEnv := retryEnv demoInbox demoSingle

theorem demoEnv_unprocessed (w : RetryNode) :
    demoEnv w (.processedAt 7 none) (Reply.done (0 : Nat)) w :=
  w.confirm_of_false fun _ => by simp [confirms]

/-- The job of a retry that the node accepts although its broadcast comes back as an error. -/
theorem demoDisowned_step (w : RetryNode) : RetryStep demoInbox false demoSingle ⟨w, ∅⟩
    (.job 7) ⟨w.disown 7, ∅⟩ := by
  have hsame : ∀ (c : DeliveryCall) (a : c.Answer),
      (∀ id, confirms demoInbox demoSingle id c a = false) →
        w = w.confirm fun id => confirms demoInbox demoSingle id c a := fun _ _ => w.confirm_of_false
  have hlost : demoEnv w (.sendRetry false 7 125) (Broadcast.failed demoLost) (w.disown 7) := .inr rfl
  have h : Exec demoEnv ((reconcileExecution demoInbox false demoSingle 7).run ∅) w
      (w.disown 7) (awaiting (decodeRetryDeferred demoInbox demoLost), ∅) :=
    .ask (demoEnv_unprocessed w) <| .ask (a := Reply.done false) (hsame _ _ fun _ => rfl) <|
    .ask (a := Reply.done true) (hsame _ _ fun _ => rfl) <|
    .ask (a := some (7 : Nat)) (hsame _ _ fun _ => rfl) <|
    .ask (a := Reply.done (100 : Nat)) (hsame _ _ fun _ => rfl) <|
    .ask (a := Reply.done ()) (hsame _ _ fun _ => rfl) (by exact .ask hlost (by exact .ret))
  exact .job (s := ⟨w, ∅⟩) h

/-- A job on a message without a file, up to its broadcast. -/
theorem demoCut_sent {w w' : RetryNode} (hf : w.sidecars.files 7 = none) (hw : w.sidecars.written = true)
    (h : Cut demoEnv ((chargeRetry true demoSingle 7 false >>= fun spent => do
      let observed ← observeRetry demoInbox true demoSingle 7 false 125 9
      settleRetry true demoSingle 7 spent observed).run ∅) (w.accept 7) w') :
    Cut demoEnv ((reconcileExecution demoInbox true demoSingle 7).run ∅) w w' := by
  have hsame : ∀ (c : DeliveryCall) (a : c.Answer),
      (∀ id, confirms demoInbox demoSingle id c a = false) →
        w = w.confirm fun id => confirms demoInbox demoSingle id c a := fun _ _ => w.confirm_of_false
  have hread : demoEnv w (.sidecar (.file 7 .read)) (.error .notFound) w :=
    ⟨⟨by rw [hw]; rfl, fun _ _ => rfl, hf, rfl⟩, rfl, rfl, rfl⟩
  have hsent : demoEnv w (.sendRetry false 7 125) (Broadcast.sent 9) (w.accept 7) := rfl
  exact .ask (demoEnv_unprocessed w) <| .ask (a := Reply.done false) (hsame _ _ fun _ => rfl) <|
    .ask (a := Reply.done true) (hsame _ _ fun _ => rfl) <|
    .ask (a := some (7 : Nat)) (hsame _ _ fun _ => rfl) <| .ask hread <|
    .ask (a := Reply.done (100 : Nat)) (hsame _ _ fun _ => rfl) <|
    .ask (a := Reply.done ()) (hsame _ _ fun _ => rfl) (by exact .ask hsent h)

/-- The state of the message after one retry. -/
def demoCharged : SidecarText := .state ⟨1, 8, none⟩

/-- The node accepted a retry, and its attempt is written. -/
def demoWritten : RetryNode where
  sidecars := ⟨Function.update (fun _ => none) 7 (some demoCharged), true⟩
  accepted := Function.update (fun _ => 0) 7 1
  unwritten := Function.update (Function.update (fun _ => 0) 7 1) 7 0
  lost := fun _ => 0

theorem demoWritten_cut : Cut demoEnv ((reconcileExecution demoInbox true demoSingle 7).run ∅)
    demoUnspent.node demoWritten := by
  have hrename : demoEnv (demoUnspent.node.accept 7) (.sidecar (.file 7 (.rename demoCharged)))
      (.ok ()) demoWritten := by
    have hself : demoWritten.sidecars.files 7 = some demoCharged := rfl
    refine ⟨⟨rfl, fun i hi => ?_, hself⟩, rfl, rfl, rfl⟩
    show Function.update (fun _ => none) 7 _ i = none
    rw [Function.update_of_ne hi]
  refine demoCut_sent rfl rfl ?_
  refine .ask (a := some (8 : Nat)) (RetryNode.confirm_of_false _ fun _ => rfl) ?_
  refine .ask (a := .error .notFound) ⟨⟨rfl, fun _ _ => rfl, rfl, rfl⟩, rfl, rfl, rfl⟩ ?_
  refine .ask (a := .ok ()) ⟨⟨rfl, rfl⟩, rfl, rfl, rfl⟩ ?_
  refine .ask (a := .ok false) ⟨⟨rfl, rfl⟩, rfl, rfl, rfl⟩ ?_
  refine .ask (a := .ok ()) ⟨⟨rfl, fun _ _ => rfl, rfl⟩, rfl, rfl, rfl⟩ ?_
  refine .ask (a := .ok ()) ⟨⟨rfl, fun _ _ => rfl, rfl⟩, rfl, rfl, rfl⟩ ?_
  exact .ask hrename .here

/-- A process that is gone while it awaits the receipt of a retry leaves a budget that is spent. -/
theorem retries_budgeted_charged : ∃ t,
    Run (RetryStep demoInbox true demoSingle) demoUnspent [.cut 7] t ∧ t.node.accepted 7 = 1 ∧
      t.node.accepted 7 ≤ demoSingle.failedRetry.maxAttempts := by
  have hrun : Run (RetryStep demoInbox true demoSingle) demoUnspent [.cut 7] ⟨demoWritten.ended, ∅⟩ :=
    .single (.cut demoWritten_cut)
  have hcut : Cut demoEnv ((reconcileExecution demoInbox true demoSingle 7).run ∅) demoWritten.ended
      demoWritten.ended := .here
  exact ⟨_, hrun, rfl, retries_budgeted hrun hcut 7 rfl⟩

/-- The process is gone before the retry that the node accepted is charged. -/
theorem demoUncharged_step {w : RetryNode} (hf : w.sidecars.files 7 = none)
    (hw : w.sidecars.written = true) :
    RetryStep demoInbox true demoSingle ⟨w, ∅⟩ (.cut 7) ⟨(w.accept 7).ended, ∅⟩ :=
  .cut (demoCut_sent hf hw .here)

/-- The node accepts two retries of a message that may be retried once: their broadcasts come back as
errors, or the process is gone before they are charged. -/
theorem retries_uncharged :
    (∃ s, Run (RetryStep demoInbox false demoSingle) demoUnspent [.job 7, .job 7] s ∧
      ¬ s.node.accepted 7 ≤ demoSingle.failedRetry.maxAttempts) ∧
    ∃ s, Run (RetryStep demoInbox true demoSingle) demoUnspent [.cut 7, .cut 7] s ∧
      ¬ s.node.accepted 7 ≤ demoSingle.failedRetry.maxAttempts := by
  have hjobs : Run (RetryStep demoInbox false demoSingle) demoUnspent _ _ :=
    .snoc (.single (demoDisowned_step demoUnspent.node)) (demoDisowned_step _)
  have hcuts : Run (RetryStep demoInbox true demoSingle) demoUnspent _ _ :=
    .snoc (.single (demoUncharged_step rfl rfl)) (demoUncharged_step rfl rfl)
  exact ⟨⟨_, hjobs, by decide⟩, ⟨_, hcuts, by decide⟩⟩

end MessageRelayer

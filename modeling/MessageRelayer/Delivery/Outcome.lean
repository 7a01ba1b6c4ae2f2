import MessageRelayer.Delivery.HandleJob
import MessageRelayer.Pool.Ops

/-!
# Final delivery outcomes

A delivery worker's result is final only on evidence (`final_outcome_sound`):
`delivered` when a receipt shows the execution and no confirmations are asked
for, or when the Inbox reports it at the route's depth (`DeliveredOk`);
`terminal` when the route's caps, the funded gas or the budget of retries rule
the message out (`TerminalOk`). What the node answers is arbitrary throughout.
-/

namespace MessageRelayer

open Prog hiding ask
open DeliveryM

abbrev DeliverySaid := Said DeliveryCall DeliveryCall.Answer

/-! ## Evidence -/

section
variable (codec : InboxCodec) (route : DeliveryRoute) (id : B256)

/-- A successful receipt shows the execution. -/
def ReceiptOk (said : DeliverySaid) : Prop :=
  ∃ txHash receipt, ⟨.awaitReceipt txHash, Reply.done receipt⟩ ∈ said ∧ receipt.status = true ∧
    ExecutedLogs codec route.inboxAddress id receipt.logs

/-- The Inbox reports the execution, at the route's depth also in the confirmed state. -/
def ProcessedOk (said : DeliverySaid) : Prop :=
  ∃ processedAt, ⟨.processedAt id none, Reply.done processedAt⟩ ∈ said ∧ processedAt ≠ 0 ∧
    (0 < route.blockConfirmationDepth → ∃ tip confirmedAt,
      ⟨.blockNumber, Reply.done tip⟩ ∈ said ∧ processedAt ≤ tip - route.blockConfirmationDepth ∧
      ⟨.processedAt id (some (tip - route.blockConfirmationDepth)), Reply.done confirmedAt⟩ ∈ said ∧
      confirmedAt ≠ 0)

def DeliveredOk (said : DeliverySaid) : Prop :=
  (route.blockConfirmationDepth = 0 ∧ ReceiptOk codec route id said) ∨ ProcessedOk route id said

/-- A tombstone of the message was in memory, or was read. -/
def Tombstoned (memory : Memory) (said : DeliverySaid) : Prop :=
  (∃ state, memory[id]? = some state ∧ state.gaveUpAt.isSome) ∨
  ∃ state, ⟨.sidecar (.file id .read), Except.ok (.state state)⟩ ∈ said ∧ state.gaveUpAt.isSome

/-- The ledger has given the message up, because its budget was spent or it was given up before. -/
def BudgetOk (memory : Memory) (said : DeliverySaid) (memory' : Memory) : Prop :=
  ∃ state, memory'[id]? = some state ∧ state.gaveUpAt.isSome ∧
    (route.failedRetry.maxAttempts ≤ state.attempts ∨ Tombstoned id memory said)

end

/-- The funded gas does not cover the estimate, and can no longer be topped up. -/
def UnderFunded (funding : MessageFunding) (said : DeliverySaid) : Prop :=
  ∃ tx est gas now, ⟨.estimateDeliver tx, Reply.done est⟩ ∈ said ∧ funding.gas = some gas ∧ gas < est ∧
    ⟨.now, now⟩ ∈ said ∧ (funding.topUpForeclosed now).isSome

/-- Why a job may end the work on its message without a delivery. -/
def TerminalOk (codec : InboxCodec) (route : DeliveryRoute) (job : DeliveryJob) (funding : MessageFunding)
    (memory : Memory) (said : DeliverySaid) (memory' : Memory) : Prop :=
  route.maxNativeCoinValueWei < (envelopeTerms codec job.payload).nativeValue ∨
  (∃ gasLimit, (envelopeTerms codec job.payload).gasLimit = some gasLimit ∧
    route.maxGasLimit < gasLimit) ∨
  UnderFunded funding said ∨ BudgetOk route job.messageId memory said memory'

/-! ## Evidence stays -/

section
variable {codec : InboxCodec} {route : DeliveryRoute} {id : B256} {said said' : DeliverySaid}
  (h : said ⊆ said')
include h

theorem ReceiptOk.mono (hr : ReceiptOk codec route id said) : ReceiptOk codec route id said' := by
  obtain ⟨txHash, receipt, hm, hr⟩ := hr
  exact ⟨txHash, receipt, h hm, hr⟩

theorem ProcessedOk.mono (hp : ProcessedOk route id said) : ProcessedOk route id said' := by
  obtain ⟨processedAt, hm, hn, hd⟩ := hp
  refine ⟨processedAt, h hm, hn, fun h₀ => ?_⟩
  obtain ⟨tip, confirmedAt, ht, hle, hc, hn⟩ := hd h₀
  exact ⟨tip, confirmedAt, h ht, hle, h hc, hn⟩

theorem DeliveredOk.mono (hd : DeliveredOk codec route id said) : DeliveredOk codec route id said' :=
  hd.imp (fun hr => ⟨hr.1, hr.2.mono h⟩) (ProcessedOk.mono h)

theorem Tombstoned.mono {memory : Memory} (ht : Tombstoned id memory said) :
    Tombstoned id memory said' := ht.imp_right fun ⟨state, hm, hg⟩ => ⟨state, h hm, hg⟩

theorem UnderFunded.mono {funding : MessageFunding} (hu : UnderFunded funding said) :
    UnderFunded funding said' := by
  obtain ⟨tx, est, gas, now, hm, hg, hlt, hn, hf⟩ := hu
  exact ⟨tx, est, gas, now, h hm, hg, hlt, h hn, hf⟩

end

/-- The ledger's calls only add to what was said. -/
theorem wp_sidecar_said {α : Type} {p : Prog SidecarCall SidecarCall.Answer α} {said : DeliverySaid} :
    wp (sidecarOf heard) p said fun said' _ => said ⊆ said' := by
  refine wp_inv (I := fun said' => said ⊆ said') (fun w c a w' ha hs => ?_) (List.Subset.refl _)
  rw [sidecarOf_iff, heard_iff] at ha
  rw [ha]
  exact List.subset_append_of_subset_left _ hs

/-! ## Reading the Inbox -/

theorem executionState_ok {route : DeliveryRoute} {id : B256} {said : DeliverySaid} :
    wp heard (executionState route id).run said fun said' r =>
      r = .ok .executed → ProcessedOk route id said' := by
  simp only [executionState, wp_run_bind, wp_readCall, wp_orInterrupt, heard_iff]
  rintro (_ | _ | processedAt) _ rfl
  · exact fun e => by cases e
  · exact fun e => by cases e
  dsimp only
  split
  · rename_i hp
    split
    · simp only [wp_run_bind, wp_readCall, wp_orInterrupt, heard_iff]
      rintro (_ | _ | tip) _ rfl
      · exact fun e => by cases e
      · exact fun e => by cases e
      dsimp only
      split
      · exact fun e => by cases e
      · rename_i hle
        simp only [wp_run_bind, wp_readCall, wp_orInterrupt, heard_iff]
        rintro (_ | _ | confirmedAt) _ rfl
        · exact fun e => by cases e
        · exact fun e => by cases e
        intro e
        refine ⟨processedAt, by simp, hp, fun _ => ⟨tip, confirmedAt, by simp, by omega, by simp, ?_⟩⟩
        rintro rfl
        cases e
    · rename_i h₀
      exact fun _ => ⟨processedAt, by simp, hp, fun h => absurd h h₀⟩
  · simp only [wp_run_bind, wp_readCall, wp_orInterrupt, heard_iff]
    rintro (_ | _ | pending) _ rfl
    · exact fun e => by cases e
    · exact fun e => by cases e
    dsimp only
    split
    · exact fun e => by cases e
    · simp only [wp_run_bind, wp_readCall, wp_orInterrupt, heard_iff]
      rintro (_ | _ | retryable) _ rfl
      · exact fun e => by cases e
      · exact fun e => by cases e
      dsimp only
      split <;> exact fun e => by cases e

/-! ## Reconciling -/

section
variable {codec : InboxCodec} {work : Bool} {route : DeliveryRoute} {id : B256} {memory : Memory}

/-- What a reconciliation that began with `memory` may return. -/
def ReconciledOk (codec : InboxCodec) (route : DeliveryRoute) (id : B256) (memory : Memory)
    (said : DeliverySaid) (r : DeliveryResultKind × Memory) : Prop :=
  (r.1 = .delivered → DeliveredOk codec route id said) ∧
    (r.1 = .terminal → BudgetOk route id memory said r.2)

theorem ReconciledOk.open {said : DeliverySaid} {r : DeliveryResultKind × Memory}
    (h : r.1.final = false) : ReconciledOk codec route id memory said r := by
  refine ⟨fun e => ?_, fun e => ?_⟩ <;>
  · rw [e] at h; cases h

theorem ReconciledOk.awaiting {said : DeliverySaid} (retryAfter : Option Nat) (memory' : Memory) :
    ReconciledOk codec route id memory said (awaiting retryAfter, memory') := .open rfl

variable {said : DeliverySaid} {memory' : Memory}

theorem giveUpFailedRetries_ok {state : FailedRetryState}
    (hb : state.gaveUpAt.isSome → memory'[id]? = some state)
    (hs : route.failedRetry.maxAttempts ≤ state.attempts ∨ Tombstoned id memory said) :
    wp heard ((giveUpFailedRetries work id state).run memory') said
      (ReconciledOk codec route id memory) := by
  rw [giveUpFailedRetries]
  split
  · rename_i hg
    exact ⟨fun e => (by cases e), fun _ => ⟨state, hb hg, hg, hs⟩⟩
  · simp only [wp_state_bind, wp_nowUnix, wp_ledger, FailedRetries.wp_giveUp, FailedRetries.wp_put,
      wp_state_pure, heard_iff]
    rintro now _ rfl
    refine wp_mono wp_sidecar_said fun said' _ hsub => ⟨fun e => (by cases e), fun _ => ?_⟩
    refine ⟨FailedRetries.buried state (now.getD 0), Map.get_insert_self _ _ _, rfl, ?_⟩
    exact hs.imp_right (Tombstoned.mono (List.Subset.trans (List.subset_append_left _ _) hsub))

theorem afterFailedRetry_ok {state : FailedRetryState} (hg : state.gaveUpAt = none)
    (hint : Option Nat) : wp heard ((afterFailedRetry work route id state hint).run memory') said
      (ReconciledOk codec route id memory) := by
  rw [afterFailedRetry]
  split
  · rename_i hs
    exact giveUpFailedRetries_ok (fun h => by rw [hg] at h; cases h) (.inl hs)
  · exact .awaiting _ _

theorem startFailedRetries_ok : wp heard ((startFailedRetries work route id).run memory') said
    (ReconciledOk codec route id memory) := by
  have hrest : ∀ (memory' : Memory) (said : DeliverySaid) (state : FailedRetryState),
      (state.gaveUpAt.isSome → memory'[id]? = some state) →
      wp heard (StateT.run (if route.failedRetry.maxAttempts ≤ state.attempts then
          giveUpFailedRetries work id state else pure (awaiting (some state.nextAttemptAt))) memory')
        said (ReconciledOk codec route id memory) := by
    intro memory' said state hb
    split
    · rename_i hs
      exact giveUpFailedRetries_ok hb (.inl hs)
    · exact .awaiting _ _
  simp only [startFailedRetries, wp_state_bind, wp_nowUnix, wp_ledger, FailedRetries.wp_start, heard_iff]
  rintro now _ rfl
  refine wp_mono (wp_true _ _ _) fun said' read _ => ?_
  split
  · exact hrest _ _ _ fun _ => Map.get_insert_self _ _ _
  · exact wp_mono (wp_true _ _ _) fun _ _ _ => hrest _ _ _ fun h => by cases h
  · exact hrest _ _ _ fun h => by cases h

/-- A counted retry is not given up. -/
theorem countRetry_ok : wp heard ((countRetry work route id).run memory') said
    fun _ r => r.1.gaveUpAt = none := by
  simp only [countRetry, wp_state_bind, wp_nowUnix, wp_ledger, FailedRetries.wp_recordAttempt]
  exact fun now said _ => wp_mono (wp_true _ _ _) fun _ _ _ => wp_mono (wp_true _ _ _) fun _ _ _ => rfl

theorem chargeRetry_ok (pending : Bool) :
    wp heard ((chargeRetry work route id pending).run memory') said
      fun _ r => ∀ state ∈ r.1, state.gaveUpAt = none := by
  cases pending with
  | true => exact fun _ h => by cases h
  | false =>
    rw [chargeRetry, if_neg Bool.false_ne_true, wp_state_bind]
    refine wp_mono countRetry_ok fun _ r hg state e => ?_
    cases e; exact hg

theorem observeLogs_ok {receipt : Receipt} :
    ((observeLogs codec route id receipt).result = .delivered → route.blockConfirmationDepth = 0 ∧
      ExecutedLogs codec route.inboxAddress id receipt.logs ∧
      (observeLogs codec route id receipt).failedAgain = false) ∧
    (observeLogs codec route id receipt).result ≠ .terminal := by
  rw [observeLogs]
  split
  · rename_i h
    split
    · rename_i h₀
      exact ⟨fun _ => ⟨h₀, classifySuccessLogs_delivered h, rfl⟩, fun e => by cases e⟩
    · exact ⟨fun e => (by cases e), fun e => by cases e⟩
  all_goals exact ⟨fun e => (by cases e), fun e => by cases e⟩

/-- A delivery that the receipt of an attempt shows. -/
def ObservedOk (codec : InboxCodec) (route : DeliveryRoute) (id : B256) (said : DeliverySaid)
    (observed : Observed) : Prop :=
  (observed.result = .delivered → DeliveredOk codec route id said ∧ observed.failedAgain = false) ∧
    observed.result ≠ .terminal

theorem ObservedOk.awaiting {said : DeliverySaid} (retryAfter : Option Nat) (a b : Bool) :
    ObservedOk codec route id said ⟨awaiting retryAfter, a, b⟩ :=
  ⟨fun e => (by cases e), fun e => by cases e⟩

theorem observeRetry_ok (pending : Bool) (gas : Nat) (txHash : B256) :
    wp heard ((observeRetry codec work route id pending gas txHash).run memory') said
      fun said' r => ObservedOk codec route id said' r.1 := by
  simp only [observeRetry, wp_state_bind, wp_deliveryAsk, heard_iff]
  rintro (_ | _ | receipt) _ rfl
  · exact .awaiting _ _ _
  · exact .awaiting _ _ _
  dsimp only
  split
  · rename_i hst
    obtain ⟨hd, ht⟩ : _ ∧ (observeLogs codec route id receipt).result ≠ .terminal := observeLogs_ok
    have hev : (observeLogs codec route id receipt).result = .delivered →
        DeliveredOk codec route id (said ++ [⟨.awaitReceipt txHash, Reply.done receipt⟩]) := fun e =>
      .inl ⟨(hd e).1, txHash, receipt, by simp, hst, (hd e).2.1⟩
    split
    · simp only [wp_state_bind, wp_ledger, FailedRetries.wp_forget, wp_state_pure]
      exact wp_mono wp_sidecar_said fun _ _ hsub => ⟨fun e => ⟨(hev e).mono hsub, (hd e).2.2⟩, ht⟩
    · exact ⟨fun e => ⟨hev e, (hd e).2.2⟩, ht⟩
  · simp only [wp_state_bind, wp_deliveryAsk, heard_iff]
    rintro (_ | _ | _) _ rfl <;> exact .awaiting _ _ _

theorem settleRetry_ok {spent : Option FailedRetryState} {observed : Observed}
    (hs : ∀ state ∈ spent, state.gaveUpAt = none) (ho : ObservedOk codec route id said observed) :
    wp heard ((settleRetry work route id spent observed).run memory') said
      (ReconciledOk codec route id memory) := by
  have hret : ReconciledOk codec route id memory said (observed.result, memory') :=
    ⟨fun e => (ho.1 e).1, fun e => absurd e ho.2⟩
  cases spent with
  | some state =>
    simp only [settleRetry]
    split
    · exact afterFailedRetry_ok (hs state rfl) _
    · exact hret
  | none =>
    simp only [settleRetry]
    split
    · exact startFailedRetries_ok
    · exact hret

theorem sendRetry_ok (pending : Bool) (gas : Nat) :
    wp heard ((sendRetry codec work route id pending gas).run memory') said
      (ReconciledOk codec route id memory) := by
  simp only [sendRetry, wp_state_bind, wp_deliveryAsk, heard_iff]
  rintro (_ | err | txHash) _ rfl
  · cases pending with
    | true => exact .awaiting _ _
    | false =>
      rw [if_neg Bool.false_ne_true, wp_state_bind]
      exact wp_mono countRetry_ok fun _ _ hg => afterFailedRetry_ok hg _
  · exact .awaiting _ _
  · dsimp only
    rw [wp_state_bind]
    refine wp_mono (chargeRetry_ok pending) fun _ _ hs => ?_
    rw [wp_state_bind]
    exact wp_mono (observeRetry_ok _ _ _) fun _ _ ho => settleRetry_ok hs ho

theorem retryExecution_ok (pending : Bool) :
    wp heard ((retryExecution codec work route id pending).run memory') said
      (ReconciledOk codec route id memory) := by
  simp only [retryExecution, wp_state_bind, wp_deliveryAsk, heard_iff]
  rintro (_ | err | gas) _ rfl
  · exact .awaiting _ _
  · exact .awaiting _ _
  dsimp only
  split
  · simp only [wp_state_bind, wp_deliveryAsk, heard_iff]
    rintro (_ | err | _) _ rfl
    · exact .awaiting _ _
    · exact .awaiting _ _
    · exact sendRetry_ok _ _
  · exact .awaiting _ _

theorem readDisk_ok : wp (sidecarOf heard) ((FailedRetries.readDisk work id).run memory) said
    fun said' r => ∀ state, r.1 = .ok (some state) → state.gaveUpAt.isSome →
      Tombstoned id memory said' := by
  rw [FailedRetries.wp_readDisk]
  split
  · intro a said' ha state h hg
    rw [sidecarOf_iff, heard_iff] at ha
    rcases a with (_ | _) | _ | _ <;> cases h
    exact .inr ⟨state, by simp [ha], hg⟩
  · exact fun state h => by cases h

theorem reconcileExecution_ok : wp heard ((reconcileExecution codec work route id).run memory) said
    (ReconciledOk codec route id memory) := by
  rw [reconcileExecution, wp_state_bind, wp_state_lift]
  refine wp_mono executionState_ok fun said' state hex => ?_
  rcases state with err | state
  · exact .open rfl
  cases state with
  | executed =>
    simp only [wp_state_bind, wp_ledger, FailedRetries.wp_forget, wp_state_pure]
    refine wp_mono wp_sidecar_said fun _ _ hsub => ⟨fun _ => .inr ((hex rfl).mono hsub), fun e => ?_⟩
    cases e
  | confirming => exact .awaiting _ _
  | unaccepted => exact .open rfl
  | pending => exact retryExecution_ok _
  | failed =>
    simp only [wp_state_bind, wp_nowUnix, wp_ledger, FailedRetries.wp_gate, heard_iff]
    rintro now _ rfl
    refine wp_mono readDisk_ok fun said' read hread => ?_
    generalize hv : FailedRetries.view memory[id]? read.1 = known
    have hseen : ∀ state, known = .ok (some state) → state.gaveUpAt.isSome →
        Tombstoned id memory said' := by
      intro state e hg
      obtain hb | ⟨b, hb, hg⟩ := FailedRetries.view_buried (hv.trans e) hg
      · exact .inl hb
      · exact hread b hb hg
    split
    · exact retryExecution_ok _
    · exact .awaiting _ _
    · rename_i state hgate
      obtain ⟨hk, hs⟩ := FailedRetries.verdict_giveUp hgate
      refine giveUpFailedRetries_ok (fun hg => ?_) (hs.symm.imp_right fun hg => hseen _ (hk hg) hg)
      rw [hk hg]
      exact Map.get_insert_self _ _ _

end

/-! ## The send loop -/

section
variable {codec : InboxCodec} {work : Bool} {route : DeliveryRoute} {job : DeliveryJob}
  {memory : Memory} {said : DeliverySaid}

/-- A send that succeeded has a receipt that shows it; the ledger is untouched. -/
def SendOk (codec : InboxCodec) (route : DeliveryRoute) (job : DeliveryJob) (memory : Memory)
    (said : DeliverySaid) (r : SendOutcome × Memory) : Prop :=
  r.2 = memory ∧ ∀ txHash, r.1 = .succeeded txHash → ReceiptOk codec route job.messageId said

/-- The next attempt, if there is one. -/
def AgainOk (codec : InboxCodec) (route : DeliveryRoute) (job : DeliveryJob) (memory : Memory)
    (again : Option (Option Nat → DeliveryM SendOutcome)) : Prop :=
  ∀ f ∈ again, ∀ gas said, wp heard ((f gas).run memory) said (SendOk codec route job memory)

theorem SendOk.failed : SendOk codec route job memory said (.failed, memory) :=
  ⟨rfl, fun _ e => by cases e⟩

variable {again : Option (Option Nat → DeliveryM SendOutcome)}

theorem bumpOr_ok (ha : AgainOk codec route job memory again) (gas : Option Nat) :
    wp heard ((bumpOr codec route job again gas).run memory) said (SendOk codec route job memory) := by
  cases again with
  | none => exact ⟨rfl, fun _ e => by cases e⟩
  | some f =>
    simp only [bumpOr]
    split
    · exact ha f rfl _ _
    · exact ⟨rfl, fun _ e => by cases e⟩

theorem settleSendError_ok (ha : AgainOk codec route job memory again) (gas : Option Nat)
    (err : CallError) : wp heard ((settleSendError codec route job again gas err).run memory) said
      (SendOk codec route job memory) := by
  unfold settleSendError
  split
  · exact ⟨rfl, fun _ e => by cases e⟩
  · exact bumpOr_ok ha _
  · exact ⟨rfl, fun _ e => by cases e⟩
  · split
    · exact ha _ rfl _ _
    · exact .failed

theorem settleReceipt_ok (ha : AgainOk codec route job memory again) (gas : Option Nat)
    {txHash : B256} {receipt : Receipt} (hm : ⟨.awaitReceipt txHash, Reply.done receipt⟩ ∈ said) :
    wp heard ((settleReceipt codec route job again gas receipt).run memory) said
      (SendOk codec route job memory) := by
  rw [settleReceipt]
  split
  · rename_i hst
    split
    · exact .failed
    · rename_i h
      exact ⟨rfl, fun _ _ => ⟨txHash, receipt, hm, hst, classifySuccessLogs_delivered h⟩⟩
    · exact ⟨rfl, fun _ e => by cases e⟩
    · exact ⟨rfl, fun _ e => by cases e⟩
  · rw [wp_state_bind]
    have hm : wp heard ((replayRevertReason codec job gas receipt.blockNumber).run memory) said
        fun _ r => r.2 = memory := by
      simp only [replayRevertReason, wp_state_bind, wp_deliveryAsk]
      rintro (_ | _ | _) _ _ <;> rfl
    refine wp_mono hm fun said' r hr => ?_
    obtain ⟨revert, _⟩ := r
    obtain rfl : _ = memory := hr
    dsimp only
    split
    · exact ⟨rfl, fun _ e => by cases e⟩
    · exact bumpOr_ok ha _
    · exact ⟨rfl, fun _ e => by cases e⟩

theorem sendAttempt_ok (ha : AgainOk codec route job memory again) (gas : Option Nat) :
    wp heard ((sendAttempt codec route job again gas).run memory) said
      (SendOk codec route job memory) := by
  simp only [sendAttempt, wp_state_bind, wp_deliveryAsk, heard_iff]
  rintro (_ | err | _ | _) _ rfl
  · exact .failed
  · exact settleSendError_ok ha _ _
  · exact .failed
  simp only [wp_state_bind, wp_deliveryAsk, heard_iff]
  rintro (_ | err | txHash) _ rfl
  · cases again with
    | none => exact .failed
    | some f => exact ha f rfl _ _
  · exact settleSendError_ok ha _ _
  simp only [wp_state_bind, wp_deliveryAsk, heard_iff]
  rintro (_ | err | receipt) _ rfl
  · exact .failed
  · cases again with
    | none => exact .failed
    | some f => exact ha f rfl _ _
  · exact settleReceipt_ok ha _ (List.mem_append_right _ (List.mem_singleton_self _))

theorem sendLoop_ok (retries : Nat) (backoff : Duration) (gas : Option Nat) :
    wp heard ((sendLoop codec route job retries backoff gas).run memory) said
      (SendOk codec route job memory) := by
  induction retries generalizing backoff gas said with
  | zero => exact sendAttempt_ok (fun _ h => by cases h) _
  | succ retries ih =>
    refine sendAttempt_ok (fun f hf gas said => ?_) _
    cases hf
    simp only [wp_state_bind, wp_deliveryAsk]
    exact fun _ _ _ => ih _ _

/-! ## The job -/

/-- What a job that began with `memory` may return. -/
def JobOk (codec : InboxCodec) (route : DeliveryRoute) (job : DeliveryJob) (funding : MessageFunding)
    (memory : Memory) (said : DeliverySaid) (r : DeliveryResultKind × Memory) : Prop :=
  (r.1 = .delivered → DeliveredOk codec route job.messageId said) ∧
    (r.1 = .terminal → TerminalOk codec route job funding memory said r.2)

variable {config : DeliveryConfig} {funding : MessageFunding} {topUp : Bool}

theorem ReconciledOk.jobOk {r : DeliveryResultKind × Memory}
    (h : ReconciledOk codec route job.messageId memory said r) :
    JobOk codec route job funding memory said r :=
  ⟨h.1, fun e => .inr (.inr (.inr (h.2 e)))⟩

theorem JobOk.open {r : DeliveryResultKind × Memory} (h : r.1.final = false) :
    JobOk codec route job funding memory said r := (ReconciledOk.open h).jobOk

theorem settleDuplicateRevert_ok : wp heard ((settleDuplicateRevert codec work route job).run memory)
    said (JobOk codec route job funding memory) := by
  rw [settleDuplicateRevert, wp_state_bind]
  refine wp_mono reconcileExecution_ok fun said' r hr => ?_
  obtain ⟨kind, memory'⟩ := r
  cases kind with
  | awaitingVotes => exact .open rfl
  | _ => exact hr.jobOk

theorem submit_ok : wp heard ((submit codec work route job config funding).run memory) said
    (JobOk codec route job funding memory) := by
  rw [submit, wp_state_bind]
  refine wp_mono (sendLoop_ok _ _ _) fun said' r hr => ?_
  obtain ⟨outcome, _⟩ := r
  obtain ⟨rfl, hr⟩ := hr
  cases outcome with
  | succeeded txHash =>
    simp only [settleOutcome, wp_state_pure]
    split
    · rename_i h₀
      exact ⟨fun _ => .inl ⟨h₀, hr _ rfl⟩, fun e => by cases e⟩
    · exact .open rfl
  | alreadyValidated => exact settleDuplicateRevert_ok
  | destinationFailed => exact wp_mono startFailedRetries_ok fun _ _ => ReconciledOk.jobOk
  | pending | reverted | failed => exact .open rfl

theorem settleCallError_ok (err : CallError) {next : DeliveryM DeliveryResultKind}
    (hn : wp heard (next.run memory) said (JobOk codec route job funding memory)) :
    wp heard ((settleCallError codec work route job err next).run memory) said
      (JobOk codec route job funding memory) := by
  rw [settleCallError]
  split
  · exact settleDuplicateRevert_ok
  · rename_i revert _ _
    cases revert with
    | insufficientGasForDestination => exact hn
    | _ => exact .open rfl
  · exact .open rfl

theorem checkFunding_ok : wp heard ((checkFunding codec work route job config funding topUp).run memory)
    said (JobOk codec route job funding memory) := by
  rw [checkFunding]
  split
  · exact submit_ok
  · rename_i gas hg
    simp only [wp_state_bind, wp_deliveryAsk, heard_iff]
    rintro (_ | err | est) _ rfl
    · exact .open rfl
    · exact settleCallError_ok _ submit_ok
    dsimp only
    split
    · rename_i hlt
      simp only [wp_state_bind, wp_deliveryAsk, heard_iff]
      rintro now _ rfl
      split
      · rename_i hf
        refine ⟨fun e => (by cases e), fun _ => .inr (.inr (.inl ?_))⟩
        exact ⟨deliverTx codec job none, est, gas, now, by simp, hg, hlt, by simp, hf⟩
      · split
        · simp only [wp_state_bind, wp_deliveryAsk]
          exact fun _ _ _ => .open rfl
        · exact .open rfl
    · exact submit_ok

theorem simulate_ok : wp heard ((simulate codec work route job config funding topUp).run memory) said
    (JobOk codec route job funding memory) := by
  rw [simulate]
  split
  · simp only [wp_state_bind, wp_deliveryAsk]
    rintro (_ | err | _ | _) _ _
    · exact .open rfl
    · exact settleCallError_ok _ checkFunding_ok
    · exact .open rfl
    · exact checkFunding_ok
  · exact checkFunding_ok

theorem handleJob_ok : wp heard ((handleJob codec work route job config funding topUp).run memory) said
    (JobOk codec route job funding memory) := by
  rw [handleJob]
  split
  · exact wp_mono reconcileExecution_ok fun _ _ => ReconciledOk.jobOk
  dsimp only
  split
  · rename_i hv
    exact ⟨fun e => (by cases e), fun _ => .inl hv⟩
  split
  · rename_i hg
    obtain ⟨gasLimit, hm, hlt⟩ := (Option.any_eq_true _ _).mp hg
    exact ⟨fun e => (by cases e), fun _ => .inr (.inl ⟨gasLimit, hm, of_decide_eq_true hlt⟩)⟩
  · exact simulate_ok

end

/-- Whatever the node answers to a job: it is delivered, or its work ended otherwise, only on evidence
for it, and only then does the pool complete the message's work. -/
theorem final_outcome_sound (codec : InboxCodec) (work : Bool) (route : DeliveryRoute)
    (job : DeliveryJob) (config : DeliveryConfig) (funding : MessageFunding) (topUp : Bool)
    {memory memory' : Memory} {said : DeliverySaid} {r : DeliveryResultKind}
    (h : Exec heard ((handleJob codec work route job config funding topUp).run memory) [] said
      (r, memory')) :
    (r = .delivered → DeliveredOk codec route job.messageId said) ∧
    (r = .terminal → TerminalOk codec route job funding memory said memory') ∧
    Only (fun c => c = .complete job.chainKey job.messageId ∧
        (DeliveredOk codec route job.messageId said ∨
          TerminalOk codec route job funding memory said memory'))
      (completeFinal ⟨job.chainKey, job.messageId, r⟩) := by
  obtain ⟨hd, ht⟩ := h.post handleJob_ok
  refine ⟨hd, ht, ?_⟩
  cases r with
  | delivered => exact ⟨⟨rfl, .inl (hd rfl)⟩, fun _ => trivial⟩
  | terminal => exact ⟨⟨rfl, .inr (ht rfl)⟩, fun _ => trivial⟩
  | retryable | awaitingVotes | awaitingExecution => trivial

/-! ## A delivery -/

/-- An Inbox whose events and errors are told apart by small numbers. -/
def demoInbox : InboxCodec where
  destinationFailed := 1
  messageQueued := 2
  messageDeferred := 3
  messageExecuted := 4
  decodeDestinationFailed := fun _ => .ok 9
  decodeMessageExecuted := fun _ => .ok ()
  messageAlreadyValidated := [0, 0, 0, 1]
  messageAlreadyProcessed := [0, 0, 0, 2]
  validationFailedWithNativeValue := [0, 0, 0, 3]
  invalidMessageDispatcher := [0, 0, 0, 4]
  insufficientGasForDestination := [0, 0, 0, 5]
  decodeRetryDeferred := fun _ => none
  decodeEnvelope := fun _ => some (0, 100000)

/-- A route that waits for two confirmations and retries once. -/
def demoRoute : DeliveryRoute := ⟨2, 6, 2, 0, 5000000, ⟨1, 60, 86400, one_le_u32Max⟩⟩

def demoProbe : DeliveryJob := ⟨2, 7, 0, 5, 1, [], [], 0, 0, true⟩

/-- The Inbox shows the execution, two blocks deep. -/
def demoReads : DeliverySaid :=
  [⟨.processedAt 7 none, Reply.done (5 : Nat)⟩, ⟨.blockNumber, Reply.done (10 : Nat)⟩,
    ⟨.processedAt 7 (some 8), Reply.done (5 : Nat)⟩]

theorem demoDelivered : Exec heard ((handleJob demoInbox false demoRoute demoProbe ⟨true, 3⟩ .unknown
    false).run ∅) [] demoReads (.delivered, (∅ : Memory).erase 7) :=
  .ask (a := Reply.done (5 : Nat)) rfl <| .ask (a := Reply.done (10 : Nat)) rfl <|
    .ask (a := Reply.done (5 : Nat)) rfl (by exact .ret)

theorem final_outcome_sound_delivered : DeliveredOk demoInbox demoRoute 7 demoReads :=
  (final_outcome_sound demoInbox false demoRoute demoProbe ⟨true, 3⟩ .unknown false
    demoDelivered).1 rfl

end MessageRelayer

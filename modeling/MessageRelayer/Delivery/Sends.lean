import MessageRelayer.Delivery.Retries
import MessageRelayer.Delivery.SendLoop

/-!
# What a job broadcasts

Every transaction that `delivery::handle_job` hands to the node was checked
before (`broadcasts_checked`), wherever the job is cut. A `deliverMessage`
carries the job's message and votes and a value under the route's cap; just
before it, the same transaction succeeded as a call (`DeliverChecked`). A
`retryPendingMessage` or `retryFailedMessage` keeps to the route's gas limit,
and the call that it repeats succeeded just before it (`RetryChecked`). A job
broadcasts one `deliverMessage` for each of its attempts, and one retry at most.
-/

namespace MessageRelayer

open Prog hiding ask
open DeliveryM

/-! ## Programs without a broadcast -/

def DeliveryCall.delivers : DeliveryCall → Bool
  | sendDeliver _ => true
  | _ => false

def DeliveryCall.retries : DeliveryCall → Bool
  | sendRetry .. => true
  | _ => false

def DeliveryCall.broadcasts (c : DeliveryCall) : Bool := c.delivers || c.retries

/-- Every question of the program satisfies `P`. -/
def AsksOnly (P : DeliveryCall → Prop) {α : Type} (m : DeliveryM α) : Prop :=
  ∀ memory, Only P (m.run memory)

namespace AsksOnly

variable {P : DeliveryCall → Prop} {α β : Type}

theorem pure (a : α) : AsksOnly P (Pure.pure a) := fun _ => trivial

theorem bind {m : DeliveryM α} {f : α → DeliveryM β} (hm : AsksOnly P m) (hf : ∀ a, AsksOnly P (f a)) :
    AsksOnly P (m >>= f) := fun memory => (hm memory).state_bind fun a => hf a

theorem ask {c : DeliveryCall} (hc : P c) : AsksOnly P (DeliveryM.ask c) :=
  fun _ => ⟨hc, fun _ => trivial⟩

theorem mono {Q : DeliveryCall → Prop} {m : DeliveryM α} (h : AsksOnly P m) (hQ : ∀ c, P c → Q c) :
    AsksOnly Q m := fun memory => (h memory).mono hQ

/-! The parts of a job that read the clock and the ledger. -/

theorem nowUnix (hn : P .now) : AsksOnly P DeliveryM.nowUnix := (ask hn).bind fun _ => pure _

theorem ledger (hs : ∀ c, P (.sidecar c)) (m : LedgerM α) : AsksOnly P (DeliveryM.ledger m) :=
  fun memory => Only.embed hs (m.run memory)

section
variable (hn : P .now) (hs : ∀ c, P (.sidecar c))
include hn hs

variable (work : Bool) (route : DeliveryRoute) (id : B256)

theorem giveUp (state : FailedRetryState) : AsksOnly P (giveUpFailedRetries work id state) := by
  rw [giveUpFailedRetries]
  split
  · exact pure _
  · exact (nowUnix hn).bind fun _ => (ledger hs _).bind fun _ => pure _

theorem afterRetry (state : FailedRetryState) (retryDeferred : Option Nat) :
    AsksOnly P (afterFailedRetry work route id state retryDeferred) := by
  rw [afterFailedRetry]
  split
  · exact giveUp hn hs work id _
  · exact pure _

theorem startRetries : AsksOnly P (startFailedRetries work route id) := by
  refine (nowUnix hn).bind fun _ => (ledger hs _).bind fun state => ?_
  split
  · exact giveUp hn hs work id _
  · exact pure _

theorem charge (pending : Bool) : AsksOnly P (chargeRetry work route id pending) := by
  rw [chargeRetry]
  split
  · exact pure _
  · exact ((nowUnix hn).bind fun _ => ledger hs _).bind fun _ => pure _

theorem settle (spent : Option FailedRetryState) (observed : Observed) :
    AsksOnly P (settleRetry work route id spent observed) := by
  cases spent <;> rw [settleRetry] <;> split <;>
    first
    | exact pure _
    | exact afterRetry hn hs work route id _ _
    | exact startRetries hn hs work route id

end

end AsksOnly

/-- No question of the program is a broadcast. -/
abbrev Quiet {α : Type} (m : DeliveryM α) : Prop := AsksOnly (fun c => c.broadcasts = false) m

theorem Quiet.ask {c : DeliveryCall} (hc : c.broadcasts = false) : Quiet (DeliveryM.ask c) :=
  AsksOnly.ask hc

/-! ## What was checked before a broadcast -/

section
variable (codec : InboxCodec) (route : DeliveryRoute) (job : DeliveryJob)

/-- The simulation succeeded, or failed only for want of gas. -/
def Simulated (said : DeliverySaid) : Prop :=
  ⟨.callDeliver (deliverTx codec job none) false none, Reply.done true⟩ ∈ said ∨
  ∃ err, ⟨.callDeliver (deliverTx codec job none) false none, Reply.failed err⟩ ∈ said ∧
    classifyDeliveryRevert codec err = some .insufficientGasForDestination

/-- The funded gas covers the estimate, or there is no estimate for want of gas. -/
def GasCovered (gas : Nat) (said : DeliverySaid) : Prop :=
  (∃ est, ⟨.estimateDeliver (deliverTx codec job none), Reply.done est⟩ ∈ said ∧ est ≤ gas) ∨
  ∃ err, ⟨.estimateDeliver (deliverTx codec job none), Reply.failed err⟩ ∈ said ∧
    classifyDeliveryRevert codec err = some .insufficientGasForDestination

/-- What a job found out before its first attempt. -/
structure Cleared (config : DeliveryConfig) (funding : MessageFunding) (said : DeliverySaid) :
    Prop where
  simulated : config.simulateBeforeSend = true → Simulated codec job said
  funded : ∀ gas ∈ funding.gas, GasCovered codec job gas said

/-- The caps of the route, on what the payload asks for. -/
structure Capped : Prop where
  value : (envelopeTerms codec job.payload).nativeValue ≤ route.maxNativeCoinValueWei
  gas : ∀ gas ∈ (envelopeTerms codec job.payload).gasLimit, gas ≤ route.maxGasLimit

/-- The gas limit of an attempt: the funded gas, or raised within the route's limit. -/
def GasOk (funding : MessageFunding) (gas : Option Nat) : Prop :=
  gas = funding.gas ∨ ∃ raised, gas = some raised ∧ raised ≤ route.maxGasLimit

/-- What holds of a `deliverMessage` when it is broadcast. -/
structure DeliverChecked (config : DeliveryConfig) (funding : MessageFunding) (tx : DeliverTx)
    (said : DeliverySaid) : Prop where
  votes : job.reconcileOnly = false
  capped : Capped codec route job
  terms : tx = deliverTx codec job tx.gas
  gas : GasOk route funding tx.gas
  cleared : Cleared codec job config funding said
  /-- The last question was the transaction itself, as a call from the signer. -/
  called : ∃ l, said = l ++ [⟨.callDeliver tx true none, Reply.done true⟩]
  attempts : said.countP (fun x => x.1.delivers) ≤ config.maxRetries

/-- What the Inbox said of the message: it is queued, or failed at its destination. -/
def InboxAccepted (pending : Bool) (id : B256) (said : DeliverySaid) : Prop :=
  ⟨.isPending id, Reply.done pending⟩ ∈ said ∧
    (pending = false → ⟨.isRetryable id, Reply.done true⟩ ∈ said)

/-- What holds of a retry when it is broadcast. -/
structure RetryChecked (pending : Bool) (id : B256) (gas : Nat) (said : DeliverySaid) : Prop where
  message : id = job.messageId
  limit : gas ≤ route.maxGasLimit
  accepted : InboxAccepted pending id said
  called : ∃ l, said = l ++ [⟨.callRetry pending id gas none, Reply.done ()⟩]
  first : said.countP (fun x => x.1.retries) = 0

/-- What was said before a question of a job. -/
def SendChecked (config : DeliveryConfig) (funding : MessageFunding) (said : DeliverySaid) :
    DeliveryCall → Prop
  | .sendDeliver tx => DeliverChecked codec route job config funding tx said
  | .sendRetry pending id gas => RetryChecked route job pending id gas said
  | _ => True

end

section
variable {codec : InboxCodec} {route : DeliveryRoute} {job : DeliveryJob} {config : DeliveryConfig}
  {funding : MessageFunding} {said said' : DeliverySaid}

theorem checked_quiet (said : DeliverySaid) {c : DeliveryCall} (hc : c.broadcasts = false) :
    SendChecked codec route job config funding said c := by
  cases c with
  | sendDeliver | sendRetry =>
    simp [DeliveryCall.broadcasts, DeliveryCall.delivers, DeliveryCall.retries] at hc
  | _ => trivial

theorem Quiet.checked {α : Type} {m : DeliveryM α} (hm : Quiet m)
    (memory : Memory) (said : DeliverySaid) :
    asks heard (SendChecked codec route job config funding) (m.run memory) said :=
  asks_mono ((hm memory).asks said) fun said _ hc => checked_quiet said hc

theorem Cleared.mono (h : Cleared codec job config funding said) (hs : said ⊆ said') :
    Cleared codec job config funding said' where
  simulated hc := (h.simulated hc).imp (fun hm => hs hm) fun ⟨err, hm, he⟩ => ⟨err, hs hm, he⟩
  funded gas hg := (h.funded gas hg).imp (fun ⟨est, hm, hle⟩ => ⟨est, hs hm, hle⟩)
    fun ⟨err, hm, he⟩ => ⟨err, hs hm, he⟩

theorem InboxAccepted.mono {pending : Bool} {id : B256} (h : InboxAccepted pending id said)
    (hs : said ⊆ said') : InboxAccepted pending id said' := ⟨hs h.1, fun hp => hs (h.2 hp)⟩

/-! ## Retries -/

variable {work : Bool} {id : B256} {memory : Memory}

/-- The Inbox's answers before an attempt at the execution. -/
theorem executionState_accepted :
    wp heard (executionState route id).run said fun said' r =>
      (r = .ok .pending → InboxAccepted true id said') ∧
        (r = .ok .failed → InboxAccepted false id said') := by
  simp only [executionState, wp_run_bind, wp_readCall, wp_orInterrupt, heard_iff]
  rintro (_ | _ | processedAt) _ rfl
  · simp
  · simp
  dsimp only
  split
  · split
    · simp only [wp_run_bind, wp_readCall, wp_orInterrupt, heard_iff]
      rintro (_ | _ | tip) _ rfl
      · simp
      · simp
      dsimp only
      split
      · simp
      · simp only [wp_run_bind, wp_readCall, wp_orInterrupt, heard_iff]
        rintro (_ | _ | confirmedAt) _ rfl
        · simp
        · simp
        dsimp only
        split <;> simp
    · simp
  · simp only [wp_run_bind, wp_readCall, wp_orInterrupt, heard_iff]
    rintro (_ | _ | _ | _) _ rfl
    · simp
    · simp
    · simp only [Bool.false_eq_true, if_false, wp_run_bind, wp_readCall, wp_orInterrupt, heard_iff]
      rintro (_ | _ | _ | _) _ rfl <;> simp [InboxAccepted]
    · simp [InboxAccepted]

theorem observeRetry_quiet (pending : Bool) (gas : Nat) (txHash : B256) :
    Quiet (observeRetry codec work route id pending gas txHash) := by
  rw [observeRetry]
  refine (Quiet.ask rfl).bind fun a => ?_
  cases a with
  | elapsed | failed => exact .pure _
  | done receipt =>
    dsimp only
    split
    · split
      · exact (AsksOnly.ledger (fun _ => rfl) _).bind fun _ => .pure _
      · exact .pure _
    · refine (Quiet.ask rfl).bind fun a => ?_
      cases a <;> exact .pure _

theorem sendRetry_checked {pending : Bool} {gas : Nat} (h : RetryChecked route job pending id gas said) :
    asks heard (SendChecked codec route job config funding)
      ((sendRetry codec work route id pending gas).run memory) said := by
  have hn : DeliveryCall.now.broadcasts = false := rfl
  have hs : ∀ c, (DeliveryCall.sidecar c).broadcasts = false := fun _ => rfl
  rw [sendRetry]
  refine asks_state_bind ⟨h, fun _ _ _ => trivial⟩ ?_
  rw [wp_deliveryAsk]
  -- what follows the broadcast broadcasts nothing
  intro a said' _
  refine Quiet.checked ?_ _ _
  cases a with
  | failed => exact .pure _
  | stalled =>
    dsimp only
    split
    · exact .pure _
    · refine ((AsksOnly.nowUnix hn).bind fun _ => AsksOnly.ledger hs _).bind fun _ => ?_
      exact AsksOnly.afterRetry hn hs work route id _ _
  | sent txHash =>
    refine (AsksOnly.charge hn hs work route id pending).bind fun _ => ?_
    exact (observeRetry_quiet _ _ _).bind fun _ => AsksOnly.settle hn hs work route id _ _

/-- No retry was broadcast yet. -/
def NoRetry (said : DeliverySaid) : Prop := said.countP (fun x => x.1.retries) = 0

theorem NoRetry.concat (h : NoRetry said) {c : DeliveryCall} (a : c.Answer)
    (hc : c.retries = false) : NoRetry (said ++ [⟨c, a⟩]) := by
  simpa [NoRetry, hc] using h

theorem NoRetry.append (h : NoRetry said) {new : DeliverySaid} (hn : ∀ x ∈ new, x.1.retries = false) :
    NoRetry (said ++ new) := by
  have hzero : new.countP (fun x => x.1.retries) = 0 :=
    List.countP_eq_zero.mpr fun x hx => by simp [hn x hx]
  rw [NoRetry, List.countP_append, hzero]
  exact h

theorem retryExecution_checked {pending : Bool} (hid : id = job.messageId)
    (ha : InboxAccepted pending id said) (hr : NoRetry said) :
    asks heard (SendChecked codec route job config funding)
      ((retryExecution codec work route id pending).run memory) said := by
  have hdone : ∀ (r : DeliveryResultKind) (said : DeliverySaid),
      asks heard (SendChecked codec route job config funding) ((pure r : DeliveryM _).run memory) said :=
    fun r => Quiet.checked (.pure r) memory
  rw [retryExecution]
  refine asks_state_bind ((Quiet.ask rfl).checked _ _) ?_
  simp only [wp_deliveryAsk, heard_iff]
  rintro a said₁ rfl
  cases a with
  | elapsed | failed => exact hdone _ _
  | done gas =>
    dsimp only
    split
    · refine asks_state_bind ((Quiet.ask rfl).checked _ _) ?_
      simp only [wp_deliveryAsk, heard_iff]
      rintro a said₂ rfl
      cases a with
      | elapsed | failed => exact hdone _ _
      | done =>
        have hr' := (hr.concat (c := .estimateRetry pending id) (Reply.done gas) rfl).concat
          (c := .callRetry pending id (min (satAdd64 gas (gas / 4)) route.maxGasLimit) none)
          (Reply.done ()) rfl
        refine sendRetry_checked ⟨hid, Nat.min_le_right _ _, ha.mono ?_, ⟨_, rfl⟩, hr'⟩
        exact List.Subset.trans (List.subset_append_left _ _) (List.subset_append_left _ _)
    · exact hdone _ _

theorem reconcileExecution_checked (hid : id = job.messageId) (hr : NoRetry said) :
    asks heard (SendChecked codec route job config funding)
      ((reconcileExecution codec work route id).run memory) said := by
  have hn : DeliveryCall.now.broadcasts = false := rfl
  have hs : ∀ c, (DeliveryCall.sidecar c).broadcasts = false := fun _ => rfl
  have hreads := executionState_reads route id
  rw [reconcileExecution]
  refine asks_state_bind ?_ ?_
  · rw [StateT.run_lift]
    refine asks_bind (asks_mono (hreads.asks said) fun said c hc => checked_quiet said ?_)
      (wp_iff.mpr fun _ _ _ => trivial)
    cases c <;> first | rfl | cases hc
  rw [wp_state_lift]
  refine wp_mono (wp_and (wp_only hreads said) executionState_accepted) fun said' r h => ?_
  obtain ⟨⟨new, rfl, hnew⟩, hpending, hfailed⟩ := h
  have hr' : NoRetry (said ++ new) := hr.append fun x hx => by
    have hread := hnew x hx
    revert hread
    cases x.1 <;> simp [DeliveryCall.reads, DeliveryCall.retries]
  rcases r with err | state
  · exact Quiet.checked (.pure _) _ _
  cases state with
  | executed => exact Quiet.checked ((AsksOnly.ledger hs _).bind fun _ => .pure _) _ _
  | confirming | unaccepted => exact Quiet.checked (.pure _) _ _
  | pending => exact retryExecution_checked hid (hpending rfl) hr'
  | failed =>
    have hacc := hfailed rfl
    refine asks_state_bind (Quiet.checked (AsksOnly.nowUnix hn) _ _) ?_
    simp only [wp_nowUnix, heard_iff]
    rintro now said₁ rfl
    have hr₁ := hr'.concat (c := .now) now rfl
    refine asks_state_bind (Quiet.checked (AsksOnly.ledger hs _) _ _) ?_
    rw [wp_ledger]
    refine wp_iff.mpr fun said₂ verdict hx => ?_
    -- the ledger asks for its files only
    obtain ⟨new', rfl, hnew'⟩ : ∃ new', said₂ = (said ++ new) ++ [⟨.now, now⟩] ++ new' ∧
        ∀ x ∈ new', x.1.retries = false := by
      refine hx.inv (I := fun said₂ => ∃ new', said₂ = (said ++ new) ++ [⟨.now, now⟩] ++ new' ∧
        ∀ x ∈ new', x.1.retries = false) (fun w c a w' ha hw => ?_) ⟨[], by simp, by simp⟩
      rw [sidecarOf_iff, heard_iff] at ha
      obtain ⟨new', rfl, hnew'⟩ := hw
      refine ⟨new' ++ [⟨.sidecar c, a⟩], by simp [ha], fun x hx => ?_⟩
      rcases List.mem_append.mp hx with hx | hx
      · exact hnew' x hx
      · rw [List.mem_singleton.mp hx]
        rfl
    split
    · refine retryExecution_checked hid ?_ (hr₁.append hnew')
      exact hacc.mono (List.Subset.trans (List.subset_append_left _ _) (List.subset_append_left _ _))
    · exact Quiet.checked (.pure _) _ _
    · exact Quiet.checked (AsksOnly.giveUp hn hs work id _) _ _

/-! ## Attempts -/

/-- What holds of a job at each of its attempts; at most `k` transactions were broadcast before. -/
structure Attempting (codec : InboxCodec) (route : DeliveryRoute) (job : DeliveryJob)
    (config : DeliveryConfig) (funding : MessageFunding) (k : Nat) (gas : Option Nat)
    (said : DeliverySaid) : Prop where
  votes : job.reconcileOnly = false
  capped : Capped codec route job
  gas : GasOk route funding gas
  cleared : Cleared codec job config funding said
  sends : said.countP (fun x => x.1.delivers) ≤ k

/-- The next attempt, if there is one, after at most `k` broadcasts. -/
def AgainChecked (codec : InboxCodec) (route : DeliveryRoute) (job : DeliveryJob)
    (config : DeliveryConfig) (funding : MessageFunding) (memory : Memory) (k : Nat)
    (again : Option (Option Nat → DeliveryM SendOutcome)) : Prop :=
  ∀ f ∈ again, ∀ gas said, Attempting codec route job config funding k gas said →
    asks heard (SendChecked codec route job config funding) ((f gas).run memory) said

variable {k : Nat} {gas : Option Nat} {again : Option (Option Nat → DeliveryM SendOutcome)}

theorem Attempting.after (h : Attempting codec route job config funding k gas said)
    {c : DeliveryCall} (a : c.Answer) (k' : Nat) (hk : k + c.delivers.toNat ≤ k') :
    Attempting codec route job config funding k' gas (said ++ [⟨c, a⟩]) where
  votes := h.votes
  capped := h.capped
  gas := h.gas
  cleared := h.cleared.mono (List.subset_append_left _ _)
  sends := by
    have hs := h.sends
    cases hc : c.delivers <;> simp [hc] at hk ⊢ <;> omega

theorem Attempting.mono {k' : Nat} (h : Attempting codec route job config funding k gas said)
    (hk : k ≤ k') : Attempting codec route job config funding k' gas said :=
  { h with sends := h.sends.trans hk }

theorem Attempting.raised (h : Attempting codec route job config funding k gas said) {raised : Nat}
    (hr : raised ≤ route.maxGasLimit) :
    Attempting codec route job config funding k (some raised) said :=
  { h with gas := .inr ⟨raised, rfl, hr⟩ }

theorem bumpOr_checked (ha : AgainChecked codec route job config funding memory k again)
    (h : Attempting codec route job config funding k gas said) :
    asks heard (SendChecked codec route job config funding)
      ((bumpOr codec route job again gas).run memory) said := by
  cases again with
  | none => exact Quiet.checked (.pure _) _ _
  | some f =>
    simp only [bumpOr]
    split
    · rename_i next hb
      have hle : next ≤ route.maxGasLimit := by
        unfold bumpedGasLimit at hb
        split at hb
        · cases hb
        · split at hb
          · cases hb
          · rw [← Option.some.inj hb]
            exact Nat.min_le_right _ _
      exact ha f rfl _ _ (h.raised hle)
    · exact Quiet.checked (.pure _) _ _

theorem settleSendError_checked (ha : AgainChecked codec route job config funding memory k again)
    (h : Attempting codec route job config funding k gas said) (err : CallError) :
    asks heard (SendChecked codec route job config funding)
      ((settleSendError codec route job again gas err).run memory) said := by
  unfold settleSendError
  split
  · exact Quiet.checked (.pure _) _ _
  · exact bumpOr_checked ha h
  · exact Quiet.checked (.pure _) _ _
  · split
    · exact ha _ rfl _ _ h
    · exact Quiet.checked (.pure _) _ _

theorem settleReceipt_checked (ha : AgainChecked codec route job config funding memory k again)
    (h : Attempting codec route job config funding k gas said) (receipt : Receipt) :
    asks heard (SendChecked codec route job config funding)
      ((settleReceipt codec route job again gas receipt).run memory) said := by
  rw [settleReceipt]
  split
  · split <;> exact Quiet.checked (.pure _) _ _
  · have hquiet : Quiet (replayRevertReason codec job gas receipt.blockNumber) := by
      refine (Quiet.ask rfl).bind fun a => ?_
      cases a <;> exact .pure _
    have hafter : wp heard ((replayRevertReason codec job gas receipt.blockNumber).run memory) said
        fun said' r => r.2 = memory ∧ Attempting codec route job config funding k gas said' := by
      simp only [replayRevertReason, wp_state_bind, wp_deliveryAsk, heard_iff]
      rintro a said' rfl
      have h' := h.after (c := .callDeliver (deliverTx codec job gas) false receipt.blockNumber) a k
        (by simp [DeliveryCall.delivers])
      cases a <;> exact ⟨rfl, h'⟩
    refine asks_state_bind (hquiet.checked _ _) (wp_mono hafter fun said' r hr => ?_)
    obtain ⟨revert, _⟩ := r
    obtain ⟨rfl, h'⟩ : _ = memory ∧ _ := hr
    dsimp only
    split
    · exact Quiet.checked (.pure _) _ _
    · exact bumpOr_checked ha h'
    · exact Quiet.checked (.pure _) _ _

/-- One attempt broadcasts its transaction once, right after the call that checks it. -/
theorem sendAttempt_checked
    (ha : AgainChecked codec route job config funding memory (k + 1) again)
    (h : Attempting codec route job config funding k gas said) (hk : k ≤ config.maxRetries) :
    asks heard (SendChecked codec route job config funding)
      ((sendAttempt codec route job again gas).run memory) said := by
  unfold sendAttempt
  refine asks_state_bind (Quiet.checked (Quiet.ask rfl) _ _) ?_
  simp only [wp_deliveryAsk, heard_iff]
  rintro a said₁ rfl
  have h₁ := h.after (c := .callDeliver (deliverTx codec job gas) true none) a k
    (by simp [DeliveryCall.delivers])
  rcases a with _ | err | _ | _
  · exact Quiet.checked (.pure _) _ _
  · exact settleSendError_checked ha (h₁.mono (Nat.le_succ k)) err
  · exact Quiet.checked (.pure _) _ _
  have hcall : SendChecked codec route job config funding _ (.sendDeliver (deliverTx codec job gas)) :=
    ⟨h.votes, h.capped, rfl, h.gas, h₁.cleared, ⟨_, rfl⟩, h₁.sends.trans hk⟩
  refine asks_state_bind ⟨hcall, fun _ _ _ => trivial⟩ ?_
  simp only [wp_deliveryAsk, heard_iff]
  rintro a said₂ rfl
  have h₂ := h₁.after (c := .sendDeliver (deliverTx codec job gas)) a (k + 1)
    (by simp [DeliveryCall.delivers])
  cases a with
  | stalled =>
    cases again with
    | none => exact Quiet.checked (.pure _) _ _
    | some f => exact ha f rfl _ _ h₂
  | failed err => exact settleSendError_checked ha h₂ err
  | sent txHash =>
    refine asks_state_bind (Quiet.checked (Quiet.ask rfl) _ _) ?_
    simp only [wp_deliveryAsk, heard_iff]
    rintro a said₃ rfl
    have h₃ := h₂.after (c := .awaitReceipt txHash) a (k + 1) (by simp [DeliveryCall.delivers])
    cases a with
    | elapsed => exact Quiet.checked (.pure _) _ _
    | failed =>
      cases again with
      | none => exact Quiet.checked (.pure _) _ _
      | some f => exact ha f rfl _ _ h₃
    | done receipt => exact settleReceipt_checked ha h₃ receipt

theorem sendLoop_checked (retries : Nat) (backoff : Duration)
    (h : Attempting codec route job config funding k gas said)
    (hk : k + retries ≤ config.maxRetries) :
    asks heard (SendChecked codec route job config funding)
      ((sendLoop codec route job retries backoff gas).run memory) said := by
  induction retries generalizing backoff gas said k with
  | zero => exact sendAttempt_checked (fun _ h => by cases h) h hk
  | succ retries ih =>
    refine sendAttempt_checked (fun f hf gas said h => ?_) h (by omega)
    cases hf
    refine asks_state_bind (Quiet.checked (Quiet.ask rfl) _ _) ?_
    simp only [wp_deliveryAsk, heard_iff]
    rintro _ said' rfl
    exact ih _ (h.after (c := .sleep backoff) () (k + 1) (by simp [DeliveryCall.delivers]))
      (by omega)

/-! ## The job -/

theorem settleDuplicateRevert_checked (hr : NoRetry said) :
    asks heard (SendChecked codec route job config funding)
      ((settleDuplicateRevert codec work route job).run memory) said := by
  rw [settleDuplicateRevert]
  refine asks_state_bind (reconcileExecution_checked rfl hr) (wp_iff.mpr fun said' r _ => ?_)
  obtain ⟨kind, memory'⟩ := r
  cases kind <;> exact Quiet.checked (.pure _) _ _

/-- No question of the program is a retry. -/
abbrev NoRetries {α : Type} (m : DeliveryM α) : Prop := AsksOnly (fun c => c.retries = false) m

theorem NoRetries.ask {c : DeliveryCall} (hc : c.retries = false) : NoRetries (DeliveryM.ask c) :=
  AsksOnly.ask hc

section
variable {gas : Option Nat} {again : Option (Option Nat → DeliveryM SendOutcome)}
  (ha : ∀ f ∈ again, ∀ gas, NoRetries (f gas))
include ha

theorem bumpOr_noRetries : NoRetries (bumpOr codec route job again gas) := by
  cases again with
  | none => exact .pure _
  | some f =>
    simp only [bumpOr]
    split
    · exact ha f rfl _
    · exact .pure _

theorem settleSendError_noRetries (err : CallError) :
    NoRetries (settleSendError codec route job again gas err) := by
  unfold settleSendError
  split
  · exact .pure _
  · exact bumpOr_noRetries ha
  · exact .pure _
  · split
    · exact ha _ rfl gas
    · exact .pure _

theorem settleReceipt_noRetries (receipt : Receipt) :
    NoRetries (settleReceipt codec route job again gas receipt) := by
  rw [settleReceipt]
  split
  · split <;> exact .pure _
  · rw [replayRevertReason]
    refine AsksOnly.bind ((NoRetries.ask rfl).bind fun a => ?_) fun revert => ?_
    · cases a <;> exact .pure _
    · split
      · exact .pure _
      · exact bumpOr_noRetries ha
      · exact .pure _

theorem sendAttempt_noRetries : NoRetries (sendAttempt codec route job again gas) := by
  unfold sendAttempt
  refine (NoRetries.ask rfl).bind fun a => ?_
  rcases a with _ | err | _ | _
  · exact .pure _
  · exact settleSendError_noRetries ha err
  · exact .pure _
  refine (NoRetries.ask rfl).bind fun a => ?_
  cases a with
  | stalled =>
    cases again with
    | none => exact .pure _
    | some f => exact ha f rfl gas
  | failed err => exact settleSendError_noRetries ha err
  | sent txHash =>
    refine (NoRetries.ask rfl).bind fun a => ?_
    cases a with
    | elapsed => exact .pure _
    | failed =>
      cases again with
      | none => exact .pure _
      | some f => exact ha f rfl gas
    | done receipt => exact settleReceipt_noRetries ha receipt

end

/-- The attempts of a job send no retry. -/
theorem sendLoop_noRetries (retries : Nat) (backoff : Duration) (gas : Option Nat) :
    NoRetries (sendLoop codec route job retries backoff gas) := by
  induction retries generalizing backoff gas with
  | zero => exact sendAttempt_noRetries fun _ h => by cases h
  | succ retries ih =>
    refine sendAttempt_noRetries fun f hf gas => ?_
    cases hf
    exact (NoRetries.ask rfl).bind fun _ => ih _ _

theorem submit_checked (hv : job.reconcileOnly = false) (hc : Capped codec route job)
    (h : Cleared codec job config funding said) (hs : said.countP (fun x => x.1.delivers) = 0)
    (hr : NoRetry said) :
    asks heard (SendChecked codec route job config funding)
      ((submit codec work route job config funding).run memory) said := by
  have hstart : Attempting codec route job config funding 0 funding.gas said :=
    ⟨hv, hc, .inl rfl, h, Nat.le_of_eq hs⟩
  rw [submit]
  refine asks_state_bind (sendLoop_checked _ _ hstart (by omega)) ?_
  refine wp_mono (wp_only (sendLoop_noRetries _ _ _ memory) said) fun said' r hnew => ?_
  obtain ⟨new, rfl, hnew⟩ := hnew
  obtain ⟨outcome, memory'⟩ := r
  cases outcome with
  | alreadyValidated => exact settleDuplicateRevert_checked (hr.append hnew)
  | destinationFailed =>
    have hquiet : Quiet (startFailedRetries work route job.messageId) :=
      AsksOnly.startRetries (P := fun c => c.broadcasts = false) rfl (fun _ => rfl) work route _
    exact hquiet.checked _ _
  | succeeded =>
    rw [settleOutcome]
    split <;> exact Quiet.checked (.pure _) _ _
  | pending | reverted | failed => exact Quiet.checked (.pure _) _ _

/-- What comes after a call that failed before the first attempt. -/
theorem settleCallError_checked {err : CallError} {next : DeliveryM DeliveryResultKind}
    (hr : NoRetry said)
    (hn : classifyDeliveryRevert codec err = some .insufficientGasForDestination →
      asks heard (SendChecked codec route job config funding) (next.run memory) said) :
    asks heard (SendChecked codec route job config funding)
      ((settleCallError codec work route job err next).run memory) said := by
  rw [settleCallError]
  split
  · exact settleDuplicateRevert_checked hr
  · rename_i revert _ hc
    cases revert with
    | insufficientGasForDestination => exact hn hc
    | _ => exact Quiet.checked (.pure _) _ _
  · exact Quiet.checked (.pure _) _ _

variable {topUp : Bool}

/-- Nothing was broadcast yet. -/
structure Fresh (said : DeliverySaid) : Prop where
  delivers : said.countP (fun x => x.1.delivers) = 0
  retries : NoRetry said

theorem Fresh.concat (h : Fresh said) {c : DeliveryCall} (a : c.Answer) (hc : c.broadcasts = false) :
    Fresh (said ++ [⟨c, a⟩]) := by
  simp only [DeliveryCall.broadcasts, Bool.or_eq_false_iff] at hc
  exact ⟨by simp [h.delivers, hc.1], h.retries.concat a hc.2⟩

theorem checkFunding_checked (hv : job.reconcileOnly = false) (hc : Capped codec route job)
    (hsim : config.simulateBeforeSend = true → Simulated codec job said) (hf : Fresh said) :
    asks heard (SendChecked codec route job config funding)
      ((checkFunding codec work route job config funding topUp).run memory) said := by
  have hclear : ∀ (gas : Nat) (a : Reply Nat), funding.gas = some gas →
      GasCovered codec job gas (said ++ [⟨.estimateDeliver (deliverTx codec job none), a⟩]) →
      Cleared codec job config funding
        (said ++ [⟨.estimateDeliver (deliverTx codec job none), a⟩]) := by
    intro gas a hg hcov
    refine ⟨fun hs => (hsim hs).imp (by simp +contextual) ?_, fun gas' hg' => ?_⟩
    · exact fun ⟨err, hm, he⟩ => ⟨err, by simp [hm], he⟩
    · rw [Option.mem_def, hg, Option.some.injEq] at hg'
      exact hg' ▸ hcov
  rw [checkFunding]
  split
  · rename_i hg
    exact submit_checked hv hc ⟨hsim, fun gas hm => by rw [hg] at hm; cases hm⟩ hf.delivers hf.retries
  · rename_i gas hg
    refine asks_state_bind (Quiet.checked (Quiet.ask rfl) _ _) ?_
    simp only [wp_deliveryAsk, heard_iff]
    rintro a said₁ rfl
    have hf₁ := hf.concat (c := .estimateDeliver (deliverTx codec job none)) a rfl
    cases a with
    | elapsed => exact Quiet.checked (.pure _) _ _
    | failed err =>
      refine settleCallError_checked hf₁.retries fun he => ?_
      have hcov := hclear gas (.failed err) hg (.inr ⟨err, by simp, he⟩)
      exact submit_checked hv hc hcov hf₁.delivers hf₁.retries
    | done est =>
      dsimp only
      split
      · refine asks_state_bind (Quiet.checked (Quiet.ask rfl) _ _) (wp_iff.mpr fun said₂ now _ => ?_)
        refine Quiet.checked ?_ _ _
        split
        · exact .pure _
        · split
          · exact (Quiet.ask rfl).bind fun _ => .pure _
          · exact .pure _
      · rename_i hle
        have hcov := hclear gas (.done est) hg (.inl ⟨est, by simp, Nat.le_of_not_lt hle⟩)
        exact submit_checked hv hc hcov hf₁.delivers hf₁.retries

theorem simulate_checked (hv : job.reconcileOnly = false) (hc : Capped codec route job)
    (hf : Fresh said) :
    asks heard (SendChecked codec route job config funding)
      ((simulate codec work route job config funding topUp).run memory) said := by
  rw [simulate]
  split
  · refine asks_state_bind (Quiet.checked (Quiet.ask rfl) _ _) ?_
    simp only [wp_deliveryAsk, heard_iff]
    rintro a said₁ rfl
    have hf₁ := hf.concat (c := .callDeliver (deliverTx codec job none) false none) a rfl
    rcases a with _ | err | _ | _
    · exact Quiet.checked (.pure _) _ _
    · refine settleCallError_checked hf₁.retries fun he => ?_
      exact checkFunding_checked hv hc (fun _ => .inr ⟨err, by simp, he⟩) hf₁
    · exact Quiet.checked (.pure _) _ _
    · exact checkFunding_checked hv hc (fun _ => .inl (by simp)) hf₁
  · rename_i hs
    exact checkFunding_checked hv hc (fun h => absurd h hs) hf

theorem handleJob_checked : asks heard (SendChecked codec route job config funding)
    ((handleJob codec work route job config funding topUp).run memory) [] := by
  rw [handleJob]
  split
  · exact reconcileExecution_checked rfl rfl
  rename_i hv
  dsimp only
  split
  · exact Quiet.checked (.pure _) _ _
  rename_i hvalue
  split
  · exact Quiet.checked (.pure _) _ _
  rename_i hgas
  have hc : Capped codec route job := by
    refine ⟨Nat.le_of_not_lt hvalue, fun gas hm => Nat.le_of_not_lt fun hlt => hgas ?_⟩
    rw [Option.mem_def] at hm
    simp [hm, hlt]
  exact simulate_checked (Bool.eq_false_iff.mpr hv) hc ⟨rfl, rfl⟩

end

/-- Where each element of a kind has at most `n` of its kind before it, there are at most `n + 1`. -/
theorem countP_le_succ {α : Type} {p : α → Bool} {n : Nat} {xs : List α}
    (h : ∀ l x r, xs = l ++ x :: r → p x = true → l.countP p ≤ n) : xs.countP p ≤ n + 1 := by
  induction xs using List.reverseRecOn with
  | nil => simp
  | append_singleton xs x ih =>
    have ih := ih fun l y r e => h l y (r ++ [x]) (by simp [e])
    by_cases hx : p x = true
    · have hn := h xs x [] rfl hx
      simp only [List.countP_append, List.countP_singleton, hx, if_true]
      omega
    · simpa [List.countP_append, hx] using ih

/-- A job with votes, and its answers up to the broadcast. -/
def demoVotes : DeliveryJob := ⟨2, 7, 0, 5, 1, [], [], 1, 0, false⟩

def demoSends : DeliverySaid :=
  [⟨.callDeliver (deliverTx demoInbox demoVotes none) false none, Reply.done true⟩,
    ⟨.callDeliver (deliverTx demoInbox demoVotes none) true none, Reply.done true⟩,
    ⟨.sendDeliver (deliverTx demoInbox demoVotes none), Broadcast.sent 9⟩]

theorem demoSent : Cut heard ((handleJob demoInbox false demoRoute demoVotes ⟨true, 3⟩ .unknown
    false).run ∅) [] demoSends :=
  .ask (a := Reply.done true) rfl <| .ask (a := Reply.done true) rfl <|
    .ask (a := Broadcast.sent 9) rfl (by exact .here)

end MessageRelayer

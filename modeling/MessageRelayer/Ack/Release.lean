import MessageRelayer.Ack.Settle

/-!
# A transaction is released on the source's word

An attempt releases its transaction only if the last read of each executed
message found its own record with nothing to acknowledge (`Resolved`), and the
last read of the fee ledger found nothing owed for any of the others
(`FeeSettled`); the one exception is a transaction too large to prove
(`Oversized`). A submission that fails keeps none of the others from being made
(`release_sound`).
-/

namespace MessageRelayer.Ack

open Prog hiding ask

/-! ## What the source said last -/

/-- What a question submits. -/
def SettleCall.submits : SettleCall → Option Settlement
  | send tx => some tx.settlement
  | getMessage .. | outboxValidator _ | validatorOutbox _ | validatorDestination _
  | getMessageInfo .. | getProof _ | awaitReceipt .. => none

/-- The submissions that were made, in their order. -/
def submitted (said : SettleSaid) : List Settlement := said.filterMap fun x => x.1.submits

/-- The outcome lets the transaction leave the queue. -/
def AckOutcome.releases : AckOutcome → Bool
  | acknowledged | terminal _ => true
  | notReady _ | rejected _ => false

/-- A question about a message's record, or a submission. -/
def RecordCall (id : B256) (c : SettleCall) : Prop :=
  c.submits.isSome = true ∨ ∃ outbox, c = .getMessage outbox id

/-- A question about a message's fee, or the claim of it. -/
def FeeCall (ledger : Address) (chainKey id : B256) (c : SettleCall) : Prop :=
  c.submits = some (.claimDelivery ledger id chainKey) ∨ c = .getMessageInfo ledger id

/-- The last record of a message that was read, and nothing was submitted since, is its own on one
of the Outboxes, and there is nothing to acknowledge. -/
def Resolved (codec : SettleCodec) (sourceChainId : Nat) (outboxes : FinSet Address) (id : B256)
    (said : SettleSaid) : Prop :=
  ∃ outbox ∈ outboxes, ∃ message : OutboxMessage,
    LastSaid (RecordCall id) said (.getMessage outbox id) (.ok message) ∧ message.emitter ≠ 0 ∧
      messageId codec outbox message sourceChainId = id ∧
      (message.acknowledged = true ∨ message.canAck = false)

/-- The fee of a message, as the ledger had it last and since it was last claimed, is unfunded or
settled. -/
def FeeSettled (ledger : Address) (chainKey id : B256) (said : SettleSaid) : Prop :=
  ∃ info : MessageInfo,
    LastSaid (FeeCall ledger chainKey id) said (.getMessageInfo ledger id) (.ok info) ∧
      (info.payer = 0 ∨ info.relaySettled = true)

/-- The proof that was served is of a transaction that is too large for the chain. -/
def Oversized (codec : SettleCodec) (said : SettleSaid) : Prop :=
  ∃ url result proof encodedTx, ⟨.getProof url, result⟩ ∈ said ∧
    proofByTx codec.proofs url result = .ok (.ready proof) ∧
    proof.encodedTransaction = .ok encodedTx ∧ maxEncodedTransactionBytes < encodedTx.length

/-- Nothing is to be acknowledged, and that is known. -/
def Resolution.Clear (r : Resolution) : Prop := r.authorities.isEmpty = true ∧ r.failure = none

section
variable {codec : SettleCodec} {sourceChainId : Nat} {outboxes : FinSet Address} {ledger : Address}
  {chainKey id : B256} {said new : SettleSaid}

theorem Resolved.append (h : Resolved codec sourceChainId outboxes id said)
    (hn : ∀ x ∈ new, ¬ RecordCall id x.1) : Resolved codec sourceChainId outboxes id (said ++ new) := by
  obtain ⟨outbox, ho, message, hl, hm⟩ := h
  exact ⟨outbox, ho, message, hl.append hn, hm⟩

theorem FeeSettled.append (h : FeeSettled ledger chainKey id said)
    (hn : ∀ x ∈ new, ¬ FeeCall ledger chainKey id x.1) : FeeSettled ledger chainKey id (said ++ new) := by
  obtain ⟨info, hl, hi⟩ := h
  exact ⟨info, hl.append hn, hi⟩

theorem submitted_append (said new : SettleSaid) :
    submitted (said ++ new) = submitted said ++ submitted new := List.filterMap_append

theorem submitted_nil (h : ∀ x ∈ new, x.1.submits = none) : submitted new = [] :=
  List.filterMap_eq_nil_iff.mpr h

end

/-! ## The questions of each part -/

/-- A read that resolves some of the messages. -/
def RouteRead (ids : List B256) : SettleCall → Prop
  | .getMessage _ id => id ∈ ids
  | .outboxValidator _ | .validatorOutbox _ | .validatorDestination _ => True
  | .getMessageInfo .. | .getProof _ | .send _ | .awaitReceipt .. => False

/-- A read of the ledger about some of the messages. -/
def LedgerRead (ledger : Address) (ids : List B256) : SettleCall → Prop
  | .getMessageInfo l id => l = ledger ∧ id ∈ ids
  | .getMessage .. | .outboxValidator _ | .validatorOutbox _ | .validatorDestination _
  | .getProof _ | .send _ | .awaitReceipt .. => False

section
variable {ids : List B256} {ledger : Address} {c : SettleCall}

theorem RouteRead.not_submits (h : RouteRead ids c) : c.submits = none := by
  cases c <;> first | rfl | exact h.elim

theorem LedgerRead.not_submits (h : LedgerRead ledger ids c) : c.submits = none := by
  cases c <;> first | rfl | exact h.elim

theorem RouteRead.not_record {id : B256} (h : RouteRead ids c) (hn : id ∉ ids) : ¬ RecordCall id c := by
  rintro (hs | ⟨outbox, rfl⟩)
  · rw [h.not_submits] at hs
    cases hs
  · exact hn h

theorem LedgerRead.not_record {id : B256} (h : LedgerRead ledger ids c) : ¬ RecordCall id c := by
  rintro (hs | ⟨outbox, rfl⟩)
  · rw [h.not_submits] at hs
    cases hs
  · exact h

theorem LedgerRead.not_fee {chainKey id : B256} (h : LedgerRead ledger ids c) (hn : id ∉ ids) :
    ¬ FeeCall ledger chainKey id c := by
  rintro (hs | rfl)
  · rw [h.not_submits] at hs
    cases hs
  · exact hn h.2

theorem RouteRead.not_fee {chainKey id : B256} (h : RouteRead ids c) : ¬ FeeCall ledger chainKey id c := by
  rintro (hs | rfl)
  · rw [h.not_submits] at hs
    cases hs
  · exact h

end

section
variable {codec : SettleCodec} {route : AckRoute} {sourceChainId : Nat}

theorem only_settleAsk {P : SettleCall → Prop} {c : SettleCall} (hc : P c) :
    Only P (SettleM.ask c).run := ⟨hc, fun _ => trivial⟩

theorem only_reading {P : SettleCall → Prop} {α : Type} (context : String) (answer : Except String α) :
    Only P (reading context answer).run := only_orThrow _

theorem boundAuthority_reads (ids : List B256) (outbox : Address) :
    Only (RouteRead ids) (boundAuthority codec route outbox).run := by
  refine (only_settleAsk trivial).run_bind fun a => (only_reading _ a).run_bind fun authority => ?_
  refine (only_ensure _ _).run_bind fun _ => ?_
  refine (only_settleAsk trivial).run_bind fun a => (only_reading _ a).run_bind fun bound => ?_
  refine (only_ensure _ _).run_bind fun _ => ?_
  refine (only_settleAsk trivial).run_bind fun a => (only_reading _ a).run_bind fun destination => ?_
  exact (only_ensure _ _).run_bind fun _ => trivial

theorem validatorFor_reads {ids : List B256} {id : B256} (hi : id ∈ ids) (candidates : List Address)
    (failure : Option Error) :
    Only (RouteRead ids) (validatorFor codec route sourceChainId id candidates failure).run := by
  induction candidates generalizing failure with
  | nil => cases failure <;> trivial
  | cons outbox candidates ih =>
    refine (only_settleAsk hi).run_bind fun answer => ?_
    rcases answer with err | message
    · dsimp only
      split
      · exact ih failure
      · exact ih _
    · dsimp only
      split
      · exact ih failure
      split
      · exact (boundAuthority_reads ids outbox).run_bind fun authority => trivial
      · trivial

theorem resolveEach_reads (candidates : FinSet Address) {all ids : List B256} (hi : ids ⊆ all)
    (resolution : Resolution) :
    Only (RouteRead all) (resolveEach codec route sourceChainId candidates ids resolution) := by
  induction ids generalizing resolution with
  | nil => trivial
  | cons id ids ih =>
    have hid : id ∈ all := hi (List.mem_cons_self ..)
    refine (validatorFor_reads hid candidates.toList none).bind fun r => ?_
    have ih := ih fun i h => hi (List.mem_cons_of_mem _ h)
    rcases r with err | _ | authority
    · exact ih _
    · exact ih _
    · exact ih _

theorem relayClaimableIds_reads {ledger : Address} {all ids : List B256} (hi : ids ⊆ all) :
    Only (LedgerRead ledger all) (relayClaimableIds ledger ids).run := by
  induction ids with
  | nil => trivial
  | cons id ids ih =>
    refine (only_settleAsk ⟨rfl, hi (List.mem_cons_self ..)⟩).run_bind fun a => ?_
    refine (only_reading _ a).run_bind fun info => ?_
    exact (ih fun i h => hi (List.mem_cons_of_mem _ h)).run_bind fun claimable => trivial

end

/-! ## What each read tells -/

section
variable {codec : SettleCodec} {route : AckRoute} {sourceChainId : Nat} {W : Type}
  {H : Env SettleCall SettleCall.Answer W}

@[simp] theorem wp_settleAsk (c : SettleCall) (w : W) (Q : W → Except Error c.Answer → Prop) :
    wp (α := no_index (Except Error c.Answer)) H
      (ExceptT.run (α := no_index c.Answer) (SettleM.ask c)) w Q ↔
      ∀ a w', H w c a w' → Q w' (.ok a) := by
  rw [SettleM.ask, wp_run_lift, wp_call]

/-- A message without a validator has nothing to acknowledge on one of the Outboxes. -/
theorem validatorFor_spec {outboxes : FinSet Address} (id : B256) {candidates : List Address}
    (hc : ∀ outbox ∈ candidates, outbox ∈ outboxes) (failure : Option Error) (said : SettleSaid) :
    wp heard (validatorFor codec route sourceChainId id candidates failure).run said fun said' r =>
      r = .ok none → Resolved codec sourceChainId outboxes id said' := by
  induction candidates generalizing failure said with
  | nil => cases failure <;> exact fun h => by cases h
  | cons outbox candidates ih =>
    have ih := ih fun o ho => hc o (List.mem_cons_of_mem _ ho)
    simp only [validatorFor, wp_run_bind, wp_settleAsk, heard_iff]
    rintro (err | message) _ rfl
    · dsimp only
      split
      · exact ih failure _
      · exact ih _ _
    · dsimp only
      split
      · exact ih failure _
      rename_i hown
      split
      · rw [wp_run_bind]
        refine wp_mono (wp_true ..) fun said' r _ => ?_
        cases r with
        | ok authority => exact fun h => by cases h
        | error err => exact fun h => by cases h
      · rename_i hack
        refine fun _ => ⟨outbox, hc outbox (List.mem_cons_self ..), message, .concat .., ?_⟩
        refine ⟨fun h => hown (.inl h), by_contra fun h => hown (.inr h), ?_⟩
        cases ha : message.acknowledged with
        | true => exact .inl rfl
        | false => exact .inr (by simpa [ha] using hack)

theorem getOrInsert_ne_none (failure : Option Error) (err : Error) :
    getOrInsert failure err ≠ none := by cases failure <;> exact fun h => by cases h

/-- A resolution that is clear was clear before, and resolved every message. -/
theorem resolveEach_spec (outboxes : FinSet Address) {ids : List B256} (hn : ids.Nodup)
    (resolution : Resolution) (said : SettleSaid) :
    wp heard (resolveEach codec route sourceChainId outboxes ids resolution) said fun said' r =>
      r.Clear → resolution.Clear ∧ ∀ id ∈ ids, Resolved codec sourceChainId outboxes id said' := by
  induction ids generalizing resolution said with
  | nil => exact fun h => ⟨h, fun id hi => absurd hi List.not_mem_nil⟩
  | cons id ids ih =>
    obtain ⟨hid, hn⟩ := List.nodup_cons.mp hn
    rw [resolveEach, wp_bind]
    have hmem : ∀ o ∈ outboxes.toList, o ∈ outboxes := fun o ho => Std.ExtTreeSet.mem_toList.mp ho
    refine wp_mono (validatorFor_spec id hmem none said) fun said₁ r hr => ?_
    rcases r with err | _ | authority
    · refine wp_mono (ih hn _ said₁) fun said' r' h hclear => ?_
      exact absurd (h hclear).1.2 (getOrInsert_ne_none _ _)
    · have hreads : Only (RouteRead ids)
          (resolveEach codec route sourceChainId outboxes ids resolution) :=
        resolveEach_reads outboxes (List.Subset.refl ids) resolution
      refine wp_mono (wp_and (wp_only hreads said₁) (ih hn resolution said₁)) ?_
      rintro said' r' ⟨⟨new, rfl, hnew⟩, h⟩ hclear
      obtain ⟨hres, hids⟩ := h hclear
      refine ⟨hres, fun i hi => ?_⟩
      rcases List.mem_cons.mp hi with rfl | hi
      · exact (hr rfl).append fun x hx => (hnew x hx).not_record hid
      · exact hids i hi
    · refine wp_mono (ih hn _ said₁) fun said' r' h hclear => ?_
      have hempty := (h hclear).1.1
      simp at hempty

/-- Where the validators of some messages are none, and that is known, these are resolved. -/
theorem validators_spec (outboxes : FinSet Address) {ids : List B256} (hn : ids.Nodup)
    (said : SettleSaid) :
    wp heard (validators codec route sourceChainId outboxes ids) said fun said' r =>
      r.Clear → ∀ id ∈ ids, Resolved codec sourceChainId outboxes id said' :=
  wp_mono (resolveEach_spec outboxes hn _ said) fun _ _ h hclear => (h hclear).2

theorem ackRoutes_spec (outboxes : FinSet Address) {ids : List B256} (hn : ids.Nodup)
    (said : SettleSaid) :
    wp heard (ackRoutes codec route sourceChainId outboxes ids) said fun said' r =>
      r.Clear → ∀ id ∈ ids, Resolved codec sourceChainId outboxes id said' := by
  rw [ackRoutes]
  split
  · rename_i he
    rw [List.isEmpty_iff.mp he]
    exact fun _ id hi => absurd hi List.not_mem_nil
  · exact validators_spec outboxes hn said

/-- What the ledger does not report is settled. -/
theorem relayClaimableIds_spec (ledger : Address) (chainKey : B256) {ids : List B256}
    (hn : ids.Nodup) (said : SettleSaid) :
    wp heard (relayClaimableIds ledger ids).run said fun said' r => ∀ claimable, r = .ok claimable →
      claimable.Sublist ids ∧ ∀ id ∈ ids, id ∈ claimable ∨ FeeSettled ledger chainKey id said' := by
  induction ids generalizing said with
  | nil =>
    rintro claimable ⟨⟩
    exact ⟨.slnil, fun id hi => absurd hi List.not_mem_nil⟩
  | cons id ids ih =>
    obtain ⟨hid, hn⟩ := List.nodup_cons.mp hn
    simp only [relayClaimableIds, reading, wp_run_bind, wp_settleAsk, heard_iff, wp_orThrow]
    rintro (err | info) _ rfl
    · exact fun claimable h => by cases h
    dsimp only [Except.mapError]
    have hreads : Only (LedgerRead ledger ids) (relayClaimableIds ledger ids).run :=
      relayClaimableIds_reads (List.Subset.refl ids)
    refine wp_mono (wp_and (wp_only hreads _) (ih hn _)) ?_
    rintro said' (err | claimable) ⟨⟨new, rfl, hnew⟩, h⟩
    · exact fun claimable h => by cases h
    obtain ⟨hsub, hids⟩ := h claimable rfl
    rintro _ ⟨⟩
    split
    · refine ⟨hsub.cons_cons id, fun i hi => ?_⟩
      rcases List.mem_cons.mp hi with rfl | hi
      · exact .inl (List.mem_cons_self ..)
      · exact (hids i hi).imp_left (List.mem_cons_of_mem _)
    · rename_i hinfo
      refine ⟨hsub.cons id, fun i hi => ?_⟩
      rcases List.mem_cons.mp hi with rfl | hi
      · have hs : FeeSettled ledger chainKey i (said ++ [⟨.getMessageInfo ledger i, .ok info⟩]) := by
          refine ⟨info, .concat .., ?_⟩
          by_cases hp : info.payer = 0
          · exact .inl hp
          · exact .inr (by simpa using not_and.mp hinfo hp)
        exact .inr (hs.append fun x hx => (hnew x hx).not_fee hid)
      · exact hids i hi

/-- What is not to be claimed is settled. -/
theorem claimIds_spec {ids : List B256} (hn : ids.Nodup) (said : SettleSaid) :
    wp heard (claimIds route ids) said fun said' claimed => claimed.Nodup ∧
      ∀ ledger chainKey, route.mode = .ackAndClaim ledger chainKey →
        ∀ id ∈ ids, id ∈ claimed ∨ FeeSettled ledger chainKey id said' := by
  rw [claimIds]
  cases hm : route.mode with
  | ack => exact ⟨List.nodup_nil, fun ledger chainKey h => by cases h⟩
  | ackAndClaim ledger chainKey =>
    refine (wp_bind ..).mpr (wp_mono (relayClaimableIds_spec ledger chainKey hn said) fun said' r h => ?_)
    rcases r with err | claimable
    · exact ⟨hn, fun _ _ _ id hi => .inl hi⟩
    · obtain ⟨hsub, hids⟩ := h claimable rfl
      refine ⟨hn.sublist hsub, ?_⟩
      rintro _ _ ⟨⟩
      exact hids

/-! ## The submissions -/

theorem classifySubmit_waits (name : String) (sent : Except CallError B256) :
    Only (fun c => ∃ txHash, c = .awaitReceipt txHash receiptTimeout)
      (classifySubmit codec name sent).run := by
  rcases sent with err | txHash
  · rw [classifySubmit]
    split <;> trivial
  · have hask : Only (fun c => ∃ txHash, c = .awaitReceipt txHash receiptTimeout)
        (SettleM.ask (.awaitReceipt txHash receiptTimeout)).run := only_settleAsk ⟨txHash, rfl⟩
    refine hask.run_bind fun a => ?_
    rcases a with _ | err | receipt
    · trivial
    · trivial
    · dsimp only
      split <;> trivial

/-- A submission is made, whatever becomes of it. -/
theorem submitOne_spec {proof : SingleContinuityResponse} {proofs : InclusionProof × ContinuityProof}
    (hp : toInclusionAndContinuity proof = .ok proofs) (settlement : Settlement)
    (failure : Option Error) (said : SettleSaid) :
    wp heard (submitOne codec route proof settlement failure).run said fun said' r =>
      submitted said' = submitted said ++ [settlement] ∧ ∃ failure', r = .ok failure' := by
  simp only [submitOne, hp, wp_run_bind, wp_orThrow, wp_settleAsk, heard_iff]
  rintro (stalled | sent) _ rfl
  · exact ⟨submitted_append .., _, rfl⟩
  simp only [wp_run_bind, wp_run_lift]
  refine wp_mono (wp_only (classifySubmit_waits settlement.name sent) _) ?_
  rintro said' r ⟨new, rfl, hnew⟩
  have hquiet : submitted new = [] := submitted_nil fun x hx => by
    obtain ⟨txHash, h⟩ := hnew x hx
    rw [h]
    rfl
  rcases r with err | outcome <;>
  · refine ⟨?_, _, rfl⟩
    rw [submitted_append, hquiet, List.append_nil]
    exact submitted_append ..

theorem submitAll_made {proof : SingleContinuityResponse} {proofs : InclusionProof × ContinuityProof}
    (hp : toInclusionAndContinuity proof = .ok proofs) (list : List Settlement)
    (failure : Option Error) (said : SettleSaid) :
    wp heard (submitAll codec route proof list failure).run said fun said' _ =>
      submitted said' = submitted said ++ list := by
  induction list generalizing failure said with
  | nil => exact (List.append_nil _).symm
  | cons settlement rest ih =>
    rw [submitAll, wp_run_bind]
    refine wp_mono (submitOne_spec hp settlement failure said) ?_
    rintro said₁ r ⟨h₁, failure', rfl⟩
    refine wp_mono (ih failure' said₁) fun said' _ h => ?_
    rw [h, h₁, List.append_assoc, List.singleton_append]

/-- All the submissions are made, or, where the proof cannot be encoded, none. -/
theorem submitAll_spec (proof : SingleContinuityResponse) (list : List Settlement)
    (failure : Option Error) (said : SettleSaid) :
    wp heard (submitAll codec route proof list failure).run said fun said' _ =>
      submitted said' = submitted said ∨ submitted said' = submitted said ++ list := by
  cases hp : toInclusionAndContinuity proof with
  | ok proofs => exact wp_mono (submitAll_made hp list failure said) fun _ _ => .inr
  | error err =>
    cases list with
    | nil => exact .inl rfl
    | cons settlement rest =>
      simp only [submitAll, submitOne, hp, wp_run_bind, wp_orThrow]
      exact .inl trivial

/-! ## The check after the submissions -/

theorem recheckAcks_reads (outboxes : FinSet Address) (ids : List B256) (failure : Option Error) :
    Only (RouteRead ids) (recheckAcks codec route sourceChainId outboxes ids failure) := by
  rw [recheckAcks]
  split
  · trivial
  · exact (resolveEach_reads outboxes (List.Subset.refl ids) _).bind fun remaining => trivial

/-- Without a failure every executed message is resolved. -/
theorem recheckAcks_spec (outboxes : FinSet Address) {ids : List B256} (hn : ids.Nodup)
    (failure : Option Error) (said : SettleSaid) :
    wp heard (recheckAcks codec route sourceChainId outboxes ids failure) said fun said' r =>
      r = none → ∀ id ∈ ids, Resolved codec sourceChainId outboxes id said' := by
  rw [recheckAcks]
  split
  · rename_i he
    rw [List.isEmpty_iff.mp he]
    exact fun _ id hi => absurd hi List.not_mem_nil
  rw [wp_bind]
  refine wp_mono (validators_spec outboxes hn said) fun said' remaining h hr => ?_
  split at hr
  · rename_i he
    cases hf : remaining.failure with
    | none => exact h ⟨he, hf⟩
    | some err =>
      rw [hf] at hr
      exact absurd hr (getOrInsert_ne_none failure err)
  · exact absurd hr (getOrInsert_ne_none _ _)

theorem recheckFees_reads (ids : List B256) (failure : Option Error) :
    Only (fun c => ∃ ledger, LedgerRead ledger ids c) (recheckFees route ids failure) := by
  rw [recheckFees]
  split
  · trivial
  · rename_i ledger _ _
    have hreads : Only (LedgerRead ledger ids) (relayClaimableIds ledger ids).run :=
      relayClaimableIds_reads (List.Subset.refl ids)
    exact (hreads.mono fun c hc => ⟨ledger, hc⟩).bind fun r => by cases r <;> trivial

/-- Without a failure every fee that was claimed is settled. -/
theorem recheckFees_spec {ids : List B256} (hn : ids.Nodup) (failure : Option Error)
    (said : SettleSaid) :
    wp heard (recheckFees route ids failure) said fun said' r => r = none → failure = none ∧
      ∀ ledger chainKey, route.mode = .ackAndClaim ledger chainKey →
        ∀ id ∈ ids, FeeSettled ledger chainKey id said' := by
  rw [recheckFees]
  cases hm : route.mode with
  | ack => exact fun hr => ⟨hr, fun ledger chainKey h => by cases h⟩
  | ackAndClaim ledger chainKey =>
    refine (wp_bind ..).mpr (wp_mono (relayClaimableIds_spec ledger chainKey hn said) fun said' r h => ?_)
    rcases r with err | claimable
    · exact fun hr => absurd hr (getOrInsert_ne_none failure err)
    · dsimp only
      split
      · rename_i he
        obtain ⟨-, hids⟩ := h claimable rfl
        rw [List.isEmpty_iff.mp he] at hids
        refine fun hr => ⟨hr, ?_⟩
        rintro _ _ ⟨⟩ id hi
        exact (hids id hi).resolve_left List.not_mem_nil
      · exact fun hr => absurd hr (getOrInsert_ne_none failure _)

/-! ## The attempt -/

/-- What a proof settles. -/
structure Checked (codec : SettleCodec) (route : AckRoute) (sourceChainId : Nat)
    (outboxes : FinSet Address) (executedIds ids : List B256) (said : SettleSaid) : Prop where
  resolved : ∀ id ∈ executedIds, Resolved codec sourceChainId outboxes id said
  settled : ∀ ledger chainKey, route.mode = .ackAndClaim ledger chainKey →
    ∀ id ∈ ids, FeeSettled ledger chainKey id said

theorem submitProof_spec {outboxes : FinSet Address} {executedIds ids : List B256}
    (he : executedIds.Nodup) (hi : ids.Nodup) (authorities : FinSet Address) (failure : Option Error)
    {url : String} {result : HttpResult} {proof : SingleContinuityResponse} {said : SettleSaid}
    (hs : ⟨.getProof url, result⟩ ∈ said)
    (hp : proofByTx codec.proofs url result = .ok (.ready proof)) :
    wp heard (submitProof codec route sourceChainId outboxes executedIds ids authorities failure
      proof).run said fun said' r => ∀ outcome, r = .ok outcome →
        Oversized codec said' ∨ Checked codec route sourceChainId outboxes executedIds ids said' := by
  simp only [submitProof, wp_run_bind, wp_orThrow]
  cases ht : proof.encodedTransaction with
  | error err => exact fun outcome h => by cases h
  | ok encodedTx =>
    dsimp only
    split
    · rename_i hl
      exact fun _ _ => .inl ⟨url, result, proof, encodedTx, hs, hp, ht, hl⟩
    simp only [wp_run_bind, wp_run_lift]
    refine wp_mono (wp_true ..) fun said₁ r _ => ?_
    rcases r with err | failure
    · exact fun outcome h => by cases h
    refine wp_mono (recheckAcks_spec outboxes he failure said₁) fun said₂ failure h₂ => ?_
    have hreads : Only (fun c => ∃ ledger, LedgerRead ledger ids c) (recheckFees route ids failure) :=
      recheckFees_reads ids failure
    refine wp_mono (wp_and (wp_only hreads said₂) (recheckFees_spec hi failure said₂)) ?_
    rintro said' r ⟨⟨new, rfl, hnew⟩, h⟩
    rcases r with _ | err
    · obtain ⟨hf, hfees⟩ := h rfl
      refine fun _ _ => .inr ⟨fun id hid => (h₂ hf id hid).append fun x hx => ?_, hfees⟩
      obtain ⟨ledger, hread⟩ := hnew x hx
      exact hread.not_record
    · exact fun outcome h => by cases h

theorem settleTx_spec {outboxes : FinSet Address} {executedIds ids : List B256}
    (he : executedIds.Nodup) (hi : ids.Nodup) (authorities : FinSet Address) (failure : Option Error)
    (txHash : B256) (said : SettleSaid) :
    wp heard (settleTx codec route sourceChainId outboxes executedIds ids authorities failure
      txHash).run said fun said' r => ∀ outcome, r = .ok outcome → outcome.releases = true →
        Oversized codec said' ∨ Checked codec route sourceChainId outboxes executedIds ids said' := by
  simp only [settleTx, wp_run_bind, wp_settleAsk, heard_iff, wp_orThrow]
  rintro result _ rfl
  have hs := List.mem_append_right said (List.mem_singleton_self
    (⟨.getProof (proofByTxUrl route.proofGenUrl route.chainKey txHash), result⟩ :
      (c : SettleCall) × c.Answer))
  rcases hp : proofByTx codec.proofs _ result with err | fetched
  · exact fun outcome h => by cases h
  cases fetched with
  | ready proof =>
    refine wp_mono (submitProof_spec he hi authorities failure hs hp) fun said' r h outcome ho _ => ?_
    exact h outcome ho
  | notReady reason =>
    cases failure with
    | none =>
      rintro outcome ⟨⟩ hr
      cases hr
    | some err => exact fun outcome h => by cases h
  | rejected reason =>
    cases failure with
    | none =>
      rintro outcome ⟨⟩ hr
      cases hr
    | some err => exact fun outcome h => by cases h

theorem submitProof_made (outboxes : FinSet Address) (executedIds ids : List B256)
    (authorities : FinSet Address) (failure : Option Error) (proof : SingleContinuityResponse)
    (said : SettleSaid) :
    wp heard (submitProof codec route sourceChainId outboxes executedIds ids authorities failure
      proof).run said fun said' _ => submitted said' = submitted said ∨
        submitted said' = submitted said ++ settlements route authorities ids := by
  simp only [submitProof, wp_run_bind, wp_orThrow]
  cases proof.encodedTransaction with
  | error err => exact .inl trivial
  | ok encodedTx =>
    dsimp only
    split
    · exact .inl rfl
    simp only [wp_run_bind, wp_run_lift]
    refine wp_mono (submitAll_spec proof _ failure said) fun said₁ r h₁ => ?_
    rcases r with err | failure
    · exact h₁
    refine wp_mono (wp_only (recheckAcks_reads outboxes executedIds failure) said₁) ?_
    rintro said₂ failure ⟨new, rfl, hnew⟩
    refine wp_mono (wp_only (recheckFees_reads ids failure) _) ?_
    rintro said' r ⟨more, rfl, hmore⟩
    have hquiet : submitted (said₁ ++ new ++ more) = submitted said₁ := by
      rw [submitted_append, submitted_append, submitted_nil fun x hx => (hnew x hx).not_submits,
        submitted_nil fun x hx => (hmore x hx).elim fun _ h => h.not_submits, List.append_nil,
        List.append_nil]
    rw [← hquiet] at h₁
    rcases r with _ | err <;> exact h₁

theorem settleTx_made (outboxes : FinSet Address) (executedIds ids : List B256)
    (authorities : FinSet Address) (failure : Option Error) (txHash : B256) (said : SettleSaid) :
    wp heard (settleTx codec route sourceChainId outboxes executedIds ids authorities failure
      txHash).run said fun said' _ => submitted said' = submitted said ∨
        submitted said' = submitted said ++ settlements route authorities ids := by
  simp only [settleTx, wp_run_bind, wp_settleAsk, heard_iff, wp_orThrow]
  rintro result _ rfl
  have hquiet : submitted (said ++ [⟨.getProof (proofByTxUrl route.proofGenUrl route.chainKey txHash),
      result⟩]) = submitted said := (submitted_append ..).trans (List.append_nil _)
  rcases proofByTx codec.proofs _ result with err | fetched
  · exact .inl hquiet
  cases fetched with
  | ready proof =>
    refine wp_mono (submitProof_made outboxes executedIds ids authorities failure proof _) ?_
    rw [hquiet]
    exact fun _ _ h => h
  | notReady reason => cases failure <;> exact .inl hquiet
  | rejected reason => cases failure <;> exact .inl hquiet

/-! ## Fees that are not claimed -/

section
variable {ledger : Address} {chainKey id : B256}

theorem submitOne_spares (proof : SingleContinuityResponse) {settlement : Settlement}
    (hs : settlement ≠ .claimDelivery ledger id chainKey) (failure : Option Error) :
    Only (fun c => ¬ FeeCall ledger chainKey id c)
      (submitOne codec route proof settlement failure).run := by
  refine (only_orThrow _).run_bind fun proofs => ?_
  have hsend : ∀ tx : SettleTx, tx.settlement = settlement →
      Only (fun c => ¬ FeeCall ledger chainKey id c) (SettleM.ask (.send tx)).run := by
    rintro tx rfl
    refine only_settleAsk ?_
    rintro (h | h)
    · exact hs (Option.some.inj h)
    · cases h
  refine (hsend _ rfl).run_bind fun answer => ?_
  rcases answer with stalled | sent
  · trivial
  have hwaits : Only (fun c => ¬ FeeCall ledger chainKey id c)
      (classifySubmit codec settlement.name sent).run := by
    refine (classifySubmit_waits settlement.name sent).mono ?_
    rintro c ⟨txHash, rfl⟩ (h | h) <;> cases h
  refine Only.run_bind (Only.bind hwaits fun _ => trivial) fun r => ?_
  rcases r with err | outcome <;> trivial

theorem submitAll_spares (proof : SingleContinuityResponse) {list : List Settlement}
    (hs : ∀ s ∈ list, s ≠ .claimDelivery ledger id chainKey) (failure : Option Error) :
    Only (fun c => ¬ FeeCall ledger chainKey id c) (submitAll codec route proof list failure).run := by
  induction list generalizing failure with
  | nil => trivial
  | cons settlement rest ih =>
    refine (submitOne_spares proof (hs settlement (List.mem_cons_self ..)) failure).run_bind fun _ => ?_
    exact ih (fun s h => hs s (List.mem_cons_of_mem _ h)) _

/-- The fee of a message that is not to be claimed is neither read again nor claimed. -/
theorem settleTx_spares (hm : route.mode = .ackAndClaim ledger chainKey) (outboxes : FinSet Address)
    (executedIds : List B256) {ids : List B256} (hi : id ∉ ids) (authorities : FinSet Address)
    (failure : Option Error) (txHash : B256) :
    Only (fun c => ¬ FeeCall ledger chainKey id c)
      (settleTx codec route sourceChainId outboxes executedIds ids authorities failure txHash).run := by
  have hplan : ∀ s ∈ settlements route authorities ids, s ≠ .claimDelivery ledger id chainKey := by
    rintro s hs rfl
    rw [settlements, hm] at hs
    rcases List.mem_append.mp hs with hs | hs
    · obtain ⟨authority, -, h⟩ := List.mem_map.mp hs
      cases h
    · obtain ⟨i, hmem, h⟩ := List.mem_map.mp hs
      cases h
      exact hi hmem
  have hask : Only (fun c => ¬ FeeCall ledger chainKey id c)
      (SettleM.ask (.getProof (proofByTxUrl route.proofGenUrl route.chainKey txHash))).run :=
    only_settleAsk (by rintro (h | h) <;> cases h)
  refine hask.run_bind fun result => (only_orThrow _).run_bind fun fetched => ?_
  cases fetched with
  | notReady reason => cases failure <;> trivial
  | rejected reason => cases failure <;> trivial
  | ready proof =>
    refine (only_orThrow _).run_bind fun encodedTx => ?_
    split
    · trivial
    refine (submitAll_spares proof hplan failure).run_bind fun failure => ?_
    have hacks : Only (RouteRead executedIds)
        (recheckAcks codec route sourceChainId outboxes executedIds failure) :=
      recheckAcks_reads outboxes executedIds failure
    refine Only.run_bind (Only.bind (hacks.mono fun c hc => hc.not_fee) fun _ => trivial) fun failure => ?_
    have hfees : Only (fun c => ¬ FeeCall ledger chainKey id c) (recheckFees route ids failure) := by
      rw [recheckFees, hm]
      refine Only.bind ((relayClaimableIds_reads (List.Subset.refl ids)).mono ?_) fun r => ?_
      · exact fun c hc => hc.not_fee hi
      · cases r <;> trivial
    refine Only.run_bind (Only.bind hfees fun _ => trivial) fun r => ?_
    cases r <;> trivial

end

/-! ## The whole attempt -/

theorem mem_eventIds {executed : Bool} {messages : List DeliveryEvent} {event : DeliveryEvent}
    (hm : event ∈ messages) (he : event.executed = executed) :
    event.messageId ∈ eventIds executed messages := by
  rw [eventIds, Std.ExtTreeSet.mem_toList, FinSet.mem_extend]
  refine .inr (List.mem_map.mpr ⟨event, List.mem_filter.mpr ⟨hm, ?_⟩, rfl⟩)
  rw [he, beq_self_eq_true]

theorem ackRoutes_reads (outboxes : FinSet Address) (ids : List B256) :
    Only (RouteRead ids) (ackRoutes codec route sourceChainId outboxes ids) := by
  rw [ackRoutes]
  split
  · trivial
  · exact resolveEach_reads outboxes (List.Subset.refl ids) _

theorem claimIds_reads (ids : List B256) :
    Only (fun c => ∃ ledger, LedgerRead ledger ids c) (claimIds route ids) := by
  rw [claimIds]
  split
  · trivial
  · rename_i ledger _ _
    have hreads : Only (LedgerRead ledger ids) (relayClaimableIds ledger ids).run :=
      relayClaimableIds_reads (List.Subset.refl ids)
    exact (hreads.mono fun c hc => ⟨ledger, hc⟩).bind fun r => by cases r <;> trivial

/-- What a settlement with a proof keeps of what was known before it. -/
theorem settleTx_releases {outboxes : FinSet Address} {messages : List DeliveryEvent} {ids : List B256}
    (hi : ids.Nodup) (authorities : FinSet Address) (failure : Option Error) (txHash : B256)
    (said : SettleSaid) (hfees : ∀ ledger chainKey, route.mode = .ackAndClaim ledger chainKey →
      ∀ id ∈ eventIds false messages, id ∈ ids ∨ FeeSettled ledger chainKey id said) :
    wp heard (settleTx codec route sourceChainId outboxes (eventIds true messages) ids authorities
      failure txHash).run said fun said' r => ∀ outcome, r = .ok outcome → outcome.releases = true →
        Oversized codec said' ∨ Checked codec route sourceChainId outboxes (eventIds true messages)
          (eventIds false messages) said' := by
  have hexecuted : (eventIds true messages).Nodup := FinSet.nodup_toList _
  have hspec : wp heard (settleTx codec route sourceChainId outboxes (eventIds true messages) ids
      authorities failure txHash).run said fun said' r => ∀ outcome, r = .ok outcome →
        outcome.releases = true → Oversized codec said' ∨
          Checked codec route sourceChainId outboxes (eventIds true messages) ids said' :=
    settleTx_spec hexecuted hi authorities failure txHash said
  have hspares : wp heard (settleTx codec route sourceChainId outboxes (eventIds true messages) ids
      authorities failure txHash).run said fun said' _ => ∀ ledger chainKey id,
        route.mode = .ackAndClaim ledger chainKey → id ∉ ids → FeeSettled ledger chainKey id said →
          FeeSettled ledger chainKey id said' := by
    refine wp_iff.mpr fun said' r hx ledger chainKey id hm hid hs => ?_
    have honly : Only (fun c => ¬ FeeCall ledger chainKey id c) (settleTx codec route sourceChainId
        outboxes (eventIds true messages) ids authorities failure txHash).run :=
      settleTx_spares hm outboxes (eventIds true messages) hid authorities failure txHash
    obtain ⟨new, rfl, hnew⟩ := hx.post (wp_only honly said)
    exact hs.append hnew
  refine wp_mono (wp_and hspec hspares) fun said' r ⟨h, hkeep⟩ outcome ho hr => ?_
  refine (h outcome ho hr).imp_right fun hc => ⟨hc.resolved, fun ledger chainKey hm id hid => ?_⟩
  by_cases hmem : id ∈ ids
  · exact hc.settled ledger chainKey hm id hmem
  · have hs := (hfees ledger chainKey hm id hid).resolve_left hmem
    exact hkeep ledger chainKey id hm hmem hs

/-- An attempt that releases its transaction has checked every message of it. -/
theorem acknowledgeTx_releases (outboxes : FinSet Address) (messages : List DeliveryEvent)
    (txHash : B256) :
    wp heard (acknowledgeTx codec route sourceChainId outboxes messages txHash).run [] fun said r =>
      ∀ outcome, r = .ok outcome → outcome.releases = true → Oversized codec said ∨
        Checked codec route sourceChainId outboxes (eventIds true messages) (eventIds false messages)
          said := by
  have hexecuted : (eventIds true messages).Nodup := FinSet.nodup_toList _
  have hothers : (eventIds false messages).Nodup := FinSet.nodup_toList _
  simp only [acknowledgeTx, wp_run_bind, wp_run_lift]
  refine wp_mono (ackRoutes_spec outboxes hexecuted []) fun said₁ routes hroutes => ?_
  refine wp_mono (wp_and (wp_only (claimIds_reads _) said₁) (claimIds_spec hothers said₁)) ?_
  rintro said₂ ids ⟨⟨new, hs, hnew⟩, hids, hfees⟩
  split
  · exact fun outcome h => by cases h
  · rename_i hempty hfailure
    obtain ⟨hi, ha⟩ := Bool.and_eq_true_iff.mp hempty
    refine fun _ _ _ => .inr ⟨fun id hid => ?_, fun ledger chainKey hm id hid => ?_⟩
    · rw [hs]
      refine (hroutes ⟨ha, hfailure⟩ id hid).append fun x hx => ?_
      obtain ⟨ledger, hread⟩ := hnew x hx
      exact hread.not_record
    · refine (hfees ledger chainKey hm id hid).resolve_left ?_
      rw [List.isEmpty_iff.mp hi]
      exact List.not_mem_nil
  · exact settleTx_releases hids _ _ txHash said₂ hfees

/-- An attempt begins with its reads, and makes all the submissions that these found to be left, or
none. -/
theorem acknowledgeTx_submits (outboxes : FinSet Address) (messages : List DeliveryEvent)
    (txHash : B256) :
    wp heard (acknowledgeTx codec route sourceChainId outboxes messages txHash).run [] fun said _ =>
      ∃ routes ids said₁ said₂,
        Exec heard (ackRoutes codec route sourceChainId outboxes (eventIds true messages)) [] said₁
          routes ∧
        Exec heard (claimIds route (eventIds false messages)) said₁ said₂ ids ∧ said₂ <+: said ∧
        (submitted said = [] ∨ submitted said = settlements route routes.authorities ids) := by
  simp only [acknowledgeTx, wp_run_bind, wp_run_lift]
  refine wp_mono (wp_and (wp_exec ..) (wp_only (ackRoutes_reads outboxes _) [])) ?_
  rintro said₁ routes ⟨hx₁, new₁, hs₁, hnew₁⟩
  refine wp_mono (wp_and (wp_exec ..) (wp_only (claimIds_reads _) said₁)) ?_
  rintro said₂ ids ⟨hx₂, new₂, hs₂, hnew₂⟩
  have hquiet : submitted said₂ = [] := by
    rw [hs₂, hs₁, List.nil_append, submitted_append, submitted_nil fun x hx => (hnew₁ x hx).not_submits,
      submitted_nil fun x hx => (hnew₂ x hx).elim fun _ h => h.not_submits, List.append_nil]
  split
  · exact ⟨routes, ids, said₁, said₂, hx₁, hx₂, List.prefix_refl _, .inl hquiet⟩
  · exact ⟨routes, ids, said₁, said₂, hx₁, hx₂, List.prefix_refl _, .inl hquiet⟩
  · refine wp_mono (wp_heard (settleTx_made outboxes _ ids _ _ txHash said₂)) ?_
    rintro said _ ⟨hstart, h⟩
    rw [hquiet, List.nil_append] at h
    exact ⟨routes, ids, said₁, said₂, hx₁, hx₂, hstart, h⟩

end

/-- In every attempt, whatever it is answered: it releases its transaction only if the source, as it
was read last, leaves nothing to settle, or the transaction is too large; and if it submits anything,
it submits everything that the reads at its beginning found to be left. -/
theorem release_sound (codec : SettleCodec) (route : AckRoute) (sourceChainId : Nat)
    (outboxes : FinSet Address) (messages : List DeliveryEvent) (txHash : B256) {said : SettleSaid}
    {r : Except Error AckOutcome}
    (h : Exec heard (acknowledgeTx codec route sourceChainId outboxes messages txHash).run [] said r) :
    (∀ outcome, r = .ok outcome → outcome.releases = true → Oversized codec said ∨
      (∀ event ∈ messages, event.executed = true →
        Resolved codec sourceChainId outboxes event.messageId said) ∧
      ∀ ledger chainKey, route.mode = .ackAndClaim ledger chainKey → ∀ event ∈ messages,
        event.executed = false → FeeSettled ledger chainKey event.messageId said) ∧
    ∃ routes ids said₁ said₂,
      Exec heard (ackRoutes codec route sourceChainId outboxes (eventIds true messages)) [] said₁ routes ∧
      Exec heard (claimIds route (eventIds false messages)) said₁ said₂ ids ∧ said₂ <+: said ∧
      (submitted said = [] ∨ submitted said = settlements route routes.authorities ids) := by
  have hreleases := h.post (acknowledgeTx_releases outboxes messages txHash)
  have hsubmits := h.post (acknowledgeTx_submits outboxes messages txHash)
  refine ⟨fun outcome ho hr => (hreleases outcome ho hr).imp_right fun hc => ⟨?_, ?_⟩, hsubmits⟩
  · exact fun event hm he => hc.resolved _ (mem_eventIds hm he)
  · exact fun ledger chainKey hmode event hm he => hc.settled ledger chainKey hmode _ (mem_eventIds hm he)

/-! ## An attempt that settles -/

/-- The id of the message 1 of the emitter 3, which the Outbox 7 published. -/
def sampleId : B256 := 0xa95bdcfb75a7f7cdaf9259705ab78f0265ea88623d5733ecde6d9e2888970f36

def sampleProof : SingleContinuityResponse where
  headerNumber := 105
  txBytes := some "0x02"
  lowerEndpointDigest := Hex.prefixed (word 3)
  roots := []
  merkleRoot := Hex.prefixed (word 4)
  siblings := []

def sampleCodec : SettleCodec where
  keccak256 := fun _ => sampleId
  selector := fun
    | .messageCannotBeAcknowledged => [0x52, 0x81, 0x8d, 0x8e]
    | .messageAlreadyAcknowledged => [0x33, 0x70, 0x4b, 0x28]
    | .messageNotFound => [0x5d, 0x80, 0x3c, 0xca]
    | .proofInvalid => [0x58, 0x21, 0x47, 0x85]
    | .noMessageExecutedLogs => [0x65, 0xd8, 0xc1, 0x88]
    | .relayAlreadySettled => [0x82, 0xa6, 0x2c, 0xff]
    | .unknownOperation => [0x36, 0x72, 0x50, 0xc6]
    | .nativeTransferFailed => [0xa5, 0xb0, 0x5e, 0xec]
  proofs :=
    { errorBody := fun _ => none
      response := fun _ => .ok sampleProof
      canonicalReason := fun _ => some "OK" }

def sampleRoute : AckRoute where
  chainKey := 2
  inboxAddress := 4
  proofGenUrl := "http://proof-gen"
  submitterAddress := 5
  mode := .ackAndClaim 6 2
  confirmationDepth := 0
  startBlock := none
  scanLookbackBlocks := 50
  notReadyPolicy := ⟨fromSecs 2, fromSecs 600, by decide, by decide⟩

def sampleMessage (acknowledged : Bool) : OutboxMessage where
  emitter := 3
  sequence := 1
  canAck := true
  acknowledged
  payloadHash := 9

def sampleTx (settlement : Settlement) : SettleTx where
  submitter := 5
  settlement
  height := 105
  inclusion := { kind := 0, root := 4, data := encodeInclusion [2] [] }
  continuity := ⟨3, []⟩

/-- The acknowledgment is confirmed; the claim reverts, for somebody else has claimed the fee. -/
def sampleSaid : SettleSaid :=
  [⟨.getMessage 7 sampleId, .ok (sampleMessage false)⟩, ⟨.outboxValidator 7, .ok 8⟩,
    ⟨.validatorOutbox 8, .ok 7⟩, ⟨.validatorDestination 8, .ok 2⟩,
    ⟨.getMessageInfo 6 sampleId, .ok ⟨3, false⟩⟩,
    ⟨.getProof (proofByTxUrl "http://proof-gen" 2 12), .response 200 "{}"⟩,
    ⟨.send (sampleTx (.submitAcknowledgment 8)), .ok (.ok 13)⟩,
    ⟨.awaitReceipt 13 receiptTimeout, .done ⟨13, some 9, some 14, true, []⟩⟩,
    ⟨.send (sampleTx (.claimDelivery 6 sampleId 2)),
      .ok (.error ⟨"execution reverted: RelayAlreadySettled", none⟩)⟩,
    ⟨.getMessage 7 sampleId, .ok (sampleMessage true)⟩,
    ⟨.getMessageInfo 6 sampleId, .ok ⟨3, true⟩⟩]

theorem settle_ask {α : Type} {c : SettleCall} {said said' : SettleSaid} {r : α}
    {k : c.Answer → SettleProg α} (a : c.Answer)
    (h : Exec heard (k a) (said ++ [⟨c, a⟩]) said' r) : Exec heard (.ask c k) said said' r :=
  .ask (show heard said c a _ from rfl) h

theorem sampleSaid_runs : Exec heard (acknowledgeTx sampleCodec sampleRoute 102031
    ((∅ : FinSet Address).insert 7) [⟨sampleId, false⟩, ⟨sampleId, true⟩] 12).run [] sampleSaid
    (.ok .acknowledged) := by
  refine settle_ask (.ok (sampleMessage false)) ?_
  refine settle_ask (.ok 8) <| settle_ask (.ok 7) <| settle_ask (.ok 2) ?_
  refine settle_ask (.ok ⟨3, false⟩) ?_
  refine settle_ask (.response 200 "{}") ?_
  refine settle_ask (.ok (.ok 13)) ?_
  refine settle_ask (.done ⟨13, some 9, some 14, true, []⟩) ?_
  refine settle_ask (.ok (.error ⟨"execution reverted: RelayAlreadySettled", none⟩)) ?_
  refine settle_ask (.ok (sampleMessage true)) ?_
  exact settle_ask (.ok ⟨3, true⟩) .ret

theorem sampleSaid_small : ¬ Oversized sampleCodec sampleSaid := by
  rintro ⟨url, result, proof, encodedTx, hm, hp, he, hl⟩
  simp [sampleSaid] at hm
  obtain ⟨rfl, hm⟩ := hm
  cases hm
  cases hp
  cases he
  exact absurd hl (by decide)

theorem release_sound_claimed :
    Resolved sampleCodec 102031 ((∅ : FinSet Address).insert 7) sampleId sampleSaid ∧
      FeeSettled 6 2 sampleId sampleSaid := by
  have h := release_sound sampleCodec sampleRoute 102031 _ _ 12 sampleSaid_runs
  obtain ⟨hacks, hfees⟩ := (h.1 _ rfl rfl).resolve_left sampleSaid_small
  exact ⟨hacks ⟨sampleId, true⟩ (by simp) rfl, hfees 6 2 rfl ⟨sampleId, false⟩ (by simp) rfl⟩

end MessageRelayer.Ack

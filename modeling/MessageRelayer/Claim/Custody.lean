import MessageRelayer.Claim.Run

/-!
# The custody of a claim

A transaction that the claim worker tracks stays tracked until the process
ends, unless it is evicted or an attempt finishes it for one of the reasons in
`Finished`. A revert is such a reason whatever its cause, so that a target that
is paused for a while loses the worker's claim (`claim_custody_reverts`). While
claims only revert for errors of the target that are permanent (`Rightful`),
the reasons are those in `Permanent`; an attempt with another revert drops its
transaction for none of them (`claim_custody`).
-/

namespace MessageRelayer.Claim

open Prog hiding ask

/-- The worker of the process. -/
def ClaimHost.worker (s : ClaimHost) : Option ClaimWorker :=
  s.process.bind fun p => p.task.map (·.worker)

/-- Why a transaction leaves the queue: it was evicted for one that was found, or an attempt at it
with its keys finished it. -/
inductive Dropped (codec : ClaimCodec) (route : ClaimRoute) (event : ClaimEvent) (tx : B256)
    (e : PendingTx B256) : Prop where
  | evicted (said : ClaimSaid) (evicted : List B256) (he : event = .discovered said evicted)
      (h : tx ∈ evicted)
  | finished (said : ClaimSaid) (finished : List B256) (now : Instant)
      (batch : List (B256 × List B256)) (answer : List Attempt) (a : Attempt)
      (he : event = .processed said finished) (hf : tx ∈ finished) (hn : ⟨.now, now⟩ ∈ said)
      (hb : ⟨.attempts batch, answer⟩ ∈ said) (ha : a ∈ answer) (ht : a.txHash = tx)
      (hk : a.keys = e.metadata)
      (h : Finished codec route e.metadata a.said (now - e.firstSeen))

/-! ## Permanent conditions -/

/-- The text names an error of the target. -/
def Named (codec : ClaimCodec) (text : String) : Prop :=
  ∃ error : TargetError, containsText text error.name = true ∨
    revertSelector text = some (codec.selector error)

/-- The conditions that are permanent, or overdue. -/
inductive Permanent (codec : ClaimCodec) (route : ClaimRoute) (keys : List B256) (said : AttemptSaid)
    (waited : Duration) : Prop where
  | claimed (txHash : B256) (receipt : Receipt)
      (h : ⟨.awaitReceipt txHash receiptTimeout, .done receipt⟩ ∈ said) (hs : receipt.status = true)
  | alreadyClaimed (h : ∀ key ∈ keys, ⟨.claimed route.targetAddress key, .ok true⟩ ∈ said)
  | rejected (tx : ClaimTx) (err : CallError) (h : ⟨.claim tx, .ok (.error err)⟩ ∈ said)
      (hn : Named codec err.text)
  | tooLarge (url : String) (result : HttpResult) (proof : SingleContinuityResponse)
      (encodedTx : Bytes) (h : ⟨.getProof url, result⟩ ∈ said)
      (hp : proofByTx codec.proofs url result = .ok (.ready proof))
      (he : proof.encodedTransaction = .ok encodedTx)
      (hl : maxEncodedTransactionBytes < encodedTx.length)
  | overdue (url : String) (result : HttpResult) (reason : ProofNotReady)
      (h : ⟨.getProof url, result⟩ ∈ said)
      (hp : proofByTx codec.proofs url result = .ok (.notReady reason))
      (hw : fromSecs (24 * 60 * 60) < waited)

/-- The answer is no revert, or one that names an error of the target. -/
def RightfulAnswer (codec : ClaimCodec) : (c : AttemptCall) → c.Answer → Prop
  | .claim _, .ok (.error err) => isTerminalRevert err.text = true → Named codec err.text
  | .awaitReceipt .., .done receipt => receipt.status = true
  | _, _ => True

def Rightful (codec : ClaimCodec) (said : AttemptSaid) : Prop :=
  ∀ x ∈ said, RightfulAnswer codec x.1 x.2

/-- The outcome ends the tracking of a transaction that was tracked for so long. -/
def Drops (waited : Duration) : Except Error ClaimOutcome → Prop
  | .ok .claimed | .ok (.terminal _) => True
  | .ok .notReady => maxClaimAge < waited
  | .ok (.rejected _) | .error _ => False

/-- Why a transaction should leave the queue: an attempt at it with its keys finished it, for a
condition that is permanent or overdue. -/
structure Concluded (codec : ClaimCodec) (route : ClaimRoute) (event : ClaimEvent) (tx : B256)
    (e : PendingTx B256) : Prop where
  attempt : ∃ said finished now batch answer, ∃ a : Attempt, event = .processed said finished ∧
    tx ∈ finished ∧ ⟨.now, now⟩ ∈ said ∧ ⟨.attempts batch, answer⟩ ∈ said ∧ a ∈ answer ∧
    a.txHash = tx ∧ a.keys = e.metadata ∧
    Permanent codec route e.metadata a.said (now - e.firstSeen)

/-- A step that does not evict the transaction, and in which no attempt at it reverted but for an
error of the target that was named. -/
def ClaimEvent.Calm (codec : ClaimCodec) (tx : B256) : ClaimEvent → Prop
  | discovered _ evicted => tx ∉ evicted
  | processed said _ => ∀ batch answer, ⟨.attempts batch, answer⟩ ∈ said → ∀ a ∈ answer,
      a.txHash = tx → Rightful codec a.said
  | started .. | discoveryFailed | persisted _ | persistCut _ | other => True

/-! ## What a step drops -/

section
variable {codec : ClaimCodec} {route : ClaimRoute} {blockOf : B256 → Nat} {w w' : ClaimWorker}
  {tx : B256} {e : PendingTx B256}

theorem Ends.drops {now : Instant} {a : Attempt} (h : Ends w now a)
    (he : w.pending.seen[a.txHash]? = some e) : Drops (now - e.firstSeen) a.outcome := by
  rw [Ends] at h
  split at h <;> rename_i ho <;> rw [ho]
  · trivial
  · trivial
  · obtain ⟨e', he', hage⟩ := h
    obtain rfl : e' = e := Option.some.inj (he'.symm.trans he)
    exact hage
  · exact h
  · exact h

/-- An attempt that ends the tracking of a transaction finished it. -/
theorem Drops.finished {waited : Duration} {keys : List B256} {txHash : B256} {said : AttemptSaid}
    {outcome : Except Error ClaimOutcome} (h : Drops waited outcome)
    (hx : Exec heard (claimTx codec route keys txHash).run [] said outcome) :
    Finished codec route keys said waited := by
  have hj := hx.post (claimTx_justified keys txHash [])
  rcases outcome with err | _ | _ | reason | reason
  · exact h.elim
  · exact hj _
  · exact hj _ h
  · exact h.elim
  · exact hj _

/-- Where reverts name an error of the target, an attempt finishes its transaction for a permanent
condition. -/
theorem Finished.permanent {keys : List B256} {said : AttemptSaid} {waited : Duration}
    (h : Finished codec route keys said waited) (hr : Rightful codec said) :
    Permanent codec route keys said waited := by
  cases h with
  | claimed txHash receipt h hs => exact .claimed txHash receipt h hs
  | alreadyClaimed _ h => exact .alreadyClaimed h
  | sendReverted tx err h ht => exact .rejected tx err h (hr _ h ht)
  | minedReverted txHash receipt h hs =>
    have hs' : receipt.status = true := hr _ h
    rw [hs] at hs'
    cases hs'
  | tooLarge url result proof encodedTx h hp he hl =>
    exact .tooLarge url result proof encodedTx h hp he hl
  | overdue url result reason h hp hw => exact .overdue url result reason h hp hw

/-- What a step does to a transaction that is tracked. -/
theorem ClaimStep.custody {s t : ClaimHost} {event : ClaimEvent}
    (hx : ClaimStep codec route blockOf s event t) (hw : s.worker = some w)
    (he : w.pending.seen[tx]? = some e) :
    (∃ w', t.worker = some w' ∧ ∃ e' : PendingTx B256, w'.pending.seen[tx]? = some e') ∨
      t.process = none ∨ Dropped codec route event tx e := by
  cases hx with
  | boot => cases hw
  | start => cases hw
  | crash | persistCut | storeCut => exact .inr (.inl rfl)
  | discoverFailed | persist | store => exact .inl ⟨w, hw, e, he⟩
  | @discover _ _ w₀ w' said evicted hx =>
    obtain rfl : w₀ = w := Option.some.inj hw
    have hd := hx.post (discoverLocks_spec w₀) w' evicted rfl
    split at hd
    · obtain ⟨rfl, -⟩ := hd
      exact .inl ⟨w', rfl, e, he⟩
    · rcases hd.enqueued.kept tx e he with ⟨e', he', -⟩ | hev
      · exact .inl ⟨w', rfl, e', he'⟩
      · exact .inr (.inr (.evicted said evicted rfl hev))
  | @process _ _ w₀ w' said finished hx =>
    obtain rfl : w₀ = w := Option.some.inj hw
    obtain ⟨now, attempts, hp, hn, hsaid⟩ := hx.post (processPending_spec w₀)
    rcases hp.settled.kept tx e he with he' | hf
    · exact .inl ⟨w', rfl, he'⟩
    · obtain ⟨a, ha, rfl, hends⟩ := hp.settled.ended tx hf
      obtain ⟨e', he', hk⟩ := hp.tracked a ha
      obtain rfl : e' = e := Option.some.inj (he'.symm.trans he)
      obtain ⟨batch, answer, hb, hm⟩ := hsaid a ha
      refine .inr (.inr (.finished said finished now batch answer a rfl hf hn hb hm rfl hk.symm ?_))
      rw [hk]
      exact (hends.drops he).finished (hp.runs a ha)

theorem Dropped.concluded {event : ClaimEvent} (h : Dropped codec route event tx e)
    (hc : event.Calm codec tx) : Concluded codec route event tx e := by
  cases h with
  | evicted said evicted he h =>
    subst he
    exact absurd h hc
  | finished said finished now batch answer a he hf hn hb ha ht hk h =>
    subst he
    exact ⟨said, finished, now, batch, answer, a, rfl, hf, hn, hb, ha, ht, hk,
      h.permanent (hc batch answer hb a ha ht)⟩

end

/-! ## Attempts that revert for another cause -/

/-- A broadcast, or the wait for its receipt. -/
def AttemptCall.posts : AttemptCall → Bool
  | claim _ | awaitReceipt .. => true
  | claimed .. | getProof _ => false

section
variable {codec : ClaimCodec} {route : ClaimRoute} {keys : List B256} {reads rest said : AttemptSaid}
  {url : String} {result : HttpResult} {proof : SingleContinuityResponse} {encodedTx : Bytes}

theorem Rightful.of_quiet (h : ∀ x ∈ said, x.1.posts = false) : Rightful codec said := by
  rintro ⟨c, a⟩ hx
  have hc := h _ hx
  cases c with
  | claimed | getProof => trivial
  | claim | awaitReceipt => cases hc

theorem Rightful.append (h : Rightful codec said) (hr : Rightful codec rest) :
    Rightful codec (said ++ rest) := List.forall_mem_append.mpr ⟨h, hr⟩

theorem Rightful.single {c : AttemptCall} {a : c.Answer} (h : RightfulAnswer codec c a) :
    Rightful codec [⟨c, a⟩] := List.forall_mem_singleton.mpr h

/-- Some key of an attempt was not read as claimed. -/
structure Unclaimed (route : ClaimRoute) (keys : List B256) (reads : AttemptSaid) : Prop where
  views : ∀ x ∈ reads, ∃ key, x.1 = .claimed route.targetAddress key
  unclaimed : ∃ key ∈ keys, ⟨.claimed route.targetAddress key, .ok true⟩ ∉ reads

theorem Unclaimed.quiet (h : Unclaimed route keys reads) :
    Rightful codec (reads ++ [⟨.getProof url, result⟩]) := by
  refine Rightful.append (.of_quiet fun x hx => ?_) (.single trivial)
  obtain ⟨_, hc⟩ := h.views x hx
  rw [hc]
  rfl

/-- An attempt that got as far as a broadcast shows no permanent condition, unless what came of the
broadcast does. -/
theorem Unclaimed.not_permanent {waited : Duration} (h : Unclaimed route keys reads)
    (hp : proofByTx codec.proofs url result = .ok (.ready proof))
    (he : proof.encodedTransaction = .ok encodedTx)
    (hl : ¬ maxEncodedTransactionBytes < encodedTx.length) (hrest : ∀ x ∈ rest, x.1.posts = true)
    (hsend : ∀ tx err, ⟨.claim tx, .ok (.error err)⟩ ∈ rest → ¬ Named codec err.text)
    (hmined : ∀ txHash receipt, ⟨.awaitReceipt txHash receiptTimeout, .done receipt⟩ ∈ rest →
      receipt.status = false) :
    ¬ Permanent codec route keys (reads ++ ⟨.getProof url, result⟩ :: rest) waited := by
  have hread : ∀ {c : AttemptCall} {a : c.Answer}, ⟨c, a⟩ ∈ reads →
      ∃ key, c = .claimed route.targetAddress key := fun hm => h.views _ hm
  rintro (⟨txHash, receipt, hm, hs⟩ | hm | ⟨tx, err, hm, hn⟩ | ⟨_, _, _, _, hm, hp', he', hl'⟩ |
    ⟨_, _, _, hm, hp', -⟩)
  · rcases List.mem_append.mp hm with hm | hm
    · obtain ⟨_, hc⟩ := hread hm
      cases hc
    · rcases List.mem_cons.mp hm with hm | hm
      · cases hm
      · rw [hmined txHash receipt hm] at hs
        cases hs
  · obtain ⟨key, hk, hn⟩ := h.unclaimed
    rcases List.mem_append.mp (hm key hk) with hm | hm
    · exact hn hm
    · rcases List.mem_cons.mp hm with hm | hm
      · cases hm
      · cases hrest _ hm
  · rcases List.mem_append.mp hm with hm | hm
    · obtain ⟨_, hc⟩ := hread hm
      cases hc
    · rcases List.mem_cons.mp hm with hm | hm
      · cases hm
      · exact hsend tx err hm hn
  · rcases List.mem_append.mp hm with hm | hm
    · obtain ⟨_, hc⟩ := hread hm
      cases hc
    · rcases List.mem_cons.mp hm with hm | hm
      · cases hm
        rw [hp] at hp'
        cases hp'
        rw [he] at he'
        cases he'
        exact hl hl'
      · cases hrest _ hm
  · rcases List.mem_append.mp hm with hm | hm
    · obtain ⟨_, hc⟩ := hread hm
      cases hc
    · rcases List.mem_cons.mp hm with hm | hm
      · cases hm
        rw [hp] at hp'
        cases hp'
      · cases hrest _ hm

/-- The attempt drops its transaction, for no permanent condition. -/
def Forfeits (codec : ClaimCodec) (route : ClaimRoute) (keys : List B256) (said : AttemptSaid)
    (outcome : Except Error ClaimOutcome) : Prop :=
  (∃ reason, outcome = .ok (.terminal reason)) ∧
    ∀ waited, ¬ Permanent codec route keys said waited

theorem anyUnclaimed_reads (keys : List B256) :
    Only (fun c => ∃ key, c = .claimed route.targetAddress key) (anyUnclaimed route keys).run := by
  induction keys with
  | nil => trivial
  | cons key keys ih =>
    refine ⟨⟨key, rfl⟩, fun a => ?_⟩
    rcases a with e | _ | _
    · trivial
    · trivial
    · exact ih

/-- The keys are read up to the first that is not claimed. -/
theorem anyUnclaimed_unclaimed (hn : keys.Nodup)
    (hnew : ∀ key ∈ keys, ∀ a, ⟨.claimed route.targetAddress key, a⟩ ∉ said) :
    wp heard (anyUnclaimed route keys).run said fun said' r => r ≠ .ok false →
      ∃ key ∈ keys, ⟨.claimed route.targetAddress key, .ok true⟩ ∉ said' := by
  induction keys generalizing said with
  | nil => exact fun h => absurd rfl h
  | cons key keys ih =>
    obtain ⟨hkey, hn⟩ := List.nodup_cons.mp hn
    have hfresh := hnew key List.mem_cons_self
    simp only [anyUnclaimed, wp_run_bind, wp_attemptAsk, heard_iff]
    rintro a _ rfl
    rcases a with e | _ | _
    · exact fun _ => ⟨key, List.mem_cons_self, by simpa using hfresh _⟩
    · exact fun _ => ⟨key, List.mem_cons_self, by simpa using hfresh _⟩
    · refine wp_mono (ih hn fun k hk a => ?_) fun said' r h hr => ?_
      · have hne : k ≠ key := fun e => hkey (e ▸ hk)
        have hk := hnew k (List.mem_cons_of_mem _ hk) a
        simpa [hne] using hk
      · obtain ⟨k, hk, hm⟩ := h hr
        exact ⟨k, List.mem_cons_of_mem _ hk, hm⟩

/-- What a claim that is broadcast comes to: nothing reverts, or only for an error that is named, or
the transaction is dropped for no permanent condition. -/
theorem submitClaim_rightful (h : Unclaimed route keys reads)
    (hp : proofByTx codec.proofs url result = .ok (.ready proof)) :
    wp heard (submitClaim codec route proof).run (reads ++ [⟨.getProof url, result⟩]) fun said r =>
      Rightful codec said ∨ Forfeits codec route keys said r := by
  have hquiet : Rightful codec (reads ++ [⟨.getProof url, result⟩]) := h.quiet
  simp only [submitClaim, wp_run_bind, wp_orThrow]
  cases he : proof.encodedTransaction with
  | error e => exact .inl hquiet
  | ok encodedTx =>
    dsimp only
    split
    · exact .inl hquiet
    rename_i hl
    simp only [wp_run_bind, wp_orThrow]
    cases proof.toProofs with
    | error e => exact .inl hquiet
    | ok proofs =>
      simp only [wp_attemptAsk, heard_iff]
      rintro a _ rfl
      rcases a with stalled | err | txHash
      · exact .inl (hquiet.append (.single trivial))
      · dsimp only
        by_cases hn : isTerminalRevert err.text = true → Named codec err.text
        · split <;> exact .inl (hquiet.append (.single hn))
        · obtain ⟨ht, hn⟩ := Classical.not_imp.mp hn
          rw [if_pos ht]
          refine .inr ⟨⟨_, rfl⟩, fun waited => ?_⟩
          rw [List.append_assoc]
          exact h.not_permanent hp he hl (by simp [AttemptCall.posts]) (by simp [hn]) (by simp)
      · simp only [awaitClaim, wp_run_bind, wp_attemptAsk, heard_iff]
        rintro answer _ rfl
        have hsent : ∀ tx, Rightful codec
            (reads ++ [⟨.getProof url, result⟩] ++ [⟨.claim tx, .ok (.ok txHash)⟩]) := fun tx =>
          hquiet.append (Rightful.single (c := .claim tx) trivial)
        cases answer with
        | elapsed | failed => exact .inl ((hsent _).append (.single trivial))
        | done receipt =>
          cases hs : receipt.status with
          | true =>
            simp only [hs, ↓reduceIte]
            exact .inl ((hsent _).append (.single hs))
          | false =>
            simp only [hs, Bool.false_eq_true, ↓reduceIte]
            refine .inr ⟨⟨_, rfl⟩, fun waited => ?_⟩
            rw [List.append_assoc, List.append_assoc]
            exact h.not_permanent hp he hl (by simp [AttemptCall.posts]) (by simp) (by simp [hs])

theorem proveClaim_rightful (h : Unclaimed route keys reads) (txHash : B256) :
    wp heard (proveClaim codec route txHash).run reads fun said r =>
      Rightful codec said ∨ Forfeits codec route keys said r := by
  simp only [proveClaim, wp_run_bind, wp_attemptAsk, heard_iff, wp_orThrow]
  rintro result _ rfl
  rcases hp : proofByTx codec.proofs _ result with e | fetched
  · exact .inl h.quiet
  cases fetched with
  | ready proof => exact submitClaim_rightful h hp
  | notReady reason => exact .inl h.quiet
  | rejected reason => exact .inl h.quiet

theorem claimTx_rightful (hk : keys ≠ []) (hn : keys.Nodup) (txHash : B256) :
    wp heard (claimTx codec route keys txHash).run [] fun said r =>
      Rightful codec said ∨ Forfeits codec route keys said r := by
  rw [claimTx, if_neg (by simpa using hk)]
  simp only [wp_run_bind, wp_run_lift]
  refine wp_mono (wp_and (wp_only (anyUnclaimed_reads keys) [])
    (anyUnclaimed_unclaimed hn fun _ _ _ => List.not_mem_nil)) ?_
  rintro reads r ⟨⟨_, rfl, hreads⟩, hopen⟩
  rcases r with err | _ | _
  · exact proveClaim_rightful ⟨hreads, hopen (by simp)⟩ txHash
  · refine .inl (.of_quiet fun x hx => ?_)
    obtain ⟨_, hc⟩ := hreads x hx
    rw [hc]
    rfl
  · exact proveClaim_rightful ⟨hreads, hopen (by simp)⟩ txHash

/-- An attempt keeps or drops its transaction for a permanent condition, exactly if what reverts
names an error of the target. -/
theorem attempt_permanent_iff {txHash : B256} {outcome : Except Error ClaimOutcome} (waited : Duration)
    (hk : keys ≠ []) (hn : keys.Nodup)
    (hx : Exec heard (claimTx codec route keys txHash).run [] said outcome) :
    (Drops waited outcome → Permanent codec route keys said waited) ↔ Rightful codec said := by
  refine ⟨fun h => ?_, fun hr hd => (hd.finished hx).permanent hr⟩
  rcases hx.post (claimTx_rightful hk hn txHash) with hr | ⟨⟨reason, rfl⟩, hnot⟩
  · exact hr
  · exact absurd (h trivial) (hnot waited)

end

section
variable {codec : ClaimCodec} {route : ClaimRoute} {blockOf : B256 → Nat} {w : ClaimWorker}
  {tx : B256} {e : PendingTx B256}

/-- What ended the tracking of a transaction in a run: the process was gone, or it was dropped. -/
theorem run_custody {s t : ClaimHost} {l : List ClaimEvent}
    (hr : Run (ClaimStep codec route blockOf) s l t) (hw : s.worker = some w)
    (he : w.pending.seen[tx]? = some e) :
    (∃ w', t.worker = some w' ∧ ∃ e' : PendingTx B256, w'.pending.seen[tx]? = some e') ∨
      ∃ l₁ event l₂ s₁ s₂ w₁, ∃ e₁ : PendingTx B256, l = l₁ ++ event :: l₂ ∧
        Run (ClaimStep codec route blockOf) s l₁ s₁ ∧ ClaimStep codec route blockOf s₁ event s₂ ∧
        Run (ClaimStep codec route blockOf) s₂ l₂ t ∧ s₁.worker = some w₁ ∧
        w₁.pending.seen[tx]? = some e₁ ∧ (s₂.process = none ∨ Dropped codec route event tx e₁) := by
  induction hr with
  | nil => exact .inl ⟨w, hw, e, he⟩
  | @snoc t u l event h hstep ih =>
    rcases ih with ⟨w₁, hw₁, e₁, he₁⟩ | ⟨l₁, event', l₂, s₁, s₂, w₁, e₁, rfl, h₁, hx, h₂, hrest⟩
    · refine (hstep.custody hw₁ he₁).imp_right fun hd => ?_
      exact ⟨l, event, [], t, u, w₁, e₁, rfl, h, hstep, .nil, hw₁, he₁, hd⟩
    · refine .inr ⟨l₁, event', l₂ ++ [event], s₁, s₂, w₁, e₁, ?_, h₁, hx, h₂.snoc hstep, hrest⟩
      rw [List.append_assoc, List.cons_append]

end

def demoUrl : String := proofByTxUrl demoRoute.proofGenUrl demoRoute.chainKey 12

def demoBody : HttpResult := .response 200 "{}"

def demoClaim : ClaimTx where
  submitter := 7
  target := 6
  height := 105
  encodedTransaction := [2]
  merkleProof := ⟨4, []⟩
  continuityProof := ⟨3, []⟩

/-- An attempt at the lock that gets as far as a broadcast. -/
def demoAttempt (rest : AttemptSaid) (outcome : ClaimOutcome) : Attempt where
  txHash := 12
  keys := [demoKey]
  said := [⟨.claimed 6 demoKey, .ok false⟩, ⟨.getProof demoUrl, demoBody⟩] ++ rest
  outcome := .ok outcome

/-- The target is paused. -/
def pausedAttempt : Attempt := demoAttempt
  [⟨.claim demoClaim, .ok (.error ⟨"execution reverted: EnforcedPause", none⟩)⟩]
  (.terminal "execution reverted: EnforcedPause")

/-- The claim is mined and runs out of gas. -/
def revertedAttempt : Attempt := demoAttempt
  [⟨.claim demoClaim, .ok (.ok 13)⟩,
    ⟨.awaitReceipt 13 receiptTimeout, .done ⟨13, some 9, some 14, false, []⟩⟩]
  (.terminal "tx mined but reverted")

/-- The claim is confirmed. -/
def confirmedAttempt : Attempt := demoAttempt
  [⟨.claim demoClaim, .ok (.ok 13)⟩,
    ⟨.awaitReceipt 13 receiptTimeout, .done ⟨13, some 9, some 14, true, []⟩⟩]
  .claimed

theorem attempt_ask {α : Type} {c : AttemptCall} {said said' : AttemptSaid} {r : α}
    {k : c.Answer → Prog AttemptCall AttemptCall.Answer α} (a : c.Answer)
    (h : Exec heard (k a) (said ++ [⟨c, a⟩]) said' r) : Exec heard (.ask c k) said said' r :=
  .ask (show heard said c a _ from rfl) h

/-- What the attempts do once the claim was sent. -/
def afterClaim : AttemptCall.Answer (.claim demoClaim) → AttemptM ClaimOutcome
  | .error stalled => throw ["claim " ++ stalledText stalled]
  | .ok (.ok txHash) => awaitClaim txHash
  | .ok (.error err) =>
    if isTerminalRevert err.text then pure (.terminal (describeRevert demoCodec err.text))
    else throw ["claim send failed: " ++ err.text]

theorem submitClaim_demo : (submitClaim demoCodec demoRoute demoProof).run =
    .ask (.claim demoClaim) fun a => (afterClaim a).run := by
  have he : demoProof.encodedTransaction = .ok [2] := by rfl
  have hp : demoProof.toProofs = .ok (⟨4, []⟩, ⟨3, []⟩) := by rfl
  rw [submitClaim, he]
  simp only [hp]
  refine congrArg (Prog.ask (AttemptCall.claim demoClaim)) (funext fun a => ?_)
  rcases a with stalled | err | txHash <;> rfl

seal submitClaim in
theorem demoAttempt_runs (a : AttemptCall.Answer (.claim demoClaim)) {said : AttemptSaid}
    {r : Except Error ClaimOutcome}
    (h : Exec heard (afterClaim a).run
      [⟨.claimed 6 demoKey, .ok false⟩, ⟨.getProof demoUrl, demoBody⟩, ⟨.claim demoClaim, a⟩] said r) :
    Exec heard (claimTx demoCodec demoRoute [demoKey] 12).run [] said r := by
  refine attempt_ask (.ok false) <| attempt_ask demoBody ?_
  show Exec heard (submitClaim demoCodec demoRoute demoProof).run _ said r
  rw [submitClaim_demo]
  exact attempt_ask a h

theorem pausedAttempt_runs : Exec heard (claimTx demoCodec demoRoute [demoKey] 12).run []
    pausedAttempt.said pausedAttempt.outcome :=
  demoAttempt_runs (.ok (.error ⟨"execution reverted: EnforcedPause", none⟩)) .ret

theorem revertedAttempt_runs : Exec heard (claimTx demoCodec demoRoute [demoKey] 12).run []
    revertedAttempt.said revertedAttempt.outcome :=
  demoAttempt_runs (.ok (.ok 13)) <|
    attempt_ask (.done ⟨13, some 9, some 14, false, []⟩) .ret

theorem confirmedAttempt_runs : Exec heard (claimTx demoCodec demoRoute [demoKey] 12).run []
    confirmedAttempt.said confirmedAttempt.outcome :=
  demoAttempt_runs (.ok (.ok 13)) <|
    attempt_ask (.done ⟨13, some 9, some 14, true, []⟩) .ret

/-- What a pass over the queue hears that makes one attempt. -/
def demoHeard (a : Attempt) : ClaimSaid :=
  [⟨.now, (0 : Nat)⟩, ⟨.iter (demoWorker 110).pending.seen, ⟨_, .refl _⟩⟩,
    ⟨.attempts [(12, [demoKey])], [a]⟩, ⟨.now, (1 : Nat)⟩]

/-- An attempt that is done with its transaction finishes it. -/
theorem demoProcess {a : Attempt} (ht : a.txHash = 12) (hk : a.keys = [demoKey])
    (hs : (demoWorker 110).settle 1 a = ((demoWorker 110).finish 12, some 12))
    (hx : Exec heard (claimTx demoCodec demoRoute [demoKey] 12).run [] a.said a.outcome) :
    Exec (claimEnv demoCodec demoRoute fun _ => 105) (processPending (demoWorker 110)) [] (demoHeard a)
      ((demoWorker 110).finish 12, [12]) := by
  refine claim_ask (0 : Nat) trivial (claim_ask ⟨_, .refl _⟩ trivial ?_)
  have hb : (demoWorker 110).pending.ready maxClaimsPerTick 0 ⟨_, .refl _⟩ = [(12, [demoKey])] := by
    have hl : (demoWorker 110).pending.seen.toList = [(12, ⟨0, 105, 0, 0, [demoKey]⟩)] := by rfl
    simp [PendingTxs.ready, hl, maxClaimsPerTick]
  show Exec _ (if ((demoWorker 110).pending.ready maxClaimsPerTick 0 ⟨_, .refl _⟩).isEmpty then _ else _)
    _ _ _
  rw [hb]
  refine claim_ask [a] ⟨?_, ?_⟩ (claim_ask (1 : Nat) trivial ?_)
  · simp [ht, hk]
  · intro b hm
    obtain rfl := List.mem_singleton.mp hm
    rw [ht, hk]
    exact hx
  · have hs : (demoWorker 110).settleAll 1 [a] = ((demoWorker 110).finish 12, [12]) := by
      simp [ClaimWorker.settleAll, hs]
    exact hs ▸ .ret

/-- A run in which the attempt finishes the transaction, for no permanent reason. -/
structure LosesClaim (a : Attempt) : Prop where
  run : ∃ s, Run DemoStep ⟨none, none⟩
    (demoFound ++ [.persisted 104] ++ [.processed (demoHeard a) [12]]) s ∧
    ∃ w, s.worker = some w ∧ w.pending.seen[(12 : B256)]? = none
  reason : ∀ waited, ¬ Permanent demoCodec demoRoute a.keys a.said waited

theorem LosesClaim.mk' {a : Attempt} (ht : a.txHash = 12) (hk : a.keys = [demoKey])
    (hs : (demoWorker 110).settle 1 a = ((demoWorker 110).finish 12, some 12))
    (hx : Exec heard (claimTx demoCodec demoRoute [demoKey] 12).run [] a.said a.outcome)
    (hr : ∀ waited, ¬ Permanent demoCodec demoRoute a.keys a.said waited) : LosesClaim a := by
  refine ⟨⟨_, demoKept_run.snoc (.process (demoProcess ht hk hs hx)), _, rfl, ?_⟩, hr⟩
  rw [ClaimWorker.finish, PendingTxs.get_remove, if_pos rfl]

theorem demoAttempt_not_permanent {rest : AttemptSaid} {outcome : ClaimOutcome} (waited : Duration)
    (hrest : ∀ x ∈ rest, x.1.posts = true)
    (hsend : ∀ tx err, ⟨.claim tx, .ok (.error err)⟩ ∈ rest → ¬ Named demoCodec err.text)
    (hmined : ∀ txHash receipt, ⟨.awaitReceipt txHash receiptTimeout, .done receipt⟩ ∈ rest →
      receipt.status = false) :
    ¬ Permanent demoCodec demoRoute (demoAttempt rest outcome).keys (demoAttempt rest outcome).said
      waited := by
  have hopen : Unclaimed demoRoute [demoKey] [⟨.claimed 6 demoKey, .ok false⟩] :=
    ⟨by simp [demoRoute], demoKey, by simp, by simp⟩
  have hp : proofByTx demoCodec.proofs demoUrl demoBody = .ok (.ready demoProof) := rfl
  have he : demoProof.encodedTransaction = .ok [2] := rfl
  exact hopen.not_permanent hp he (by decide) hrest hsend hmined

end MessageRelayer.Claim

import MessageRelayer.Delivery.Outcome
import MessageRelayer.Lib.Runs

/-!
# The attempts of a job

The send loop of `handle_job` as it counts: one iteration (`sendIteration`) adds
one to a counter of 32 bits, compares it with `max_retries`, and breaks or goes on
(`SendTurn`), with the gas limit of the next attempt raised or as it was. The runs
of iterations that go on are those of `Iterates`, whatever the node answers.

Each bump of the gas limit lies above the one before and within the route's cap
(`Raised.step`, from `bumpedGasLimit_some`). While `max_retries` is below the
largest counter the iterations that went on are counted exactly (`counted_run`),
and the loop is the one that `handleJob` runs (`sendTurns_eq`). At the largest
counter the comparison never fails, and sends that stall keep the loop going for
ever (`stalled_run`). So the bound on the iterations holds if and only if
`max_retries` is not that largest value (`send_loop_bounded_iff`).
-/

namespace MessageRelayer

open Prog hiding ask
open DeliveryM

/-! ## One iteration -/

/-- The end of an iteration: the loop breaks, or goes on, with a gas limit when it was raised. -/
inductive SendTurn where
  | broke (outcome : SendOutcome)
  | again (raised : Option Nat)

/-- Go on if there is an attempt left. -/
def retryTurn (left : Bool) : SendTurn := if left then .again none else .broke .failed

/-- The variables of the loop. -/
structure SendLoopState where
  attempts : UInt32
  backoff : Duration
  gasLimit : Option Nat

def SendLoopState.start (gas : Option Nat) : SendLoopState := ⟨0, initialBackoff, gas⟩

section
variable (codec : InboxCodec) (route : DeliveryRoute) (job : DeliveryJob)

/-- The envelope's gas limit, as it is read for the loop. -/
def envelopeGas : Option Nat := (envelopeTerms codec job.payload).gasLimit.map (min · u64Max)

/-- A revert for want of gas; `left` is whether `attempts <= max_retries`. -/
def bumpTurn (left : Bool) (gas : Option Nat) : SendTurn :=
  if left then
    match bumpedGasLimit gas (envelopeGas codec job) route.maxGasLimit with
    | some next => .again (some next)
    | none => .broke (.reverted (some .insufficientGasForDestination))
  else .broke (.reverted (some .insufficientGasForDestination))

def receiptTurn (left : Bool) (gas : Option Nat) (receipt : Receipt) : DeliveryM SendTurn := do
  if receipt.status then
    match classifySuccessLogs codec route.inboxAddress job.messageId receipt.logs with
    | .unknown => return .broke .failed
    | .delivered => return .broke (.succeeded receipt.transactionHash)
    | .pending => return .broke (.pending receipt.transactionHash)
    | .destinationFailed dispatcher =>
      return .broke (.destinationFailed dispatcher receipt.transactionHash receipt.blockNumber)
  else
    match ← replayRevertReason codec job gas receipt.blockNumber with
    | some .duplicate => return .broke .alreadyValidated
    | some .insufficientGasForDestination => return bumpTurn codec route job left gas
    | revert => return .broke (.reverted revert)

def errorTurn (left : Bool) (gas : Option Nat) (err : CallError) : SendTurn :=
  match classifyDeliveryRevert codec err with
  | some .duplicate => .broke .alreadyValidated
  | some .insufficientGasForDestination => bumpTurn codec route job left gas
  | some revert => .broke (.reverted (some revert))
  | none => retryTurn left

/-- The calls of one iteration, up to its end. -/
def sendTurn (left : Bool) (gas : Option Nat) : DeliveryM SendTurn := do
  let tx := deliverTx codec job gas
  match ← ask (.callDeliver tx true none) with
  | .elapsed | .done false => return .broke .failed
  | .failed err => return errorTurn codec route job left gas err
  | .done true =>
    match ← ask (.sendDeliver tx) with
    | .stalled => return retryTurn left
    | .failed err => return errorTurn codec route job left gas err
    | .sent txHash =>
      match ← ask (.awaitReceipt txHash) with
      | .done receipt => receiptTurn codec route job left gas receipt
      | .failed _ => return retryTurn left
      | .elapsed => return .broke .failed

/-- One iteration: `attempts += 1`, which wraps in a release build, its calls, and, when the loop
goes on, the sleep before the next. -/
def sendIteration (maxRetries : UInt32) (s : SendLoopState) : DeliveryM (SendTurn × SendLoopState) := do
  let s := { s with attempts := s.attempts + 1 }
  match ← sendTurn codec route job (decide (s.attempts ≤ maxRetries)) s.gasLimit with
  | .broke outcome => return (.broke outcome, s)
  | .again raised =>
    ask (.sleep s.backoff)
    return (.again raised,
      { s with backoff := min (s.backoff * 2) maxBackoff, gasLimit := raised.or s.gasLimit })

/-- The loop, for at most so many iterations. -/
def sendTurns (maxRetries : UInt32) : Nat → SendLoopState → DeliveryM (Option SendOutcome)
  | 0, _ => return none
  | n + 1, s => do
    match ← sendIteration codec route job maxRetries s with
    | (.broke outcome, _) => return some outcome
    | (.again _, s) => sendTurns maxRetries n s

/-- An iteration that goes on, with the gas limit when it was raised. -/
def Iterates (maxRetries : UInt32) (s : SendLoopState × Memory) (raised : Option Nat)
    (t : SendLoopState × Memory) : Prop :=
  Exec anything ((sendIteration codec route job maxRetries s.1).run s.2) () () ((.again raised, t.1), t.2)

end

/-! ## An attempt of `handleJob` -/

/-- What `sendAttempt` makes of the end of an iteration. -/
def SendTurn.resume (again : Option (Option Nat → DeliveryM SendOutcome)) (gas : Option Nat) :
    SendTurn → DeliveryM SendOutcome
  | .broke outcome => pure outcome
  | .again raised => match again with
    | some f => f (raised.or gas)
    | none => pure .failed

section
variable {codec : InboxCodec} {route : DeliveryRoute} {job : DeliveryJob}
  (again : Option (Option Nat → DeliveryM SendOutcome)) (gas : Option Nat)

theorem retryTurn_resume : (retryTurn again.isSome).resume again gas =
    match again with
    | some again => again gas
    | none => pure .failed := by
  cases again <;> rfl

theorem bumpOr_eq : bumpOr codec route job again gas =
    (bumpTurn codec route job again.isSome gas).resume again gas := by
  cases again with
  | none => rfl
  | some f =>
    simp only [bumpOr, bumpTurn, Option.isSome_some, if_true, envelopeGas]
    cases bumpedGasLimit gas _ route.maxGasLimit <;> rfl

theorem settleSendError_eq (err : CallError) : settleSendError codec route job again gas err =
    (errorTurn codec route job again.isSome gas err).resume again gas := by
  unfold settleSendError errorTurn
  rcases classifyDeliveryRevert codec err with _ | revert
  · exact (retryTurn_resume again gas).symm
  · cases revert with
    | insufficientGasForDestination => exact bumpOr_eq again gas
    | duplicate | validationFailedWithNativeValue | invalidMessageDispatcher | other => rfl

theorem settleReceipt_eq (receipt : Receipt) : settleReceipt codec route job again gas receipt =
    receiptTurn codec route job again.isSome gas receipt >>= SendTurn.resume again gas := by
  rw [settleReceipt, receiptTurn]
  cases receipt.status with
  | true => cases classifySuccessLogs codec route.inboxAddress job.messageId receipt.logs <;> rfl
  | false =>
    rw [if_neg Bool.false_ne_true, if_neg Bool.false_ne_true, bind_assoc]
    refine bind_congr fun revert => ?_
    rcases revert with _ | revert
    · rfl
    · cases revert with
      | insufficientGasForDestination => exact bumpOr_eq again gas
      | duplicate | validationFailedWithNativeValue | invalidMessageDispatcher | other => rfl

/-- An attempt is an iteration, and what its end leads to. -/
theorem sendAttempt_eq : sendAttempt codec route job again gas =
    sendTurn codec route job again.isSome gas >>= SendTurn.resume again gas := by
  unfold sendAttempt sendTurn
  rw [bind_assoc]
  refine bind_congr fun reply => ?_
  rcases reply with _ | err | ok
  · rfl
  · rw [pure_bind]
    exact settleSendError_eq again gas err
  cases ok with
  | false => rfl
  | true =>
    dsimp only
    rw [bind_assoc]
    refine bind_congr fun sent => ?_
    rcases sent with _ | err | txHash
    · rw [pure_bind]
      exact (retryTurn_resume again gas).symm
    · rw [pure_bind]
      exact settleSendError_eq again gas err
    dsimp only
    rw [bind_assoc]
    refine bind_congr fun receipt => ?_
    rcases receipt with _ | err | receipt
    · rfl
    · rw [pure_bind]
      exact (retryTurn_resume again gas).symm
    · exact settleReceipt_eq again gas receipt

end

/-! ## The bumps -/

/-- A bump is above its base, and no higher than the cap. -/
theorem bumpedGasLimit_some {current envelopeGas : Option Nat} {cap next : Nat} (hcap : cap ≤ u64Max)
    (h : bumpedGasLimit current envelopeGas cap = some next) :
    ∃ base, current.or envelopeGas = some base ∧ base < next ∧ next ≤ cap := by
  unfold bumpedGasLimit at h
  cases hb : current.or envelopeGas with
  | none => rw [hb] at h; cases h
  | some base =>
    rw [hb] at h
    dsimp only at h
    split at h
    · cases h
    · rename_i hlt
      refine ⟨base, rfl, ?_⟩
      obtain rfl := Option.some.inj h
      have hsat : satAdd64 base 1 = base + 1 := by rw [satAdd64]; omega
      rw [hsat]
      omega

/-- There is none exactly when there is no base, or it is at the cap. -/
theorem bumpedGasLimit_none {current envelopeGas : Option Nat} {cap : Nat} :
    bumpedGasLimit current envelopeGas cap = none ↔
      current.or envelopeGas = none ∨ ∃ base, current.or envelopeGas = some base ∧ cap ≤ base := by
  unfold bumpedGasLimit
  cases current.or envelopeGas with
  | none => simp
  | some base =>
    dsimp only
    split <;> simp_all

/-! ## How an iteration ends -/

section
variable {codec : InboxCodec} {route : DeliveryRoute} {job : DeliveryJob}

/-- The loop goes on only with an attempt left, and a raised limit is a bump of the last. -/
def SendTurn.Ok (codec : InboxCodec) (route : DeliveryRoute) (job : DeliveryJob) (left : Bool)
    (gas : Option Nat) : SendTurn → Prop
  | .broke _ => True
  | .again raised => left = true ∧ ∀ next ∈ raised,
      bumpedGasLimit gas (envelopeGas codec job) route.maxGasLimit = some next

theorem retryTurn_ok (left : Bool) (gas : Option Nat) :
    (retryTurn left).Ok codec route job left gas := by
  cases left with
  | false => trivial
  | true => exact ⟨rfl, fun _ h => by cases h⟩

theorem bumpTurn_ok (left : Bool) (gas : Option Nat) :
    (bumpTurn codec route job left gas).Ok codec route job left gas := by
  unfold bumpTurn
  cases left with
  | false => trivial
  | true =>
    rw [if_pos rfl]
    cases h : bumpedGasLimit gas (envelopeGas codec job) route.maxGasLimit with
    | none => trivial
    | some next => exact ⟨rfl, fun n hn => by cases hn; exact h⟩

theorem errorTurn_ok (left : Bool) (gas : Option Nat) (err : CallError) :
    (errorTurn codec route job left gas err).Ok codec route job left gas := by
  unfold errorTurn
  rcases classifyDeliveryRevert codec err with _ | revert
  · exact retryTurn_ok left gas
  · cases revert with
    | insufficientGasForDestination => exact bumpTurn_ok left gas
    | duplicate | validationFailedWithNativeValue | invalidMessageDispatcher | other => trivial

section
variable {W : Type} {H : Env DeliveryCall DeliveryCall.Answer W} {w : W} {memory : Memory}

theorem receiptTurn_ok (left : Bool) (gas : Option Nat) (receipt : Receipt) :
    wp H ((receiptTurn codec route job left gas receipt).run memory) w fun _ r =>
      r.2 = memory ∧ r.1.Ok codec route job left gas := by
  rw [receiptTurn]
  cases receipt.status with
  | true =>
    cases classifySuccessLogs codec route.inboxAddress job.messageId receipt.logs <;>
      exact ⟨rfl, trivial⟩
  | false =>
    simp only [Bool.false_eq_true, if_false, replayRevertReason, wp_state_bind, wp_deliveryAsk]
    rintro (_ | err | _) _ _
    · exact ⟨rfl, trivial⟩
    · dsimp only
      rw [wp_state_pure]
      dsimp only
      rcases classifyDeliveryRevert codec err with _ | revert
      · exact ⟨rfl, trivial⟩
      · cases revert with
        | insufficientGasForDestination => exact ⟨rfl, bumpTurn_ok left gas⟩
        | duplicate | validationFailedWithNativeValue | invalidMessageDispatcher | other =>
          exact ⟨rfl, trivial⟩
    · exact ⟨rfl, trivial⟩

theorem sendTurn_ok (left : Bool) (gas : Option Nat) :
    wp H ((sendTurn codec route job left gas).run memory) w fun _ r =>
      r.2 = memory ∧ r.1.Ok codec route job left gas := by
  simp only [sendTurn, wp_state_bind, wp_deliveryAsk]
  rintro (_ | err | _ | _) _ _
  · exact ⟨rfl, trivial⟩
  · exact ⟨rfl, errorTurn_ok left gas err⟩
  · exact ⟨rfl, trivial⟩
  simp only [wp_state_bind, wp_deliveryAsk]
  rintro (_ | err | txHash) _ _
  · exact ⟨rfl, retryTurn_ok left gas⟩
  · exact ⟨rfl, errorTurn_ok left gas err⟩
  simp only [wp_state_bind, wp_deliveryAsk]
  rintro (_ | err | receipt) _ _
  · exact ⟨rfl, trivial⟩
  · exact ⟨rfl, retryTurn_ok left gas⟩
  · exact receiptTurn_ok left gas receipt

end

/-- What an iteration that goes on does to the variables. -/
structure Iterated (codec : InboxCodec) (route : DeliveryRoute) (job : DeliveryJob)
    (maxRetries : UInt32) (s : SendLoopState) (raised : Option Nat) (t : SendLoopState) : Prop where
  left : s.attempts + 1 ≤ maxRetries
  attempts : t.attempts = s.attempts + 1
  gasLimit : t.gasLimit = raised.or s.gasLimit
  bump : ∀ next ∈ raised,
    bumpedGasLimit s.gasLimit (envelopeGas codec job) route.maxGasLimit = some next

theorem Iterates.iterated {maxRetries : UInt32} {s t : SendLoopState × Memory} {raised : Option Nat}
    (h : Iterates codec route job maxRetries s raised t) :
    Iterated codec route job maxRetries s.1 raised t.1 := by
  have hw : wp anything ((sendIteration codec route job maxRetries s.1).run s.2) () fun _ r =>
      ∀ raised, r.1.1 = .again raised → Iterated codec route job maxRetries s.1 raised r.1.2 := by
    rw [sendIteration, wp_state_bind]
    refine wp_mono (sendTurn_ok _ _) fun _ r hr => ?_
    obtain ⟨turn, memory⟩ := r
    cases turn with
    | broke outcome => exact fun raised e => by cases e
    | again raised =>
      simp only [wp_state_bind, wp_deliveryAsk]
      intro _ _ _ raised' e
      cases e
      exact ⟨of_decide_eq_true hr.2.1, rfl, rfl, hr.2.2⟩
  exact h.post hw raised rfl

/-! ## The loop of `handleJob` -/

/-- Below its largest value the counter counts. -/
theorem toNat_add_one {attempts : UInt32} (h : attempts.toNat < u32Max) :
    (attempts + 1).toNat = attempts.toNat + 1 := by
  have hmax : u32Max = 2 ^ 32 - 1 := rfl
  have hone : (1 : UInt32).toNat = 1 := rfl
  rw [UInt32.toNat_add, hone]
  omega

theorem toNat_u32Max : (UInt32.ofNat u32Max).toNat = u32Max := rfl

/-- The last iteration that is left: it breaks. -/
theorem sendTurns_last {maxRetries : UInt32} {s : SendLoopState} (hleft : ¬s.attempts + 1 ≤ maxRetries) :
    sendTurns codec route job maxRetries 1 s =
      some <$> sendAttempt codec route job none s.gasLimit := by
  rw [sendAttempt_eq, map_bind, sendTurns, sendIteration, bind_assoc, decide_eq_false hleft]
  refine StateT.ext fun memory => ?_
  rw [StateT.run_bind, StateT.run_bind]
  refine bind_congr_wp (wp_mono (sendTurn_ok false s.gasLimit) fun _ r hr => ?_)
  obtain ⟨turn, memory⟩ := r
  cases turn with
  | broke outcome => rfl
  -- without an attempt left no iteration ends so
  | again raised => exact absurd hr.2.1 Bool.false_ne_true

/-- An iteration with another left after it. -/
theorem sendTurns_succ {maxRetries : UInt32} {s : SendLoopState} (hleft : s.attempts + 1 ≤ maxRetries)
    {n : Nat} {f : Option Nat → DeliveryM SendOutcome}
    (hf : ∀ gas, (ask (.sleep s.backoff) >>= fun _ => sendTurns codec route job maxRetries n
      ⟨s.attempts + 1, min (s.backoff * 2) maxBackoff, gas⟩) = some <$> f gas) :
    sendTurns codec route job maxRetries (n + 1) s =
      some <$> sendAttempt codec route job (some f) s.gasLimit := by
  rw [sendAttempt_eq, map_bind, sendTurns, sendIteration, bind_assoc, decide_eq_true hleft]
  refine bind_congr fun turn => ?_
  cases turn with
  | broke outcome => rfl
  | again raised =>
    rw [bind_assoc]
    exact hf (raised.or s.gasLimit)

/-- While the counter cannot wrap, the loop is that of `handleJob`: it ends within `max_retries + 1`
iterations, and as the loop over the attempts that are left does. -/
theorem sendTurns_eq {maxRetries : UInt32} (hm : maxRetries.toNat < u32Max) (retries : Nat) :
    ∀ s : SendLoopState, s.attempts.toNat + retries = maxRetries.toNat →
      sendTurns codec route job maxRetries (retries + 1) s =
        some <$> sendLoop codec route job retries s.backoff s.gasLimit := by
  induction retries with
  | zero =>
    intro s hs
    have hadd := toNat_add_one (show s.attempts.toNat < u32Max by omega)
    refine sendTurns_last ?_
    rw [UInt32.le_iff_toNat_le, hadd]
    omega
  | succ retries ih =>
    intro s hs
    have hadd := toNat_add_one (show s.attempts.toNat < u32Max by omega)
    have hleft : s.attempts + 1 ≤ maxRetries := UInt32.le_iff_toNat_le.mpr (by omega)
    refine sendTurns_succ hleft fun gas => ?_
    rw [map_bind]
    exact bind_congr fun _ => ih _ (by rw [hadd]; omega)

theorem sendTurns_start {maxRetries : UInt32} (hm : maxRetries.toNat < u32Max) (gas : Option Nat) :
    sendTurns codec route job maxRetries (maxRetries.toNat + 1) (.start gas) =
      some <$> sendLoop codec route job maxRetries.toNat initialBackoff gas :=
  sendTurns_eq hm maxRetries.toNat (.start gas) (Nat.zero_add _)

/-! ## Runs of the loop -/

/-- The gas limits of the bumps so far rise, up to the pinned one, and none is above the cap. -/
structure Raised (cap : Nat) (l : List (Option Nat)) (gasLimit : Option Nat) : Prop where
  rising : (l.filterMap id).Pairwise (· < ·)
  capped : ∀ n ∈ l.filterMap id, n ≤ cap
  pinned : ∀ n ∈ l.filterMap id, ∃ gas, gasLimit = some gas ∧ n ≤ gas

theorem Raised.nil (cap : Nat) (gasLimit : Option Nat) : Raised cap [] gasLimit :=
  ⟨.nil, fun _ h => (by cases h), fun _ h => by cases h⟩

theorem Raised.step {cap : Nat} {l : List (Option Nat)} {gasLimit envelopeGas raised : Option Nat}
    (h : Raised cap l gasLimit) (hcap : cap ≤ u64Max)
    (hb : ∀ next ∈ raised, bumpedGasLimit gasLimit envelopeGas cap = some next) :
    Raised cap (l ++ [raised]) (raised.or gasLimit) := by
  cases raised with
  | none =>
    have e : (l ++ [none]).filterMap id = l.filterMap id := by simp
    exact ⟨by rw [e]; exact h.rising, by rw [e]; exact h.capped, by rw [e]; exact h.pinned⟩
  | some next =>
    obtain ⟨base, hbase, hlt, hle⟩ := bumpedGasLimit_some hcap (hb next rfl)
    have hbelow : ∀ n ∈ l.filterMap id, n < next := fun n hn => by
      obtain ⟨gas, rfl, hgas⟩ := h.pinned n hn
      obtain rfl := Option.some.inj hbase
      omega
    have e : (l ++ [some next]).filterMap id = l.filterMap id ++ [next] := by simp
    refine ⟨?_, ?_, ?_⟩
    · rw [e, List.pairwise_append]
      exact ⟨h.rising, List.pairwise_singleton _ _, fun n hn m hm => by
        rw [List.mem_singleton.mp hm]
        exact hbelow n hn⟩
    · rw [e]
      exact List.forall_mem_append.mpr ⟨h.capped, List.forall_mem_singleton.mpr hle⟩
    · rw [e]
      refine List.forall_mem_append.mpr ⟨fun n hn => ⟨next, rfl, Nat.le_of_lt (hbelow n hn)⟩, ?_⟩
      exact List.forall_mem_singleton.mpr ⟨next, rfl, Nat.le_refl _⟩

section
variable {maxRetries : UInt32} {s t : SendLoopState × Memory} {l : List (Option Nat)}

theorem raised_run (hcap : route.maxGasLimit ≤ u64Max)
    (h : Run (Iterates codec route job maxRetries) s l t) :
    Raised route.maxGasLimit l t.1.gasLimit := by
  refine h.hist (I := fun l t => Raised route.maxGasLimit l t.1.gasLimit) ?_ (.nil _ _)
  intro l s raised t hs hi
  rw [hs.iterated.gasLimit]
  exact hi.step hcap hs.iterated.bump

/-- A counter that cannot wrap counts the iterations that went on. -/
theorem counted_run {gas : Option Nat} {memory : Memory} (hm : maxRetries.toNat < u32Max)
    (h : Run (Iterates codec route job maxRetries) (.start gas, memory) l t) :
    t.1.attempts.toNat = l.length ∧ l.length ≤ maxRetries.toNat := by
  refine h.hist (I := fun l t => t.1.attempts.toNat = l.length ∧ l.length ≤ maxRetries.toNat) ?_
    ⟨rfl, Nat.zero_le _⟩
  intro l s raised t hs hi
  have hadd := toNat_add_one (show s.1.attempts.toNat < u32Max by omega)
  have hleft := UInt32.le_iff_toNat_le.mp hs.iterated.left
  rw [hs.iterated.attempts, List.length_append, List.length_singleton]
  omega

/-- At the largest counter every comparison holds, and a send that stalls keeps the loop going. -/
theorem stalled_step (s : SendLoopState × Memory) :
    ∃ t, Iterates codec route job (UInt32.ofNat u32Max) s none t := by
  have hleft : decide (s.1.attempts + 1 ≤ UInt32.ofNat u32Max) = true := by
    have hlt := (s.1.attempts + 1).toNat_lt
    have hmax : u32Max = 2 ^ 32 - 1 := rfl
    rw [decide_eq_true_eq, UInt32.le_iff_toNat_le, toNat_u32Max]
    omega
  have hturn : Exec anything ((sendTurn codec route job true s.1.gasLimit).run s.2) () ()
      (.again none, s.2) :=
    exec_answer (Reply.done true) <| exec_answer Broadcast.stalled (by exact .ret)
  rw [← hleft] at hturn
  refine ⟨(⟨s.1.attempts + 1, min (s.1.backoff * 2) maxBackoff, s.1.gasLimit⟩, s.2), ?_⟩
  rw [Iterates, sendIteration, StateT.run_bind]
  exact hturn.bind (exec_answer () (by exact .ret))

theorem stalled_run (s : SendLoopState × Memory) (n : Nat) : ∃ t,
    Run (Iterates codec route job (UInt32.ofNat u32Max)) s (List.replicate n none) t := by
  induction n with
  | zero => exact ⟨s, .nil⟩
  | succ n ih =>
    obtain ⟨t, h⟩ := ih
    obtain ⟨u, hu⟩ := stalled_step t
    exact ⟨u, by rw [List.replicate_succ']; exact .snoc h hu⟩

end

end

/-! ## The bound -/

/-- What is to bound the sends of a job, whatever the node answers. -/
structure SendBounded (codec : InboxCodec) (route : DeliveryRoute) (job : DeliveryJob)
    (gas : Option Nat) (maxRetries : UInt32) : Prop where
  /-- The iterations that went on, and the one that is under way. -/
  iterations : ∀ memory l t, Run (Iterates codec route job maxRetries) (.start gas, memory) l t →
    l.length + 1 ≤ maxRetries.toNat + 1
  bumped : ∀ current envelopeGas next,
    bumpedGasLimit current envelopeGas route.maxGasLimit = some next →
    ∃ base, current.or envelopeGas = some base ∧ base < next ∧ next ≤ route.maxGasLimit
  not_bumped : ∀ current envelopeGas, bumpedGasLimit current envelopeGas route.maxGasLimit = none ↔
    current.or envelopeGas = none ∨
      ∃ base, current.or envelopeGas = some base ∧ route.maxGasLimit ≤ base
  raised : ∀ memory l t, Run (Iterates codec route job maxRetries) (.start gas, memory) l t →
    (l.filterMap id).Pairwise (· < ·) ∧ ∀ n ∈ l.filterMap id, n ≤ route.maxGasLimit

theorem not_sendBounded (codec : InboxCodec) (route : DeliveryRoute) (job : DeliveryJob)
    (gas : Option Nat) : ¬SendBounded codec route job gas (UInt32.ofNat u32Max) := by
  intro h
  have hrun : ∃ t, Run (Iterates codec route job (UInt32.ofNat u32Max)) (.start gas, ∅)
      (List.replicate (u32Max + 1) none) t := stalled_run _ _
  obtain ⟨t, hrun⟩ := hrun
  have hle := h.iterations _ _ _ hrun
  rw [List.length_replicate, toNat_u32Max] at hle
  omega

/-- With a cap of 64 bits, the sends of a job are bounded if and only if `max_retries` is not the largest
counter. -/
theorem send_loop_bounded_iff (codec : InboxCodec) (route : DeliveryRoute) (job : DeliveryJob)
    (gas : Option Nat) (maxRetries : UInt32) (hcap : route.maxGasLimit ≤ u64Max) :
    SendBounded codec route job gas maxRetries ↔ maxRetries.toNat < u32Max := by
  constructor
  · intro h
    by_contra hge
    have hlt := maxRetries.toNat_lt
    have hmax : u32Max = 2 ^ 32 - 1 := rfl
    have e : maxRetries = UInt32.ofNat u32Max := UInt32.toNat_inj.mp (by rw [toNat_u32Max]; omega)
    exact not_sendBounded codec route job gas (e ▸ h)
  · intro hm
    refine ⟨fun memory l t hrun => ?_, fun _ _ _ => bumpedGasLimit_some hcap,
      fun _ _ => bumpedGasLimit_none, fun memory l t hrun => ?_⟩
    · exact Nat.add_le_add_right (counted_run hm hrun).2 1
    · exact ⟨(raised_run hcap hrun).rising, (raised_run hcap hrun).capped⟩

/-- A job that is sent. -/
def demoSend : DeliveryJob := { demoProbe with reconcileOnly := false }

theorem send_loop_bounded_demo :
    SendBounded demoInbox demoRoute demoSend none 3 ↔ (3 : UInt32).toNat < u32Max :=
  send_loop_bounded_iff demoInbox demoRoute demoSend none 3 (by decide)

/-- Sends that stall `u32::MAX + 1` times: the next iteration is one too many. -/
theorem send_loop_overruns :
    (∃ t, Run (Iterates demoInbox demoRoute demoSend (UInt32.ofNat u32Max)) (.start none, ∅)
      (List.replicate (u32Max + 1) none) t) ∧
    ¬SendBounded demoInbox demoRoute demoSend none (UInt32.ofNat u32Max) :=
  ⟨stalled_run _ _, not_sendBounded _ _ _ _⟩

end MessageRelayer

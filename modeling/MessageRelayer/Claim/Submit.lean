import MessageRelayer.Broadcast.Locks
import MessageRelayer.Delivery.Reconcile
import MessageRelayer.ProofGen

/-!
# One attempt at a claim

`claim::claim_tx`: a lock on the client chain is claimed on Creditcoin with a
proof of its transaction. What an attempt heard (`AttemptSaid`) decides what
becomes of the transaction: it is finished only for one of the reasons in
`Finished` (`claimTx_justified`).
-/

namespace MessageRelayer.Claim

open Prog hiding ask

/-! ## The contracts -/

/-- `ISourceBridge::Locked`. -/
structure Locked where
  ccRecipient : Address
  amount : B256
  nonce : B256

/-- The errors of the claim target. -/
inductive TargetError where
  | alreadyClaimed
  | proofVerificationFailed
  | noLockedLogs
  | wrongEmitter
  | malformedLockedLog
  | unsupportedTxType
  | encodedTransactionTooLarge
  deriving DecidableEq

namespace TargetError

def all : List TargetError :=
  [alreadyClaimed, proofVerificationFailed, noLockedLogs, wrongEmitter, malformedLockedLog,
    unsupportedTxType, encodedTransactionTooLarge]

def name : TargetError → String
  | alreadyClaimed => "AlreadyClaimed"
  | proofVerificationFailed => "ProofVerificationFailed"
  | noLockedLogs => "NoLockedLogs"
  | wrongEmitter => "WrongEmitter"
  | malformedLockedLog => "MalformedLockedLog"
  | unsupportedTxType => "UnsupportedTxType"
  | encodedTransactionTooLarge => "EncodedTransactionTooLarge"

end TargetError

/-- The ABI of the bridge and of the claim target, and what else comes from libraries. -/
structure ClaimCodec where
  keccak256 : Bytes → B256
  decodeLocked : Log → Except String Locked
  selector : TargetError → Bytes
  proofs : ProofGenCodec

/-- What the worker reads of its route (`config::ChainRoute`, `config::ClaimConfig`). -/
structure ClaimRoute where
  chainKey : ChainKey
  proofGenUrl : String
  sourceBridgeAddress : Address
  targetAddress : Address
  submitterAddress : Address
  confirmationDepth : Nat
  startBlock : Option Nat
  scanLookbackBlocks : Nat

/-- The target's replay key of a lock. -/
def claimKey (codec : ClaimCodec) (locked : Locked) : B256 :=
  codec.keccak256
    (word locked.ccRecipient.toNat ++ word locked.amount.toNat ++ word locked.nonce.toNat)

def maxEncodedTransactionBytes : Nat := 500_000
def receiptTimeout : Duration := fromSecs 120

/-! ## The questions of an attempt -/

/-- A `claim` transaction. -/
structure ClaimTx where
  submitter : Address
  target : Address
  height : Nat
  encodedTransaction : Bytes
  merkleProof : MerkleProof
  continuityProof : ContinuityProof
  deriving DecidableEq

inductive AttemptCall where
  /-- The target's `claimed` mapping. -/
  | claimed (target : Address) (key : B256)
  | getProof (url : String)
  /-- A broadcast as the only one of its signer. -/
  | claim (tx : ClaimTx)
  | awaitReceipt (txHash : B256) (within : Duration)
  deriving DecidableEq

abbrev AttemptCall.Answer : AttemptCall → Type
  | claimed .. => Except String Bool
  | getProof _ => HttpResult
  | claim _ => Except BroadcastLocks.Stalled (Except CallError B256)
  | awaitReceipt .. => Reply Receipt

abbrev AttemptM := ExceptT Error (Prog AttemptCall AttemptCall.Answer)

abbrev AttemptSaid := Said AttemptCall AttemptCall.Answer

def AttemptM.ask (c : AttemptCall) : AttemptM c.Answer := ExceptT.lift (call c)

inductive ClaimOutcome where
  | claimed
  | notReady
  | rejected (reason : ProofRejected)
  /-- A permanent condition. -/
  | terminal (reason : String)

/-! ## Reverts -/

/-- Whether the error of a send is a revert on the target, which is permanent. -/
def isTerminalRevert (s : String) : Bool :=
  isRevert s || containsText s "AlreadyClaimed" || containsText s "ProofVerificationFailed" ||
    containsText s "NoLockedLogs" || containsText s "WrongEmitter"

def claimRevertName (codec : ClaimCodec) (sel : Bytes) : Option String :=
  (TargetError.all.find? fun e => sel == codec.selector e).map (·.name)

/-- A revert, with the name of its error where the selector is known. -/
def describeRevert (codec : ClaimCodec) (s : String) : String :=
  match (revertSelector s).bind (claimRevertName codec) with
  | some name => name ++ ": " ++ s
  | none => s

/-! ## The attempt -/

/-- A duration of whole seconds. -/
def showSecs (d : Duration) : String := toString (d / 10 ^ 9) ++ "s"

def stalledText : BroadcastLocks.Stalled → String
  | .queue d => "no broadcast slot for this signer within " ++ showSecs d
  | .broadcast d => "broadcast did not complete within " ++ showSecs d

section
variable (codec : ClaimCodec) (route : ClaimRoute)

/-- Whether any of the keys is still unclaimed on the target. -/
def anyUnclaimed : List B256 → AttemptM Bool
  | [] => pure false
  | key :: keys => do
    match ← AttemptM.ask (.claimed route.targetAddress key) with
    | .error e => throw ["IClaimTarget.claimed call failed", e]
    | .ok claimed => if !claimed then pure true else anyUnclaimed keys

/-- The receipt of a claim that was broadcast. -/
def awaitClaim (txHash : B256) : AttemptM ClaimOutcome := do
  match ← AttemptM.ask (.awaitReceipt txHash receiptTimeout) with
  | .elapsed =>
    throw ["no receipt within " ++ showSecs receiptTimeout ++ " (claim tx possibly stuck)"]
  | .failed err => throw ["receipt fetch failed: " ++ err.text]
  | .done receipt =>
    if receipt.status then pure .claimed else pure (.terminal "tx mined but reverted")

/-- Submit a proof. -/
def submitClaim (proof : SingleContinuityResponse) : AttemptM ClaimOutcome := do
  let encodedTx ← orThrow proof.encodedTransaction
  if maxEncodedTransactionBytes < encodedTx.length then
    pure (.terminal ("encodedTransaction " ++ toString encodedTx.length ++
      " bytes exceeds on-chain max " ++ toString maxEncodedTransactionBytes ++ " bytes"))
  else
    let (merkleProof, continuityProof) ← orThrow proof.toProofs
    let tx : ClaimTx :=
      { submitter := route.submitterAddress
        target := route.targetAddress
        height := proof.headerNumber
        encodedTransaction := encodedTx
        merkleProof, continuityProof }
    match ← AttemptM.ask (.claim tx) with
    | .error stalled => throw ["claim " ++ stalledText stalled]
    | .ok (.ok txHash) => awaitClaim txHash
    | .ok (.error err) =>
      if isTerminalRevert err.text then pure (.terminal (describeRevert codec err.text))
      else throw ["claim send failed: " ++ err.text]

/-- Fetch the proof of a transaction and submit it. -/
def proveClaim (txHash : B256) : AttemptM ClaimOutcome := do
  let url := proofByTxUrl route.proofGenUrl route.chainKey txHash
  let result ← AttemptM.ask (.getProof url)
  match ← orThrow (proofByTx codec.proofs url result) with
  | .ready proof => submitClaim codec route proof
  | .notReady _ => pure .notReady
  | .rejected reason => pure (.rejected reason)

/-- The whole attempt; a check of the keys that fails does not stop it. -/
def claimTx (keys : List B256) (txHash : B256) : AttemptM ClaimOutcome := do
  if keys.isEmpty then proveClaim codec route txHash
  else
    match ← ExceptT.lift (anyUnclaimed route keys).run with
    | .ok false => pure (.terminal "every lock in this tx is already claimed")
    | .ok true | .error _ => proveClaim codec route txHash

/-! ## Why an attempt finishes a transaction -/

/-- What may end the tracking of a transaction: `waited` is how long it was tracked. -/
inductive Finished (keys : List B256) (said : AttemptSaid) (waited : Duration) : Prop where
  | claimed (txHash : B256) (receipt : Receipt)
      (h : ⟨.awaitReceipt txHash receiptTimeout, .done receipt⟩ ∈ said) (hs : receipt.status = true)
  | alreadyClaimed (hk : keys ≠ [])
      (h : ∀ key ∈ keys, ⟨.claimed route.targetAddress key, .ok true⟩ ∈ said)
  | sendReverted (tx : ClaimTx) (err : CallError) (h : ⟨.claim tx, .ok (.error err)⟩ ∈ said)
      (hr : isTerminalRevert err.text = true)
  | minedReverted (txHash : B256) (receipt : Receipt)
      (h : ⟨.awaitReceipt txHash receiptTimeout, .done receipt⟩ ∈ said) (hs : receipt.status = false)
  | tooLarge (url : String) (result : HttpResult) (proof : SingleContinuityResponse)
      (encodedTx : Bytes) (h : ⟨.getProof url, result⟩ ∈ said)
      (hp : proofByTx codec.proofs url result = .ok (.ready proof))
      (he : proof.encodedTransaction = .ok encodedTx)
      (hl : maxEncodedTransactionBytes < encodedTx.length)
  | overdue (url : String) (result : HttpResult) (reason : ProofNotReady)
      (h : ⟨.getProof url, result⟩ ∈ said)
      (hp : proofByTx codec.proofs url result = .ok (.notReady reason))
      (hw : fromSecs (24 * 60 * 60) < waited)

/-- What an attempt heard justifies its outcome. -/
def Justified (keys : List B256) (said : AttemptSaid) : Except Error ClaimOutcome → Prop
  | .ok .claimed | .ok (.terminal _) => ∀ waited, Finished codec route keys said waited
  | .ok .notReady => ∀ waited, fromSecs (24 * 60 * 60) < waited →
      Finished codec route keys said waited
  | .ok (.rejected _) | .error _ => True

end

section
variable {codec : ClaimCodec} {route : ClaimRoute} {W : Type}
  {H : Env AttemptCall AttemptCall.Answer W}

@[simp] theorem wp_attemptAsk (c : AttemptCall) (w : W) (Q : W → Except Error c.Answer → Prop) :
    wp (α := no_index (Except Error c.Answer)) H
      (ExceptT.run (α := no_index c.Answer) (AttemptM.ask c)) w Q ↔
      ∀ a w', H w c a w' → Q w' (.ok a) := by
  rw [AttemptM.ask, wp_run_lift, wp_call]

/-- All keys are claimed only if each was read as claimed. -/
theorem anyUnclaimed_false (keys : List B256) (said : AttemptSaid) :
    wp heard (anyUnclaimed route keys).run said fun said' r => said <+: said' ∧
      (r = .ok false → ∀ key ∈ keys, ⟨.claimed route.targetAddress key, .ok true⟩ ∈ said') := by
  induction keys generalizing said with
  | nil => exact ⟨List.prefix_refl _, fun _ key hk => absurd hk List.not_mem_nil⟩
  | cons key keys ih =>
    simp only [anyUnclaimed, wp_run_bind, wp_attemptAsk, heard_iff]
    rintro a _ rfl
    rcases a with e | _ | _
    · exact ⟨List.prefix_append _ _, fun h => by cases h⟩
    · exact ⟨List.prefix_append _ _, fun h => by cases h⟩
    · refine wp_mono (ih _) fun said' r h => ?_
      obtain ⟨hp, hr⟩ := h
      refine ⟨(List.prefix_append _ _).trans hp, fun h k hk => ?_⟩
      rcases List.mem_cons.mp hk with rfl | hk
      · exact hp.subset (List.mem_append_right _ (List.mem_singleton_self _))
      · exact hr h k hk

theorem awaitClaim_justified (keys : List B256) (txHash : B256) (said : AttemptSaid) :
    wp heard (awaitClaim txHash).run said fun said' r => Justified codec route keys said' r := by
  simp only [awaitClaim, wp_run_bind, wp_attemptAsk, heard_iff]
  rintro a _ rfl
  cases a with
  | elapsed => trivial
  | failed err => trivial
  | done receipt =>
    have hm : ⟨.awaitReceipt txHash receiptTimeout, .done receipt⟩ ∈
        said ++ [⟨.awaitReceipt txHash receiptTimeout, .done receipt⟩] :=
      List.mem_append_right _ (List.mem_singleton_self _)
    cases hs : receipt.status with
    | true =>
      simp only [hs, ↓reduceIte]
      exact fun waited => .claimed txHash receipt hm hs
    | false =>
      simp only [hs, Bool.false_eq_true, ↓reduceIte]
      exact fun waited => .minedReverted txHash receipt hm hs

theorem submitClaim_justified (keys : List B256) {url : String} {result : HttpResult}
    {proof : SingleContinuityResponse} {said : AttemptSaid} (hm : ⟨.getProof url, result⟩ ∈ said)
    (hp : proofByTx codec.proofs url result = .ok (.ready proof)) :
    wp heard (submitClaim codec route proof).run said fun said' r =>
      Justified codec route keys said' r := by
  simp only [submitClaim, wp_run_bind, wp_orThrow]
  cases he : proof.encodedTransaction with
  | error e => trivial
  | ok encodedTx =>
    dsimp only
    split
    · rename_i hl
      exact fun waited => .tooLarge url result proof encodedTx hm hp he hl
    simp only [wp_run_bind, wp_orThrow]
    cases proof.toProofs with
    | error e => trivial
    | ok proofs =>
      simp only [wp_attemptAsk, heard_iff]
      rintro a _ rfl
      rcases a with stalled | err | txHash
      · trivial
      · dsimp only
        split
        · rename_i hr
          exact fun waited =>
            .sendReverted _ err (List.mem_append_right _ (List.mem_singleton_self _)) hr
        · trivial
      · exact awaitClaim_justified keys txHash _

theorem proveClaim_justified (keys : List B256) (txHash : B256) (said : AttemptSaid) :
    wp heard (proveClaim codec route txHash).run said fun said' r =>
      Justified codec route keys said' r := by
  simp only [proveClaim, wp_run_bind, wp_attemptAsk, heard_iff]
  rintro result _ rfl
  have hm := List.mem_append_right said (List.mem_singleton_self
    (⟨.getProof (proofByTxUrl route.proofGenUrl route.chainKey txHash), result⟩ :
      (c : AttemptCall) × c.Answer))
  simp only [wp_orThrow]
  rcases hp : proofByTx codec.proofs _ result with e | fetched
  · trivial
  cases fetched with
  | ready proof => exact submitClaim_justified keys hm hp
  | notReady reason => exact fun waited hw => .overdue _ result reason hm hp hw
  | rejected reason => trivial

theorem claimTx_justified (keys : List B256) (txHash : B256) (said : AttemptSaid) :
    wp heard (claimTx codec route keys txHash).run said fun said' r =>
      Justified codec route keys said' r := by
  rw [claimTx]
  split
  · exact proveClaim_justified keys txHash said
  rename_i hk
  simp only [wp_run_bind, wp_run_lift]
  refine wp_mono (anyUnclaimed_false keys said) fun said' r h => ?_
  obtain ⟨-, hr⟩ := h
  rcases r with e | _ | _
  · exact proveClaim_justified keys txHash said'
  · exact fun waited => .alreadyClaimed (by rintro rfl; exact hk rfl) (hr rfl)
  · exact proveClaim_justified keys txHash said'

end

end MessageRelayer.Claim

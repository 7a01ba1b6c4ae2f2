import Mathlib.Data.List.Destutter
import Mathlib.Data.List.Sort
import MessageRelayer.Delivery.Job
import MessageRelayer.Lib.Runs
import MessageRelayer.Pool.Quorum

/-!
# Set updates

`set_update`: votes of attestors for a new attestor set are collected per
update digest, and submitted to the validator contract once the threshold is
reached. The state of a route is its last view of the contract (`OnChain`),
the signatures that it stores, and the digests whose transaction was sent.

`RouteState.note` is what `handle_vote` does before it submits. The submission
is a question of its own (`SubmitCall`), which runs the calls on the node
(`SubmitCall.body`).
-/

namespace MessageRelayer.SetUpdate

open Prog

/-! ## The digest of an update -/

/-- What is computed by libraries. -/
structure Crypto where
  ecrecover : Ecrecover
  keccak256 : Bytes → B256
  /-- The address of a configured signer key, trimmed. -/
  signerOf : String → Except String Address

/-- `canonical_attestor_order`: ascending and without repetitions. -/
def canonicalAttestorOrder (addrs : List Address) : List Address :=
  (addrs.insertionSort (· ≤ ·)).destutter (· ≠ ·)

/-- `attestor_set_update_digest`: the hash of `abi.encode(validator, newAttestors, chainId, nonce)`. -/
def attestorSetUpdateDigest (keccak256 : Bytes → B256) (validator : Address)
    (newAttestors : List Address) (chainId nonce : B256) : B256 :=
  keccak256 (word validator.toNat ++ word 0x80 ++ word chainId.toNat ++ word nonce.toNat ++
    word newAttestors.length ++ newAttestors.flatMap fun a => word a.toNat)

/-- The canonical order is strictly ascending. -/
theorem canonicalAttestorOrder_sorted (addrs : List Address) :
    (canonicalAttestorOrder addrs).Pairwise (· < ·) := by
  have hs : (canonicalAttestorOrder addrs).Pairwise (· ≤ ·) :=
    (List.pairwise_insertionSort _ addrs).sublist (List.destutter_sublist _ _)
  have hn : (canonicalAttestorOrder addrs).IsChain (· ≠ ·) := List.isChain_destutter _ _
  refine (List.isChain_iff_getElem.mpr fun i hi => ?_).pairwise
  exact BitVec.lt_of_le_ne (List.isChain_iff_getElem.mp hs.isChain i hi)
    (List.isChain_iff_getElem.mp hn i hi)

/-! ## The state -/

/-- What a vote is validated against. -/
structure OnChain where
  attestors : List Address
  threshold : Nat
  nonce : B256
  chainId : B256
  deriving DecidableEq

/-- The signatures for one update, by recovered signer. -/
abbrev Slot := Map Address RawSignature

structure RouteState where
  validator : Address
  signerKey : String
  destRpcUrl : String
  /-- None until the first refresh that succeeds. -/
  current : Option OnChain
  votes : Map B256 Slot
  /-- The digests whose transaction was sent. -/
  inFlight : List B256

abbrev States := Map ChainKey RouteState

/-- A configured route; `validator` is the source of its attestor set, where that is an EVM contract. -/
structure ChainRoute where
  chainKey : ChainKey
  validator : Option Address
  signerKey : Option String
  destinationRpcUrl : String

/-- The routes of `run`: those with a validator and a signer. -/
def startStates (routes : List ChainRoute) : States :=
  routes.foldl (fun states route =>
    match route.validator, route.signerKey with
    | some validator, some signerKey => states.insert route.chainKey
        { validator, signerKey, destRpcUrl := route.destinationRpcUrl, current := none, votes := ∅,
          inFlight := [] }
    | _, _ => states) ∅

/-- The signatures that are stored for an update. -/
def RouteState.slot (state : RouteState) (digest : B256) : Slot := state.votes[digest]?.getD ∅

/-! ## Calls on the node -/

/-- The end of a broadcast under the signer's lock. -/
inductive Broadcast where
  | stalled (reason : String)
  | failed (err : String)
  | sent (txHash : B256)
  deriving DecidableEq

inductive RpcCall where
  | connect (url : String)
  | attestors (validator : Address)
  | threshold (validator : Address)
  | attestorSetUpdateNonce (validator : Address)
  | getChainId
  /-- `submitAttestorSetUpdate` as a call. -/
  | simulate (validator : Address) (newAttestors : List Address) (calldata : Bytes)
  | broadcast (submitter validator : Address) (newAttestors : List Address) (calldata : Bytes)

abbrev RpcCall.Answer : RpcCall → Type
  | connect _ | simulate .. => Except String Unit
  | attestors _ => Except String (List Address)
  | threshold _ | attestorSetUpdateNonce _ => Except String B256
  | getChainId => Except String Nat
  | broadcast .. => Broadcast

abbrev RpcM := ExceptT Error (Prog RpcCall RpcCall.Answer)

/-- `r?`, with its context. -/
def orFail {α : Type} (context : Error) : Except String α → RpcM α
  | .ok a => pure a
  | .error e => throw (context ++ [e])

/-! ## Refresh -/

/-- The reads of `refresh`, one after the other. -/
def readView (state : RouteState) : RpcM OnChain := do
  orFail [s!"connect destination RPC {state.destRpcUrl}"]
    (← ExceptT.lift (call (RpcCall.connect state.destRpcUrl)))
  let attestors ← orFail [] (← ExceptT.lift (call (RpcCall.attestors state.validator)))
  let threshold ← orFail [] (← ExceptT.lift (call (RpcCall.threshold state.validator)))
  let nonce ← orFail [] (← ExceptT.lift (call (RpcCall.attestorSetUpdateNonce state.validator)))
  let chainId ← orFail [] (← ExceptT.lift (call RpcCall.getChainId))
  return { attestors, threshold := min threshold.toNat u64Max, nonce, chainId := .ofNat 256 chainId }

/-- A new view; where its nonce differs, what was collected is for a spent update. -/
def RouteState.refreshed (state : RouteState) (view : OnChain) : RouteState :=
  if state.current.any fun c => decide (c.nonce ≠ view.nonce) then
    { state with current := some view, votes := ∅, inFlight := [] }
  else { state with current := some view }

def refresh (state : RouteState) : RpcM RouteState := do
  return state.refreshed (← readView state)

/-! ## Votes -/

/-- A vote that counts now: the canonical set, the digest and the signer. -/
def verifyVote (crypto : Crypto) (vote : SetUpdateVote) (validator : Address) (current : OnChain) :
    Option (List Address × B256 × Address) :=
  if vote.nonce ≠ current.nonce then none
  else
    let canonical := canonicalAttestorOrder vote.newAttestors
    let digest :=
      attestorSetUpdateDigest crypto.keccak256 validator canonical current.chainId vote.nonce
    match recoverSigner crypto.ecrecover digest vote.signature with
    | .error _ => none
    | .ok signer =>
      if current.attestors.contains signer then some (canonical, digest, signer) else none

/-- What `verify_vote` says of a vote in the state of its route. -/
def RouteState.verified (crypto : Crypto) (state : RouteState) (vote : SetUpdateVote) :
    Option (List Address × B256 × Address) :=
  state.current.bind (verifyVote crypto vote state.validator)

/-- A set update that has reached the threshold. -/
structure Submission where
  digest : B256
  newAttestors : List Address
  signatures : List RawSignature

/-- `handle_vote` up to the submission, if there is one: the signatures are then taken out of their
slot, and the digest is marked. -/
def RouteState.note (crypto : Crypto) (state : RouteState) (vote : SetUpdateVote) :
    RouteState × Option Submission :=
  match state.current with
  | none => (state, none)
  | some current =>
    match verifyVote crypto vote state.validator current with
    | none => (state, none)
    | some (canonical, digest, signer) =>
      if state.inFlight.contains digest then (state, none)
      else
        let duplicate := (state.slot digest).contains signer
        let slot := (state.slot digest).insert signer vote.signature
        if duplicate || decide (slot.size < current.threshold) then
          ({ state with votes := state.votes.insert digest slot }, none)
        else
          ({ state with
              votes := state.votes.erase digest
              inFlight := digest :: state.inFlight },
            some { digest, newAttestors := canonical, signatures := Map.vals slot })

/-- A submission that failed drops the mark of its digest. -/
def RouteState.submitted (state : RouteState) (digest : B256) : Except Error Unit → RouteState
  | .ok () => state
  | .error _ => { state with inFlight := state.inFlight.filter (· ≠ digest) }

/-! ## Submission -/

inductive SubmitCall where
  | submit (state : RouteState) (submission : Submission)

abbrev SubmitCall.Answer : SubmitCall → Type
  | submit .. => Except Error Unit

/-- `submit`: simulate, then broadcast under the signer's lock. -/
def submit (crypto : Crypto) (state : RouteState) (submission : Submission) : RpcM Unit := do
  let submitter ←
    orFail ["invalid signer_key for set-update submission"] (crypto.signerOf state.signerKey)
  orFail [s!"connect destination RPC {state.destRpcUrl}"]
    (← ExceptT.lift (call (RpcCall.connect state.destRpcUrl)))
  let calldata := encodeVotes submission.signatures
  orFail ["simulate(submitAttestorSetUpdate) reverted"]
    (← ExceptT.lift (call (RpcCall.simulate state.validator submission.newAttestors calldata)))
  match ← ExceptT.lift (call
      (RpcCall.broadcast submitter state.validator submission.newAttestors calldata)) with
  | .stalled reason => throw [s!"submit(submitAttestorSetUpdate) {reason}"]
  | .failed err => throw ["submit(submitAttestorSetUpdate) failed", err]
  | .sent _ => pure ()

/-- What a submission runs. -/
def SubmitCall.body (crypto : Crypto) :
    (c : SubmitCall) → Prog RpcCall RpcCall.Answer c.Answer
  | .submit state submission => (SetUpdate.submit crypto state submission).run

/-- One incoming vote. -/
def handleVote (crypto : Crypto) (states : States) (vote : SetUpdateVote) :
    Prog SubmitCall SubmitCall.Answer States :=
  match states[vote.chainKey]? with
  | none => pure states
  | some state =>
    match state.note crypto vote with
    | (state, none) => pure (states.insert vote.chainKey state)
    | (state, some submission) => do
      let answer ← call (SubmitCall.submit state submission)
      pure (states.insert vote.chainKey (state.submitted submission.digest answer))

end MessageRelayer.SetUpdate

import MessageRelayer.Delivery.FailedRetry
import MessageRelayer.Pool.State
import MessageRelayer.ProofGen

/-!
# Configured routes

`config::ChainRoute`: a route as start-up has accepted it, the checks that are
made of it whatever it was read from (`ChainRoute.validate`), and what the pool
is told of its attestors (`resolveAttestors`): a static set comes with a
threshold that is configured, or computed from the length of the list
(`calculateThreshold`).
-/

namespace MessageRelayer.Config

/-! ## Errors -/

/-- `with_context`. -/
def withContext {α : Type} (context : String) (r : Except Error α) : Except Error α :=
  r.mapError (context :: ·)

/-- `bail!` if a condition holds. -/
def bailIf (p : Prop) [Decidable p] (message : String) : Except Error Unit :=
  if p then .error [message] else .ok ()

@[simp] theorem bailIf_ok {p : Prop} [Decidable p] {message : String} {u : Unit} :
    bailIf p message = .ok u ↔ ¬p := by
  unfold bailIf
  split
  · rename_i h
    exact iff_of_false nofun fun hn => hn h
  · rename_i h
    exact iff_of_true rfl h

/-- What a sequence of fallible steps yields. -/
theorem bind_ok {α β : Type} {x : Except Error α} {f : α → Except Error β} {b : β} :
    (x >>= f) = .ok b ↔ ∃ a, x = .ok a ∧ f a = .ok b := by
  cases x with
  | error e => exact iff_of_false nofun fun ⟨_, h, _⟩ => nomatch h
  | ok a => exact ⟨fun h => ⟨a, rfl, h⟩, fun ⟨a', ha, h⟩ => by cases ha; exact h⟩

@[simp] theorem withContext_ok {α : Type} {context : String} {r : Except Error α} {a : α} :
    withContext context r = .ok a ↔ r = .ok a := by
  cases r with
  | error e => exact iff_of_false nofun nofun
  | ok b => exact Iff.rfl

/-! ## Routes -/

/-- A `Vec<Address>`, which holds at most `isize::MAX` bytes. -/
structure Addresses where
  list : List Address
  fits : 20 * list.length < 2 ^ 63

/-- Pushing more of them panics. -/
def Addresses.collect (list : List Address) : Except Error Addresses :=
  if h : 20 * list.length < 2 ^ 63 then .ok ⟨list, h⟩ else .error ["capacity overflow"]

/-- The addresses without repetitions, as the pool counts their votes. -/
def Addresses.distinct (addrs : Addresses) : Nat := addrs.list.dedup.length

inductive AttestorSource where
  | evm (address : Address)
  | cc3 (chainKey : ChainKey)

inductive AttestorSet where
  | static (addrs : Addresses)
  | onChain (source : AttestorSource)

structure AckConfig where
  proofGenUrl : String
  validatorAddress : Address
  signerKey : String
  confirmationDepth : Nat
  startBlock : Option Nat
  notReadyPollSecs : Nat
  notReadyPollWindowSecs : Nat

structure ClaimConfig where
  proofGenUrl : String
  sourceBridgeAddress : Address
  targetAddress : Address
  signerKey : String
  confirmationDepth : Nat
  startBlock : Option Nat

structure ChainRoute where
  chainKey : ChainKey
  creditcoinChainId : Nat
  destinationRpcUrl : String
  inboxAddress : Address
  signerKey : Option String
  outboxAddress : Option Address
  relayerContractAddress : Option Address
  blockConfirmationDepth : Nat
  startBlock : Option Nat
  attestorSet : AttestorSet
  thresholdOverride : Option UInt32
  ack : Option AckConfig
  claim : Option ClaimConfig
  maxNativeCoinValueWei : B256
  maxGasLimit : Nat
  autoRequestTopUp : Bool
  failedRetry : FailedRetryPolicy

/-! ## Checks -/

/-- A zero backoff would retry on every tick, and an initial wait above the ceiling is a typo. -/
def validateFailedRetry (policy : FailedRetryPolicy) (origin : String) : Except Error Unit := do
  bailIf (policy.initialBackoffSecs = 0) s!"{origin}: failed_retry_initial_backoff_secs must be > 0"
  bailIf (policy.initialBackoffSecs > policy.maxBackoffSecs)
    (s!"{origin}: failed_retry_initial_backoff_secs ({policy.initialBackoffSecs}) must not exceed " ++
      s!"failed_retry_max_backoff_secs ({policy.maxBackoffSecs})")

def validateMaxGasLimit (cap : Nat) (origin : String) : Except Error Unit :=
  bailIf (cap = 0) s!"{origin}: max_gas_limit must be > 0 (a zero cap refuses every envelope)"

def validateAckNotReadyPollSecs (secs : Nat) (origin : String) : Except Error Unit :=
  bailIf (secs = 0)
    s!"{origin}: ack not_ready_poll_secs must be > 0 (a zero cadence would hot-loop proof-gen)"

namespace ChainRoute

/-- The ack signer, else the claim signer. -/
def topUpSignerKey (route : ChainRoute) : Option String :=
  (route.ack.map AckConfig.signerKey).or (route.claim.map ClaimConfig.signerKey)

def validate (route : ChainRoute) : Except Error Unit := do
  let origin := s!"chain_key {route.chainKey}"
  validateMaxGasLimit route.maxGasLimit origin
  validateFailedRetry route.failedRetry origin
  bailIf (route.autoRequestTopUp = true ∧ route.relayerContractAddress.isNone = true)
    (s!"{origin}: auto_request_top_up requires relayer_contract_address (requestTopUp " ++
      "is a RelayerContract call)")
  bailIf (route.autoRequestTopUp = true ∧ route.topUpSignerKey.isNone = true)
    (s!"{origin}: auto_request_top_up requires an `ack` or `claim` signer_key to sign " ++
      "requestTopUp on Creditcoin")

end ChainRoute

/-! ## Attestors -/

/-- `2N/3 + 1`, with the `usize` arithmetic of a release build. -/
def calculateThreshold (n : Nat) : Nat := 2 * n % 2 ^ 64 / 3 + 1

/-- An on-chain set is empty until it was read, with a threshold that nothing reaches. -/
def resolveAttestors (route : ChainRoute) : RouteAttestors :=
  match route.attestorSet with
  | .static addrs =>
    { chainKey := route.chainKey
      attestors := addrs.list
      threshold :=
        (route.thresholdOverride.map UInt32.toNat).getD (calculateThreshold addrs.list.length) }
  | .onChain _ => { chainKey := route.chainKey, attestors := [], threshold := u64Max }

/-- The computed threshold is more than two thirds of a list, for every length up to half the range
of `usize`. -/
theorem calculateThreshold_law {n : Nat} (h0 : 1 ≤ n) (h : n < 2 ^ 64) :
    calculateThreshold n ≤ n ∧ 2 * n < 3 * calculateThreshold n ↔ n < 2 ^ 63 := by
  unfold calculateThreshold
  omega

end MessageRelayer.Config

import Mathlib.Data.List.Dedup
import MessageRelayer.Config.Start
import MessageRelayer.Hex

/-!
# What start-up accepts

Every route that start-up accepts has passed the checks (`ChainRoute.Valid`,
`buildConfig_valid`), but no check looks at the threshold of a static set: it
can be reached by the attestors of the route, and only with at least one of
them, exactly where the configured one can, or where fewer than a third of the
list are repetitions (`quorum_achievable`).
-/

namespace MessageRelayer.Config

/-! ## Accepted routes -/

structure ChainRoute.Valid (route : ChainRoute) : Prop where
  gas : 0 < route.maxGasLimit
  backoff : 0 < route.failedRetry.initialBackoffSecs
  backoff_le : route.failedRetry.initialBackoffSecs ≤ route.failedRetry.maxBackoffSecs
  topUp : route.autoRequestTopUp = true →
    route.relayerContractAddress.isSome = true ∧ route.topUpSignerKey.isSome = true
  attestors : ∀ addrs, route.attestorSet = .static addrs → addrs.list ≠ []
  ackPoll : ∀ ack, route.ack = some ack → 0 < ack.notReadyPollSecs

theorem ChainRoute.validate_ok {route : ChainRoute} {u : Unit} (h : route.validate = .ok u)
    (ha : ∀ addrs, route.attestorSet = .static addrs → addrs.list ≠ [])
    (hp : ∀ ack, route.ack = some ack → 0 < ack.notReadyPollSecs) : route.Valid := by
  obtain ⟨_, hg, h⟩ := bind_ok.mp h
  obtain ⟨_, hf, h⟩ := bind_ok.mp h
  obtain ⟨_, ht, h⟩ := bind_ok.mp h
  obtain ⟨_, hb, hl⟩ := bind_ok.mp hf
  have hg := bailIf_ok.mp hg
  have hb := bailIf_ok.mp hb
  have hl := bailIf_ok.mp hl
  refine ⟨by omega, by omega, by omega, fun hauto => ?_, ha, hp⟩
  have ht := bailIf_ok.mp ht
  have hs := bailIf_ok.mp h
  simp only [hauto, true_and, Option.isNone_iff_eq_none] at ht hs
  exact ⟨Option.isSome_iff_ne_none.mpr ht, Option.isSome_iff_ne_none.mpr hs⟩

variable {parsers : Parsers}

/-! ## Parts -/

theorem collect_list {list : List Address} {addrs : Addresses}
    (h : Addresses.collect list = .ok addrs) : addrs.list = list := by
  unfold Addresses.collect at h
  split at h
  · cases h; rfl
  · cases h

theorem AttestorSetFile.parse_static {chainKey : ChainKey} {file : AttestorSetFile}
    {addrs : Addresses} (h : file.parse parsers chainKey = .ok (.static addrs)) :
    addrs.list ≠ [] := by
  cases file with
  | static addresses =>
    obtain ⟨parsed, -, h⟩ := bind_ok.mp h
    obtain ⟨_, hn, h⟩ := bind_ok.mp h
    obtain ⟨_, hc, h⟩ := bind_ok.mp h
    cases h
    rw [collect_list hc]
    exact bailIf_ok.mp hn
  | evmContract address =>
    obtain ⟨_, -, h⟩ := bind_ok.mp h
    cases h
  | cc3ActiveSet key => cases h

theorem Cli.attestors_ok {csv : String} {set : AttestorSet}
    (h : Cli.attestors parsers csv = .ok set) : ∀ addrs, set = .static addrs → addrs.list ≠ [] := by
  obtain ⟨_, -, h⟩ := bind_ok.mp h
  obtain ⟨_, -, h⟩ := bind_ok.mp h
  obtain ⟨_, hn, h⟩ := bind_ok.mp h
  cases h
  intro addrs he
  cases he
  exact bailIf_ok.mp hn

theorem AckConfigFile.parse_ok {chainKey : ChainKey} {file : AckConfigFile} {ack : AckConfig}
    (h : file.parse parsers chainKey = .ok ack) : 0 < ack.notReadyPollSecs := by
  obtain ⟨_, -, h⟩ := bind_ok.mp h
  obtain ⟨_, hp, h⟩ := bind_ok.mp h
  cases h
  exact Nat.pos_of_ne_zero (bailIf_ok.mp hp)

theorem Cli.ack_ok {cli : Cli} {o : Option AckConfig} (h : cli.ack parsers = .ok o) :
    ∀ ack, o = some ack → 0 < ack.notReadyPollSecs := by
  unfold Cli.ack at h
  split at h
  · obtain ⟨_, -, h⟩ := bind_ok.mp h
    obtain ⟨_, hp, h⟩ := bind_ok.mp h
    cases h
    intro ack he
    cases he
    exact Nat.pos_of_ne_zero (bailIf_ok.mp hp)
  · cases h
    nofun
  · cases h

/-- What an optional part is parsed to was parsed. -/
theorem mapM_some {α β : Type} {f : α → Except Error β} {o : Option α} {b : β}
    (h : o.mapM f = .ok (some b)) : ∃ a, f a = .ok b := by
  cases o with
  | none => cases h
  | some a =>
    obtain ⟨b', hb, h⟩ := bind_ok.mp h
    cases h
    exact ⟨a, hb⟩

/-! ## Routes -/

theorem ChainRouteFile.intoRoute_valid {file : ChainRouteFile} {failedRetry : FailedRetryPolicy}
    {route : ChainRoute} (h : file.intoRoute parsers failedRetry = .ok route) : route.Valid := by
  unfold intoRoute at h
  obtain ⟨_, -, h⟩ := bind_ok.mp h
  obtain ⟨_, -, h⟩ := bind_ok.mp h
  obtain ⟨_, -, h⟩ := bind_ok.mp h
  obtain ⟨attestorSet, hs, h⟩ := bind_ok.mp h
  obtain ⟨ack, ha, h⟩ := bind_ok.mp h
  obtain ⟨_, -, h⟩ := bind_ok.mp h
  obtain ⟨_, -, h⟩ := bind_ok.mp h
  obtain ⟨_, hv, h⟩ := bind_ok.mp h
  cases h
  refine ChainRoute.validate_ok hv (fun addrs he => ?_) fun a he => ?_
  · cases he
    exact AttestorSetFile.parse_static hs
  · cases he
    obtain ⟨_, ha⟩ := mapM_some ha
    exact AckConfigFile.parse_ok ha

theorem singleRouteConfig_valid {cli : Cli} {route : ChainRoute}
    (h : singleRouteConfig parsers cli = .ok route) : route.Valid := by
  unfold singleRouteConfig at h
  obtain ⟨_, -, h⟩ := bind_ok.mp h
  obtain ⟨_, -, h⟩ := bind_ok.mp h
  obtain ⟨_, -, h⟩ := bind_ok.mp h
  obtain ⟨_, -, h⟩ := bind_ok.mp h
  obtain ⟨_, -, h⟩ := bind_ok.mp h
  obtain ⟨_, -, h⟩ := bind_ok.mp h
  obtain ⟨_, -, h⟩ := bind_ok.mp h
  obtain ⟨attestorSet, hs, h⟩ := bind_ok.mp h
  obtain ⟨ack, ha, h⟩ := bind_ok.mp h
  obtain ⟨_, -, h⟩ := bind_ok.mp h
  obtain ⟨_, -, h⟩ := bind_ok.mp h
  obtain ⟨_, -, h⟩ := bind_ok.mp h
  obtain ⟨_, hv, h⟩ := bind_ok.mp h
  cases h
  exact ChainRoute.validate_ok hv (Cli.attestors_ok hs) (Cli.ack_ok ha)

theorem intoRoutes_valid {failedRetry : FailedRetryPolicy} {files : List ChainRouteFile}
    {seen : List ChainKey} {routes : List ChainRoute}
    (h : intoRoutes parsers failedRetry seen files = .ok routes) : ∀ route ∈ routes, route.Valid := by
  induction files generalizing seen routes with
  | nil => cases h; exact fun _ => nofun
  | cons file files ih =>
    obtain ⟨_, -, h⟩ := bind_ok.mp h
    obtain ⟨route, hr, h⟩ := bind_ok.mp h
    obtain ⟨rest, hrest, h⟩ := bind_ok.mp h
    cases h
    intro r hm
    rcases List.mem_cons.mp hm with rfl | hm
    · exact ChainRouteFile.intoRoute_valid hr
    · exact ih hrest r hm

/-- Every route of a configuration that is accepted has passed the checks. -/
theorem buildConfig_valid {cli : Cli} {routes : List ChainRoute}
    (h : buildConfig parsers cli = .ok routes) : ∀ route ∈ routes, route.Valid := by
  obtain ⟨_, -, h⟩ := bind_ok.mp h
  split at h
  · obtain ⟨file, -, h⟩ := bind_ok.mp (withContext_ok.mp h)
    obtain ⟨_, -, h⟩ := bind_ok.mp h
    obtain ⟨_, -, h⟩ := bind_ok.mp h
    exact intoRoutes_valid h
  · obtain ⟨_, -, h⟩ := bind_ok.mp h
    obtain ⟨route, hr, h⟩ := bind_ok.mp h
    cases h
    intro r hm
    obtain rfl := List.mem_singleton.mp hm
    exact singleRouteConfig_valid hr

/-! ## The quorum of a static set -/

/-- A quorum needs some of the attestors, and not more than there are. -/
def ChainRoute.Achievable (route : ChainRoute) (addrs : Addresses) : Prop :=
  0 < (resolveAttestors route).threshold ∧ (resolveAttestors route).threshold ≤ addrs.distinct

/-- The configured threshold can be reached; without one, fewer than a third of the list are
repetitions. -/
def ChainRoute.Sized (route : ChainRoute) (addrs : Addresses) : Prop :=
  match route.thresholdOverride with
  | some t => 1 ≤ t.toNat ∧ t.toNat ≤ addrs.distinct
  | none => 3 * (addrs.list.length - addrs.distinct) < addrs.list.length

theorem Addresses.distinct_le (addrs : Addresses) : addrs.distinct ≤ addrs.list.length :=
  (List.dedup_sublist _).length_le

theorem ChainRoute.achievable_iff {route : ChainRoute} {addrs : Addresses}
    (hs : route.attestorSet = .static addrs) : route.Achievable addrs ↔ route.Sized addrs := by
  unfold Achievable Sized resolveAttestors
  rw [hs]
  cases route.thresholdOverride with
  | some t => rfl
  | none =>
    have hd := addrs.distinct_le
    have hf := addrs.fits
    simp only [Option.map_none, Option.getD_none, calculateThreshold]
    omega

/-- The quorum of an accepted static route is achievable exactly where its configured threshold is,
or where fewer than a third of its list are repetitions (so always without repetitions); and the
computed threshold is more than two thirds of any list that is not longer than half the range of
`usize`. -/
theorem quorum_achievable {cli : Cli} {routes : List ChainRoute}
    (h : buildConfig parsers cli = .ok routes) :
    (∀ route ∈ routes, ∀ addrs, route.attestorSet = .static addrs →
      (resolveAttestors route).attestors = addrs.list ∧
      (route.Achievable addrs ↔ route.Sized addrs) ∧
      (route.thresholdOverride = none → addrs.list.Nodup → route.Achievable addrs)) ∧
    ∀ n, 1 ≤ n → n < 2 ^ 64 →
      (calculateThreshold n ≤ n ∧ 2 * n < 3 * calculateThreshold n ↔ n < 2 ^ 63) := by
  refine ⟨fun route hm addrs hs => ⟨?_, route.achievable_iff hs, fun hn hd => ?_⟩,
    fun n => calculateThreshold_law⟩
  · rw [resolveAttestors, hs]
  · rw [ChainRoute.achievable_iff hs, ChainRoute.Sized, hn]
    have hpos := List.length_pos_of_ne_nil ((buildConfig_valid h route hm).attestors addrs hs)
    have hl : addrs.distinct = addrs.list.length := by rw [Addresses.distinct, hd.dedup]
    dsimp only
    omega

/-! ## Lists with and without repetitions -/

/-- Addresses are 20 bytes in hexadecimal. -/
def hexParsers : Parsers where
  address s := ((Hex.decodeToSlice 20 (Hex.stripPrefix (Hex.utf8 s))).mapError
    Hex.FromHexError.text).map fun bs => .ofNat 160 (beNat bs)
  u256 _ _ := .error "invalid digit"

def sampleFile (addresses : List String) : ChainRouteFile where
  chainKey := 2
  creditcoinChainId := 102031
  destinationRpcUrl := "http://localhost:8545"
  inboxAddress := "0x0000000000000000000000000000000000000002"
  signerKey := none
  outboxAddress := none
  relayerContractAddress := none
  blockConfirmationDepth := 12
  startBlock := none
  attestorSet := .static addresses
  thresholdOverride := none
  ack := none
  claim := none
  maxNativeCoinValueWei := none
  maxGasLimit := 5000000
  autoRequestTopUp := false
  failedRetryMaxAttempts := none
  failedRetryInitialBackoffSecs := none
  failedRetryMaxBackoffSecs := none

def sampleCli (addresses : List String) : Cli where
  config := some ("config.yaml",
    .ok { delivery := ⟨5, 60, 4 * 3600⟩, routes := [sampleFile addresses] })
  singleRoute := false
  chainKey := none
  cc3ChainId := none
  destinationRpcUrl := none
  inboxAddress := none
  signerKey := none
  outboxAddress := none
  attestorSet := none
  thresholdOverride := none
  relayerContractAddress := none
  feeVaultAddress := none
  maxNativeCoinValueWei := "0"
  maxGasLimit := 5000000
  autoRequestTopUp := false
  ackProofGenUrl := none
  ackValidatorAddress := none
  ackSignerKey := none
  ackConfirmationDepth := 0
  ackNotReadyPollSecs := 20
  ackNotReadyPollWindowSecs := 1800
  claimProofGenUrl := none
  claimSourceBridgeAddress := none
  claimTargetAddress := none
  claimSignerKey := none
  claimConfirmationDepth := 0

def sampleRoute (addrs : Addresses) : ChainRoute where
  chainKey := 2
  creditcoinChainId := 102031
  destinationRpcUrl := "http://localhost:8545"
  inboxAddress := 2
  signerKey := none
  outboxAddress := none
  relayerContractAddress := none
  blockConfirmationDepth := 12
  startBlock := none
  attestorSet := .static addrs
  thresholdOverride := none
  ack := none
  claim := none
  maxNativeCoinValueWei := 0
  maxGasLimit := 5000000
  autoRequestTopUp := false
  failedRetry := defaultFailedRetry

/-- Four attestors, all different. -/
theorem quorum_achievable_four :
    (sampleRoute ⟨[1, 2, 3, 4], by decide⟩).Achievable ⟨[1, 2, 3, 4], by decide⟩ := by
  have h : buildConfig hexParsers (sampleCli ["0x0000000000000000000000000000000000000001",
      "0x0000000000000000000000000000000000000002", "0x0000000000000000000000000000000000000003",
      "0x0000000000000000000000000000000000000004"]) = .ok [sampleRoute ⟨[1, 2, 3, 4], by decide⟩] := rfl
  exact ((quorum_achievable h).1 _ List.mem_cons_self _ rfl).2.2 rfl (by decide)

/-- One attestor, listed three times: two more than there are would have to vote. -/
theorem quorum_achievable_repeated : ¬ ∀ (parsers : Parsers) (cli : Cli) (routes : List ChainRoute),
    buildConfig parsers cli = .ok routes → ∀ route ∈ routes, ∀ addrs,
      route.attestorSet = .static addrs → route.Achievable addrs := by
  intro h
  have hr := h hexParsers (sampleCli ["0x000000000000000000000000000000000000000a",
      "0x000000000000000000000000000000000000000a", "0x000000000000000000000000000000000000000a"])
    [sampleRoute ⟨[10, 10, 10], by decide⟩] rfl _ List.mem_cons_self _ rfl
  exact absurd hr.2 (by decide)

end MessageRelayer.Config

import MessageRelayer.Config.Route

/-!
# Start-up

How the routes of the process are read: from a YAML file with any number of
them (`ConfigFile.intoConfig`), or as one route from the command line
(`singleRouteConfig`). Either way the first thing that is wrong ends start-up,
with an error that names it.
-/

namespace MessageRelayer.Config

/-- The parsers of libraries. -/
structure Parsers where
  /-- `Address::from_str`. -/
  address : String → Except String Address
  /-- `U256::from_str_radix`. -/
  u256 : String → Nat → Except String B256

/-! ## Fields -/

section
variable (parsers : Parsers)

/-- `Address::from_str`, with a context for its error. -/
def addressOf (context s : String) : Except Error Address :=
  withContext context ((parsers.address s).mapError ([·]))

def parseAddress (raw : String) : Except Error Address :=
  addressOf parsers s!"not a valid 0x-hex EVM address: {raw}" (trimText raw)

/-- The text after `0x` or `0X`. -/
def stripHex (s : String) : Option String :=
  match s.toList with
  | '0' :: 'x' :: rest | '0' :: 'X' :: rest => some (String.ofList rest)
  | _ => none

/-- A decimal integer, or hexadecimal digits behind a prefix. -/
def parseWei (raw : String) : Except Error B256 := do
  let s := String.ofList ((trimText raw).toList.filter (· ≠ '_'))
  bailIf (s = "") "empty wei amount"
  let parsed := match stripHex s with
    | some hex => parsers.u256 hex 16
    | none => parsers.u256 s 10
  withContext s!"not a valid wei amount (decimal or 0x-hex, ≤ 256 bits): {raw}"
    (parsed.mapError ([·]))

end

/-! ## The file -/

inductive WeiFile where
  | int (n : UInt64)
  | str (s : String)

inductive AttestorSetFile where
  | static (addresses : List String)
  | evmContract (address : String)
  | cc3ActiveSet (chainKey : ChainKey)

structure AckConfigFile where
  proofGenUrl : String
  validatorAddress : String
  signerKey : String
  confirmationDepth : Nat
  startBlock : Option Nat
  notReadyPollSecs : Nat
  notReadyPollWindowSecs : Nat

structure ClaimConfigFile where
  proofGenUrl : String
  sourceBridgeAddress : String
  targetAddress : String
  signerKey : String
  confirmationDepth : Nat
  startBlock : Option Nat

structure ChainRouteFile where
  chainKey : ChainKey
  creditcoinChainId : Nat
  destinationRpcUrl : String
  inboxAddress : String
  signerKey : Option String
  outboxAddress : Option String
  relayerContractAddress : Option String
  blockConfirmationDepth : Nat
  startBlock : Option Nat
  attestorSet : AttestorSetFile
  thresholdOverride : Option UInt32
  ack : Option AckConfigFile
  claim : Option ClaimConfigFile
  maxNativeCoinValueWei : Option WeiFile
  maxGasLimit : Nat
  autoRequestTopUp : Bool
  failedRetryMaxAttempts : Option UInt32
  failedRetryInitialBackoffSecs : Option Nat
  failedRetryMaxBackoffSecs : Option Nat

structure DeliveryConfigFile where
  failedRetryMaxAttempts : UInt32
  failedRetryInitialBackoffSecs : Nat
  failedRetryMaxBackoffSecs : Nat

structure ConfigFile where
  delivery : DeliveryConfigFile
  routes : List ChainRouteFile

theorem toNat_le_u32Max (n : UInt32) : n.toNat ≤ u32Max :=
  Nat.le_pred_of_lt n.toNat_lt

def DeliveryConfigFile.failedRetry (file : DeliveryConfigFile) : FailedRetryPolicy where
  maxAttempts := file.failedRetryMaxAttempts.toNat
  initialBackoffSecs := file.failedRetryInitialBackoffSecs
  maxBackoffSecs := file.failedRetryMaxBackoffSecs
  inRange := toNat_le_u32Max _

/-- A route's own schedule over the global one. -/
def ChainRouteFile.failedRetryOver (file : ChainRouteFile) (failedRetry : FailedRetryPolicy) :
    FailedRetryPolicy where
  maxAttempts := (file.failedRetryMaxAttempts.map UInt32.toNat).getD failedRetry.maxAttempts
  initialBackoffSecs := file.failedRetryInitialBackoffSecs.getD failedRetry.initialBackoffSecs
  maxBackoffSecs := file.failedRetryMaxBackoffSecs.getD failedRetry.maxBackoffSecs
  inRange := by
    cases file.failedRetryMaxAttempts with
    | none => exact failedRetry.inRange
    | some n => exact toNat_le_u32Max n

/-- `DEFAULT_MAX_NATIVE_COIN_VALUE_WEI`. -/
def defaultMaxNativeCoinValueWei : B256 := 0

section
variable (parsers : Parsers)

def WeiFile.parse : WeiFile → Except Error B256
  | int n => .ok (.ofNat 256 n.toNat)
  | str s => parseWei parsers s

def AttestorSetFile.parse (chainKey : ChainKey) : AttestorSetFile → Except Error AttestorSet
  | static addresses => do
    let parsed ← addresses.mapM fun raw =>
      withContext s!"invalid attestor address `{raw}` for chain_key {chainKey}"
        (parseAddress parsers raw)
    bailIf (parsed = [])
      s!"attestor_set.static.addresses must be non-empty for chain_key {chainKey}"
    return .static (← Addresses.collect parsed)
  | evmContract address => do
    let address ← withContext
      s!"invalid attestor_set.evm_contract.address for chain_key {chainKey}"
      (parseAddress parsers address)
    return .onChain (.evm address)
  | cc3ActiveSet key => return .onChain (.cc3 key)

def AckConfigFile.parse (chainKey : ChainKey) (file : AckConfigFile) : Except Error AckConfig := do
  let validatorAddress ← withContext s!"invalid ack.validator_address for chain_key {chainKey}"
    (parseAddress parsers file.validatorAddress)
  validateAckNotReadyPollSecs file.notReadyPollSecs s!"chain_key {chainKey}"
  return {
    proofGenUrl := file.proofGenUrl
    validatorAddress
    signerKey := file.signerKey
    confirmationDepth := file.confirmationDepth
    startBlock := file.startBlock
    notReadyPollSecs := file.notReadyPollSecs
    notReadyPollWindowSecs := file.notReadyPollWindowSecs }

def ClaimConfigFile.parse (chainKey : ChainKey) (file : ClaimConfigFile) :
    Except Error ClaimConfig := do
  let sourceBridgeAddress ← withContext
    s!"invalid claim.source_bridge_address for chain_key {chainKey}"
    (parseAddress parsers file.sourceBridgeAddress)
  let targetAddress ← withContext s!"invalid claim.target_address for chain_key {chainKey}"
    (parseAddress parsers file.targetAddress)
  return {
    proofGenUrl := file.proofGenUrl
    sourceBridgeAddress
    targetAddress
    signerKey := file.signerKey
    confirmationDepth := file.confirmationDepth
    startBlock := file.startBlock }

def ChainRouteFile.intoRoute (file : ChainRouteFile) (failedRetry : FailedRetryPolicy) :
    Except Error ChainRoute := do
  let key := file.chainKey
  let inboxAddress ← withContext s!"invalid inbox_address for chain_key {key}"
    (parseAddress parsers file.inboxAddress)
  let outboxAddress ← withContext s!"invalid outbox_address for chain_key {key}"
    (file.outboxAddress.mapM (parseAddress parsers))
  let relayerContractAddress ← withContext s!"invalid relayer_contract_address for chain_key {key}"
    (file.relayerContractAddress.mapM (parseAddress parsers))
  let attestorSet ← file.attestorSet.parse parsers key
  let ack ← file.ack.mapM (AckConfigFile.parse parsers key)
  let claim ← file.claim.mapM (ClaimConfigFile.parse parsers key)
  let wei ← withContext s!"invalid max_native_coin_value_wei for chain_key {key}"
    (file.maxNativeCoinValueWei.mapM (WeiFile.parse parsers))
  let route : ChainRoute := {
    chainKey := key
    creditcoinChainId := file.creditcoinChainId
    destinationRpcUrl := file.destinationRpcUrl
    inboxAddress
    signerKey := file.signerKey
    outboxAddress
    relayerContractAddress
    blockConfirmationDepth := file.blockConfirmationDepth
    startBlock := file.startBlock
    attestorSet
    thresholdOverride := file.thresholdOverride
    ack
    claim
    maxNativeCoinValueWei := wei.getD defaultMaxNativeCoinValueWei
    maxGasLimit := file.maxGasLimit
    autoRequestTopUp := file.autoRequestTopUp
    failedRetry := file.failedRetryOver failedRetry }
  route.validate
  return route

/-- The routes of a file, after those of the chains seen. -/
def intoRoutes (failedRetry : FailedRetryPolicy) (seen : List ChainKey) :
    List ChainRouteFile → Except Error (List ChainRoute)
  | [] => return []
  | file :: files => do
    bailIf (file.chainKey ∈ seen) s!"duplicate chain_key {file.chainKey} in config"
    let route ← file.intoRoute parsers failedRetry
    return route :: (← intoRoutes failedRetry (file.chainKey :: seen) files)

def ConfigFile.intoConfig (file : ConfigFile) : Except Error (List ChainRoute) := do
  bailIf (file.routes = []) "config must include at least one entry in `routes`"
  let failedRetry := file.delivery.failedRetry
  validateFailedRetry failedRetry "delivery"
  intoRoutes parsers failedRetry [] file.routes

end

/-! ## The command line -/

structure Cli where
  /-- The path of `--config`, and what reading the file yields. -/
  config : Option (String × Except Error ConfigFile)
  singleRoute : Bool
  chainKey : Option ChainKey
  cc3ChainId : Option Nat
  destinationRpcUrl : Option String
  inboxAddress : Option String
  signerKey : Option String
  outboxAddress : Option String
  attestorSet : Option String
  thresholdOverride : Option UInt32
  relayerContractAddress : Option String
  /-- `RELAYER_RELAYER_FEE_VAULT_ADDRESS`, the old name of the one before. -/
  feeVaultAddress : Option String
  maxNativeCoinValueWei : String
  maxGasLimit : Nat
  autoRequestTopUp : Bool
  ackProofGenUrl : Option String
  ackValidatorAddress : Option String
  ackSignerKey : Option String
  ackConfirmationDepth : Nat
  ackNotReadyPollSecs : Nat
  ackNotReadyPollWindowSecs : Nat
  claimProofGenUrl : Option String
  claimSourceBridgeAddress : Option String
  claimTargetAddress : Option String
  claimSignerKey : Option String
  claimConfirmationDepth : Nat

/-- `FailedRetryPolicy::default`. -/
def defaultFailedRetry : FailedRetryPolicy := ⟨5, 60, 4 * 3600, by decide⟩

def required {α : Type} (o : Option α) (message : String) : Except Error α :=
  match o with
  | some a => .ok a
  | none => .error [message]

section
variable (parsers : Parsers)

/-- The addresses between commas. -/
def Cli.attestors (csv : String) : Except Error AttestorSet := do
  let parsed ← (((csv.splitOn ",").map trimText).filter (· ≠ "")).mapM fun s =>
    addressOf parsers s!"invalid attestor address: {s}" s
  let addrs ← Addresses.collect parsed
  bailIf (addrs.list = []) "--attestor-set must contain at least one EVM address"
  return .static addrs

/-- All three flags, or none of them. -/
def Cli.ack (cli : Cli) : Except Error (Option AckConfig) :=
  match cli.ackProofGenUrl, cli.ackValidatorAddress, cli.ackSignerKey with
  | some proofGenUrl, some validatorRaw, some signerKey => do
    let validatorAddress ← addressOf parsers s!"invalid --ack-validator-address: {validatorRaw}"
      (trimText validatorRaw)
    validateAckNotReadyPollSecs cli.ackNotReadyPollSecs "--ack-not-ready-poll-secs"
    return some {
      proofGenUrl
      validatorAddress
      signerKey
      confirmationDepth := cli.ackConfirmationDepth
      startBlock := none
      notReadyPollSecs := cli.ackNotReadyPollSecs
      notReadyPollWindowSecs := cli.ackNotReadyPollWindowSecs }
  | none, none, none => return none
  | _, _, _ => .error ["--ack-proof-gen-url, --ack-validator-address and --ack-signer-key must " ++
      "all be set together to enable the acknowledgment submitter"]

/-- All four flags, or none of them. -/
def Cli.claim (cli : Cli) : Except Error (Option ClaimConfig) :=
  match cli.claimProofGenUrl, cli.claimSourceBridgeAddress, cli.claimTargetAddress,
    cli.claimSignerKey with
  | some proofGenUrl, some sourceRaw, some targetRaw, some signerKey => do
    let sourceBridgeAddress ← addressOf parsers
      s!"invalid --claim-source-bridge-address: {sourceRaw}" (trimText sourceRaw)
    let targetAddress ← addressOf parsers s!"invalid --claim-target-address: {targetRaw}"
      (trimText targetRaw)
    return some {
      proofGenUrl
      sourceBridgeAddress
      targetAddress
      signerKey
      confirmationDepth := cli.claimConfirmationDepth
      startBlock := none }
  | none, none, none, none => return none
  | _, _, _, _ => .error ["--claim-proof-gen-url, --claim-source-bridge-address, " ++
      "--claim-target-address and --claim-signer-key must all be set together to enable the " ++
      "claim submitter"]

def singleRouteConfig (cli : Cli) : Except Error ChainRoute := do
  let chainKey ← required cli.chainKey "--chain-key is required for --single-route"
  let cc3ChainId ← required cli.cc3ChainId "--cc3-chain-id is required for --single-route"
  let destinationRpcUrl ← required cli.destinationRpcUrl
    "--destination-rpc-url is required for --single-route"
  let inboxRaw ← required cli.inboxAddress "--inbox-address is required for --single-route"
  let attestorCsv ← required cli.attestorSet "--attestor-set is required for --single-route"
  let inboxAddress ← addressOf parsers s!"invalid --inbox-address: {inboxRaw}" (trimText inboxRaw)
  let outboxAddress ← cli.outboxAddress.mapM fun raw =>
    addressOf parsers s!"invalid --outbox-address: {raw}" (trimText raw)
  let attestorSet ← Cli.attestors parsers attestorCsv
  let ack ← cli.ack parsers
  let claim ← cli.claim parsers
  let rawRelayerContract :=
    cli.relayerContractAddress.or (cli.feeVaultAddress.filter fun v => trimText v ≠ "")
  let relayerContractAddress ← rawRelayerContract.mapM fun raw =>
    addressOf parsers s!"invalid --relayer-contract-address: {raw}" (trimText raw)
  let maxNativeCoinValueWei ← withContext
    s!"invalid --max-native-coin-value-wei: {cli.maxNativeCoinValueWei}"
    (parseWei parsers cli.maxNativeCoinValueWei)
  let route : ChainRoute := {
    chainKey
    creditcoinChainId := cc3ChainId
    destinationRpcUrl
    inboxAddress
    signerKey := cli.signerKey
    outboxAddress
    relayerContractAddress
    blockConfirmationDepth := 0
    startBlock := none
    attestorSet
    thresholdOverride := cli.thresholdOverride
    ack
    claim
    maxNativeCoinValueWei
    maxGasLimit := cli.maxGasLimit
    autoRequestTopUp := cli.autoRequestTopUp
    failedRetry := defaultFailedRetry }
  route.validate
  return route

/-- The routes that start-up accepts. -/
def buildConfig (cli : Cli) : Except Error (List ChainRoute) := do
  bailIf (cli.config.isSome = true ∧ cli.singleRoute = true)
    "--config and --single-route are mutually exclusive"
  match cli.config with
  | some (path, file) =>
    withContext s!"failed to load relayer config from {path}"
      (file >>= ConfigFile.intoConfig parsers)
  | none =>
    bailIf (cli.singleRoute = false) "either --config <path> or --single-route must be supplied"
    return [← singleRouteConfig parsers cli]

end

end MessageRelayer.Config

import MessageRelayer.Hex
import MessageRelayer.Wire

/-!
# The proof-gen client

`proofgen`: a proof is fetched by the hash of its transaction, and the answer
of the server says whether it is there, not there yet, or refused for good
(`classifyProofResponse`); what a proof carries in hexadecimal is decoded when
it is submitted. The JSON of the bodies, as parsing it yields, is a parameter
(`ProofGenCodec`).
-/

namespace MessageRelayer

/-- The fields of proof-gen's error body that are read. -/
structure ProofGenErrorBody where
  code : Option String
  message : Option String
  retriable : Option Bool

structure SingleContinuityResponse where
  headerNumber : Nat
  txBytes : Option String
  lowerEndpointDigest : String
  roots : List String
  merkleRoot : String
  /-- The hashes, and whether each is on the left. -/
  siblings : List (String × Bool)

structure ProofNotReady where
  status : Nat
  code : String
  message : String

structure ProofRejected where
  status : Nat
  code : String
  message : String

inductive ProofFetch where
  | ready (proof : SingleContinuityResponse)
  | notReady (reason : ProofNotReady)
  | rejected (reason : ProofRejected)

/-- The JSON bodies, and the names of the HTTP statuses. -/
structure ProofGenCodec where
  errorBody : String → Option ProofGenErrorBody
  response : String → Except String SingleContinuityResponse
  canonicalReason : Nat → Option String

/-- What became of the request. -/
inductive HttpResult where
  | failed (text : String)
  /-- The body could not be read. -/
  | bodyFailed (text : String)
  | response (status : Nat) (body : String)

/-- `char::is_whitespace`. -/
def isWhitespace (c : Char) : Bool :=
  let n := c.toNat
  (9 ≤ n && n ≤ 13) || n == 0x20 || n == 0x85 || n == 0xA0 || n == 0x1680 ||
    (0x2000 ≤ n && n ≤ 0x200A) || n == 0x2028 || n == 0x2029 || n == 0x202F || n == 0x205F ||
    n == 0x3000

/-- `str::trim`. -/
def trimText (s : String) : String :=
  String.ofList ((s.toList.dropWhile isWhitespace).reverse.dropWhile isWhitespace).reverse

section
variable (codec : ProofGenCodec)

/-- The code and the message of an error body that says `retriable` with a code. -/
def declaredRetriable (body : String) (retriable : Bool) : Option (String × String) := do
  let parsed ← codec.errorBody body
  if parsed.retriable ≠ some retriable then none
  let code ← parsed.code.filter fun c => trimText c ≠ ""
  pure (code, parsed.message.getD "")

/-- A 4xx whose body says that repeating the request cannot help. -/
def rejection (status : Nat) (body : String) : Option ProofRejected :=
  if 400 ≤ status ∧ status < 500 then
    (declaredRetriable codec body false).map fun (code, message) => { status, code, message }
  else none

/-- A 5xx whose body says that the same request will succeed later. -/
def retriableServerError (status : Nat) (body : String) : Option ProofNotReady :=
  if 500 ≤ status ∧ status < 600 then
    (declaredRetriable codec body true).map fun (code, message) => { status, code, message }
  else none

def classifyProofResponse (status : Nat) (body url : String) : Except Error ProofFetch :=
  if status = 422 ∨ status = 404 then
    let parsed := codec.errorBody body
    let code := (parsed.bind (·.code)).filter fun c => trimText c ≠ ""
    let reason := String.ofList
      (((codec.canonicalReason status).getD "not ready").toList.filter (· ≠ ' '))
    .ok (.notReady
      { status
        code := code.getD reason
        message := (parsed.bind (·.message)).getD "" })
  else match retriableServerError codec status body with
    | some reason => .ok (.notReady reason)
    | none =>
      match rejection codec status body with
      | some reason => .ok (.rejected reason)
      | none =>
        if ¬ (200 ≤ status ∧ status < 300) then
          .error ["proof-gen returned " ++ toString status ++ " " ++
            (codec.canonicalReason status).getD "<unknown status code>" ++ " for " ++ url ++ ": " ++ body]
        else match codec.response body with
          | .ok proof => .ok (.ready proof)
          | .error e => .error ["decoding proof-gen response from " ++ url, e]

def proofByTxUrl (base : String) (chainKey : ChainKey) (txHash : B256) : String :=
  base ++ "/api/v1/proof-by-tx/" ++ toString chainKey ++ "/" ++ Hex.prefixed (word txHash.toNat)

/-- `ProofGenClient::proof_by_tx`, from what became of its request. -/
def proofByTx (url : String) : HttpResult → Except Error ProofFetch
  | .failed e => .error ["GET " ++ url ++ " failed", e]
  | .bodyFailed e => .error ["reading body of " ++ url, e]
  | .response status body => classifyProofResponse codec status body url

end

/-! ## What a proof carries -/

/-- A Merkle inclusion proof, as it is submitted. -/
structure MerkleProof where
  root : B256
  siblings : List (B256 × Bool)
  deriving DecidableEq

structure ContinuityProof where
  lowerEndpointDigest : B256
  roots : List B256
  deriving DecidableEq

/-- `str::trim_start_matches("0x")`. -/
def trimStart0x : Bytes → Bytes
  | 48 :: 120 :: rest => trimStart0x rest
  | cs => cs

def hexError {α : Type} (context : Error) (r : Except Hex.FromHexError α) : Except Error α :=
  r.mapError fun e => context ++ [e.text]

/-- A 32-byte word in hexadecimal, with or without a prefix. -/
def parseB256 (s : String) : Except Error B256 := do
  let bytes ← hexError ["not a 32-byte hex value: " ++ s]
    (Hex.decodeToSlice 32 (Hex.stripPrefix (Hex.utf8 (trimText s))))
  pure (BitVec.ofNat 256 (beNat bytes))

namespace SingleContinuityResponse

/-- The encoded transaction. -/
def encodedTransaction (proof : SingleContinuityResponse) : Except Error Bytes :=
  match proof.txBytes with
  | none => .error
    ["proof-gen response missing txBytes (continuity-only proof cannot be submitted)"]
  | some raw => hexError ["txBytes is not valid hex"] (Hex.decode (trimStart0x (Hex.utf8 raw)))

/-- A word of the proof that names its field in its error. -/
def field (name s : String) : Except Error B256 := (parseB256 s).mapError (name :: ·)

def toProofs (proof : SingleContinuityResponse) : Except Error (MerkleProof × ContinuityProof) := do
  let root ← field "merkle_proof.root" proof.merkleRoot
  let siblings ← proof.siblings.mapM fun (hash, isLeft) => do
    pure (← field "merkle_proof.siblings[].hash" hash, isLeft)
  let lowerEndpointDigest ←
    field "continuity_proof.lower_endpoint_digest" proof.lowerEndpointDigest
  let roots ← proof.roots.mapM (field "continuity_proof.roots[]")
  pure ({ root, siblings }, { lowerEndpointDigest, roots })

end SingleContinuityResponse

end MessageRelayer

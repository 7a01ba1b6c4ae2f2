import MessageRelayer.Hex
import MessageRelayer.Observer.Json
import MessageRelayer.Pool.State
import MessageRelayer.Wire

/-!
# The observer node

`observer-node`: what a node that only listens makes of the frames of the mesh
(`observeVote`, `observeReobservation`, `observeSetUpdate`), the events that it
sends to its subscribers as JSON (`ObserverEvent`, `Filter`), and the frames
that they may send to it (`ClientFrame`, `publishReobservation`).
-/

namespace MessageRelayer.Observer

/-! ## Events -/

inductive EventKind where
  | messageVote
  | reobservationRequest
  | setUpdateVote
  | peerStatus
  deriving DecidableEq

def EventKind.text : EventKind → String
  | messageVote => "message_vote"
  | reobservationRequest => "reobservation_request"
  | setUpdateVote => "attestor_set_update"
  | peerStatus => "peer_status"

/-- One observation. -/
inductive ObserverEvent where
  | messageVote (chainKey : ChainKey) (messageId messageHash signer : String) (signatureValid : Bool)
      (signature sourcePeer : String) (receivedAtMs : Nat)
  | reobservationRequest (chainKey : ChainKey) (messageId txHash : String) (blockHeight : Nat)
      (sourcePeer : String) (receivedAtMs : Nat)
  | setUpdateVote (chainKey : ChainKey) (newAttestors : List String) (nonce signer signature : String)
      (sourcePeer : String) (receivedAtMs : Nat)
  | peerStatus (chainKey : ChainKey) (subscribedPeers : Nat) (receivedAtMs : Nat)

/-- A word as `0x` and its digits. -/
def hexWord {n : Nat} (x : BitVec (8 * n)) : String := Hex.prefixed (toBe x).toList

def hexSignature (signature : RawSignature) : String := Hex.prefixed signature.toList

namespace ObserverEvent

/-- The constructor `message_vote`; an address prints as a word does. -/
def ofVote (chainKey : ChainKey) (messageId : B256) (signer : Address) (signatureValid : Bool)
    (signature : RawSignature) (sourcePeer : String) (nowMs : Nat) : ObserverEvent :=
  .messageVote chainKey (hexWord (n := 32) messageId) (hexWord (n := 32) messageId)
    (hexWord (n := 20) signer) signatureValid (hexSignature signature) sourcePeer nowMs

/-- The constructor `reobservation_request`. -/
def ofRequest (chainKey : ChainKey) (messageId txHash : B256) (blockHeight : Nat)
    (sourcePeer : String) (nowMs : Nat) : ObserverEvent :=
  .reobservationRequest chainKey (hexWord (n := 32) messageId) (hexWord (n := 32) txHash) blockHeight
    sourcePeer nowMs

/-- The constructor `set_update_vote`. -/
def ofSetUpdate (chainKey : ChainKey) (newAttestors : List Address) (nonce : B256) (signer : Address)
    (signature : RawSignature) (sourcePeer : String) (nowMs : Nat) : ObserverEvent :=
  .setUpdateVote chainKey (newAttestors.map fun a => hexWord (n := 20) a) (hexWord (n := 32) nonce)
    (hexWord (n := 20) signer) (hexSignature signature) sourcePeer nowMs

def chainKey : ObserverEvent → ChainKey
  | messageVote chainKey .. | reobservationRequest chainKey .. | setUpdateVote chainKey ..
  | peerStatus chainKey .. => chainKey

def messageId : ObserverEvent → Option String
  | messageVote _ messageId .. | reobservationRequest _ messageId .. => some messageId
  | setUpdateVote .. | peerStatus .. => none

def kind : ObserverEvent → EventKind
  | messageVote .. => .messageVote
  | reobservationRequest .. => .reobservationRequest
  | setUpdateVote .. => .setUpdateVote
  | peerStatus .. => .peerStatus

/-- `Serialize`, with the kind as the member `type`. -/
def toJson : ObserverEvent → Json
  | messageVote chainKey messageId messageHash signer signatureValid signature sourcePeer
      receivedAtMs => .obj
    [("type", .str EventKind.messageVote.text), ("chain_key", .ofU64 chainKey),
      ("message_id", .str messageId), ("message_hash", .str messageHash), ("signer", .str signer),
      ("signature_valid", .bool signatureValid), ("signature", .str signature),
      ("source_peer", .str sourcePeer), ("received_at_ms", .ofU64 receivedAtMs)]
  | reobservationRequest chainKey messageId txHash blockHeight sourcePeer receivedAtMs => .obj
    [("type", .str EventKind.reobservationRequest.text), ("chain_key", .ofU64 chainKey),
      ("message_id", .str messageId), ("tx_hash", .str txHash), ("block_height", .ofU64 blockHeight),
      ("source_peer", .str sourcePeer), ("received_at_ms", .ofU64 receivedAtMs)]
  | setUpdateVote chainKey newAttestors nonce signer signature sourcePeer receivedAtMs => .obj
    [("type", .str EventKind.setUpdateVote.text), ("chain_key", .ofU64 chainKey),
      ("new_attestors", .arr (newAttestors.map .str)), ("nonce", .str nonce), ("signer", .str signer),
      ("signature", .str signature), ("source_peer", .str sourcePeer),
      ("received_at_ms", .ofU64 receivedAtMs)]
  | peerStatus chainKey subscribedPeers receivedAtMs => .obj
    [("type", .str EventKind.peerStatus.text), ("chain_key", .ofU64 chainKey),
      ("subscribed_peers", .ofU64 subscribedPeers), ("received_at_ms", .ofU64 receivedAtMs)]

end ObserverEvent

/-! ## Frames of the mesh -/

/-- What the node tells gossipsub of a frame. -/
inductive MessageAcceptance where
  | accept
  | reject
  deriving DecidableEq

section
variable (S : Scale) (ecrecover : Ecrecover) (chainKey : ChainKey) (data : Bytes) (source : String)
  (nowMs : Nat)

/-- A frame on the vote topic of a chain: the signer is the one that the signature recovers to, and
without one that of the envelope. -/
def observeVote : MessageAcceptance × Option ObserverEvent :=
  match MessageVote.decodeBytes S data with
  | none => (.reject, none)
  | some vote =>
    if vote.chainKey = chainKey then
      let (signer, signatureValid) :=
        match ecrecover vote.messageId vote.signature with
        | .ok recovered => (recovered, decide (recovered = vote.signer))
        | .error _ => (vote.signer, false)
      (.accept, some (.ofVote chainKey vote.messageId signer signatureValid vote.signature source nowMs))
    else (.reject, none)

def observeReobservation : MessageAcceptance × Option ObserverEvent :=
  match ReobservationRequest.decodeBytes S data with
  | none => (.reject, none)
  | some req =>
    if req.chainKey = chainKey then
      (.accept, some (.ofRequest chainKey req.messageId req.txHash req.blockHeight source nowMs))
    else (.reject, none)

/-- The signature covers what the node does not know, so that nothing is recovered. -/
def observeSetUpdate : MessageAcceptance × Option ObserverEvent :=
  match SetUpdateVote.decodeBytes S data with
  | none => (.reject, none)
  | some vote =>
    if vote.chainKey = chainKey then
      (.accept, some
        (.ofSetUpdate chainKey vote.newAttestors vote.nonce vote.signer vote.signature source nowMs))
    else (.reject, none)

end

/-! ## Frames of a subscriber -/

/-- What a subscriber wants; nothing named is everything. -/
structure Filter where
  chainKeys : List ChainKey
  events : List EventKind
  messageId : Option String

def Filter.default : Filter := ⟨[], [], none⟩

/-- `str::eq_ignore_ascii_case`. -/
def eqIgnoreAsciiCase (a b : String) : Bool :=
  decide (a.toList.map Char.toLower = b.toList.map Char.toLower)

def Filter.matches (f : Filter) (event : ObserverEvent) : Bool :=
  if !f.chainKeys.isEmpty && !f.chainKeys.contains event.chainKey then false
  else if !f.events.isEmpty && !f.events.contains event.kind then false
  else match f.messageId with
    | some want => event.messageId.any fun id => eqIgnoreAsciiCase id want
    | none => true

structure PublishReobservation where
  chainKey : ChainKey
  messageId : String
  txHash : String
  blockHeight : Nat

inductive ClientFrame where
  | subscribe (filter : Filter)
  | publishReobservation (publish : PublishReobservation)

def EventKind.ofText (s : String) : Option EventKind :=
  [messageVote, reobservationRequest, setUpdateVote, peerStatus].find? fun k => decide (k.text = s)

/-- A unit variant is its name, or an object of its name and nothing. -/
def EventKind.ofJson : Json → Option EventKind
  | .str s | .obj [(s, .null)] => ofText s
  | _ => none

/-- A field with `#[serde(default)]`. -/
def orDefault {α : Type} (default : α) (read : Json → Option α) : Option Json → Option α
  | none => some default
  | some j => read j

/-- `Option<String>`. -/
def optionalStr : Json → Option (Option String)
  | .null => some none
  | j => j.asStr.map some

def Filter.ofJson (j : Json) : Option Filter := do
  let [chainKeys, events, messageId] ← j.fields true ["chain_keys", "events", "message_id"] | none
  pure
    { chainKeys := ← orDefault [] (Json.asVec Json.asU64) chainKeys
      events := ← orDefault [] (Json.asVec EventKind.ofJson) events
      messageId := ← orDefault none optionalStr messageId }

def PublishReobservation.ofJson (j : Json) : Option PublishReobservation := do
  let [some chainKey, some messageId, some txHash, some blockHeight] ←
    j.fields true ["chain_key", "message_id", "tx_hash", "block_height"] | none
  pure
    { chainKey := ← chainKey.asU64
      messageId := ← messageId.asStr
      txHash := ← txHash.asStr
      blockHeight := ← blockHeight.asU64 }

def ClientFrame.ofJson : Json → Option ClientFrame
  | .obj [("subscribe", j)] => (Filter.ofJson j).map .subscribe
  | .obj [("publish_reobservation", j)] => (PublishReobservation.ofJson j).map .publishReobservation
  | _ => none

/-! ## Publishing -/

/-- What the socket needs of its configuration. -/
structure WsState where
  allowPublish : Bool
  chainKeys : List ChainKey

/-- The `n` bytes of a field, in hexadecimal with or without a prefix; `context` is the error for
another length. -/
def parseField (n : Nat) (context : Nat → String) (s : String) : Except Error (Vector Byte n) :=
  let hex := Hex.stripPrefix (Hex.utf8 s)
  if hex.length ≠ n * 2 then .error [context hex.length]
  else match h : Hex.decodeToSlice n hex with
    | .error e => .error [e.text]
    | .ok bs => .ok ⟨bs.toArray, by rw [List.size_toArray, (Hex.decodeToSlice_digits h).2.1]⟩

def parseHex32 (s : String) : Except Error B256 :=
  (parseField 32 (fun _ => "expected 32-byte 0x hex string") s).map ofBe

/-- The request that is queued for the mesh. -/
def publishReobservation (state : WsState) (publish : PublishReobservation) :
    Except Error ReobservationRequest :=
  if !state.allowPublish then
    .error ["publishing is disabled on this observer (allow_publish: false)"]
  else if !state.chainKeys.contains publish.chainKey then
    .error ["chain_key " ++ toString publish.chainKey ++ " is not observed by this observer"]
  else do
    let messageId ← (parseHex32 publish.messageId).mapError fun e => ["message_id: " ++ e.headD ""]
    let txHash ← (parseHex32 publish.txHash).mapError fun e => ["tx_hash: " ++ e.headD ""]
    pure { chainKey := publish.chainKey, messageId, txHash, blockHeight := publish.blockHeight }

/-- What the subscriber is told of its frame. -/
inductive ClientReply where
  | badFrame
  | subscribed
  | published (result : Except Error Unit)

/-- A frame of a subscriber, if its text is JSON: the filter from then on, the request that is queued
for the mesh, and the reply. -/
def handleClientFrame (state : WsState) (filter : Filter) (frame : Option Json) :
    Filter × Option ReobservationRequest × ClientReply :=
  match frame.bind ClientFrame.ofJson with
  | none => (filter, none, .badFrame)
  | some (.subscribe newFilter) => (newFilter, none, .subscribed)
  | some (.publishReobservation publish) =>
    match publishReobservation state publish with
    | .ok request => (filter, some request, .published (.ok ()))
    | .error err => (filter, none, .published (.error err))

end MessageRelayer.Observer

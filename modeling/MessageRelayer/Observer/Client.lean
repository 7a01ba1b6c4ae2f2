import MessageRelayer.Observer.Events

/-!
# The relayer as a subscriber of an observer

`observer_client`: the relayer reads votes off the events of an observer
(`handleEvent`), and asks it to gossip its requests (`publishFrame`). It takes
nothing from an event but the fields of the envelope (`convertVote`,
`convertSetUpdate`).
-/

namespace MessageRelayer.ObserverClient

open Observer (EventKind parseField hexWord)

/-! ## What the relayer sends -/

/-- The subscription to votes and peer counts of its chains. -/
def subscribeFrame (chainKeys : List ChainKey) : Json :=
  .obj [("subscribe", .obj
    [("chain_keys", .arr (chainKeys.map .ofU64)),
      ("events", .arr ([EventKind.messageVote.text, EventKind.setUpdateVote.text,
        EventKind.peerStatus.text].map .str))])]

def publishFrame (req : ReobservationRequest) : Json :=
  .obj [("publish_reobservation", .obj
    [("chain_key", .ofU64 req.chainKey), ("message_id", .str (hexWord (n := 32) req.messageId)),
      ("tx_hash", .str (hexWord (n := 32) req.txHash)), ("block_height", .ofU64 req.blockHeight)])]

/-! ## What the relayer receives -/

structure ObserverVote where
  chainKey : ChainKey
  messageId : String
  signer : String
  signature : String

structure ObserverSetUpdate where
  chainKey : ChainKey
  newAttestors : List String
  nonce : String
  signer : String
  signature : String

inductive ObserverEvent where
  | messageVote (vote : ObserverVote)
  | setUpdateVote (vote : ObserverSetUpdate)
  | peerStatus (chainKey : ChainKey) (subscribedPeers : Nat)
  | other

def ObserverVote.ofJson (j : Json) : Option ObserverVote := do
  let [some chainKey, some messageId, some signer, some signature] ←
    j.fields false ["chain_key", "message_id", "signer", "signature"] | none
  pure
    { chainKey := ← chainKey.asU64
      messageId := ← messageId.asStr
      signer := ← signer.asStr
      signature := ← signature.asStr }

def ObserverSetUpdate.ofJson (j : Json) : Option ObserverSetUpdate := do
  let [some chainKey, some newAttestors, some nonce, some signer, some signature] ←
    j.fields false ["chain_key", "new_attestors", "nonce", "signer", "signature"] | none
  pure
    { chainKey := ← chainKey.asU64
      newAttestors := ← newAttestors.asVec Json.asStr
      nonce := ← nonce.asStr
      signer := ← signer.asStr
      signature := ← signature.asStr }

/-- An event of a kind that is not known is no error. -/
def ObserverEvent.ofJson (j : Json) : Option ObserverEvent := do
  let (kind, j) ← j.tagged "type"
  match kind with
  | "message_vote" => (ObserverVote.ofJson j).map .messageVote
  | "attestor_set_update" => (ObserverSetUpdate.ofJson j).map .setUpdateVote
  | "peer_status" =>
    let [some chainKey, some subscribedPeers] ← j.fields false ["chain_key", "subscribed_peers"] | none
    pure (.peerStatus (← chainKey.asU64) (← subscribedPeers.asU64))
  | _ => pure .other

def parseHex (n : Nat) (s : String) : Except Error (Vector Byte n) :=
  parseField n (fun got => "expected " ++ toString n ++ "-byte hex string, got " ++ toString got ++
    " chars") s

/-- A field with its name in front of its error. -/
def parseNamed (n : Nat) (name s : String) : Except Error (Vector Byte n) :=
  (parseHex n s).mapError (name :: ·)

/-- The envelope of an event; the pool checks it again. -/
def convertVote (vote : ObserverVote) : Except Error MessageVote := do
  pure
    { chainKey := vote.chainKey
      messageId := ofBe (← parseNamed 32 "message_id" vote.messageId)
      signer := ofBe (← parseNamed 20 "signer" vote.signer)
      signature := ← parseNamed 65 "signature" vote.signature }

/-- The attestors from the one at `i` on. -/
def parseAttestors (i : Nat) : List String → Except Error (List Address)
  | [] => pure []
  | a :: rest => do
    let attestor ← parseNamed 20 ("new_attestors[" ++ toString i ++ "]") a
    let attestors ← parseAttestors (i + 1) rest
    pure (ofBe attestor :: attestors)

def convertSetUpdate (vote : ObserverSetUpdate) : Except Error SetUpdateVote := do
  let newAttestors ← parseAttestors 0 vote.newAttestors
  pure
    { chainKey := vote.chainKey
      newAttestors
      nonce := ofBe (← parseNamed 32 "nonce" vote.nonce)
      signer := ofBe (← parseNamed 20 "signer" vote.signer)
      signature := ← parseNamed 65 "signature" vote.signature }

/-- What becomes of a frame of the observer. -/
inductive Handled where
  /-- Not an event, or one of a kind that is not known. -/
  | ignored
  /-- The vote is sent to the pool. -/
  | vote (vote : MessageVote)
  /-- The vote is sent to the aggregator of set updates. -/
  | setUpdate (vote : SetUpdateVote)
  | malformed (err : Error)
  | peers (chainKey : ChainKey) (count : Nat)

/-- A frame of the observer, if its text is JSON. -/
def handleEvent (frame : Option Json) : Handled :=
  match frame.bind ObserverEvent.ofJson with
  | none | some .other => .ignored
  | some (.messageVote vote) =>
    match convertVote vote with
    | .ok vote => .vote vote
    | .error err => .malformed err
  | some (.setUpdateVote vote) =>
    match convertSetUpdate vote with
    | .ok vote => .setUpdate vote
    | .error err => .malformed err
  | some (.peerStatus chainKey subscribedPeers) =>
    .peers chainKey (if subscribedPeers < 2 ^ 63 then subscribedPeers else 0)

end MessageRelayer.ObserverClient

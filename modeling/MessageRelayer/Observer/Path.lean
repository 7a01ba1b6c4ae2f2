import MessageRelayer.Observer.Client
import MessageRelayer.Pool.Quorum

/-!
# Votes by way of the observer

What the observer makes of a frame of the mesh, the relayer reads back
(`observer_path`): a vote with the signer that its signature recovers to, so
that the pool takes every vote that it would take from the mesh and no vote
that an attestor did not sign; set updates and requests as they are.
-/

namespace MessageRelayer.Observer

open ObserverClient

/-! ## Fields in hexadecimal -/

/-- `n` bytes in hexadecimal digits, with or without a prefix. -/
def HexField (n : Nat) (s : String) : Prop :=
  let hex := Hex.stripPrefix (Hex.utf8 s)
  hex.length = 2 * n ∧ ∀ c ∈ hex, (Hex.val c).isSome

section
variable {n : Nat} {context : Nat → String} {name s : String}

/-- What is written in hexadecimal is read back. -/
theorem parseField_prefixed (bs : Vector Byte n) :
    parseField n context (Hex.prefixed bs.toList) = .ok bs := by
  have hl : (Hex.utf8 (Hex.encode bs.toList)).length = n * 2 := by
    rw [Hex.length_utf8_encode, bs.length_toList, Nat.mul_comm]
  have hd : Hex.decodeToSlice n (Hex.utf8 (Hex.encode bs.toList)) = .ok bs.toList := by
    have h := Hex.decodeToSlice_encode bs.toList
    rwa [bs.length_toList] at h
  rw [parseField]
  simp only [Hex.stripPrefix_prefixed, hl, ne_eq, not_true_eq_false, ↓reduceIte]
  split
  · rename_i e h
    rw [Hex.stripPrefix_prefixed, hd] at h
    cases h
  · rename_i bs' h
    rw [Hex.stripPrefix_prefixed, hd] at h
    cases h
    exact congrArg Except.ok (Vector.toList_inj.mp rfl)

theorem parseField_ok {bs : Vector Byte n} (h : parseField n context s = .ok bs) : HexField n s := by
  rw [parseField] at h
  split at h
  · cases h
  split at h
  · cases h
  · rename_i hd
    obtain ⟨hl, -, hv⟩ := Hex.decodeToSlice_digits hd
    exact ⟨hl, hv⟩

@[simp] theorem parseNamed_word (x : BitVec (8 * n)) :
    parseNamed n name (hexWord x) = .ok (toBe x) := by
  rw [parseNamed, parseHex, hexWord, parseField_prefixed]
  rfl

@[simp] theorem parseNamed_signature (signature : RawSignature) :
    parseNamed 65 name (hexSignature signature) = .ok signature := by
  rw [parseNamed, parseHex, hexSignature, parseField_prefixed]
  rfl

theorem parseNamed_ok {bs : Vector Byte n} (h : parseNamed n name s = .ok bs) : HexField n s := by
  rw [parseNamed] at h
  cases hp : parseHex n s with
  | error e =>
    rw [hp] at h
    cases h
  | ok bs' => exact parseField_ok hp

end

/-! ## Votes -/

section
variable {chainKey : ChainKey} {signer : Address} {signatureValid : Bool} {source : String} {nowMs : Nat}

theorem ofJson_vote (h : chainKey ≤ u64Max) (messageId : B256) (signature : RawSignature) :
    ObserverClient.ObserverEvent.ofJson (ObserverEvent.ofVote chainKey messageId signer signatureValid
      signature source nowMs).toJson = some (.messageVote
        ⟨chainKey, hexWord (n := 32) messageId, hexWord (n := 20) signer, hexSignature signature⟩) := by
  simp [ObserverEvent.ofVote, ObserverEvent.toJson, ObserverClient.ObserverEvent.ofJson, Json.tagged,
    EventKind.text, ObserverVote.ofJson, Json.fields, Json.member, Json.asStr_str, h]

theorem ofJson_setUpdate (h : chainKey ≤ u64Max) (newAttestors : List Address) (nonce : B256)
    (signature : RawSignature) :
    ObserverClient.ObserverEvent.ofJson (ObserverEvent.ofSetUpdate chainKey newAttestors nonce signer
      signature source nowMs).toJson = some (.setUpdateVote
        ⟨chainKey, newAttestors.map fun a => hexWord (n := 20) a, hexWord (n := 32) nonce,
          hexWord (n := 20) signer, hexSignature signature⟩) := by
  have hv : (Json.arr (newAttestors.map (Json.str ∘ fun a => hexWord (n := 20) a))).asVec Json.asStr =
      some (newAttestors.map fun a => hexWord (n := 20) a) := by
    rw [← List.map_map]
    exact Json.asVec_map fun s _ => Json.asStr_str s
  simp [ObserverEvent.ofSetUpdate, ObserverEvent.toJson, ObserverClient.ObserverEvent.ofJson,
    Json.tagged, EventKind.text, ObserverSetUpdate.ofJson, Json.fields, Json.member, Json.asStr_str, h,
    hv]

theorem convertVote_hex (messageId : B256) (signature : RawSignature) :
    convertVote ⟨chainKey, hexWord (n := 32) messageId, hexWord (n := 20) signer,
      hexSignature signature⟩ = .ok ⟨chainKey, messageId, signer, signature⟩ := by
  simp only [convertVote, parseNamed_word, parseNamed_signature]
  show Except.ok (MessageVote.mk chainKey (ofBe (toBe (n := 32) messageId))
    (ofBe (toBe (n := 20) signer)) signature) = _
  rw [ofBe_toBe (n := 32), ofBe_toBe (n := 20)]

theorem parseAttestors_hex (newAttestors : List Address) (i : Nat) :
    parseAttestors i (newAttestors.map fun a => hexWord (n := 20) a) = .ok newAttestors := by
  induction newAttestors generalizing i with
  | nil => rfl
  | cons a rest ih =>
    simp only [List.map_cons, parseAttestors, parseNamed_word, ih]
    show Except.ok ((ofBe (toBe (n := 20) a) : Address) :: rest) = _
    rw [ofBe_toBe (n := 20)]

theorem convertSetUpdate_hex (newAttestors : List Address) (nonce : B256) (signature : RawSignature) :
    convertSetUpdate ⟨chainKey, newAttestors.map fun a => hexWord (n := 20) a,
      hexWord (n := 32) nonce, hexWord (n := 20) signer, hexSignature signature⟩ =
        .ok ⟨chainKey, newAttestors, nonce, signer, signature⟩ := by
  simp only [convertSetUpdate, parseAttestors_hex, parseNamed_word, parseNamed_signature]
  show Except.ok (SetUpdateVote.mk chainKey newAttestors (ofBe (toBe (n := 32) nonce))
    (ofBe (toBe (n := 20) signer)) signature) = _
  rw [ofBe_toBe (n := 32), ofBe_toBe (n := 20)]

end

section
variable {S : Scale} {ecrecover : Ecrecover} {chainKey : ChainKey} {data : Bytes} {source : String}
  {nowMs : Nat}

/-- A vote with the signer that its signature recovers to, if it does. -/
def recovered (ecrecover : Ecrecover) (vote : MessageVote) : MessageVote :=
  { vote with
    signer :=
      match ecrecover vote.messageId vote.signature with
      | .ok recovered => recovered
      | .error _ => vote.signer }

/-- A frame that is read as a vote for the chain becomes an event, which the relayer reads back. -/
theorem observeVote_spec {vote : MessageVote} (hd : MessageVote.decodeBytes S data = some vote)
    (hc : vote.chainKey = chainKey) :
    ∃ event, observeVote S ecrecover chainKey data source nowMs = (.accept, some event) ∧
      event.chainKey = chainKey ∧ event.kind = .messageVote ∧
      handleEvent (some event.toJson) = .vote (recovered ecrecover vote) := by
  have hf := vote.codec_valid.mp (decodeFront_valid hd)
  rw [observeVote, hd]
  simp only [hc, ↓reduceIte]
  refine ⟨_, rfl, rfl, rfl, ?_⟩
  rw [handleEvent, Option.bind_some, ofJson_vote (hc ▸ hf)]
  simp only [convertVote_hex, recovered, Handled.vote.injEq]
  rw [← hc]
  cases ecrecover vote.messageId vote.signature <;> rfl

theorem observeSetUpdate_spec {vote : SetUpdateVote}
    (hd : SetUpdateVote.decodeBytes S data = some vote) (hc : vote.chainKey = chainKey) :
    ∃ event, observeSetUpdate S chainKey data source nowMs = (.accept, some event) ∧
      event.chainKey = chainKey ∧ event.kind = .setUpdateVote ∧
      handleEvent (some event.toJson) = .setUpdate vote := by
  have hf := (vote.codec_valid.mp (decodeFront_valid hd)).1
  rw [observeSetUpdate, hd]
  simp only [hc, ↓reduceIte]
  refine ⟨_, rfl, rfl, rfl, ?_⟩
  rw [handleEvent, Option.bind_some, ofJson_setUpdate (hc ▸ hf)]
  simp only [convertSetUpdate_hex]
  rw [← hc]

/-! ## The pool -/

theorem voter_signer {route : RouteState} {hash : B256} {vote : MessageVote} {a : Address}
    (h : route.voter ecrecover hash vote = some a) : a = vote.signer := by
  rw [RouteState.voter] at h
  split at h
  · cases h
  split at h
  · cases h
  split at h
  · cases h
  · rename_i he
    rw [← Option.some.inj h]
    exact Decidable.not_not.mp he

/-- A vote that the pool accepts names the signer that it recovers to. -/
theorem recovered_of_voter {route : RouteState} {vote : MessageVote} {a : Address}
    (h : route.voter ecrecover vote.messageId vote = some a) : recovered ecrecover vote = vote := by
  have hr := (RouteState.voter_some h).2.2
  rw [recovered, hr, voter_signer h]

/-- A vote that the pool does not accept changes nothing. -/
theorem noteVote_of_voter {route : RouteState} {vote : MessageVote}
    (h : route.voter ecrecover vote.messageId vote = none) (now : Instant) :
    route.noteVote ecrecover chainKey vote now = (route, none) := by
  rw [RouteState.noteVote]
  split
  · rw [RouteState.bufferEarlyVote, h]
  · split
    · rfl
    · rw [h]

end

/-! ## The frames of the relayer -/

section
variable {state : WsState} {filter : Filter}

theorem handleClientFrame_subscribe {chainKeys : List ChainKey} (h : ∀ k ∈ chainKeys, k ≤ u64Max) :
    handleClientFrame state filter (some (subscribeFrame chainKeys)) =
      (⟨chainKeys, [.messageVote, .setUpdateVote, .peerStatus], none⟩, none, .subscribed) := by
  have hk : (Json.arr (chainKeys.map Json.ofU64)).asVec Json.asU64 = some chainKeys :=
    Json.asVec_map fun k hk => Json.asU64_ofU64 (h k hk)
  have he : (Json.arr [.str EventKind.messageVote.text, .str EventKind.setUpdateVote.text,
      .str EventKind.peerStatus.text]).asVec EventKind.ofJson =
        some [.messageVote, .setUpdateVote, .peerStatus] := by rfl
  have hf : Filter.ofJson (.obj [("chain_keys", .arr (chainKeys.map .ofU64)),
      ("events", .arr ([EventKind.messageVote.text, EventKind.setUpdateVote.text,
        EventKind.peerStatus.text].map .str))]) =
        some ⟨chainKeys, [.messageVote, .setUpdateVote, .peerStatus], none⟩ := by
    simp [Filter.ofJson, Json.fields, Json.member, orDefault, hk, he]
  rw [handleClientFrame, Option.bind_some, subscribeFrame, ClientFrame.ofJson, hf]
  rfl

/-- The subscription lets through the votes of its chains. -/
theorem matches_subscribed {chainKeys : List ChainKey} {event : ObserverEvent}
    (hc : event.chainKey ∈ chainKeys) (hk : event.kind ∈ [EventKind.messageVote, .setUpdateVote, .peerStatus]) :
    Filter.matches ⟨chainKeys, [.messageVote, .setUpdateVote, .peerStatus], none⟩ event = true := by
  have hk : event.kind = .messageVote ∨ event.kind = .setUpdateVote ∨ event.kind = .peerStatus := by
    simpa using hk
  simpa [Filter.matches] using ⟨.inr hc, hk⟩

theorem ofJson_publish {req : ReobservationRequest} (hc : req.chainKey ≤ u64Max)
    (hb : req.blockHeight ≤ u64Max) : ClientFrame.ofJson (publishFrame req) =
      some (.publishReobservation ⟨req.chainKey, hexWord (n := 32) req.messageId,
        hexWord (n := 32) req.txHash, req.blockHeight⟩) := by
  simp [publishFrame, ClientFrame.ofJson, PublishReobservation.ofJson, Json.fields, Json.member,
    Json.asStr_str, hc, hb]

theorem parseHex32_word (x : B256) : parseHex32 (hexWord (n := 32) x) = .ok x := by
  rw [parseHex32, hexWord, parseField_prefixed]
  exact congrArg Except.ok (ofBe_toBe (n := 32) x)

theorem parseHex32_ok {s : String} {x : B256} (h : parseHex32 s = .ok x) : HexField 32 s := by
  rw [parseHex32] at h
  cases hp : parseField 32 (fun _ => "expected 32-byte 0x hex string") s with
  | error e =>
    rw [hp] at h
    cases h
  | ok bs => exact parseField_ok hp

/-- A request that the relayer asks for is queued as it is. -/
theorem handleClientFrame_publish {req : ReobservationRequest} (hc : req.chainKey ≤ u64Max)
    (hb : req.blockHeight ≤ u64Max) (hp : state.allowPublish = true)
    (hk : state.chainKeys.contains req.chainKey = true) :
    handleClientFrame state filter (some (publishFrame req)) =
      (filter, some req, .published (.ok ())) := by
  rw [handleClientFrame, Option.bind_some, ofJson_publish hc hb]
  simp only [publishReobservation, hp, hk, parseHex32_word]
  rfl

/-! ## What is not hexadecimal -/

theorem convertVote_ok {vote : ObserverVote} {m : MessageVote} (h : convertVote vote = .ok m) :
    HexField 32 vote.messageId ∧ HexField 20 vote.signer ∧ HexField 65 vote.signature := by
  rw [convertVote] at h
  cases hm : parseNamed 32 "message_id" vote.messageId with
  | error e => rw [hm] at h; cases h
  | ok messageId =>
    cases hs : parseNamed 20 "signer" vote.signer with
    | error e => rw [hm, hs] at h; cases h
    | ok signer =>
      cases hg : parseNamed 65 "signature" vote.signature with
      | error e => rw [hm, hs, hg] at h; cases h
      | ok signature => exact ⟨parseNamed_ok hm, parseNamed_ok hs, parseNamed_ok hg⟩

theorem parseAttestors_ok {i : Nat} {ss : List String} {as : List Address}
    (h : parseAttestors i ss = .ok as) : ∀ s ∈ ss, HexField 20 s := by
  induction ss generalizing i as with
  | nil => exact fun s hs => absurd hs List.not_mem_nil
  | cons a rest ih =>
    rw [parseAttestors] at h
    cases ha : parseNamed 20 ("new_attestors[" ++ toString i ++ "]") a with
    | error e => rw [ha] at h; cases h
    | ok attestor =>
      cases hr : parseAttestors (i + 1) rest with
      | error e => rw [ha, hr] at h; cases h
      | ok attestors =>
        intro s hs
        rcases List.mem_cons.mp hs with rfl | hs
        · exact parseNamed_ok ha
        · exact ih hr s hs

theorem convertSetUpdate_ok {vote : ObserverSetUpdate} {m : SetUpdateVote}
    (h : convertSetUpdate vote = .ok m) : (∀ a ∈ vote.newAttestors, HexField 20 a) ∧
      HexField 32 vote.nonce ∧ HexField 20 vote.signer ∧ HexField 65 vote.signature := by
  rw [convertSetUpdate] at h
  cases ha : parseAttestors 0 vote.newAttestors with
  | error e => rw [ha] at h; cases h
  | ok newAttestors =>
    cases hn : parseNamed 32 "nonce" vote.nonce with
    | error e => rw [ha, hn] at h; cases h
    | ok nonce =>
      cases hs : parseNamed 20 "signer" vote.signer with
      | error e => rw [ha, hn, hs] at h; cases h
      | ok signer =>
        cases hg : parseNamed 65 "signature" vote.signature with
        | error e => rw [ha, hn, hs, hg] at h; cases h
        | ok signature =>
          exact ⟨parseAttestors_ok ha, parseNamed_ok hn, parseNamed_ok hs, parseNamed_ok hg⟩

theorem publishReobservation_ok {publish : PublishReobservation} {req : ReobservationRequest}
    (h : publishReobservation state publish = .ok req) :
    HexField 32 publish.messageId ∧ HexField 32 publish.txHash := by
  rw [publishReobservation] at h
  split at h
  · cases h
  split at h
  · cases h
  cases hm : parseHex32 publish.messageId with
  | error e => rw [hm] at h; cases h
  | ok messageId =>
    cases ht : parseHex32 publish.txHash with
    | error e => rw [hm, ht] at h; cases h
    | ok txHash => exact ⟨parseHex32_ok hm, parseHex32_ok ht⟩

end

/-! ## The whole path -/

/-- Votes, set updates and requests by way of the observer. -/
theorem observer_path (S : Scale) (ecrecover : Ecrecover) :
    -- a vote comes back with the signer that it recovers to, past the relayer's subscription
    (∀ chainKey data source nowMs vote, MessageVote.decodeBytes S data = some vote →
      vote.chainKey = chainKey → ∃ event,
        observeVote S ecrecover chainKey data source nowMs = (.accept, some event) ∧
        handleEvent (some event.toJson) = .vote (recovered ecrecover vote) ∧
        ∀ state filter chainKeys, (∀ k ∈ chainKeys, k ≤ u64Max) → chainKey ∈ chainKeys →
          (handleClientFrame state filter (some (subscribeFrame chainKeys))).1.matches event = true) ∧
    -- the pool accepts what it accepts of the mesh, and besides what an attestor signed
    (∀ (route : RouteState) vote a, route.voter ecrecover vote.messageId vote = some a →
      recovered ecrecover vote = vote) ∧
    (∀ (route : RouteState) vote a,
      route.voter ecrecover vote.messageId (recovered ecrecover vote) = some a →
        a ∈ route.attestors ∧ Verified ecrecover vote.messageId a vote.signature) ∧
    (∀ (route : RouteState) chainKey vote now, route.voter ecrecover vote.messageId vote = none →
      route.noteVote ecrecover chainKey vote now = (route, none)) ∧
    -- a set update comes back as it is
    (∀ chainKey data source nowMs vote, SetUpdateVote.decodeBytes S data = some vote →
      vote.chainKey = chainKey → ∃ event,
        observeSetUpdate S chainKey data source nowMs = (.accept, some event) ∧
        handleEvent (some event.toJson) = .setUpdate vote ∧
        ∀ state filter chainKeys, (∀ k ∈ chainKeys, k ≤ u64Max) → chainKey ∈ chainKeys →
          (handleClientFrame state filter (some (subscribeFrame chainKeys))).1.matches event = true) ∧
    -- a request is queued for the mesh as it is, where the observer may publish for its chain
    (∀ state filter req, req.chainKey ≤ u64Max → req.blockHeight ≤ u64Max →
      state.allowPublish = true → state.chainKeys.contains req.chainKey = true →
        handleClientFrame state filter (some (publishFrame req)) =
          (filter, some req, .published (.ok ()))) ∧
    -- what is not hexadecimal of the right length is rejected
    (∀ vote : ObserverVote, ¬ (HexField 32 vote.messageId ∧ HexField 20 vote.signer ∧
      HexField 65 vote.signature) → ∃ err, convertVote vote = .error err) ∧
    (∀ vote : ObserverSetUpdate, ¬ ((∀ a ∈ vote.newAttestors, HexField 20 a) ∧
      HexField 32 vote.nonce ∧ HexField 20 vote.signer ∧ HexField 65 vote.signature) →
        ∃ err, convertSetUpdate vote = .error err) ∧
    ∀ state publish, ¬ (HexField 32 publish.messageId ∧ HexField 32 publish.txHash) →
      ∃ err, publishReobservation state publish = .error err := by
  have herr : ∀ {α : Type} {r : Except Error α} {P : Prop}, (∀ a, r = .ok a → P) → ¬ P →
      ∃ err, r = .error err := by
    rintro α (err | a) P h hn
    · exact ⟨err, rfl⟩
    · exact absurd (h a rfl) hn
  refine ⟨fun chainKey data source nowMs vote hd hc => ?_, fun route vote a h => recovered_of_voter h,
    fun route vote a h => ?_, fun route chainKey vote now h => noteVote_of_voter h now,
    fun chainKey data source nowMs vote hd hc => ?_,
    fun state filter req hc hb hp hk => handleClientFrame_publish hc hb hp hk,
    fun vote => herr fun m => convertVote_ok, fun vote => herr fun m => convertSetUpdate_ok,
    fun state publish => herr fun req => publishReobservation_ok⟩
  · obtain ⟨event, he, hkey, hkind, hh⟩ := observeVote_spec hd hc
    refine ⟨event, he, hh, fun state filter chainKeys hks hm => ?_⟩
    rw [handleClientFrame_subscribe hks]
    exact matches_subscribed (hkey ▸ hm) (by rw [hkind]; decide)
  · have hv := RouteState.voter_some h
    exact hv
  · obtain ⟨event, he, hkey, hkind, hh⟩ := observeSetUpdate_spec hd hc
    refine ⟨event, he, hh, fun state filter chainKeys hks hm => ?_⟩
    rw [handleClientFrame_subscribe hks]
    exact matches_subscribed (hkey ▸ hm) (by rw [hkind]; decide)

end MessageRelayer.Observer

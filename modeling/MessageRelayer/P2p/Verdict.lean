import MessageRelayer.Observer.Events

/-!
# The topics of the mesh

The three topics of a chain (`write_ability::protocol`), and what the relayer
and the observer tell gossipsub of a frame on one of them
(`p2p::handle_swarm_event`, `swarm::handle_swarm_event`). On the topics of the
votes both accept a frame if and only if it is read as an envelope for the
topic's chain. On that of the reobservation requests the relayer accepts every
frame, so that the two agree exactly on those that the observer accepts
(`gossip_verdicts`).
-/

namespace MessageRelayer.P2p

open Observer (MessageAcceptance ObserverEvent observeVote observeReobservation observeSetUpdate)

/-! ## Topics -/

def messageVotesTopic (chainKey : ChainKey) : String := Nat.repr chainKey ++ "/message-votes/v1"

def reobservationTopic (chainKey : ChainKey) : String :=
  Nat.repr chainKey ++ "/reobservation-requests/v1"

def attestorSetUpdateTopic (chainKey : ChainKey) : String :=
  Nat.repr chainKey ++ "/attestor-set-update/v1"

/-- What the topics of a chain carry. -/
inductive TopicKind where
  | votes
  | reobservation
  | setUpdate
  deriving DecidableEq

def TopicKind.topic : TopicKind → ChainKey → String
  | votes => messageVotesTopic
  | reobservation => reobservationTopic
  | setUpdate => attestorSetUpdateTopic

/-- The end of a kind's topics, after the chain's key. -/
def TopicKind.ending : TopicKind → List Char
  | votes => "message-votes/v1".toList
  | reobservation => "reobservation-requests/v1".toList
  | setUpdate => "attestor-set-update/v1".toList

theorem TopicKind.toList_topic (kind : TopicKind) (chainKey : ChainKey) :
    (kind.topic chainKey).toList = Nat.toDigits 10 chainKey ++ '/' :: kind.ending := by
  cases kind <;>
  · simp only [topic, messageVotesTopic, reobservationTopic, attestorSetUpdateTopic,
      String.toList_append, Nat.toList_repr]
    rfl

/-- The key is what stands before the first slash. -/
theorem TopicKind.takeWhile_topic (kind : TopicKind) (chainKey : ChainKey) :
    (kind.topic chainKey).toList.takeWhile (· ≠ '/') = Nat.toDigits 10 chainKey := by
  rw [kind.toList_topic, List.takeWhile_append_of_pos, List.takeWhile_cons_of_neg (by simp),
    List.append_nil]
  intro c hc
  have hd := Nat.isDigit_of_mem_toDigits (by decide) (by decide) hc
  refine decide_eq_true fun e => ?_
  rw [e] at hd
  cases hd

/-- A topic has one kind and one chain. -/
theorem TopicKind.topic_inj {kind kind' : TopicKind} {chainKey chainKey' : ChainKey}
    (h : kind.topic chainKey = kind'.topic chainKey') : kind = kind' ∧ chainKey = chainKey' := by
  have hl := congrArg String.toList h
  have hk : chainKey = chainKey' := by
    have hd := congrArg (List.takeWhile (· ≠ '/')) hl
    rw [takeWhile_topic, takeWhile_topic] at hd
    have hn := congrArg (fun ds => Nat.ofDigitChars 10 ds 0) hd
    simpa only [Nat.ofDigitChars_ten_toDigits] using hn
  subst hk
  rw [toList_topic, toList_topic] at hl
  have he : kind.ending = kind'.ending := (List.cons.inj (List.append_cancel_left hl)).2
  refine ⟨?_, rfl⟩
  cases kind <;> cases kind' <;> first | rfl | (revert he; decide)

/-- The topics of one kind with their chains, as a worker that starts enters them. -/
def topicMap (kind : TopicKind) (chainKeys : List ChainKey) : Map String ChainKey :=
  chainKeys.foldl (fun m chainKey => m.insert (kind.topic chainKey) chainKey) ∅

theorem topicMap_concat (kind : TopicKind) (chainKeys : List ChainKey) (chainKey : ChainKey) :
    topicMap kind (chainKeys ++ [chainKey]) =
      (topicMap kind chainKeys).insert (kind.topic chainKey) chainKey := by
  rw [topicMap, List.foldl_append]
  rfl

theorem topicMap_get {kind : TopicKind} {chainKeys : List ChainKey} {topic : String}
    {chainKey : ChainKey} :
    (topicMap kind chainKeys)[topic]? = some chainKey ↔
      chainKey ∈ chainKeys ∧ topic = kind.topic chainKey := by
  induction chainKeys using List.reverseRecOn with
  | nil => simp [topicMap]
  | append_singleton keys key ih =>
    rw [topicMap_concat, Map.get_insert, List.mem_append, List.mem_singleton]
    split
    · rename_i e
      subst e
      refine ⟨fun h => ?_, fun ⟨_, e⟩ => ?_⟩
      · cases h
        exact ⟨.inr rfl, rfl⟩
      · rw [(TopicKind.topic_inj e).2]
    · rename_i hne
      rw [ih]
      refine and_congr_left fun e => ⟨.inl, fun h => h.resolve_right fun hk => ?_⟩
      rw [hk] at e
      exact hne e

/-- A topic of a chain is in the map of its kind alone. -/
theorem topicMap_topic {kind kind' : TopicKind} {chainKeys : List ChainKey} {chainKey : ChainKey}
    (h : chainKey ∈ chainKeys) :
    (topicMap kind' chainKeys)[kind.topic chainKey]? = if kind' = kind then some chainKey else none := by
  split
  · rename_i e
    subst e
    exact topicMap_get.mpr ⟨h, rfl⟩
  · rename_i hne
    refine Option.eq_none_iff_forall_ne_some.mpr fun k hk => hne ?_
    exact (TopicKind.topic_inj (topicMap_get.mp hk).2).1.symm

/-! ## The relayer -/

/-- What the relayer offers to a worker, which takes it unless its queue is full. -/
inductive Handoff where
  | vote (vote : MessageVote)
  | setUpdateVote (vote : SetUpdateVote)

/-- The topics of the reobservation requests, by chain. -/
def chainKeyToReobsTopic (chainKeys : List ChainKey) : Map ChainKey String :=
  chainKeys.foldl (fun m chainKey => m.insert chainKey (reobservationTopic chainKey)) ∅

def reobsTopicHashes (chainKeys : List ChainKey) : FinSet String :=
  (∅ : FinSet String).insertMany (chainKeyToReobsTopic chainKeys).vals

theorem chainKeyToReobsTopic_get (chainKeys : List ChainKey) (chainKey : ChainKey) :
    (chainKeyToReobsTopic chainKeys)[chainKey]? =
      if chainKey ∈ chainKeys then some (reobservationTopic chainKey) else none := by
  induction chainKeys using List.reverseRecOn with
  | nil => rfl
  | append_singleton keys key ih =>
    have hc : chainKeyToReobsTopic (keys ++ [key]) =
        (chainKeyToReobsTopic keys).insert key (reobservationTopic key) := by
      rw [chainKeyToReobsTopic, List.foldl_append]
      rfl
    rw [hc, Map.get_insert, ih]
    by_cases e : chainKey = key <;> simp [e]

theorem mem_reobsTopicHashes {chainKeys : List ChainKey} {topic : String} :
    topic ∈ reobsTopicHashes chainKeys ↔
      ∃ chainKey ∈ chainKeys, topic = reobservationTopic chainKey := by
  simp only [reobsTopicHashes, FinSet.mem_extend, Std.ExtTreeSet.not_mem_empty, false_or, Map.vals,
    List.mem_map, Prod.exists, Map.mem_toList, chainKeyToReobsTopic_get, exists_eq_right]
  refine ⟨?_, ?_⟩
  · rintro ⟨chainKey, h⟩
    split at h
    · rename_i hm
      cases h
      exact ⟨chainKey, hm, rfl⟩
    · cases h
  · rintro ⟨chainKey, h, e⟩
    exact ⟨chainKey, by rw [if_pos h, e]⟩

section
variable (S : Scale)

/-- The relayer's part of `handle_swarm_event` for a frame: what it reports, if it reports anything,
and what it hands on. -/
def handleMessage (chainKeys : List ChainKey) (topic : String) (data : Bytes) :
    Option (MessageAcceptance × Option Handoff) :=
  if topic ∈ reobsTopicHashes chainKeys then some (.accept, none)
  else match (topicMap .setUpdate chainKeys)[topic]? with
  | some chainKey =>
    match SetUpdateVote.decodeBytes S data with
    | some vote =>
      if vote.chainKey = chainKey then some (.accept, some (.setUpdateVote vote))
      else some (.reject, none)
    | none => some (.reject, none)
  | none =>
    match (topicMap .votes chainKeys)[topic]? with
    | none => none
    | some chainKey =>
      match MessageVote.decodeBytes S data with
      | some vote =>
        if vote.chainKey = chainKey then some (.accept, some (.vote vote)) else some (.reject, none)
      | none => some (.reject, none)

/-! ## The observer -/

/-- The observer's part of `handle_swarm_event` for a frame: what it reports, if it reports anything,
and the event. -/
def observeMessage (ecrecover : Ecrecover) (chainKeys : List ChainKey) (topic : String) (data : Bytes)
    (source : String) (nowMs : Nat) : Option (MessageAcceptance × Option ObserverEvent) :=
  match (topicMap .votes chainKeys)[topic]? with
  | some chainKey => some (observeVote S ecrecover chainKey data source nowMs)
  | none =>
    match (topicMap .reobservation chainKeys)[topic]? with
    | some chainKey => some (observeReobservation S chainKey data source nowMs)
    | none =>
      match (topicMap .setUpdate chainKeys)[topic]? with
      | some chainKey => some (observeSetUpdate S chainKey data source nowMs)
      | none => none

/-! ## The two verdicts -/

/-- The chain of the envelope that a kind of topic carries, if it is read from a frame. -/
def envelopeKey (data : Bytes) : TopicKind → Option ChainKey
  | .votes => (MessageVote.decodeBytes S data).map (·.chainKey)
  | .reobservation => (ReobservationRequest.decodeBytes S data).map (·.chainKey)
  | .setUpdate => (SetUpdateVote.decodeBytes S data).map (·.chainKey)

/-- The verdict on a frame that is accepted only if its envelope is for the chain. -/
def verdict (chainKey : ChainKey) (data : Bytes) (kind : TopicKind) : MessageAcceptance :=
  if envelopeKey S data kind = some chainKey then .accept else .reject

variable {S} {chainKeys : List ChainKey} {chainKey : ChainKey}

/-- The observer accepts what is well formed. -/
theorem observeMessage_verdict (h : chainKey ∈ chainKeys) (kind : TopicKind) (ecrecover : Ecrecover)
    (data : Bytes) (source : String) (nowMs : Nat) :
    (observeMessage S ecrecover chainKeys (kind.topic chainKey) data source nowMs).map (·.1) =
      some (verdict S chainKey data kind) := by
  cases kind with
  | votes =>
    simp only [observeMessage, topicMap_topic h, if_true, Option.map_some, observeVote, verdict,
      envelopeKey]
    split
    · rename_i e
      simp [e]
    · rename_i vote e
      by_cases hk : vote.chainKey = chainKey <;> simp [e, hk]
  | reobservation =>
    simp only [observeMessage, topicMap_topic h, if_true, reduceCtorEq, if_false, Option.map_some,
      observeReobservation, verdict, envelopeKey]
    split
    · rename_i e
      simp [e]
    · rename_i req e
      by_cases hk : req.chainKey = chainKey <;> simp [e, hk]
  | setUpdate =>
    simp only [observeMessage, topicMap_topic h, if_true, reduceCtorEq, if_false, Option.map_some,
      observeSetUpdate, verdict, envelopeKey]
    split
    · rename_i e
      simp [e]
    · rename_i vote e
      by_cases hk : vote.chainKey = chainKey <;> simp [e, hk]

theorem not_mem_reobs {kind : TopicKind} (hk : kind ≠ .reobservation) :
    kind.topic chainKey ∉ reobsTopicHashes chainKeys := fun hm => by
  obtain ⟨key, -, e⟩ := mem_reobsTopicHashes.mp hm
  exact hk (@TopicKind.topic_inj _ .reobservation _ _ e).1

/-- So does the relayer on the topics of the votes. -/
theorem handleMessage_verdict (h : chainKey ∈ chainKeys) {kind : TopicKind}
    (hk : kind ≠ .reobservation) (data : Bytes) :
    (handleMessage S chainKeys (kind.topic chainKey) data).map (·.1) =
      some (verdict S chainKey data kind) := by
  rw [handleMessage, if_neg (not_mem_reobs hk)]
  cases kind with
  | votes =>
    simp only [topicMap_topic h, if_true, reduceCtorEq, if_false, verdict, envelopeKey]
    split
    · rename_i vote e
      by_cases hk : vote.chainKey = chainKey <;> simp [e, hk]
    · rename_i e
      simp [e]
  | reobservation => exact absurd rfl hk
  | setUpdate =>
    simp only [topicMap_topic h, if_true, verdict, envelopeKey]
    split
    · rename_i vote e
      by_cases hk : vote.chainKey = chainKey <;> simp [e, hk]
    · rename_i e
      simp [e]

/-- A reobservation request is accepted unread. -/
theorem handleMessage_reobs (h : chainKey ∈ chainKeys) (data : Bytes) :
    (handleMessage S chainKeys (reobservationTopic chainKey) data).map (·.1) = some .accept := by
  rw [handleMessage, if_pos (mem_reobsTopicHashes.mpr ⟨chainKey, h, rfl⟩), Option.map_some]

end

/-- On the topics of a chain that both observe, the relayer and the observer report the same verdict,
and both reject a frame that is not read as an envelope for the chain, if and only if it is no such frame
on the topic of the reobservation requests. -/
theorem gossip_verdicts (S : Scale) (ecrecover : Ecrecover) (relayerKeys observerKeys : List ChainKey)
    (chainKey : ChainKey) (hr : chainKey ∈ relayerKeys) (ho : chainKey ∈ observerKeys)
    (kind : TopicKind) (data : Bytes) (source : String) (nowMs : Nat) :
    let relayer := (handleMessage S relayerKeys (kind.topic chainKey) data).map (·.1)
    let observer :=
      (observeMessage S ecrecover observerKeys (kind.topic chainKey) data source nowMs).map (·.1)
    (relayer.isSome ∧ relayer = observer ∧ (envelopeKey S data kind ≠ some chainKey →
      relayer = some .reject ∧ observer = some .reject)) ↔
    (kind = .reobservation → envelopeKey S data kind = some chainKey) := by
  intro relayer observer
  have hobs : observer = some (verdict S chainKey data kind) :=
    observeMessage_verdict ho kind ecrecover data source nowMs
  refine ⟨fun ⟨_, _, hrej⟩ hk => ?_, fun hwf => ?_⟩
  · subst hk
    by_contra hm
    have hacc : relayer = some .accept := handleMessage_reobs hr data
    rw [(hrej hm).1] at hacc
    cases hacc
  · have hrel : relayer = some (verdict S chainKey data kind) := by
      by_cases hk : kind = .reobservation
      · rw [verdict, if_pos (hwf hk)]
        subst hk
        exact handleMessage_reobs hr data
      · exact handleMessage_verdict hr hk data
    rw [hrel, hobs]
    exact ⟨rfl, rfl, fun hm => by rw [verdict, if_neg hm]; exact ⟨rfl, rfl⟩⟩

/-- An empty frame on the vote topic of a chain: both reject it. -/
theorem gossip_verdicts_empty :
    (handleMessage scale [2] (messageVotesTopic 2) []).map (·.1) =
      (observeMessage scale (fun _ _ => .error "") [2] (messageVotesTopic 2) [] "peer" 0).map (·.1) :=
  ((gossip_verdicts scale _ [2] [2] 2 (by decide) (by decide) .votes [] "peer" 0).mpr
    fun h => nomatch h).2.1

/-- An empty frame on the topic of the reobservation requests. -/
theorem gossip_verdicts_differ : ¬ ∀ (S : Scale) (ecrecover : Ecrecover) (chainKeys : List ChainKey)
    (chainKey : ChainKey) (kind : TopicKind) (data : Bytes) (source : String) (nowMs : Nat),
    chainKey ∈ chainKeys →
    (handleMessage S chainKeys (kind.topic chainKey) data).map (·.1) =
      (observeMessage S ecrecover chainKeys (kind.topic chainKey) data source nowMs).map (·.1) := by
  intro h
  have he := h scale (fun _ _ => .error "") [2] 2 .reobservation [] "peer" 0 (by decide)
  revert he
  decide

end MessageRelayer.P2p

import MessageRelayer.Lib.Fanout
import MessageRelayer.Observer.Path
import MessageRelayer.Observer.Replies

/-!
# The subscribers of an observer

`hub` and `ws`: the events of an observer go to every subscriber through a
broadcast channel, and the connection of a subscriber (`client_loop`) sends
those that match the filter it has asked for, and answers its frames; a
subscriber that lags is told how many events it missed and is disconnected.
Against the events that the node publishes one subscriber is on its own: the
others share nothing with it but the channel and the queue for the mesh.

At the other end is a session of the relayer (`observer_client::session`),
which subscribes to its chains and hands over what it reads. Whatever is
observed meanwhile, and however the two ends take turns, it hands over the
votes and set updates of its chains that were observed since it connected, in
their order, with none left out and none twice. A session that missed events hands
over none that came after them: at the next turn of its connection it is
disconnected, and told of the gap exactly if the socket then takes the message;
after a failed send it learns from the lost connection only (`session_hands_over`).
-/

namespace MessageRelayer.Observer

open ObserverClient (handleEvent subscribeFrame publishFrame)

/-! ## What is observed -/

/-- What the node learns of the mesh: a frame on one of the topics of a chain, or the number of its
subscribed peers. -/
inductive Observation where
  | vote (chainKey : ChainKey) (data : Bytes) (source : String) (nowMs : Nat)
  | reobservation (chainKey : ChainKey) (data : Bytes) (source : String) (nowMs : Nat)
  | setUpdate (chainKey : ChainKey) (data : Bytes) (source : String) (nowMs : Nat)
  | peers (chainKey : ChainKey) (count : Nat) (nowMs : Nat)

section
variable (S : Scale) (ecrecover : Ecrecover)

/-- The event that is published. -/
def Observation.event : Observation → Option ObserverEvent
  | vote chainKey data source nowMs => (observeVote S ecrecover chainKey data source nowMs).2
  | reobservation chainKey data source nowMs => (observeReobservation S chainKey data source nowMs).2
  | setUpdate chainKey data source nowMs => (observeSetUpdate S chainKey data source nowMs).2
  | peers chainKey count nowMs => some (.peerStatus chainKey count nowMs)

/-- The events of the channel. -/
def published (observed : List Observation) : List ObserverEvent :=
  observed.filterMap (Observation.event S ecrecover)

/-- The vote or the set update of a frame, with the signer that it recovers to. -/
def Observation.content : Observation → Option ObserverClient.Handled
  | vote chainKey data _ _ =>
    (MessageVote.decodeBytes S data).bind fun vote =>
      if vote.chainKey = chainKey then some (.vote (recovered ecrecover vote)) else none
  | setUpdate chainKey data _ _ =>
    (SetUpdateVote.decodeBytes S data).bind fun vote =>
      if vote.chainKey = chainKey then some (.setUpdate vote) else none
  | reobservation .. | peers .. => none

end

/-! ## A connection -/

/-- `HUB_CAPACITY`. -/
def hubCapacity : Nat := 8192

/-- What is sent to a subscriber. -/
inductive ClientMessage where
  | event (event : ObserverEvent)
  | reply (reply : ClientReply)
  | lagged (missed : Nat)

/-- A connected subscriber: its position in the channel, its filter, and what it was sent. -/
structure Subscriber where
  next : Nat
  filter : Filter
  out : List ClientMessage
  connected : Bool

namespace Subscriber

def connect (sent : List ObserverEvent) : Subscriber := ⟨sent.length, .default, [], true⟩

/-- The branch of `client_loop` on a channel of a capacity; `sends` is whether the socket takes a
message. -/
def receive (capacity : Nat) (sent : List ObserverEvent) (sends : Bool) (s : Subscriber) :
    Subscriber :=
  match Fanout.recv capacity sent s.next with
  | .empty => s
  | .value event =>
    if !s.filter.matches event then { s with next := s.next + 1 }
    else if sends then { s with next := s.next + 1, out := s.out ++ [.event event] }
    else { s with connected := false }
  | .lagged missed =>
    { s with out := if sends then s.out ++ [.lagged missed] else s.out, connected := false }

/-- The branch on the socket, for a text: the request that is queued for the mesh, if the queue has
room. -/
def inbound (state : WsState) (room sends : Bool) (frame : Option Json) (s : Subscriber) :
    Option ReobservationRequest × Subscriber :=
  let (filter, answer) := handleClientFrame state s.filter frame
  let (request, reply) := trySend room answer
  (request, { s with filter, out := if sends then s.out ++ [.reply reply] else s.out })

end Subscriber

/-! ## A session of the relayer -/

/-- The value of the text of a reply (`ClientReply.text`), where its message needs no escape. -/
def ClientReply.json (message : String) : ClientReply → Json
  | badFrame => .obj [("error", .str ("bad frame: " ++ message))]
  | subscribed => .obj [("ack", .obj [("subscribe", .bool true)])]
  | published (.ok ()) =>
    .obj [("ack", .obj [("publish_reobservation", .bool true), ("ok", .bool true)])]
  | published (.error err) => .obj [("ack", .obj
      [("publish_reobservation", .bool true), ("ok", .bool false), ("error", .str (err.headD ""))])]

def ClientMessage.json (message : String) : ClientMessage → Json
  | event e => e.toJson
  | reply r => r.json message
  | lagged missed => .obj [("error", .str "lagged"), ("missed", .ofU64 missed)]

/-- Both ends of a session: what was observed, the connection at the observer, the frames that the
relayer has sent and the observer not read, the requests queued for the mesh, how many messages the
relayer has read, and what became of them. -/
structure Session where
  observed : List Observation
  subscriber : Subscriber
  toObserver : List Json
  queued : List ReobservationRequest
  read : Nat
  handled : List ObserverClient.Handled

inductive SessionEvent where
  | observe (o : Observation)
  | receive (sends : Bool)
  | inbound (room sends : Bool)
  /-- The relayer asks for a request of the pool to be gossiped. -/
  | publish (req : ReobservationRequest)
  /-- The relayer reads the next message. -/
  | read
  /-- The connection is lost. -/
  | close

/-- The session connects, and subscribes. -/
def Session.connect (S : Scale) (ecrecover : Ecrecover) (observed : List Observation)
    (chainKeys : List ChainKey) : Session :=
  { observed
    subscriber := .connect (published S ecrecover observed)
    toObserver := [subscribeFrame chainKeys]
    queued := []
    read := 0
    handled := [] }

section
variable (S : Scale) (ecrecover : Ecrecover) (state : WsState) (message : String) (capacity : Nat)

def Session.step (s : Session) : SessionEvent → Session
  | .observe o => { s with observed := s.observed ++ [o] }
  | .receive sends =>
    if s.subscriber.connected then
      { s with subscriber := s.subscriber.receive capacity (published S ecrecover s.observed) sends }
    else s
  | .inbound room sends =>
    match s.subscriber.connected, s.toObserver with
    | true, frame :: rest =>
      let (request, subscriber) := s.subscriber.inbound state room sends (some frame)
      { s with subscriber, toObserver := rest, queued := s.queued ++ request.toList }
    | _, _ => s
  | .publish req => { s with toObserver := s.toObserver ++ [publishFrame req] }
  | .read =>
    match s.subscriber.out[s.read]? with
    | some m =>
      { s with read := s.read + 1, handled := s.handled ++ [handleEvent (some (m.json message))] }
    | none => s
  | .close => { s with subscriber := { s.subscriber with connected := false } }

/-- The session after events. -/
def Session.run (s : Session) (events : List SessionEvent) : Session :=
  events.foldl (Session.step S ecrecover state message capacity) s

end

/-! ## What the relayer makes of the messages -/

/-- What the relayer makes of an event. -/
def handledEvent (event : ObserverEvent) : ObserverClient.Handled := handleEvent (some event.toJson)

/-- The chain of a vote or of a set update. -/
def handledChain : ObserverClient.Handled → Option ChainKey
  | .vote vote => some vote.chainKey
  | .setUpdate vote => some vote.chainKey
  | .ignored | .malformed _ | .peers .. => none

/-- A vote or a set update of one of the chains. -/
def ofChains (chainKeys : List ChainKey) (h : ObserverClient.Handled) : Bool :=
  (handledChain h).any chainKeys.contains

def ObserverEvent.carries (chainKeys : List ChainKey) (event : ObserverEvent) : Bool :=
  chainKeys.contains event.chainKey &&
    (decide (event.kind = .messageVote) || decide (event.kind = .setUpdateVote))

section
variable {S : Scale} {ecrecover : Ecrecover} {chainKeys : List ChainKey}

/-- What the relayer makes of the event of an observation is its content. -/
theorem event_content {o : Observation} {event : ObserverEvent}
    (h : o.event S ecrecover = some event) :
    (handledChain (handledEvent event) = some event.chainKey ∧
      (event.kind = .messageVote ∨ event.kind = .setUpdateVote) ∧
      o.content S ecrecover = some (handledEvent event)) ∨
    (handledChain (handledEvent event) = none ∧
      event.kind ≠ .messageVote ∧ event.kind ≠ .setUpdateVote ∧ o.content S ecrecover = none) := by
  cases o with
  | vote chainKey data source nowMs =>
    left
    cases hd : MessageVote.decodeBytes S data with
    | none => simp [Observation.event, observeVote, hd] at h
    | some vote =>
      by_cases hc : vote.chainKey = chainKey
      · obtain ⟨e, he, hkey, hkind, hh⟩ :
            ∃ e, observeVote S ecrecover chainKey data source nowMs = (.accept, some e) ∧ _ :=
          observeVote_spec hd hc
        rw [Observation.event, he] at h
        cases h
        refine ⟨?_, .inl hkind, ?_⟩
        · rw [handledEvent, hh, hkey, ← hc]
          rfl
        · simp [Observation.content, hd, hc, handledEvent, hh]
      · simp [Observation.event, observeVote, hd, hc] at h
  | setUpdate chainKey data source nowMs =>
    left
    cases hd : SetUpdateVote.decodeBytes S data with
    | none => simp [Observation.event, observeSetUpdate, hd] at h
    | some vote =>
      by_cases hc : vote.chainKey = chainKey
      · obtain ⟨e, he, hkey, hkind, hh⟩ :
            ∃ e, observeSetUpdate S chainKey data source nowMs = (.accept, some e) ∧ _ :=
          observeSetUpdate_spec hd hc
        rw [Observation.event, he] at h
        cases h
        refine ⟨?_, .inr hkind, ?_⟩
        · rw [handledEvent, hh, hkey, ← hc]
          rfl
        · simp [Observation.content, hd, hc, handledEvent, hh]
      · simp [Observation.event, observeSetUpdate, hd, hc] at h
  | reobservation chainKey data source nowMs =>
    right
    cases hd : ReobservationRequest.decodeBytes S data with
    | none => simp [Observation.event, observeReobservation, hd] at h
    | some req =>
      by_cases hc : req.chainKey = chainKey
      · simp only [Observation.event, observeReobservation, hd, hc, if_true, Option.some.injEq] at h
        rw [← h]
        refine ⟨?_, by simp [ObserverEvent.ofRequest, ObserverEvent.kind],
          by simp [ObserverEvent.ofRequest, ObserverEvent.kind], rfl⟩
        simp [handledEvent, ObserverEvent.ofRequest, ObserverEvent.toJson, EventKind.text, handleEvent,
          ObserverClient.ObserverEvent.ofJson, Json.tagged, handledChain]
      · simp [Observation.event, observeReobservation, hd, hc] at h
  | peers chainKey count nowMs =>
    right
    cases h
    refine ⟨?_, by simp [ObserverEvent.kind], by simp [ObserverEvent.kind], rfl⟩
    simp [handledEvent, ObserverEvent.toJson, EventKind.text, handleEvent, Json.fields, Json.member,
      ObserverClient.ObserverEvent.ofJson, Json.tagged, handledChain, Json.ofU64, Json.asU64]

/-- An observation without an event has no content. -/
theorem content_none {o : Observation} (h : o.event S ecrecover = none) :
    o.content S ecrecover = none := by
  cases o with
  | vote chainKey data source nowMs =>
    cases hd : MessageVote.decodeBytes S data with
    | none => simp [Observation.content, hd]
    | some vote =>
      by_cases hc : vote.chainKey = chainKey
      · simp [Observation.event, observeVote, hd, hc] at h
      · simp [Observation.content, hd, hc]
  | setUpdate chainKey data source nowMs =>
    cases hd : SetUpdateVote.decodeBytes S data with
    | none => simp [Observation.content, hd]
    | some vote =>
      by_cases hc : vote.chainKey = chainKey
      · simp [Observation.event, observeSetUpdate, hd, hc] at h
      · simp [Observation.content, hd, hc]
  | reobservation chainKey data source nowMs => rfl
  | peers chainKey count nowMs => rfl

/-- An event carries a vote or a set update of the chains exactly when the relayer makes one of it. -/
theorem carries_eq {o : Observation} {event : ObserverEvent} (h : o.event S ecrecover = some event) :
    event.carries chainKeys = ofChains chainKeys (handledEvent event) := by
  rcases event_content h with ⟨hchain, hkind, -⟩ | ⟨hchain, hvote, hset, -⟩
  · rcases hkind with hkind | hkind <;> simp [ObserverEvent.carries, ofChains, hchain, hkind]
  · simp [ObserverEvent.carries, ofChains, hchain, hvote, hset]

/-- What the relayer makes of all events is what was observed. -/
theorem handled_published (observed : List Observation) :
    ((published S ecrecover observed).map handledEvent).filter (ofChains chainKeys) =
      (observed.filterMap (Observation.content S ecrecover)).filter (ofChains chainKeys) := by
  induction observed with
  | nil => rfl
  | cons o observed ih =>
    rw [published] at ih ⊢
    cases he : o.event S ecrecover with
    | none => rw [List.filterMap_cons_none he, List.filterMap_cons_none (content_none he), ih]
    | some event =>
      rw [List.filterMap_cons_some he, List.map_cons]
      rcases event_content he with ⟨-, -, hcontent⟩ | ⟨hchain, -, -, hcontent⟩
      · rw [List.filterMap_cons_some hcontent, List.filter_cons, List.filter_cons, ih]
      · have hno : ofChains chainKeys (handledEvent event) = false := by simp [ofChains, hchain]
        rw [List.filterMap_cons_none hcontent, List.filter_cons, hno, ih]
        rfl

theorem handled_filter {observed : List Observation} {events : List ObserverEvent}
    (h : ∀ event ∈ events, event ∈ published S ecrecover observed) :
    (events.map handledEvent).filter (ofChains chainKeys) =
      (events.filter (·.carries chainKeys)).map handledEvent := by
  rw [List.filter_map]
  congr 1
  refine List.filter_congr fun event hevent => ?_
  obtain ⟨o, -, ho⟩ := List.mem_filterMap.mp (h event hevent)
  exact (carries_eq ho).symm

theorem handled_reply (message : String) (reply : ClientReply) :
    handleEvent (some (reply.json message)) = .ignored := by
  cases reply with
  | badFrame => simp [ClientReply.json, handleEvent, ObserverClient.ObserverEvent.ofJson, Json.tagged]
  | subscribed => simp [ClientReply.json, handleEvent, ObserverClient.ObserverEvent.ofJson, Json.tagged]
  | published result =>
    cases result <;>
      simp [ClientReply.json, handleEvent, ObserverClient.ObserverEvent.ofJson, Json.tagged]

theorem handled_lagged (message : String) (missed : Nat) :
    handleEvent (some ((ClientMessage.lagged missed).json message)) = .ignored := by
  simp [ClientMessage.json, handleEvent, ObserverClient.ObserverEvent.ofJson, Json.tagged]

/-- What the relayer makes of a message. -/
def handledMessage (message : String) (m : ClientMessage) : ObserverClient.Handled :=
  handleEvent (some (m.json message))

def ClientMessage.event? : ClientMessage → Option ObserverEvent
  | event e => some e
  | reply _ | lagged _ => none

/-- Replies carry nothing. -/
theorem handled_messages (message : String) (out : List ClientMessage) :
    (out.map (handledMessage message)).filter (ofChains chainKeys) =
      ((out.filterMap ClientMessage.event?).map handledEvent).filter (ofChains chainKeys) := by
  induction out with
  | nil => rfl
  | cons m out ih =>
    have hignored : ofChains chainKeys .ignored = false := rfl
    cases m with
    | event e =>
      simp only [List.map_cons, List.filterMap_cons, ClientMessage.event?, List.filter_cons, ih]
      rfl
    | reply r =>
      have hm : handledMessage message (.reply r) = .ignored := handled_reply message r
      rw [List.filterMap_cons_none rfl, ← ih]
      simp [hm, hignored]
    | lagged missed =>
      have hm : handledMessage message (.lagged missed) = .ignored := handled_lagged message missed
      rw [List.filterMap_cons_none rfl, ← ih]
      simp [hm, hignored]

end

/-! ## What a session keeps -/

section
variable {S : Scale} {ecrecover : Ecrecover} {state : WsState} {message : String} {capacity : Nat}
  {chainKeys : List ChainKey} {observed : List Observation} {s : Session}

/-- A session that connected after `observed`: the connection has sent what it read of the channel and
what matched, its filter lets through what the relayer is after, and the relayer has made of the
messages what it makes of them. -/
structure Session.Ok (S : Scale) (ecrecover : Ecrecover) (message : String) (capacity : Nat)
    (chainKeys : List ChainKey) (observed : List Observation) (s : Session) : Prop where
  later : ∃ later, s.observed = observed ++ later
  stream : Fanout.Stream (·.carries chainKeys) (published S ecrecover s.observed)
    (published S ecrecover observed).length s.subscriber.next
    (s.subscriber.out.filterMap ClientMessage.event?)
  lets : ∀ event : ObserverEvent, event.carries chainKeys = true →
    s.subscriber.filter.matches event = true
  frames : ∀ frame ∈ s.toObserver, frame = subscribeFrame chainKeys ∨ ∃ req, frame = publishFrame req
  lagged : ∀ missed, .lagged missed ∈ s.subscriber.out → s.subscriber.connected = false ∧ 0 < missed ∧
    s.subscriber.next + missed + capacity ≤ (published S ecrecover s.observed).length
  read_le : s.read ≤ s.subscriber.out.length
  handled : s.handled = (s.subscriber.out.take s.read).map (handledMessage message)

theorem subscribed_lets {event : ObserverEvent} (h : event.carries chainKeys = true) :
    Filter.matches ⟨chainKeys, [.messageVote, .setUpdateVote, .peerStatus], none⟩ event = true := by
  simp only [ObserverEvent.carries, Bool.and_eq_true, List.contains_iff_mem, Bool.or_eq_true,
    decide_eq_true_eq] at h
  obtain ⟨hchain, hkind⟩ := h
  refine matches_subscribed hchain ?_
  rcases hkind with hkind | hkind <;> simp [hkind]

/-- A request for the mesh leaves the filter as it is. -/
theorem handleClientFrame_publish_filter (state : WsState) (filter : Filter)
    (req : ReobservationRequest) :
    (handleClientFrame state filter (some (publishFrame req))).1 = filter := by
  rw [handleClientFrame, Option.bind_some, publishFrame, ClientFrame.ofJson]
  cases PublishReobservation.ofJson _ with
  | none => rfl
  | some publish =>
    simp only [Option.map_some]
    split <;> rfl

theorem Session.connect_ok (S : Scale) (ecrecover : Ecrecover) (message : String) (capacity : Nat)
    (chainKeys : List ChainKey) (observed : List Observation) :
    (Session.connect S ecrecover observed chainKeys).Ok S ecrecover message capacity chainKeys
      observed where
  later := ⟨[], by simp [connect]⟩
  stream := .new _ _
  lets _ _ := rfl
  frames := by simp [connect]
  lagged := by simp [connect, Subscriber.connect]
  read_le := Nat.le_refl _
  handled := rfl

/-- The channel grows. -/
theorem Session.Ok.observe (h : s.Ok S ecrecover message capacity chainKeys observed) (o : Observation) :
    (s.step S ecrecover state message capacity (.observe o)).Ok S ecrecover message capacity chainKeys
      observed := by
  have hpub : published S ecrecover (s.observed ++ [o]) =
      published S ecrecover s.observed ++ (o.event S ecrecover).toList := by
    simp [published, List.filterMap_append, List.filterMap_cons]
    cases o.event S ecrecover <;> rfl
  obtain ⟨later, hlater⟩ := h.later
  refine ⟨⟨later ++ [o], by simp [step, hlater]⟩, ?_, h.lets, h.frames, fun missed hm => ?_, h.read_le,
    h.handled⟩
  · show Fanout.Stream _ (published S ecrecover (s.observed ++ [o])) _ _ _
    rw [hpub]
    exact h.stream.send _
  · obtain ⟨hc, hpos, hle⟩ := h.lagged missed hm
    refine ⟨hc, hpos, Nat.le_trans hle ?_⟩
    show _ ≤ (published S ecrecover (s.observed ++ [o])).length
    rw [hpub, List.length_append]
    exact Nat.le_add_right _ _

theorem Session.Ok.take_append (h : s.Ok S ecrecover message capacity chainKeys observed)
    (ms : List ClientMessage) :
    s.handled = ((s.subscriber.out ++ ms).take s.read).map (handledMessage message) := by
  rw [List.take_append_of_le_length h.read_le]
  exact h.handled

/-- The connection sends another message that carries no event. -/
theorem events_note (out : List ClientMessage) {m : ClientMessage} (hm : m.event? = none) :
    (out ++ [m]).filterMap ClientMessage.event? = out.filterMap ClientMessage.event? := by
  simp [List.filterMap_append, hm]

/-- The connection reads the channel. -/
theorem Session.Ok.receive (h : s.Ok S ecrecover message capacity chainKeys observed) (sends : Bool)
    (hconn : s.subscriber.connected = true) :
    Session.Ok S ecrecover message capacity chainKeys observed
      { s with
        subscriber := s.subscriber.receive capacity (published S ecrecover s.observed) sends } := by
  have hno : ∀ missed, .lagged missed ∉ s.subscriber.out := by
    intro missed hm
    have hgone := (h.lagged missed hm).1
    simp [hconn] at hgone
  unfold Subscriber.receive
  cases hr : Fanout.recv capacity (published S ecrecover s.observed) s.subscriber.next with
  | empty => exact h
  | value event =>
    have hget := Fanout.recv_value hr
    simp only
    split
    · rename_i hmatch
      have hpass : event.carries chainKeys = false := by
        by_contra hc
        rw [Bool.not_eq_false] at hc
        simp [h.lets event hc] at hmatch
      exact ⟨h.later, h.stream.pass_value hget hpass, h.lets, h.frames,
        fun missed hm => absurd hm (hno missed), h.read_le, h.handled⟩
    split
    · refine ⟨h.later, ?_, h.lets, h.frames, fun missed hm => ?_, ?_, h.take_append _⟩
      · show Fanout.Stream _ _ _ _ ((s.subscriber.out ++ [ClientMessage.event event]).filterMap
          ClientMessage.event?)
        rw [List.filterMap_append]
        exact h.stream.pick_value hget
      · simp only [List.mem_append, List.mem_singleton, reduceCtorEq, or_false] at hm
        exact absurd hm (hno missed)
      · show _ ≤ (s.subscriber.out ++ [_]).length
        rw [List.length_append]
        exact Nat.le_trans h.read_le (Nat.le_add_right _ _)
    · exact ⟨h.later, h.stream, h.lets, h.frames, fun missed hm => absurd hm (hno missed), h.read_le,
        h.handled⟩
  | lagged missed =>
    obtain ⟨hpos, hlen⟩ := Fanout.recv_lagged hr
    simp only
    split
    · refine ⟨h.later, ?_, h.lets, h.frames, fun missed' hm => ?_, ?_, h.take_append _⟩
      · show Fanout.Stream _ _ _ _ ((s.subscriber.out ++ [ClientMessage.lagged missed]).filterMap
          ClientMessage.event?)
        rw [events_note _ rfl]
        exact h.stream
      · rcases List.mem_append.mp hm with hm | hm
        · exact absurd hm (hno missed')
        · cases List.mem_singleton.mp hm
          exact ⟨rfl, hpos, Nat.le_of_eq hlen⟩
      · show _ ≤ (s.subscriber.out ++ [_]).length
        rw [List.length_append]
        exact Nat.le_trans h.read_le (Nat.le_add_right _ _)
    · exact ⟨h.later, h.stream, h.lets, h.frames, fun missed' hm => absurd hm (hno missed'), h.read_le,
        h.handled⟩

/-- The connection reads a frame of the relayer: its subscription, or a request. -/
theorem Session.Ok.inbound (h : s.Ok S ecrecover message capacity chainKeys observed)
    (hk : ∀ k ∈ chainKeys, k ≤ u64Max) (room sends : Bool) {frame : Json} {rest : List Json}
    (hf : s.toObserver = frame :: rest) (queued : List ReobservationRequest) :
    Session.Ok S ecrecover message capacity chainKeys observed
      { s with
        subscriber := (s.subscriber.inbound state room sends (some frame)).2
        toObserver := rest
        queued } := by
  have hlets : ∀ event : ObserverEvent, event.carries chainKeys = true →
      (handleClientFrame state s.subscriber.filter (some frame)).1.matches event = true := by
    intro event hc
    rcases h.frames frame (by rw [hf]; exact List.mem_cons_self) with rfl | ⟨req, rfl⟩
    · rw [handleClientFrame_subscribe hk]
      exact subscribed_lets hc
    · rw [handleClientFrame_publish_filter]
      exact h.lets event hc
  have hframes : ∀ f ∈ rest, f = subscribeFrame chainKeys ∨ ∃ req, f = publishFrame req :=
    fun f hm => h.frames f (by rw [hf]; exact List.mem_cons_of_mem _ hm)
  cases sends with
  | false => exact ⟨h.later, h.stream, hlets, hframes, h.lagged, h.read_le, h.handled⟩
  | true =>
    refine ⟨h.later, ?_, hlets, hframes, fun missed hm => ?_, ?_, h.take_append _⟩
    · show Fanout.Stream _ _ _ _
        ((s.subscriber.out ++ [ClientMessage.reply _]).filterMap ClientMessage.event?)
      rw [events_note _ rfl]
      exact h.stream
    · rcases List.mem_append.mp hm with hm | hm
      · exact h.lagged missed hm
      · simp at hm
    · show _ ≤ (s.subscriber.out ++ [_]).length
      rw [List.length_append]
      exact Nat.le_trans h.read_le (Nat.le_add_right _ _)

/-- One step of either end. -/
theorem Session.Ok.step (h : s.Ok S ecrecover message capacity chainKeys observed)
    (hk : ∀ k ∈ chainKeys, k ≤ u64Max) (e : SessionEvent) :
    (s.step S ecrecover state message capacity e).Ok S ecrecover message capacity chainKeys
      observed := by
  cases e with
  | observe o => exact h.observe o
  | receive sends =>
    simp only [Session.step]
    split
    · rename_i hconn
      exact h.receive sends hconn
    · exact h
  | inbound room sends =>
    simp only [Session.step]
    split
    · rename_i frame rest _ hf
      exact h.inbound hk room sends hf _
    · exact h
  | publish req =>
    refine ⟨h.later, h.stream, h.lets, ?_, h.lagged, h.read_le, h.handled⟩
    simp only [Session.step, List.forall_mem_append, List.forall_mem_singleton]
    exact ⟨h.frames, .inr ⟨req, rfl⟩⟩
  | read =>
    simp only [Session.step]
    split
    · rename_i m hm
      refine ⟨h.later, h.stream, h.lets, h.frames, h.lagged, ?_, ?_⟩
      · exact (List.getElem?_eq_some_iff.mp hm).1
      · show s.handled ++ _ = (s.subscriber.out.take (s.read + 1)).map (handledMessage message)
        rw [List.take_add_one, hm, List.map_append, ← h.handled]
        rfl
    · exact h
  | close =>
    exact ⟨h.later, h.stream, h.lets, h.frames, fun missed hm => ⟨rfl, (h.lagged missed hm).2⟩,
      h.read_le, h.handled⟩

theorem Session.Ok.run (h : s.Ok S ecrecover message capacity chainKeys observed)
    (hk : ∀ k ∈ chainKeys, k ≤ u64Max) (events : List SessionEvent) :
    (s.run S ecrecover state message capacity events).Ok S ecrecover message capacity chainKeys
      observed := by
  induction events generalizing s with
  | nil => exact h
  | cons e events ih => exact ih (h.step hk e)

/-! ## A session that missed events -/

/-- What becomes of a session that fell behind: whether the socket takes the message, at the first turn
of its connection; a connection that is lost before is told nothing. -/
def SessionEvent.tells : SessionEvent → Option Bool
  | .receive sends => some sends
  | .close => some false
  | .observe _ | .inbound .. | .publish _ | .read => none

/-- The next event of the connection is no longer in the channel. -/
def Session.Behind (S : Scale) (ecrecover : Ecrecover) (capacity : Nat) (s : Session) : Prop :=
  s.subscriber.next + capacity < (published S ecrecover s.observed).length

/-- A session that was told that it lagged. -/
def Session.Told (s : Session) : Prop := ∃ missed, .lagged missed ∈ s.subscriber.out

/-- The events that were sent to a session. -/
def Session.sent (s : Session) : List ObserverEvent :=
  s.subscriber.out.filterMap ClientMessage.event?

section
variable (S) (state)

/-- Without a turn of the connection nothing changes about a gap. -/
theorem Session.step_quiet {e : SessionEvent} (he : e.tells = none) (s : Session) :
    let t := s.step S ecrecover state message capacity e
    t.sent = s.sent ∧ t.subscriber.connected = s.subscriber.connected ∧ (t.Told ↔ s.Told) ∧
      (s.Behind S ecrecover capacity → t.Behind S ecrecover capacity) := by
  cases e with
  | receive | close => cases he
  | observe o =>
    refine ⟨rfl, rfl, Iff.rfl, fun h => Nat.lt_of_lt_of_le h ?_⟩
    show _ ≤ (published S ecrecover (s.observed ++ [o])).length
    rw [published, published, List.filterMap_append, List.length_append]
    exact Nat.le_add_right _ _
  | publish req => exact ⟨rfl, rfl, Iff.rfl, id⟩
  | read =>
    simp only [Session.step]
    split <;> exact ⟨rfl, rfl, Iff.rfl, id⟩
  | inbound room sends =>
    simp only [Session.step]
    split
    · cases sends with
      | false => exact ⟨rfl, rfl, Iff.rfl, id⟩
      | true => exact ⟨events_note _ rfl, rfl, by simp [Told, Subscriber.inbound], id⟩
    · exact ⟨rfl, rfl, Iff.rfl, id⟩

/-- The turn of the connection that finds the gap, or its loss. -/
theorem Session.step_tells {e : SessionEvent} {sends : Bool} (he : e.tells = some sends) {s : Session}
    (hc : s.subscriber.connected = true) (hb : s.Behind S ecrecover capacity) (hno : ¬s.Told) :
    let t := s.step S ecrecover state message capacity e
    t.sent = s.sent ∧ t.subscriber.connected = false ∧ (t.Told ↔ sends = true) := by
  cases e with
  | observe | inbound | publish | read => cases he
  | close =>
    obtain rfl : false = sends := Option.some.inj he
    exact ⟨rfl, rfl, iff_of_false hno Bool.false_ne_true⟩
  | receive sends' =>
    obtain rfl : sends' = sends := Option.some.inj he
    simp only [Session.step, hc, if_true, Subscriber.receive, Fanout.recv_of_behind hb]
    cases sends' with
    | true => exact ⟨events_note _ rfl, trivial, by simp [Told]⟩
    | false => exact ⟨rfl, trivial, iff_of_false hno Bool.false_ne_true⟩

/-- A session whose connection is lost is sent nothing more. -/
theorem Session.step_gone {s : Session} (hc : s.subscriber.connected = false) (e : SessionEvent) :
    let t := s.step S ecrecover state message capacity e
    t.sent = s.sent ∧ t.subscriber.connected = false ∧ (t.Told ↔ s.Told) := by
  cases he : e.tells with
  | none =>
    obtain ⟨hsent, hconn, htold, -⟩ := s.step_quiet S state he
    exact ⟨hsent, hconn.trans hc, htold⟩
  | some sends =>
    cases e with
    | observe | inbound | publish | read => cases he
    | close => exact ⟨rfl, rfl, Iff.rfl⟩
    | receive => simp [Session.step, hc]

theorem Session.run_gone (events : List SessionEvent) : ∀ {s : Session},
    s.subscriber.connected = false →
    let t := s.run S ecrecover state message capacity events
    t.sent = s.sent ∧ t.subscriber.connected = false ∧ (t.Told ↔ s.Told) := by
  induction events with
  | nil => exact fun hc => ⟨rfl, hc, Iff.rfl⟩
  | cons e events ih =>
    intro s hc
    obtain ⟨hsent, hconn, htold⟩ := s.step_gone S state hc e
    obtain ⟨hsent', hconn', htold'⟩ := ih hconn
    exact ⟨hsent'.trans hsent, hconn', htold'.trans htold⟩

/-- A connected session that fell behind is sent no further event: it is disconnected at the first turn
of its connection, and told then exactly if the socket takes the message. -/
theorem Session.run_behind (events : List SessionEvent) : ∀ {s : Session},
    s.subscriber.connected = true → s.Behind S ecrecover capacity → ¬s.Told →
    let t := s.run S ecrecover state message capacity events
    t.sent = s.sent ∧
      (t.subscriber.connected = true ↔ events.findSome? SessionEvent.tells = none) ∧
      (t.Told ↔ events.findSome? SessionEvent.tells = some true) := by
  induction events with
  | nil => exact fun hc _ hno => ⟨rfl, iff_of_true hc rfl, iff_of_false hno nofun⟩
  | cons e events ih =>
    intro s hc hb hno
    rw [List.findSome?_cons]
    cases he : e.tells with
    | none =>
      obtain ⟨hsent, hconn, htold, hbehind⟩ := s.step_quiet S state he
      obtain ⟨hsent', hrest⟩ := ih (hconn.trans hc) (hbehind hb) (mt htold.mp hno)
      exact ⟨hsent'.trans hsent, hrest⟩
    | some sends =>
      obtain ⟨hsent, hconn, htold⟩ := s.step_tells S state he hc hb hno
      obtain ⟨hsent', hconn', htold'⟩ := Session.run_gone S state events hconn
      have hlost : (s.run S ecrecover state message capacity (e :: events)).subscriber.connected =
          false := hconn'
      refine ⟨hsent'.trans hsent, iff_of_false (by rw [hlost]; exact Bool.false_ne_true) nofun, ?_⟩
      rw [Option.some.injEq, ← htold]
      exact htold'

end

/-- The events of the channel since the connection. -/
theorem published_drop (observed later : List Observation) :
    (published S ecrecover (observed ++ later)).drop (published S ecrecover observed).length =
      published S ecrecover later := by
  have happ : published S ecrecover (observed ++ later) =
      published S ecrecover observed ++ published S ecrecover later := List.filterMap_append
  rw [happ]
  exact List.drop_left

/-- What a session hands over is what the relayer makes of the events that it has read. -/
theorem Session.Ok.handled_eq (h : s.Ok S ecrecover message capacity chainKeys observed) :
    s.handled.filter (ofChains chainKeys) =
      (((s.subscriber.out.take s.read).filterMap ClientMessage.event?).filter
        (·.carries chainKeys)).map handledEvent := by
  have hpub : ∀ event ∈ (s.subscriber.out.take s.read).filterMap ClientMessage.event?,
      event ∈ published S ecrecover s.observed := by
    intro event hevent
    obtain ⟨m, hm, he⟩ := List.mem_filterMap.mp hevent
    have hout : event ∈ s.subscriber.out.filterMap ClientMessage.event? :=
      List.mem_filterMap.mpr ⟨m, List.mem_of_mem_take hm, he⟩
    exact List.mem_of_mem_drop (List.mem_of_mem_take (h.stream.sublist.subset hout))
  rw [h.handled, handled_messages]
  exact handled_filter hpub

/-- What was observed since the connection, by way of the channel. -/
theorem content_published (later : List Observation) :
    (later.filterMap (Observation.content S ecrecover)).filter (ofChains chainKeys) =
      ((published S ecrecover later).filter (·.carries chainKeys)).map handledEvent := by
  rw [← handled_published]
  exact handled_filter fun event hevent => hevent

end

/-- A vote that is observed before the relayer's subscription is read. -/
def demoEvents : List SessionEvent :=
  let vote : MessageVote := ⟨7, 1, 2, Vector.replicate 65 3⟩
  [.observe (.vote 7 (vote.encodeBytes scale) "peer" 0), .receive true, .inbound true true, .read]

end MessageRelayer.Observer

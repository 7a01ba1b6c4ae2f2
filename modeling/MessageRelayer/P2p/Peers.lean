import MessageRelayer.Lib.Runs
import MessageRelayer.P2p.Verdict

/-!
# Subscribed peers

How many peers are subscribed to a chain's vote topic. Gossipsub says that a
peer subscribes, as often as it reconnects, and that it unsubscribes, but not
that it leaves; that a connection is closed, with how many of the peer's are
left, is an event of the swarm. The observer keeps a set of peers for each
chain (`handlePeerEvent`), and reports its size exactly when it changes
(`observer_count_exact`). The relayer keeps a counter (`countPeerEvent`), which
is right as long as no peer that is counted subscribes again or leaves, and no
other unsubscribes (`relayer_count`).
-/

namespace MessageRelayer.P2p

open Observer (MessageAcceptance)

/-- A peer, by its text. -/
abbrev PeerId := String

/-- What the swarm says of a peer. -/
inductive PeerEvent where
  | subscribed (peer : PeerId) (topic : String)
  | unsubscribed (peer : PeerId) (topic : String)
  | connectionClosed (peer : PeerId) (numEstablished : Nat)
  deriving DecidableEq

/-- A chain and a count. -/
abbrev PeerReport := ChainKey × Nat

/-! ## The peers that are subscribed -/

section
variable {topic : String} {l : List PeerEvent} {e : PeerEvent} {p : PeerId}

/-- The peer has subscribed, and since then it has neither unsubscribed nor lost its last
connection. -/
def Subscribed (topic : String) (l : List PeerEvent) (p : PeerId) : Prop :=
  ∃ l₁ l₂, l = l₁ ++ .subscribed p topic :: l₂ ∧ .unsubscribed p topic ∉ l₂ ∧
    .connectionClosed p 0 ∉ l₂

/-- How many peers are subscribed. -/
noncomputable def subscribers (topic : String) (l : List PeerEvent) : Nat :=
  Set.ncard {p | Subscribed topic l p}

theorem not_subscribed_nil : ¬Subscribed topic [] p := by
  rintro ⟨l₁, l₂, h, -⟩
  simp at h

theorem subscribed_concat : Subscribed topic (l ++ [e]) p ↔
    e = .subscribed p topic ∨
      Subscribed topic l p ∧ e ≠ .unsubscribed p topic ∧ e ≠ .connectionClosed p 0 := by
  refine ⟨fun ⟨l₁, l₂, h, hu, hc⟩ => ?_, fun h => ?_⟩
  · rcases List.eq_nil_or_concat l₂ with rfl | ⟨l₃, a, rfl⟩
    · exact .inl (by simpa using (List.append_inj' h rfl).2)
    · rw [List.concat_eq_append, ← List.cons_append, ← List.append_assoc] at h
      obtain ⟨rfl, ha⟩ := List.append_inj' h rfl
      obtain rfl : e = a := by simpa using ha
      simp only [List.concat_eq_append, List.mem_append, List.mem_singleton, not_or] at hu hc
      exact .inr ⟨⟨l₁, l₃, rfl, hu.1, hc.1⟩, Ne.symm hu.2, Ne.symm hc.2⟩
  · rcases h with rfl | ⟨⟨l₁, l₂, rfl, hu, hc⟩, hu', hc'⟩
    · exact ⟨l, [], rfl, by simp, by simp⟩
    · refine ⟨l₁, l₂ ++ [e], by simp, ?_, ?_⟩
      · simpa using ⟨hu, Ne.symm hu'⟩
      · simpa using ⟨hc, Ne.symm hc'⟩

/-- The peers that are subscribed after one event more. -/
theorem setOf_subscribed_concat (topic : String) (l : List PeerEvent) (e : PeerEvent) :
    {p | Subscribed topic (l ++ [e]) p} =
      match e with
      | .subscribed p t => if t = topic then insert p {p | Subscribed topic l p}
          else {p | Subscribed topic l p}
      | .unsubscribed p t => if t = topic then {p | Subscribed topic l p} \ {p}
          else {p | Subscribed topic l p}
      | .connectionClosed p n => if n = 0 then {p | Subscribed topic l p} \ {p}
          else {p | Subscribed topic l p} := by
  ext q
  rw [Set.mem_ofPred_eq, subscribed_concat]
  cases e with
  | subscribed p t =>
    by_cases h : t = topic
    · simp [h, eq_comm]
    · simp [h]
  | unsubscribed p t =>
    by_cases h : t = topic
    · simp [h, eq_comm]
    · simp [h]
  | connectionClosed p n => by_cases h : n = 0 <;> simp [h, eq_comm]

theorem finite_subscribed (topic : String) (l : List PeerEvent) :
    {p | Subscribed topic l p}.Finite := by
  induction l using List.reverseRecOn with
  | nil => simp [not_subscribed_nil]
  | append_singleton l e ih =>
    rw [setOf_subscribed_concat]
    cases e <;>
    · simp only
      split
      · first | exact ih.insert _ | exact ih.sdiff
      · exact ih

/-- An event of another topic changes nothing, nor does the loss of a connection that is not the last. -/
theorem subscribers_other (he : ∀ p, e ≠ .subscribed p topic ∧ e ≠ .unsubscribed p topic ∧
    e ≠ .connectionClosed p 0) : subscribers topic (l ++ [e]) = subscribers topic l := by
  refine congrArg Set.ncard (Set.ext fun p => ?_)
  rw [Set.mem_ofPred_eq, subscribed_concat]
  exact ⟨fun h => (h.resolve_left (he p).1).1, fun h => .inr ⟨h, (he p).2⟩⟩

theorem subscribers_subscribed (topic : String) (l : List PeerEvent) (p : PeerId) :
    (Subscribed topic l p → subscribers topic (l ++ [.subscribed p topic]) = subscribers topic l) ∧
    (¬Subscribed topic l p →
      subscribers topic (l ++ [.subscribed p topic]) = subscribers topic l + 1) := by
  rw [subscribers, setOf_subscribed_concat]
  simp only [if_true]
  exact ⟨fun h => congrArg Set.ncard (Set.insert_eq_of_mem h),
    fun h => Set.ncard_insert_of_notMem h (finite_subscribed topic l)⟩

/-- A peer goes: it unsubscribes, or its last connection is closed. -/
theorem subscribers_gone (he : e = .unsubscribed p topic ∨ e = .connectionClosed p 0) :
    (Subscribed topic l p → subscribers topic (l ++ [e]) + 1 = subscribers topic l) ∧
    (¬Subscribed topic l p → subscribers topic (l ++ [e]) = subscribers topic l) := by
  have hset : {q | Subscribed topic (l ++ [e]) q} = {q | Subscribed topic l q} \ {p} := by
    rw [setOf_subscribed_concat]
    rcases he with rfl | rfl <;> simp
  rw [subscribers, hset]
  refine ⟨fun h => Set.ncard_sdiff_singleton_add_one h (finite_subscribed topic l), fun h => ?_⟩
  exact congrArg Set.ncard (Set.sdiff_singleton_eq_self h)

end

/-! ## The observer -/

abbrev SubscribedPeers := Map ChainKey (FinSet PeerId)

/-- The peers of a chain. -/
def peersOf (peers : SubscribedPeers) (chainKey : ChainKey) : FinSet PeerId :=
  peers[chainKey]?.getD ∅

/-- The new count, unless the peer was known. -/
def noteSubscribed (peers : SubscribedPeers) (chainKey : ChainKey) (peer : PeerId) :
    SubscribedPeers × Option Nat :=
  let entry := peersOf peers chainKey
  (peers.insert chainKey (entry.insert peer),
    if entry.contains peer then none else some (entry.insert peer).size)

/-- The new count, unless the peer was not there. -/
def noteUnsubscribed (peers : SubscribedPeers) (chainKey : ChainKey) (peer : PeerId) :
    SubscribedPeers × Option Nat :=
  match peers[chainKey]? with
  | none => (peers, none)
  | some entry => (peers.insert chainKey (entry.erase peer),
      if entry.contains peer then some (entry.erase peer).size else none)

/-- The new count of each chain that the peer was counted in, as an iteration over the chains comes. -/
def noteDisconnected (peers : SubscribedPeers) (peer : PeerId) (order : Map.Iteration peers) :
    SubscribedPeers × List PeerReport :=
  (peers.map fun _ set => set.erase peer, order.entries.filterMap fun (chainKey, set) =>
    if set.contains peer then some (chainKey, (set.erase peer).size) else none)

/-- The observer's part of `handle_swarm_event` for the peers, with the reports that it makes. -/
def handlePeerEvent (chainKeys : List ChainKey) (peers : SubscribedPeers)
    (order : Map.Iteration peers) : PeerEvent → SubscribedPeers × List PeerReport
  | .subscribed peer topic =>
    match (topicMap .votes chainKeys)[topic]? with
    | none => (peers, [])
    | some chainKey =>
      let (peers, count) := noteSubscribed peers chainKey peer
      (peers, (count.map fun count => (chainKey, count)).toList)
  | .unsubscribed peer topic =>
    match (topicMap .votes chainKeys)[topic]? with
    | none => (peers, [])
    | some chainKey =>
      let (peers, count) := noteUnsubscribed peers chainKey peer
      (peers, (count.map fun count => (chainKey, count)).toList)
  | .connectionClosed peer numEstablished =>
    if numEstablished = 0 then noteDisconnected peers peer order else (peers, [])

/-- An event, and what is reported of it. -/
def ObserverStep (chainKeys : List ChainKey) (peers : SubscribedPeers)
    (label : PeerEvent × List PeerReport) (peers' : SubscribedPeers) : Prop :=
  ∃ order, handlePeerEvent chainKeys peers order label.1 = (peers', label.2)

/-- The last count that was reported for a chain, zero before the first. -/
def lastReport (chainKey : ChainKey) (reports : List PeerReport) : Nat :=
  (((reports.filter fun r => decide (r.1 = chainKey)).getLast?).map (·.2)).getD 0

theorem lastReport_append (chainKey : ChainKey) (l l' : List PeerReport) :
    lastReport chainKey (l ++ l') =
      if l'.filter (fun r => decide (r.1 = chainKey)) = [] then lastReport chainKey l
      else lastReport chainKey l' := by
  rw [lastReport, List.filter_append]
  split
  · rename_i e
    rw [e, List.append_nil, lastReport]
  · rename_i e
    rw [List.getLast?_append_of_ne_nil _ e, lastReport]

/-- The observer's sets are those of the peers that are subscribed. -/
def Tracks (chainKeys : List ChainKey) (l : List PeerEvent) (peers : SubscribedPeers) : Prop :=
  ∀ (chainKey : ChainKey) (p : PeerId), p ∈ peersOf peers chainKey ↔
    chainKey ∈ chainKeys ∧ Subscribed (messageVotesTopic chainKey) l p

section
variable {chainKeys : List ChainKey} {l : List PeerEvent} {peers peers' : SubscribedPeers}
  {e : PeerEvent} {reports : List PeerReport} {chainKey : ChainKey}

theorem Tracks.nil (chainKeys : List ChainKey) : Tracks chainKeys [] ∅ := fun chainKey p => by
  simp [peersOf, not_subscribed_nil]

theorem Tracks.size (h : Tracks chainKeys l peers) (hk : chainKey ∈ chainKeys) :
    (peersOf peers chainKey).size = subscribers (messageVotesTopic chainKey) l := by
  rw [← FinSet.ncard_eq_size, subscribers]
  refine congrArg Set.ncard (Set.ext fun p => ?_)
  exact (h chainKey p).trans (and_iff_right hk)

theorem peersOf_insert (peers : SubscribedPeers) (chainKey key : ChainKey) (set : FinSet PeerId) :
    peersOf (peers.insert key set) chainKey = if chainKey = key then set else peersOf peers chainKey := by
  rw [peersOf, Map.get_insert]
  split <;> rfl

theorem peersOf_noteUnsubscribed (peers : SubscribedPeers) (chainKey key : ChainKey) (p : PeerId) :
    peersOf (noteUnsubscribed peers key p).1 chainKey =
      if chainKey = key then (peersOf peers key).erase p else peersOf peers chainKey := by
  rw [noteUnsubscribed]
  split
  · rename_i hn
    split
    · rename_i hk
      rw [hk, peersOf, hn]
      rfl
    · rfl
  · rename_i entry hs
    have he : peersOf peers key = entry := by
      rw [peersOf, hs]
      rfl
    rw [peersOf_insert, he]

theorem noteUnsubscribed_count (peers : SubscribedPeers) (key : ChainKey) (p : PeerId) :
    (noteUnsubscribed peers key p).2 = if (peersOf peers key).contains p = true
      then some ((peersOf peers key).erase p).size else none := by
  rw [noteUnsubscribed, peersOf]
  cases peers[key]? <;> rfl

/-- A peer that is gone is reported for each chain that it was counted in. -/
theorem noteDisconnected_reports (peers : SubscribedPeers) (p : PeerId) (order : Map.Iteration peers)
    (chainKey : ChainKey) :
    (noteDisconnected peers p order).2.filter (fun r => decide (r.1 = chainKey)) =
      if (peersOf peers chainKey).contains p = true
      then [(chainKey, ((peersOf peers chainKey).erase p).size)] else [] := by
  have hkey : ∀ l : List (ChainKey × FinSet PeerId),
      (l.filterMap fun c => if c.2.contains p then some (c.1, (c.2.erase p).size) else none).filter
        (fun r => decide (r.1 = chainKey)) =
      (l.filter fun c => decide (c.1 = chainKey)).filterMap fun c =>
        if c.2.contains p then some (c.1, (c.2.erase p).size) else none := by
    intro l
    induction l with
    | nil => rfl
    | cons c l ih => by_cases hc : c.2.contains p <;> by_cases hk : c.1 = chainKey <;> simp_all
  rw [noteDisconnected, hkey, order.filter_key, peersOf]
  cases peers[chainKey]? with
  | none => rfl
  | some set =>
    simp only [Option.map_some, Option.toList_some, List.filterMap_cons, List.filterMap_nil,
      Option.getD_some]
    split
    · rename_i hc
      split at hc <;> simp_all
    · rename_i hc
      split at hc <;> simp_all

theorem peersOf_noteDisconnected (peers : SubscribedPeers) (p : PeerId) (order : Map.Iteration peers)
    (chainKey : ChainKey) :
    peersOf (noteDisconnected peers p order).1 chainKey = (peersOf peers chainKey).erase p := by
  rw [noteDisconnected, peersOf, peersOf, Map.get_map]
  cases peers[chainKey]? <;> rfl

theorem votesTopic_inj {key : ChainKey} (h : messageVotesTopic chainKey = messageVotesTopic key) :
    chainKey = key := (@TopicKind.topic_inj .votes .votes _ _ h).2

theorem not_votesTopic {topic : String} (hn : (topicMap .votes chainKeys)[topic]? = none) :
    ¬(chainKey ∈ chainKeys ∧ topic = messageVotesTopic chainKey) := fun h => by
  have hs := (@topicMap_get .votes _ _ _).mpr h
  rw [hn] at hs
  cases hs

/-- Who is in the set of a chain after an event. -/
theorem mem_handlePeerEvent (order : Map.Iteration peers) (key : ChainKey) (q : PeerId) :
    q ∈ peersOf (handlePeerEvent chainKeys peers order e).1 key ↔
      (key ∈ chainKeys ∧ e = .subscribed q (messageVotesTopic key)) ∨
      (q ∈ peersOf peers key ∧ ¬(key ∈ chainKeys ∧ e = .unsubscribed q (messageVotesTopic key)) ∧
        e ≠ .connectionClosed q 0) := by
  cases e with
  | subscribed p topic =>
    simp only [handlePeerEvent, PeerEvent.subscribed.injEq, reduceCtorEq, and_false, not_false_eq_true,
      ne_eq, and_true]
    split
    · rename_i hn
      have hno : ¬(key ∈ chainKeys ∧ topic = messageVotesTopic key) := not_votesTopic hn
      tauto
    · rename_i k hk
      obtain ⟨hmem, rfl⟩ := topicMap_get.mp hk
      simp only [noteSubscribed, peersOf_insert]
      split
      · rename_i e
        subst e
        rw [FinSet.mem_insert]
        simp [hmem, TopicKind.topic, eq_comm]
      · rename_i hne
        have hno : ¬messageVotesTopic k = messageVotesTopic key := fun e => hne (votesTopic_inj e).symm
        simp [TopicKind.topic, hno]
  | unsubscribed p topic =>
    simp only [handlePeerEvent, PeerEvent.unsubscribed.injEq, reduceCtorEq, and_false, false_or, ne_eq,
      not_false_eq_true, and_true]
    split
    · rename_i hn
      have hno : ¬(key ∈ chainKeys ∧ topic = messageVotesTopic key) := not_votesTopic hn
      tauto
    · rename_i k hk
      obtain ⟨hmem, rfl⟩ := topicMap_get.mp hk
      simp only [peersOf_noteUnsubscribed]
      split
      · rename_i e
        subst e
        rw [FinSet.mem_erase]
        simp [hmem, TopicKind.topic, eq_comm, and_comm]
      · rename_i hne
        have hno : ¬messageVotesTopic k = messageVotesTopic key := fun e => hne (votesTopic_inj e).symm
        simp [TopicKind.topic, hno]
  | connectionClosed p n =>
    simp only [handlePeerEvent, PeerEvent.connectionClosed.injEq, reduceCtorEq, and_false, false_or,
      ne_eq, not_false_eq_true, true_and]
    split
    · rename_i hz
      rw [peersOf_noteDisconnected, FinSet.mem_erase]
      simp [hz, eq_comm, and_comm]
    · rename_i hz
      simp [hz]

theorem Tracks.step (h : Tracks chainKeys l peers)
    (hs : ObserverStep chainKeys peers (e, reports) peers') :
    Tracks chainKeys (l ++ [e]) peers' := fun key q => by
  obtain ⟨order, hs⟩ := hs
  have hmem : q ∈ peersOf (handlePeerEvent chainKeys peers order e).1 key ↔ _ :=
    mem_handlePeerEvent order key q
  rw [hs] at hmem
  rw [hmem, h key q, subscribed_concat]
  tauto

/-- The reports that are due for a chain after one event more. -/
noncomputable def due (chainKey : ChainKey) (l : List PeerEvent) (e : PeerEvent) : List PeerReport :=
  let topic := messageVotesTopic chainKey
  if subscribers topic (l ++ [e]) = subscribers topic l then []
  else [(chainKey, subscribers topic (l ++ [e]))]

theorem due_same (h : subscribers (messageVotesTopic chainKey) (l ++ [e]) =
    subscribers (messageVotesTopic chainKey) l) : due chainKey l e = [] := if_pos h

theorem due_changed (h : subscribers (messageVotesTopic chainKey) (l ++ [e]) ≠
    subscribers (messageVotesTopic chainKey) l) :
    due chainKey l e = [(chainKey, subscribers (messageVotesTopic chainKey) (l ++ [e]))] := if_neg h

theorem filter_report (chainKey key : ChainKey) (count : Option Nat) :
    ((count.map fun count => (key, count)).toList).filter (fun r => decide (r.1 = chainKey)) =
      if key = chainKey then (count.map fun count => (chainKey, count)).toList else [] := by
  cases count with
  | none => simp
  | some n => by_cases h : key = chainKey <;> simp [h]

/-- An event of another topic, or the loss of a connection that is not the last. -/
theorem due_other (he : ∀ p, e ≠ .subscribed p (messageVotesTopic chainKey) ∧
    e ≠ .unsubscribed p (messageVotesTopic chainKey) ∧ e ≠ .connectionClosed p 0) :
    due chainKey l e = [] := due_same (subscribers_other he)

theorem Tracks.contains (h : Tracks chainKeys l peers) (hk : chainKey ∈ chainKeys) (p : PeerId) :
    (peersOf peers chainKey).contains p = true ↔ Subscribed (messageVotesTopic chainKey) l p := by
  rw [Std.ExtTreeSet.contains_iff_mem, h chainKey p, and_iff_right hk]

/-- A new subscriber is reported. -/
theorem Tracks.due_subscribed (h : Tracks chainKeys l peers) (hk : chainKey ∈ chainKeys) {p : PeerId}
    (h' : Tracks chainKeys (l ++ [.subscribed p (messageVotesTopic chainKey)])
      (noteSubscribed peers chainKey p).1) :
    ((noteSubscribed peers chainKey p).2.map fun count => (chainKey, count)).toList =
      due chainKey l (.subscribed p (messageVotesTopic chainKey)) := by
  obtain ⟨hsame, hmore⟩ := subscribers_subscribed (messageVotesTopic chainKey) l p
  have hsize := h'.size hk
  simp only [noteSubscribed, peersOf_insert, if_true] at hsize ⊢
  by_cases hc : (peersOf peers chainKey).contains p = true
  · rw [if_pos hc, due_same (hsame ((h.contains hk p).mp hc))]
    rfl
  · have hne := hmore fun hp => hc ((h.contains hk p).mpr hp)
    rw [if_neg hc, due_changed (by omega), hsize]
    rfl

/-- Who goes is reported, if it was subscribed. -/
theorem Tracks.due_gone (h : Tracks chainKeys l peers) (hk : chainKey ∈ chainKeys) {p : PeerId}
    (he : e = .unsubscribed p (messageVotesTopic chainKey) ∨ e = .connectionClosed p 0)
    (h' : Tracks chainKeys (l ++ [e]) peers')
    (hp : peersOf peers' chainKey = (peersOf peers chainKey).erase p) :
    due chainKey l e = if (peersOf peers chainKey).contains p = true
      then [(chainKey, ((peersOf peers chainKey).erase p).size)] else [] := by
  obtain ⟨hless, hsame⟩ := subscribers_gone (l := l) he
  have hsize := h'.size hk
  rw [hp] at hsize
  split
  · rename_i hc
    have hne := hless ((h.contains hk p).mp hc)
    rw [due_changed (by omega), hsize]
  · rename_i hc
    exact due_same (hsame fun hs => hc ((h.contains hk p).mpr hs))

/-- The observer makes the reports that are due. -/
theorem Tracks.reported (h : Tracks chainKeys l peers) (hk : chainKey ∈ chainKeys)
    (hs : ObserverStep chainKeys peers (e, reports) peers') :
    reports.filter (fun r => decide (r.1 = chainKey)) = due chainKey l e := by
  have h' := h.step hs
  obtain ⟨order, hs⟩ := hs
  cases e with
  | subscribed p topic =>
    by_cases ht : topic = messageVotesTopic chainKey
    · subst ht
      have hget := (@topicMap_get .votes _ _ _).mpr ⟨hk, rfl⟩
      simp only [handlePeerEvent, TopicKind.topic] at hs hget
      rw [hget] at hs
      obtain ⟨rfl, rfl⟩ := Prod.mk.inj hs
      rw [filter_report, if_pos rfl]
      exact h.due_subscribed hk h'
    · rw [due_other fun q => ⟨by simp [ht], by simp, by simp⟩]
      simp only [handlePeerEvent] at hs
      split at hs
      · cases hs
        rfl
      · rename_i key hkey
        obtain ⟨rfl, rfl⟩ := Prod.mk.inj hs
        rw [filter_report, if_neg]
        rintro rfl
        exact ht (topicMap_get.mp hkey).2
  | unsubscribed p topic =>
    by_cases ht : topic = messageVotesTopic chainKey
    · subst ht
      have hget := (@topicMap_get .votes _ _ _).mpr ⟨hk, rfl⟩
      simp only [handlePeerEvent, TopicKind.topic] at hs hget
      rw [hget] at hs
      obtain ⟨rfl, rfl⟩ := Prod.mk.inj hs
      have hp : peersOf (noteUnsubscribed peers chainKey p).1 chainKey =
          (peersOf peers chainKey).erase p := by rw [peersOf_noteUnsubscribed, if_pos rfl]
      rw [filter_report, if_pos rfl, h.due_gone hk (.inl rfl) h' hp, noteUnsubscribed_count]
      split <;> rfl
    · rw [due_other fun q => ⟨by simp, by simp [ht], by simp⟩]
      simp only [handlePeerEvent] at hs
      split at hs
      · cases hs
        rfl
      · rename_i key hkey
        obtain ⟨rfl, rfl⟩ := Prod.mk.inj hs
        rw [filter_report, if_neg]
        rintro rfl
        exact ht (topicMap_get.mp hkey).2
  | connectionClosed p n =>
    rw [handlePeerEvent] at hs
    split at hs
    · rename_i hz
      subst hz
      obtain ⟨rfl, rfl⟩ := Prod.mk.inj hs
      have hp := peersOf_noteDisconnected peers p order chainKey
      rw [h.due_gone hk (.inr rfl) h' hp]
      exact noteDisconnected_reports peers p order chainKey
    · rename_i hz
      cases hs
      rw [due_other fun q => ⟨by simp, by simp, by simp [hz]⟩]
      rfl

/-- Nothing is reported of another chain. -/
theorem Tracks.observed (h : Tracks chainKeys l peers)
    (hs : ObserverStep chainKeys peers (e, reports) peers') : ∀ r ∈ reports, r.1 ∈ chainKeys := by
  obtain ⟨order, hs⟩ := hs
  have hentry : ∀ {key : ChainKey} {topic : String} {count : Option Nat},
      (topicMap .votes chainKeys)[topic]? = some key →
      ∀ r ∈ (count.map fun count => (key, count)).toList, r.1 ∈ chainKeys := by
    intro key topic count hkey r hr
    cases count with
    | none => cases hr
    | some n =>
      rw [List.mem_singleton.mp hr]
      exact (topicMap_get.mp hkey).1
  cases e with
  | subscribed p topic =>
    simp only [handlePeerEvent] at hs
    split at hs
    · cases hs
      exact List.forall_mem_nil _
    · rename_i hkey
      obtain ⟨-, rfl⟩ := Prod.mk.inj hs
      exact hentry hkey
  | unsubscribed p topic =>
    simp only [handlePeerEvent] at hs
    split at hs
    · cases hs
      exact List.forall_mem_nil _
    · rename_i hkey
      obtain ⟨-, rfl⟩ := Prod.mk.inj hs
      exact hentry hkey
  | connectionClosed p n =>
    rw [handlePeerEvent] at hs
    split at hs
    · obtain ⟨-, rfl⟩ := Prod.mk.inj hs
      intro r hr
      obtain ⟨⟨key, set⟩, hm, hr⟩ := List.mem_filterMap.mp hr
      simp only [Option.ite_none_right_eq_some, Option.some.injEq] at hr
      obtain ⟨hc, rfl⟩ := hr
      refine ((h key p).mp ?_).1
      rw [peersOf, order.mem_entries.mp hm]
      exact Std.ExtTreeSet.contains_iff_mem.mp hc
    · cases hs
      exact List.forall_mem_nil _

end

section
variable {chainKeys : List ChainKey} {l : List (PeerEvent × List PeerReport)}
  {peers peers' : SubscribedPeers}

theorem observer_tracks (hr : Run (ObserverStep chainKeys) ∅ l peers) :
    Tracks chainKeys (l.map (·.1)) peers := by
  refine hr.hist (I := fun l peers => Tracks chainKeys (l.map (·.1)) peers)
    (fun l peers label peers' hs h => ?_) (.nil chainKeys)
  rw [List.map_append]
  exact h.step hs

/-- The reports that are due keep the last one at the number of subscribers. -/
theorem lastReport_due {chainKey : ChainKey} {events : List PeerEvent} {e : PeerEvent}
    {old reports : List PeerReport}
    (ho : lastReport chainKey old = subscribers (messageVotesTopic chainKey) events)
    (hd : reports.filter (fun r => decide (r.1 = chainKey)) = due chainKey events e) :
    lastReport chainKey (old ++ reports) = subscribers (messageVotesTopic chainKey) (events ++ [e]) := by
  rw [lastReport_append]
  by_cases hs : subscribers (messageVotesTopic chainKey) (events ++ [e]) =
      subscribers (messageVotesTopic chainKey) events
  · rw [due_same hs] at hd
    rw [if_pos hd, ho, hs]
  · rw [due_changed hs] at hd
    rw [if_neg (by rw [hd]; exact List.cons_ne_nil _ _), lastReport, hd]
    rfl

theorem observer_last (hr : Run (ObserverStep chainKeys) ∅ l peers) {chainKey : ChainKey}
    (hk : chainKey ∈ chainKeys) : lastReport chainKey (l.flatMap (·.2)) =
      subscribers (messageVotesTopic chainKey) (l.map (·.1)) := by
  have h := hr.hist (I := fun l peers => Tracks chainKeys (l.map (·.1)) peers ∧
      lastReport chainKey (l.flatMap (·.2)) =
        subscribers (messageVotesTopic chainKey) (l.map (·.1)))
    (fun l peers label peers' hs h => ?_) ⟨.nil chainKeys, ?_⟩
  · exact h.2
  · rw [List.map_append, List.flatMap_append, List.flatMap_singleton]
    exact ⟨h.1.step hs, lastReport_due h.2 (h.1.reported hk hs)⟩
  · simp [lastReport, subscribers, not_subscribed_nil]

end

/-- After any events, the last count that the observer has reported for a chain is the number of peers
subscribed to its vote topic. With the next event, it reports the number of a chain exactly when that
number changes, and of no chain that it does not observe; and a close that leaves the peer another
connection changes nothing. -/
theorem observer_count_exact (chainKeys : List ChainKey) (l : List (PeerEvent × List PeerReport))
    (peers : SubscribedPeers) (hr : Run (ObserverStep chainKeys) ∅ l peers) :
    (∀ chainKey ∈ chainKeys, lastReport chainKey (l.flatMap (·.2)) =
      subscribers (messageVotesTopic chainKey) (l.map (·.1))) ∧
    ∀ e reports peers', ObserverStep chainKeys peers (e, reports) peers' →
      (∀ chainKey ∈ chainKeys, reports.filter (fun r => decide (r.1 = chainKey)) =
        if subscribers (messageVotesTopic chainKey) (l.map (·.1) ++ [e]) =
          subscribers (messageVotesTopic chainKey) (l.map (·.1)) then []
        else [(chainKey, subscribers (messageVotesTopic chainKey) (l.map (·.1) ++ [e]))]) ∧
      (∀ r ∈ reports, r.1 ∈ chainKeys) ∧
      ∀ p n, e = .connectionClosed p (n + 1) → peers' = peers ∧ reports = [] := by
  refine ⟨fun chainKey hk => observer_last hr hk, fun e reports peers' hs => ⟨fun chainKey hk =>
    (observer_tracks hr).reported hk hs, (observer_tracks hr).observed hs, ?_⟩⟩
  rintro p n rfl
  obtain ⟨order, hs⟩ := hs
  obtain ⟨rfl, rfl⟩ := Prod.mk.inj hs
  exact ⟨rfl, rfl⟩

/-- A peer subscribes twice and loses one of two connections: it is one peer. -/
theorem observer_count_exact_repeated :
    let subscribed := PeerEvent.subscribed "a" (messageVotesTopic 2)
    subscribers (messageVotesTopic 2) [subscribed, subscribed, .connectionClosed "a" 1] = 1 := by
  intro subscribed
  have step : ∀ peers : SubscribedPeers, ∀ e, ObserverStep [2] peers
      (e, (handlePeerEvent [2] peers ⟨_, .refl _⟩ e).2) (handlePeerEvent [2] peers ⟨_, .refl _⟩ e).1 :=
    fun peers e => ⟨⟨_, .refl _⟩, rfl⟩
  have h := (observer_count_exact [2] _ _
    (((Run.nil.snoc (step _ subscribed)).snoc (step _ subscribed)).snoc
      (step _ (.connectionClosed "a" 1)))).1 2 (by decide)
  refine h.symm.trans ?_
  decide

/-! ## The relayer -/

def i64Max : Nat := 2 ^ 63 - 1

/-- `i64::try_from(count).unwrap_or(i64::MAX)`, what the metric takes. -/
def gauge (count : Nat) : Nat := min count i64Max

/-- The counter of a chain. -/
def countOf (counts : Map ChainKey Nat) (chainKey : ChainKey) : Nat := counts[chainKey]?.getD 0

/-- The relayer's part of `handle_swarm_event` for the peers, with what it sets the metric to. -/
def countPeerEvent (chainKeys : List ChainKey) (counts : Map ChainKey Nat) :
    PeerEvent → Map ChainKey Nat × List PeerReport
  | .subscribed _ topic =>
    match (topicMap .votes chainKeys)[topic]? with
    | none => (counts, [])
    | some chainKey =>
      let entry := countOf counts chainKey + 1
      (counts.insert chainKey entry, [(chainKey, gauge entry)])
  | .unsubscribed _ topic =>
    match (topicMap .votes chainKeys)[topic]? with
    | none => (counts, [])
    | some chainKey =>
      let entry := countOf counts chainKey - 1
      (counts.insert chainKey entry, [(chainKey, gauge entry)])
  | .connectionClosed _ _ => (counts, [])

def CountStep (chainKeys : List ChainKey) (counts : Map ChainKey Nat)
    (label : PeerEvent × List PeerReport) (counts' : Map ChainKey Nat) : Prop :=
  countPeerEvent chainKeys counts label.1 = (counts', label.2)

/-- On a topic, the event is none of those that a counter gets wrong: a peer that is subscribed
subscribes again or loses its last connection, or another unsubscribes while some are subscribed. -/
structure TameOn (topic : String) (l : List PeerEvent) (e : PeerEvent) : Prop where
  subscribed : ∀ p, e = .subscribed p topic → ¬Subscribed topic l p
  unsubscribed : ∀ p, e = .unsubscribed p topic → Subscribed topic l p ∨ subscribers topic l = 0
  closed : ∀ p, e = .connectionClosed p 0 → ¬Subscribed topic l p

/-- Every event is tame on the vote topics of the chains. -/
def TameRun (chainKeys : List ChainKey) (l : List PeerEvent) : Prop :=
  ∀ l₁ e l₂, l = l₁ ++ e :: l₂ → ∀ chainKey ∈ chainKeys, TameOn (messageVotesTopic chainKey) l₁ e

section
variable {chainKeys : List ChainKey} {l : List PeerEvent} {e : PeerEvent} {chainKey : ChainKey}
  {counts counts' : Map ChainKey Nat} {reports : List PeerReport}

theorem countOf_insert (counts : Map ChainKey Nat) (chainKey key : ChainKey) (n : Nat) :
    countOf (counts.insert key n) chainKey = if chainKey = key then n else countOf counts chainKey := by
  rw [countOf, Map.get_insert]
  split <;> rfl

/-- The chain of a vote topic is looked up under that topic alone. -/
theorem topicMap_votes_iff {topic : String} {key : ChainKey}
    (hkey : (topicMap .votes chainKeys)[topic]? = some key) :
    chainKey = key ↔ topic = messageVotesTopic chainKey := by
  obtain ⟨-, rfl⟩ := topicMap_get.mp hkey
  exact ⟨fun h => by rw [h]; rfl, fun h => (votesTopic_inj h).symm⟩

/-- An event on no vote topic leaves the counters. -/
theorem countOf_untouched {topic : String} (hn : (topicMap .votes chainKeys)[topic]? = none)
    (hk : chainKey ∈ chainKeys) (n : Nat) : countOf counts chainKey =
      if topic = messageVotesTopic chainKey then n else countOf counts chainKey := by
  rw [if_neg fun ht => not_votesTopic hn ⟨hk, ht⟩]

/-- An event on a vote topic changes the counter of its chain. -/
theorem countOf_touched {topic : String} {key : ChainKey}
    (hkey : (topicMap .votes chainKeys)[topic]? = some key) (f : Nat → Nat) :
    countOf (counts.insert key (f (countOf counts key))) chainKey =
      if topic = messageVotesTopic chainKey then f (countOf counts chainKey)
      else countOf counts chainKey := by
  rw [countOf_insert]
  refine if_ctx_congr (topicMap_votes_iff hkey) (fun h => ?_) fun _ => rfl
  rw [(topicMap_votes_iff hkey).mpr h]

/-- What an event does to the counter of a chain. -/
theorem CountStep.counted (hs : CountStep chainKeys counts (e, reports) counts')
    (hk : chainKey ∈ chainKeys) :
    countOf counts' chainKey =
      match e with
      | .subscribed _ t => if t = messageVotesTopic chainKey then countOf counts chainKey + 1
          else countOf counts chainKey
      | .unsubscribed _ t => if t = messageVotesTopic chainKey then countOf counts chainKey - 1
          else countOf counts chainKey
      | .connectionClosed _ _ => countOf counts chainKey := by
  cases e with
  | subscribed p t =>
    simp only [CountStep, countPeerEvent] at hs ⊢
    split at hs
    · rename_i hn
      cases hs
      exact countOf_untouched hn hk _
    · rename_i key hkey
      obtain ⟨rfl, -⟩ := Prod.mk.inj hs
      exact countOf_touched hkey (· + 1)
  | unsubscribed p t =>
    simp only [CountStep, countPeerEvent] at hs ⊢
    split at hs
    · rename_i hn
      cases hs
      exact countOf_untouched hn hk _
    · rename_i key hkey
      obtain ⟨rfl, -⟩ := Prod.mk.inj hs
      exact countOf_touched hkey (· - 1)
  | connectionClosed p n =>
    obtain ⟨rfl, -⟩ := Prod.mk.inj hs
    rfl

/-- From a counter that is right, the next event leaves it right if and only if it is tame. -/
theorem CountStep.right_iff (hs : CountStep chainKeys counts (e, reports) counts')
    (hk : chainKey ∈ chainKeys)
    (hc : countOf counts chainKey = subscribers (messageVotesTopic chainKey) l) :
    countOf counts' chainKey = subscribers (messageVotesTopic chainKey) (l ++ [e]) ↔
      TameOn (messageVotesTopic chainKey) l e := by
  rw [hs.counted hk, hc]
  cases e with
  | subscribed p t =>
    by_cases ht : t = messageVotesTopic chainKey
    · subst ht
      obtain ⟨hsame, hmore⟩ := subscribers_subscribed (messageVotesTopic chainKey) l p
      simp only [if_true]
      refine ⟨fun h => ⟨?_, by simp, by simp⟩, fun h => (hmore (h.subscribed p rfl)).symm⟩
      rintro q hq hsub
      cases hq
      have := hsame hsub
      omega
    · have hother : subscribers (messageVotesTopic chainKey) (l ++ [.subscribed p t]) =
          subscribers (messageVotesTopic chainKey) l :=
        subscribers_other fun q => ⟨by simp [ht], by simp, by simp⟩
      simp only [if_neg ht, hother, true_iff]
      exact ⟨by simp [ht], by simp, by simp⟩
  | unsubscribed p t =>
    by_cases ht : t = messageVotesTopic chainKey
    · subst ht
      obtain ⟨hless, hsame⟩ :=
        @subscribers_gone (messageVotesTopic chainKey) l _ p (.inl rfl)
      simp only [if_true]
      refine ⟨fun h => ⟨by simp, ?_, by simp⟩, fun h => ?_⟩
      · rintro q hq
        cases hq
        by_cases hsub : Subscribed (messageVotesTopic chainKey) l p
        · exact .inl hsub
        · have := hsame hsub
          exact .inr (by omega)
      · by_cases hsub : Subscribed (messageVotesTopic chainKey) l p
        · have := hless hsub
          omega
        · have := hsame hsub
          have := (h.unsubscribed p rfl).resolve_left hsub
          omega
    · have hother : subscribers (messageVotesTopic chainKey) (l ++ [.unsubscribed p t]) =
          subscribers (messageVotesTopic chainKey) l :=
        subscribers_other fun q => ⟨by simp, by simp [ht], by simp⟩
      simp only [if_neg ht, hother, true_iff]
      exact ⟨by simp, by simp [ht], by simp⟩
  | connectionClosed p n =>
    by_cases hz : n = 0
    · subst hz
      obtain ⟨hless, hsame⟩ :=
        @subscribers_gone (messageVotesTopic chainKey) l _ p (.inr rfl)
      refine ⟨fun h => ⟨by simp, by simp, ?_⟩, fun h => (hsame (h.closed p rfl)).symm⟩
      rintro q hq hsub
      cases hq
      have := hless hsub
      simp only at h
      omega
    · have hother : subscribers (messageVotesTopic chainKey) (l ++ [.connectionClosed p n]) =
          subscribers (messageVotesTopic chainKey) l :=
        subscribers_other fun q => ⟨by simp, by simp, by simp [hz]⟩
      simp only [hother, true_iff]
      exact ⟨by simp, by simp, by simp [hz]⟩

/-- One event adds at most one subscriber. -/
theorem subscribers_concat_le (topic : String) (l : List PeerEvent) (e : PeerEvent) :
    subscribers topic (l ++ [e]) ≤ subscribers topic l + 1 := by
  have hfin := finite_subscribed topic l
  rw [subscribers, subscribers, setOf_subscribed_concat]
  cases e with
  | subscribed p t =>
    simp only
    split
    · exact Set.ncard_insert_le _ _
    · omega
  | unsubscribed p t =>
    simp only
    split
    · exact Nat.le_succ_of_le (Set.ncard_le_ncard Set.sdiff_subset hfin)
    · omega
  | connectionClosed p n =>
    simp only
    split
    · exact Nat.le_succ_of_le (Set.ncard_le_ncard Set.sdiff_subset hfin)
    · omega

theorem subscribers_le_length (topic : String) (l : List PeerEvent) :
    subscribers topic l ≤ l.length := by
  induction l using List.reverseRecOn with
  | nil => simp [subscribers, not_subscribed_nil]
  | append_singleton l e ih =>
    have := subscribers_concat_le topic l e
    rw [List.length_append, List.length_singleton]
    omega

/-- What comes first in a tame run is a tame run. -/
theorem TameRun.left {l' : List PeerEvent} (h : TameRun chainKeys (l ++ l')) : TameRun chainKeys l :=
  fun l₁ a l₂ hl => h l₁ a (l₂ ++ l') (by simp [hl])

theorem tameRun_concat : TameRun chainKeys (l ++ [e]) ↔ TameRun chainKeys l ∧
    ∀ chainKey ∈ chainKeys, TameOn (messageVotesTopic chainKey) l e := by
  refine ⟨fun h => ⟨h.left, h l e [] rfl⟩, ?_⟩
  rintro ⟨h, he⟩ l₁ a l₂ hl
  rcases List.eq_nil_or_concat l₂ with rfl | ⟨l₃, b, rfl⟩
  · obtain ⟨rfl, hb⟩ := List.append_inj' hl rfl
    obtain rfl : e = a := by simpa using hb
    exact he
  · rw [List.concat_eq_append, ← List.cons_append, ← List.append_assoc] at hl
    obtain ⟨rfl, -⟩ := List.append_inj' hl rfl
    exact h l₁ a l₃ rfl

end

section
variable {chainKeys : List ChainKey} {l : List (PeerEvent × List PeerReport)} {chainKey : ChainKey}
  {counts : Map ChainKey Nat}

/-- What was reported last is the counter. -/
theorem relayer_last (hr : Run (CountStep chainKeys) ∅ l counts) :
    lastReport chainKey (l.flatMap (·.2)) = gauge (countOf counts chainKey) := by
  refine hr.hist (I := fun l counts => lastReport chainKey (l.flatMap (·.2)) =
    gauge (countOf counts chainKey)) (fun l counts label counts' hs h => ?_) ?_
  · have hentry : ∀ (key : ChainKey) (entry : Nat),
        lastReport chainKey (l.flatMap (·.2) ++ [(key, gauge entry)]) =
          gauge (countOf (counts.insert key entry) chainKey) := by
      intro key entry
      rw [lastReport_append, countOf_insert, h]
      by_cases hk : chainKey = key
      · simp [lastReport, hk]
      · simp [Ne.symm hk, hk]
    rw [List.flatMap_append, List.flatMap_singleton]
    obtain ⟨e, reports⟩ := label
    cases e with
    | subscribed p t =>
      simp only [CountStep, countPeerEvent] at hs
      split at hs
      · cases hs
        rw [List.append_nil, h]
      · obtain ⟨rfl, rfl⟩ := Prod.mk.inj hs
        exact hentry _ _
    | unsubscribed p t =>
      simp only [CountStep, countPeerEvent] at hs
      split at hs
      · cases hs
        rw [List.append_nil, h]
      · obtain ⟨rfl, rfl⟩ := Prod.mk.inj hs
        exact hentry _ _
    | connectionClosed p n =>
      obtain ⟨rfl, rfl⟩ := Prod.mk.inj hs
      rw [List.append_nil, h]
  · simp [lastReport, gauge, countOf]

theorem countOf_le_length (hr : Run (CountStep chainKeys) ∅ l counts) (hk : chainKey ∈ chainKeys) :
    countOf counts chainKey ≤ l.length := by
  refine hr.hist (I := fun l counts => countOf counts chainKey ≤ l.length)
    (fun l counts label counts' hs h => ?_) (Nat.zero_le _)
  have hc := CountStep.counted hs hk
  rw [List.length_append, List.length_singleton, hc]
  split
  · split <;> omega
  · split <;> omega
  · omega

/-- In a tame run the counter is right. -/
theorem relayer_counts (hr : Run (CountStep chainKeys) ∅ l counts) (hk : chainKey ∈ chainKeys)
    (ht : TameRun chainKeys (l.map (·.1))) :
    countOf counts chainKey = subscribers (messageVotesTopic chainKey) (l.map (·.1)) := by
  refine hr.hist (I := fun l counts => TameRun chainKeys (l.map (·.1)) →
    countOf counts chainKey = subscribers (messageVotesTopic chainKey) (l.map (·.1)))
    (fun l counts label counts' hs h ht => ?_) (fun _ => ?_) ht
  · rw [List.map_append] at ht ⊢
    obtain ⟨hl, he⟩ := tameRun_concat.mp ht
    exact (CountStep.right_iff hs hk (h hl)).mpr (he chainKey hk)
  · simp [countOf, subscribers, not_subscribed_nil]

/-- Over no more events than the metric counts, a report that is right shows that the counter is. -/
theorem countOf_right (hr : Run (CountStep chainKeys) ∅ l counts) (hlen : l.length ≤ i64Max)
    (hk : chainKey ∈ chainKeys) (h : lastReport chainKey (l.flatMap (·.2)) =
      gauge (subscribers (messageVotesTopic chainKey) (l.map (·.1)))) :
    countOf counts chainKey = subscribers (messageVotesTopic chainKey) (l.map (·.1)) := by
  have hle := countOf_le_length hr hk
  have hle' := subscribers_le_length (messageVotesTopic chainKey) (l.map (·.1))
  rw [List.length_map] at hle'
  rw [relayer_last hr, gauge, gauge] at h
  omega

end

/-- The count that the relayer last reported is, after each of the events so far, the number of peers
subscribed to the chain's vote topic, as far as the metric goes. -/
def CountsPeers (chainKeys : List ChainKey) (l : List (PeerEvent × List PeerReport)) : Prop :=
  ∀ l₁ l₂, l = l₁ ++ l₂ → ∀ chainKey ∈ chainKeys, lastReport chainKey (l₁.flatMap (·.2)) =
    gauge (subscribers (messageVotesTopic chainKey) (l₁.map (·.1)))

/-- After every event of a tame run, the count that the relayer last reported is the number of
subscribed peers, and what the observer's metric shows after the same events; and a run of no more than
`i64::MAX` events in which that is so after every event is tame. -/
theorem relayer_count (chainKeys : List ChainKey) (l : List (PeerEvent × List PeerReport))
    (counts : Map ChainKey Nat) (hr : Run (CountStep chainKeys) ∅ l counts) :
    (TameRun chainKeys (l.map (·.1)) → CountsPeers chainKeys l ∧
      ∀ l' peers, Run (ObserverStep chainKeys) ∅ l' peers → l'.map (·.1) = l.map (·.1) →
        ∀ chainKey ∈ chainKeys, lastReport chainKey (l.flatMap (·.2)) =
          gauge (lastReport chainKey (l'.flatMap (·.2)))) ∧
    (l.length ≤ i64Max → CountsPeers chainKeys l → TameRun chainKeys (l.map (·.1))) := by
  refine ⟨fun ht => ⟨?_, fun l' peers hr' he chainKey hk => ?_⟩, fun hlen hc => ?_⟩
  · rintro l₁ l₂ rfl chainKey hk
    obtain ⟨counts₁, hr₁, -⟩ := hr.parts
    rw [List.map_append] at ht
    rw [relayer_last hr₁, relayer_counts hr₁ hk ht.left]
  · rw [relayer_last hr, relayer_counts hr hk ht, observer_last hr' hk, he]
  · induction hr with
    | nil => exact fun l₁ e l₂ h => by simp at h
    | @snoc counts counts' l label hr hs ih =>
      have hl : l.length ≤ i64Max := by
        rw [List.length_append] at hlen
        omega
      rw [List.map_append]
      refine tameRun_concat.mpr
        ⟨ih hl fun l₁ l₂ h => hc l₁ (l₂ ++ [label]) (by simp [h]), fun chainKey hk => ?_⟩
      have hleft := countOf_right hr hl hk (hc l [label] rfl chainKey hk)
      have hright := countOf_right (hr.snoc hs) hlen hk (hc _ [] (List.append_nil _).symm chainKey hk)
      rw [List.map_append] at hright
      exact (CountStep.right_iff hs hk hleft).mp hright

/-- The first subscriber of a chain is counted. -/
theorem relayer_count_first :
    CountsPeers [2] [(.subscribed "a" (messageVotesTopic 2), [(2, 1)])] := by
  have hr : Run (CountStep [2]) ∅ [(.subscribed "a" (messageVotesTopic 2), [(2, 1)])]
      ((∅ : Map ChainKey Nat).insert 2 1) :=
    .snoc .nil (Prod.ext (by decide) (by decide))
  have ht : TameRun [2] ([] ++ [.subscribed "a" (messageVotesTopic 2)]) := tameRun_concat.mpr
    ⟨fun l₁ a l₂ h => by simp at h, fun key _ =>
      ⟨fun _ _ => not_subscribed_nil, fun _ h => (by cases h), fun _ h => (by cases h)⟩⟩
  exact ((relayer_count [2] _ _ hr).1 ht).1

/-- A peer subscribes, leaves without a word and subscribes again: the relayer reports two. -/
theorem relayer_count_reconnect : ¬ ∀ (chainKeys : List ChainKey)
    (l : List (PeerEvent × List PeerReport)) (counts : Map ChainKey Nat),
    Run (CountStep chainKeys) ∅ l counts → CountsPeers chainKeys l := by
  intro h
  let e := PeerEvent.subscribed "a" (messageVotesTopic 2)
  let c := PeerEvent.connectionClosed "a" 0
  have count : ∀ counts e, CountStep [2] counts (e, (countPeerEvent [2] counts e).2)
      (countPeerEvent [2] counts e).1 := fun counts e => rfl
  have observe : ∀ peers : SubscribedPeers, ∀ e, ObserverStep [2] peers
      (e, (handlePeerEvent [2] peers ⟨_, .refl _⟩ e).2) (handlePeerEvent [2] peers ⟨_, .refl _⟩ e).1 :=
    fun peers e => ⟨⟨_, .refl _⟩, rfl⟩
  have hr := h [2] _ _ (((Run.nil.snoc (count _ e)).snoc (count _ c)).snoc (count _ e)) _ []
    (List.append_nil _).symm 2 (by decide)
  have ho := observer_last (((Run.nil.snoc (observe _ e)).snoc (observe _ c)).snoc (observe _ e))
    (show 2 ∈ [2] by decide)
  have hcount : subscribers (messageVotesTopic 2) [e, c, e] = 1 := ho.symm.trans (by decide)
  have htwo : gauge (subscribers (messageVotesTopic 2) [e, c, e]) = 2 := hr.symm.trans (by decide)
  rw [hcount] at htwo
  cases htwo

end MessageRelayer.P2p

import MessageRelayer.Pool.Accounts
import MessageRelayer.Pool.Routes

/-!
# Where the slots of a route come from

A slot that a route has after an operation is one that it had before, with the
message and the times that it had (`MessageSlot.Holds`), but for the time of a
request that the operation made for it; or it is a slot that the operation
admitted (`RouteTrans.slots`). So every slot of a route is about a message of
that route, under the id of the message (`pool_keyed`).
-/

namespace MessageRelayer

variable {ecrecover : Ecrecover}

/-- The slot is about the same message, with the same times. -/
structure MessageSlot.Holds (slot slot' : MessageSlot) : Prop where
  indexed : slot'.indexed = slot.indexed
  insertedAt : slot'.insertedAt = slot.insertedAt
  lastReobsRequest : slot'.lastReobsRequest = slot.lastReobsRequest

theorem MessageSlot.Holds.refl (slot : MessageSlot) : slot.Holds slot := ⟨rfl, rfl, rfl⟩

theorem MessageSlot.Holds.trans {slot slot' slot'' : MessageSlot} (h : slot.Holds slot')
    (h' : slot'.Holds slot'') : slot.Holds slot'' :=
  ⟨h'.indexed.trans h.indexed, h'.insertedAt.trans h.insertedAt,
    h'.lastReobsRequest.trans h.lastReobsRequest⟩

theorem MessageSlot.noteDeliveryResult_holds (slot : MessageSlot) (outcome : DeliveryResultKind)
    (now later : Instant) (wall : Option Nat) :
    slot.Holds (slot.noteDeliveryResult outcome now later wall) := by
  cases outcome <;> exact ⟨rfl, rfl, rfl⟩

/-- The slot just admitted for a message. -/
structure MessageSlot.Admitted (indexed : IndexedMessage) (insertedAt : Instant)
    (slot : MessageSlot) : Prop where
  indexed : slot.indexed = indexed
  insertedAt : slot.insertedAt = insertedAt
  lastReobsRequest : slot.lastReobsRequest = none

theorem MessageSlot.Admitted.holds {indexed : IndexedMessage} {insertedAt : Instant}
    {slot slot' : MessageSlot} (h : slot.Admitted indexed insertedAt) (h' : slot.Holds slot') :
    slot'.Admitted indexed insertedAt :=
  ⟨h'.indexed.trans h.indexed, h'.insertedAt.trans h.insertedAt,
    h'.lastReobsRequest.trans h.lastReobsRequest⟩

namespace RouteState

variable {route : RouteState}

/-- Every slot was there before, with its times. -/
def SlotsHeld (route route' : RouteState) : Prop :=
  ∀ (id : B256) (slot' : MessageSlot), route'.byMessage[id]? = some slot' →
    ∃ slot : MessageSlot, route.byMessage[id]? = some slot ∧ slot.Holds slot'

theorem SlotsHeld.same {route' : RouteState} (h : route'.byMessage = route.byMessage) :
    route.SlotsHeld route' := fun _ slot hs => ⟨slot, h ▸ hs, .refl slot⟩

theorem SlotsHeld.trans {route' route'' : RouteState} (h : route.SlotsHeld route')
    (h' : route'.SlotsHeld route'') : route.SlotsHeld route'' := by
  intro id slot'' hs
  obtain ⟨slot', hs, hh'⟩ := h' id slot'' hs
  obtain ⟨slot, hs, hh⟩ := h id slot' hs
  exact ⟨slot, hs, hh.trans hh'⟩

/-- One slot is written. -/
theorem SlotsHeld.insert {id : B256} {slot slot' : MessageSlot}
    (hs : route.byMessage[id]? = some slot) (hh : slot.Holds slot') :
    route.SlotsHeld { route with byMessage := route.byMessage.insert id slot' } := by
  intro a slot'' ha
  rw [Map.get_insert] at ha
  split at ha
  · rename_i e
    cases ha
    exact ⟨slot, e ▸ hs, hh⟩
  · exact ⟨slot'', ha, .refl _⟩

theorem SlotsHeld.shrinks {route' : RouteState} (h : route.Shrinks route') :
    route.SlotsHeld route' := fun _ slot hs => ⟨slot, h.get hs, .refl slot⟩

theorem onSlot_held (route : RouteState) (id : B256) {f : MessageSlot → MessageSlot}
    (hf : ∀ slot : MessageSlot, slot.Holds (f slot)) : route.SlotsHeld (route.onSlot id f) := by
  intro a slot' ha
  rw [onSlot, Map.get_modify] at ha
  split at ha
  · obtain ⟨slot, hs, rfl⟩ := Option.map_eq_some_iff.mp ha
    exact ⟨slot, hs, hf slot⟩
  · exact ⟨slot', ha, .refl _⟩

theorem adopt_held (route : RouteState) (hash : B256) (early : EarlyVotes) :
    route.SlotsHeld (route.adopt hash early) :=
  route.onSlot_held hash (f := fun slot =>
    { slot with signers := keepMembers route.attestors early.signers }) fun _ => ⟨rfl, rfl, rfl⟩

theorem dispatchIfReady_held (route : RouteState) (chainKey : ChainKey) (hash : B256)
    (now : Instant) (allowProbe : Bool) :
    route.SlotsHeld (route.dispatchIfReady chainKey hash now allowProbe).1 := by
  rcases dispatchIfReady_cases chainKey hash route now allowProbe with
    e | ⟨slot, slot', job, hs, -, hd, e⟩ <;> rw [e]
  · exact .same rfl
  · cases hd
    exact .insert hs ⟨rfl, rfl, rfl⟩

theorem dispatchEach_held (chainKey : ChainKey) (now : B256 → Instant) (allowProbe : Bool)
    (hashes : List B256) : ∀ route : RouteState,
      route.SlotsHeld (route.dispatchEach chainKey now allowProbe hashes).1 := by
  induction hashes with
  | nil => exact fun _ => .same rfl
  | cons hash hashes ih =>
    exact fun route => (route.dispatchIfReady_held chainKey hash (now hash) allowProbe).trans (ih _)

theorem noteVote_held (route : RouteState) (chainKey : ChainKey) (vote : MessageVote)
    (now : Instant) : route.SlotsHeld (route.noteVote ecrecover chainKey vote now).1 := by
  unfold noteVote
  dsimp only
  split
  · exact .same (bufferEarlyVote_byMessage _ _ _ _)
  · rename_i slot hs
    split
    · exact .same rfl
    · split
      · exact .same rfl
      · rename_i recovered _
        split
        · exact .same rfl
        · have hh : slot.Holds { slot with
              signers := slot.signers.insert recovered vote.signature } := ⟨rfl, rfl, rfl⟩
          split
          · exact .insert hs hh
          · exact (SlotsHeld.insert hs hh).trans (dispatchIfReady_held _ _ _ _ _)

/-- A message that is indexed is admitted, or the slots are as they were. -/
theorem noteIndexed_slots (route : RouteState) (chainKey : ChainKey) (indexed : IndexedMessage)
    (insertedAt now : Instant) {id : B256} {slot' : MessageSlot}
    (hs : (route.noteIndexed chainKey indexed insertedAt now).1.byMessage[id]? = some slot') :
    (∃ slot : MessageSlot, route.byMessage[id]? = some slot ∧ slot.Holds slot') ∨
    route.byMessage[id]? = none ∧ id = indexed.messageId ∧ slot'.Admitted indexed insertedAt := by
  unfold noteIndexed at hs
  dsimp only at hs
  split at hs
  · exact .inl ⟨slot', hs, .refl _⟩
  · rename_i hn
    have hn := Map.not_contains_iff.mp (Bool.not_eq_true _ ▸ hn)
    split at hs
    · exact .inl (SlotsHeld.shrinks route.makeRoom_shrinks id slot' hs)
    · have hnew : ∀ slot : MessageSlot, (route.makeRoom.1.byMessage.insert indexed.messageId
          (.new indexed insertedAt))[id]? = some slot →
          (∃ old : MessageSlot, route.byMessage[id]? = some old ∧ old.Holds slot) ∨
          route.byMessage[id]? = none ∧ id = indexed.messageId ∧
            slot.Admitted indexed insertedAt := by
        intro slot hg
        rw [Map.get_insert] at hg
        split at hg
        · rename_i e
          cases hg
          exact .inr ⟨e ▸ hn, e, rfl, rfl, rfl⟩
        · exact .inl (SlotsHeld.shrinks route.makeRoom_shrinks id slot hg)
      split at hs
      · exact hnew slot' hs
      · obtain ⟨slot, hg, hh⟩ := dispatchIfReady_held _ _ _ _ _ id slot' hs
        obtain ⟨slot₁, hg, hh₁⟩ := adopt_held _ _ _ id slot hg
        have hh := hh₁.trans hh
        rcases hnew slot₁ hg with ⟨old, hold, hh₀⟩ | ⟨hn, e, ha⟩
        · exact .inl ⟨old, hold, hh₀.trans hh⟩
        · exact .inr ⟨hn, e, ha.holds hh⟩

theorem applyAttestorSet_held (route : RouteState) (chainKey : ChainKey) (update : RouteAttestors)
    (now : B256 → Instant) : route.SlotsHeld (route.applyAttestorSet chainKey update now).1 := by
  unfold applyAttestorSet
  dsimp only
  split
  · exact .same rfl
  · refine SlotsHeld.trans (fun id slot' hs => ?_) (dispatchEach_held _ _ _ _ _)
    rw [Map.get_map] at hs
    obtain ⟨slot, hg, rfl⟩ := Option.map_eq_some_iff.mp hs
    refine ⟨slot, hg, ?_⟩
    split
    · exact .refl slot
    · exact ⟨rfl, rfl, rfl⟩

theorem pruneExpired_held (route : RouteState) (now : Instant) (ttl : Duration) :
    route.SlotsHeld (route.pruneExpired now ttl) := by
  intro id slot' hs
  simp only [pruneExpired, Map.get_filter] at hs
  exact ⟨slot', (Option.filter_eq_some_iff.mp hs).1, .refl _⟩

theorem rotate_held (ids : List B256) : ∀ route : RouteState, route.SlotsHeld (route.rotate ids) := by
  induction ids with
  | nil => exact fun _ => .same rfl
  | cons hash ids ih =>
    intro route
    refine SlotsHeld.trans (fun id slot' hs => ?_) (ih (route.forget hash))
    rw [forget_get] at hs
    split at hs
    · cases hs
    · exact ⟨slot', hs, .refl _⟩

/-- The slots after a collection of requests: those that stalled have the time of theirs. -/
theorem collectStalled_get (route : RouteState) (chainKey : ChainKey) (now : Instant) (id : B256) :
    (route.collectStalled chainKey now).1.byMessage[id]? = route.byMessage[id]?.map fun slot =>
      if slot.stalled route.threshold now then { slot with lastReobsRequest := some now }
      else slot :=
  Map.get_map _ _ _

end RouteState

/-- What happened to a slot that was there before an operation: nothing to its message and times,
but for a request that the operation made. -/
inductive MessageSlot.Passes (threshold : Nat) (slot : MessageSlot) : PoolOp → MessageSlot → Prop where
  | held {op : PoolOp} {slot' : MessageSlot} (h : slot.Holds slot') : Passes threshold slot op slot'
  | requested {now : Instant} (h : slot.stalled threshold now = true) :
      Passes threshold slot (.collectStalledReobservations now)
        { slot with lastReobsRequest := some now }

/-- The messages that an operation may admit, with the reading of the clock for each. -/
inductive PoolOp.Admits : PoolOp → IndexedMessage → Instant → Prop where
  | noteIndexed {indexed : IndexedMessage} {insertedAt now : Instant} :
      Admits (.noteIndexed indexed insertedAt now) indexed insertedAt
  | refill {indexed : IndexedMessage} {now : Instant} {clock : B256 → Instant × Instant} :
      Admits (.refill now clock) indexed (clock indexed.messageId).1

/-- A slot after an operation is a slot from before, or was admitted by it. -/
theorem RouteTrans.slots {chainKey : ChainKey} {op : PoolOp} {route route' : RouteState}
    (h : RouteTrans ecrecover chainKey op route route') {id : B256} {slot' : MessageSlot}
    (hs : route'.byMessage[id]? = some slot') :
    (∃ slot : MessageSlot, route.byMessage[id]? = some slot ∧ slot.Passes route.threshold op slot') ∨
    ∃ (indexed : IndexedMessage) (insertedAt : Instant), route.byMessage[id]? = none ∧
      indexed.chainKey = chainKey ∧ indexed.messageId = id ∧ op.Admits indexed insertedAt ∧
      slot'.Admitted indexed insertedAt := by
  have hheld : route.SlotsHeld route' → ∃ slot : MessageSlot, route.byMessage[id]? = some slot ∧
      slot.Passes route.threshold op slot' := by
    intro hh
    obtain ⟨slot, hg, hh⟩ := hh id slot' hs
    exact ⟨slot, hg, .held hh⟩
  cases h with
  | @noteIndexed _ indexed insertedAt _ hk =>
    rcases RouteState.noteIndexed_slots _ _ _ _ _ hs with ⟨slot, hg, hh⟩ | ⟨hn, e, ha⟩
    · exact .inl ⟨slot, hg, .held hh⟩
    · exact .inr ⟨indexed, insertedAt, hn, hk, e.symm, .noteIndexed, ha⟩
  | @load _ indexed _ clock hk =>
    rcases RouteState.noteIndexed_slots _ _ _ _ _ hs with ⟨slot, hg, hh⟩ | ⟨hn, e, ha⟩
    · exact .inl ⟨slot, hg, .held hh⟩
    · exact .inr ⟨indexed, _, hn, hk, e.symm, .refill, ha⟩
  | noteVote hk => exact .inl (hheld (RouteState.noteVote_held _ _ _ _))
  | applyAttestorSet hk => exact .inl (hheld (RouteState.applyAttestorSet_held _ _ _ _))
  | noteDeliveryResult =>
    exact .inl (hheld (RouteState.onSlot_held _ _ fun slot => slot.noteDeliveryResult_holds _ _ _ _))
  | requeueDelivery => exact .inl (hheld (RouteState.onSlot_held _ _ fun slot => ⟨rfl, rfl, rfl⟩))
  | pruneExpired => exact .inl (hheld (RouteState.pruneExpired_held _ _ _))
  | rotate => exact .inl (hheld (RouteState.rotate_held _ _))
  | collectReady => exact .inl (hheld (RouteState.dispatchEach_held _ _ _ _ _))
  | @collectStalled _ now =>
    rw [RouteState.collectStalled_get] at hs
    obtain ⟨slot, hg, rfl⟩ := Option.map_eq_some_iff.mp hs
    refine .inl ⟨slot, hg, ?_⟩
    split
    · rename_i hst
      exact .requested hst
    · exact .held (.refl slot)

theorem MessageSlot.Passes.indexed {threshold : Nat} {op : PoolOp} {slot slot' : MessageSlot}
    (h : slot.Passes threshold op slot') : slot'.indexed = slot.indexed := by
  cases h with
  | held h => exact h.indexed
  | requested => rfl

theorem MessageSlot.Passes.insertedAt {threshold : Nat} {op : PoolOp} {slot slot' : MessageSlot}
    (h : slot.Passes threshold op slot') : slot'.insertedAt = slot.insertedAt := by
  cases h with
  | held h => exact h.insertedAt
  | requested => rfl

/-! ## The keys of the slots -/

/-- Every slot is about the message under whose id it is, and of the route. -/
def RouteState.Keyed (chainKey : ChainKey) (route : RouteState) : Prop :=
  ∀ (id : B256) (slot : MessageSlot), route.byMessage[id]? = some slot →
    slot.indexed.chainKey = chainKey ∧ slot.indexed.messageId = id

theorem RouteTrans.keyed {chainKey : ChainKey} {op : PoolOp} {route route' : RouteState}
    (h : RouteTrans ecrecover chainKey op route route') (hk : route.Keyed chainKey) :
    route'.Keyed chainKey := by
  intro id slot' hs
  rcases h.slots hs with ⟨slot, hg, hp⟩ | ⟨indexed, _, -, hc, hi, -, ha⟩
  · rw [hp.indexed]
    exact hk id slot hg
  · rw [ha.indexed]
    exact ⟨hc, hi⟩

theorem State.new_keyed (routes : List RouteAttestors) (cache : VoteCacheConfig) :
    (State.new routes cache).Every RouteState.Keyed :=
  State.new_every routes cache fun _ id slot hs => by simp at hs

theorem PoolStep.keyed {s t : State} {a : PoolOp × List DeliveryJob} (h : PoolStep ecrecover s a t)
    (hs : s.Every RouteState.Keyed) : t.Every RouteState.Keyed :=
  PoolStep.every h (fun _ _ _ hr hk => hr.keyed hk) hs

/-- In every state that the pool reaches, the slots are about the messages under whose ids they
are. -/
theorem pool_keyed {routes : List RouteAttestors} {cache : VoteCacheConfig}
    {l : List (PoolOp × List DeliveryJob)} {s : State}
    (hr : Run (PoolStep ecrecover) (State.new routes cache) l s) : s.Every RouteState.Keyed :=
  hr.inv (fun _ _ _ => PoolStep.keyed) (State.new_keyed routes cache)

end MessageRelayer

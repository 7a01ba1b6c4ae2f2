import MessageRelayer.Pool.Quorum
import MessageRelayer.Pool.Routes

/-!
# The tables of a route agree

A route keeps the loaded messages, the order in which they came, and the votes
for messages that are not indexed yet, in three tables. The invariant
(`RouteState.Tidy`): the order lists the loaded messages, each once; no loaded
message has early votes; and neither table is larger than `cacheMax`. Every
transition of a route keeps it (`RouteTrans.tidy`), so it holds in every state
(`pool_structure`).
-/

namespace MessageRelayer

variable {ecrecover : Ecrecover}

namespace RouteState

structure Tidy (route : RouteState) : Prop where
  nodup : route.order.Nodup
  order : ∀ id : B256, id ∈ route.order ↔ (route.byMessage[id]?).isSome
  disjoint : ∀ id : B256, (route.byMessage[id]?).isSome → route.earlyVotes[id]? = none
  bounded : route.byMessage.size ≤ route.cacheMax
  early : route.earlyVotes.size ≤ route.cacheMax

variable {route : RouteState}

/-- A change of slots that are loaded. -/
theorem Tidy.frame (h : route.Tidy) {route' : RouteState} (ho : route'.order = route.order)
    (he : route'.earlyVotes = route.earlyVotes) (hc : route'.cacheMax = route.cacheMax)
    (hs : ∀ id : B256, (route'.byMessage[id]?).isSome = (route.byMessage[id]?).isSome) :
    route'.Tidy := by
  refine ⟨?_, fun id => ?_, fun id hid => ?_, ?_, ?_⟩
  · rw [ho]
    exact h.nodup
  · rw [ho, hs]
    exact h.order id
  · rw [hs] at hid
    rw [he]
    exact h.disjoint id hid
  · rw [hc]
    refine Nat.le_trans (Map.size_le_of_get fun id hid => ?_) h.bounded
    rwa [← hs]
  · rw [he, hc]
    exact h.early

/-! ## Dispatch -/

theorem Tidy.dispatchIfReady (h : route.Tidy) (chainKey : ChainKey) (hash : B256) (now : Instant)
    (allowProbe : Bool) : (route.dispatchIfReady chainKey hash now allowProbe).1.Tidy := by
  rcases dispatchIfReady_cases chainKey hash route now allowProbe with
    e | ⟨slot, slot', job, hs, -, -, e⟩ <;> rw [e]
  · exact h
  · refine h.frame rfl rfl rfl fun id => ?_
    rw [Map.get_insert]
    split
    · rename_i e
      rw [e, hs]
      rfl
    · rfl

theorem Tidy.dispatchEach (chainKey : ChainKey) (now : B256 → Instant) (allowProbe : Bool)
    (hashes : List B256) : ∀ route : RouteState, route.Tidy →
      (route.dispatchEach chainKey now allowProbe hashes).1.Tidy := by
  induction hashes with
  | nil => exact fun _ h => h
  | cons hash hashes ih => exact fun _ h => ih _ (h.dispatchIfReady _ _ _ _)

theorem Tidy.onSlot (h : route.Tidy) (hash : B256) (f : MessageSlot → MessageSlot) :
    (route.onSlot hash f).Tidy := by
  refine h.frame rfl rfl rfl fun id => ?_
  simp only [RouteState.onSlot, Map.get_modify]
  split
  · rw [Option.isSome_map]
  · rfl

/-! ## Room -/

theorem Tidy.forget (h : route.Tidy) (hash : B256) : (route.forget hash).Tidy := by
  refine ⟨h.nodup.filter _, fun id => ?_, fun id hid => ?_, ?_, h.early⟩
  · rw [forget_get]
    simp only [RouteState.forget, List.mem_filter, h.order, decide_eq_true_eq]
    split
    · rename_i e
      simp [e]
    · rename_i e
      simp [e]
  · rw [forget_get] at hid
    split at hid
    · cases hid
    · exact h.disjoint id hid
  · exact Nat.le_trans Std.ExtTreeMap.size_erase_le h.bounded

theorem Tidy.rotate (h : route.Tidy) (ids : List B256) : (route.rotate ids).Tidy := by
  induction ids generalizing route with
  | nil => exact h
  | cons id ids ih => exact ih (h.forget id)

theorem Tidy.makeRoomLoop (fuel : Nat) : ∀ route : RouteState, route.Tidy →
    (route.makeRoomLoop fuel).1.Tidy ∧ ((route.makeRoomLoop fuel).2 = true →
      (route.makeRoomLoop fuel).1.byMessage.size < (route.makeRoomLoop fuel).1.cacheMax) := by
  induction fuel with
  | zero =>
    intro route h
    unfold RouteState.makeRoomLoop
    split
    · rename_i hs
      exact ⟨h, fun _ => hs⟩
    · split
      · contradiction
      · exact ⟨h, fun hf => by cases hf⟩
  | succ fuel ih =>
    intro route h
    unfold RouteState.makeRoomLoop
    split
    · rename_i hs
      exact ⟨h, fun _ => hs⟩
    · split
      · rename_i hash _ hv he
        cases he
        exact ih _ (h.forget hash)
      · exact ⟨h, fun hf => by cases hf⟩

/-- With room made, there is room. -/
theorem Tidy.makeRoom (h : route.Tidy) : route.makeRoom.1.Tidy ∧
    (route.makeRoom.2 = true → route.makeRoom.1.byMessage.size < route.makeRoom.1.cacheMax) :=
  Tidy.makeRoomLoop _ route h

/-! ## Early votes -/

/-- The step of a fold that takes the next item or keeps the one it has. -/
def Picks {α : Type} (f : Option α → α → Option α) : Prop :=
  ∀ best a, f best a = some a ∨ f best a = best ∧ best ≠ none

theorem Picks.mem {α : Type} {f : Option α → α → Option α} (hf : Picks f) {l : List α}
    {best : Option α} {b : α} (h : l.foldl f best = some b) : best = some b ∨ b ∈ l := by
  induction l generalizing best with
  | nil => exact .inl h
  | cons a l ih =>
    rcases ih h with he | hm
    · rcases hf best a with ha | ⟨ha, -⟩ <;> rw [ha] at he
      · cases he
        exact .inr List.mem_cons_self
      · exact .inl he
    · exact .inr (List.mem_cons_of_mem a hm)

theorem Picks.ne_none {α : Type} {f : Option α → α → Option α} (hf : Picks f) (l : List α) :
    ∀ {best : Option α}, best ≠ none → l.foldl f best ≠ none := by
  induction l with
  | nil => exact fun hb => hb
  | cons a l ih =>
    intro best hb
    refine ih ?_
    rcases hf best a with ha | ⟨ha, -⟩ <;> rw [ha]
    · exact Option.some_ne_none a
    · exact hb

theorem oldestEarly_picks (route : RouteState) : ∃ f, Picks f ∧
    route.oldestEarly = (route.earlyVotes.toList.foldl f none).map (·.1) := by
  refine ⟨_, fun best kv => ?_, rfl⟩
  cases best with
  | none => exact .inl rfl
  | some b =>
    dsimp only
    split
    · exact .inl rfl
    · exact .inr ⟨rfl, Option.some_ne_none b⟩

theorem oldestEarly_contains {hash : B256} (h : route.oldestEarly = some hash) :
    route.earlyVotes.contains hash = true := by
  obtain ⟨f, hf, he⟩ := route.oldestEarly_picks
  obtain ⟨kv, hkv, rfl⟩ := Option.map_eq_some_iff.mp (he.symm.trans h)
  have hmem := (hf.mem hkv).resolve_left (Option.some_ne_none kv).symm
  exact Map.contains_iff.mpr ⟨_, Map.mem_toList.mp hmem⟩

theorem oldestEarly_none (h : route.oldestEarly = none) : route.earlyVotes.size = 0 := by
  obtain ⟨f, hf, he⟩ := route.oldestEarly_picks
  rw [he, Option.map_eq_none_iff] at h
  rw [← Std.ExtTreeMap.length_toList]
  cases hl : route.earlyVotes.toList with
  | nil => rfl
  | cons kv l =>
    rw [hl, List.foldl_cons] at h
    refine absurd h (hf.ne_none l ?_)
    rcases hf none kv with hkv | ⟨-, hn⟩
    · rw [hkv]
      exact Option.some_ne_none kv
    · exact absurd rfl hn

/-- What evicting early votes does: some entries go, until there are at most `cacheMax`. -/
theorem evictEarlyLoop_eq (fuel : Nat) : ∀ route : RouteState, ∃ votes : Map B256 EarlyVotes,
    route.evictEarlyLoop fuel = { route with earlyVotes := votes } ∧
    (∀ id : B256, votes[id]? = route.earlyVotes[id]? ∨ votes[id]? = none) ∧
    (route.earlyVotes.size ≤ fuel → votes.size ≤ route.cacheMax) := by
  induction fuel with
  | zero => exact fun route => ⟨route.earlyVotes, rfl, fun _ => .inl rfl, fun h => by omega⟩
  | succ fuel ih =>
    intro route
    unfold evictEarlyLoop
    split
    · split
      · rename_i ho
        have hz := oldestEarly_none ho
        exact ⟨route.earlyVotes, rfl, fun _ => .inl rfl, fun _ => by omega⟩
      · rename_i hash ho
        have hsize : (route.earlyVotes.erase hash).size = route.earlyVotes.size - 1 := by
          rw [Std.ExtTreeMap.size_erase, if_pos (oldestEarly_contains ho)]
        obtain ⟨votes, hv, he, hb⟩ := ih { route with earlyVotes := route.earlyVotes.erase hash }
        refine ⟨votes, hv, fun id => ?_, fun hf => hb (by rw [hsize]; omega)⟩
        rcases he id with e | e
        · rw [e, Map.get_erase]
          split
          · exact .inr rfl
          · exact .inl rfl
        · exact .inr e
    · rename_i hs
      exact ⟨route.earlyVotes, rfl, fun _ => .inl rfl, fun _ => by omega⟩

theorem evictEarlyOverflow_eq (route : RouteState) : ∃ votes : Map B256 EarlyVotes,
    route.evictEarlyOverflow = { route with earlyVotes := votes } ∧
    (∀ id : B256, votes[id]? = route.earlyVotes[id]? ∨ votes[id]? = none) ∧
    votes.size ≤ route.cacheMax := by
  obtain ⟨votes, hv, he, hb⟩ := evictEarlyLoop_eq route.earlyVotes.size route
  exact ⟨votes, hv, he, hb (Nat.le_refl _)⟩

/-- The buffer takes votes of a message that is not loaded. -/
theorem Tidy.buffered (h : route.Tidy) {hash : B256} (hn : route.byMessage[hash]? = none)
    (entry : EarlyVotes) : ({ route with
      earlyVotes := route.earlyVotes.insert hash entry } : RouteState).evictEarlyOverflow.Tidy := by
  obtain ⟨votes, hv, he, hb⟩ := evictEarlyOverflow_eq
    { route with earlyVotes := route.earlyVotes.insert hash entry }
  rw [hv]
  refine ⟨h.nodup, h.order, fun id hid => ?_, h.bounded, hb⟩
  rcases he id with e | e
  · refine e.trans ?_
    rw [Map.get_insert, if_neg]
    · exact h.disjoint id hid
    · rintro rfl
      rw [hn] at hid
      cases hid
  · exact e

theorem Tidy.bufferEarlyVote (h : route.Tidy) {hash : B256} (hn : route.byMessage[hash]? = none)
    (vote : MessageVote) (now : Instant) :
    (route.bufferEarlyVote ecrecover hash vote now).Tidy := by
  unfold RouteState.bufferEarlyVote
  split
  · exact h
  · exact h.buffered hn _

theorem Tidy.noteVote (h : route.Tidy) (chainKey : ChainKey) (vote : MessageVote) (now : Instant) :
    (route.noteVote ecrecover chainKey vote now).1.Tidy := by
  unfold RouteState.noteVote
  dsimp only
  split
  · rename_i hn
    exact h.bufferEarlyVote hn vote now
  · rename_i slot hg
    split
    · exact h
    · split
      · exact h
      · split
        · exact h
        · have hs : ∀ slot' : MessageSlot,
              ({ route with byMessage := route.byMessage.insert vote.messageId slot' } :
                RouteState).Tidy := fun slot' => by
            refine h.frame rfl rfl rfl fun id => ?_
            rw [Map.get_insert]
            split
            · rename_i e
              rw [e, hg]
              rfl
            · rfl
          split
          · exact hs _
          · exact (hs _).dispatchIfReady _ _ _ _

/-! ## Indexed messages -/

/-- A message that is admitted joins the order, and its early votes leave the buffer. -/
theorem Tidy.admitted (h : route.Tidy) {hash : B256} (hn : route.byMessage[hash]? = none)
    (hroom : route.byMessage.size < route.cacheMax) (slot : MessageSlot) :
    ({ route with
        byMessage := route.byMessage.insert hash slot
        order := route.order ++ [hash]
        earlyVotes := route.earlyVotes.erase hash } : RouteState).Tidy := by
  have hget : ∀ id : B256, ((route.byMessage.insert hash slot)[id]?).isSome ↔
      id = hash ∨ (route.byMessage[id]?).isSome := fun id => by
    rw [Map.get_insert]
    split
    · rename_i e
      simp [e]
    · rename_i e
      simp [e]
  refine ⟨?_, fun id => ?_, fun id hid => ?_, ?_, ?_⟩
  · refine List.nodup_append.mpr ⟨h.nodup, by simp, fun a ha b hb e => ?_⟩
    rw [List.mem_singleton.mp hb] at e
    rw [e, h.order, hn] at ha
    cases ha
  · rw [List.mem_append, List.mem_singleton, hget, h.order, or_comm]
  · rw [Map.get_erase]
    split
    · rfl
    · rename_i e
      exact h.disjoint id (((hget id).mp hid).resolve_left e)
  · exact Nat.le_trans Std.ExtTreeMap.size_insert_le hroom
  · exact Nat.le_trans Std.ExtTreeMap.size_erase_le h.early

/-- A slot of a message that is not loaded any more. -/
theorem Shrinks.unloaded {route' : RouteState} (h : route.Shrinks route') {hash : B256}
    (hn : route.byMessage[hash]? = none) : route'.byMessage[hash]? = none := by
  rcases h.slots hash with e | ⟨e, -⟩
  · exact e.trans hn
  · exact e

theorem Tidy.noteIndexed (h : route.Tidy) (chainKey : ChainKey) (indexed : IndexedMessage)
    (insertedAt now : Instant) :
    (route.noteIndexed chainKey indexed insertedAt now).1.Tidy := by
  obtain ⟨hr, hroom⟩ := h.makeRoom
  unfold RouteState.noteIndexed
  dsimp only
  split
  · exact h
  · rename_i hc
    split
    · exact hr
    · rename_i hok
      have hn := route.makeRoom_shrinks.unloaded (Map.not_contains_iff.mp (Bool.not_eq_true _ ▸ hc))
      have ha := hr.admitted hn (hroom (by simpa using hok)) (.new indexed insertedAt)
      split
      · rename_i he
        have hsame : route.makeRoom.1.earlyVotes.erase indexed.messageId =
            route.makeRoom.1.earlyVotes := Map.ext fun a => by
          rw [Map.get_erase]
          split
          · rename_i e
            rw [e]
            exact he.symm
          · rfl
        rw [hsame] at ha
        exact ha
      · rename_i early _
        exact (ha.onSlot indexed.messageId _).dispatchIfReady _ _ _ _

/-! ## The other operations -/

theorem Tidy.applyAttestorSet (h : route.Tidy) (chainKey : ChainKey) (update : RouteAttestors)
    (now : B256 → Instant) : (route.applyAttestorSet chainKey update now).1.Tidy := by
  unfold RouteState.applyAttestorSet
  dsimp only
  split
  · exact h.frame rfl rfl rfl fun _ => rfl
  · refine Tidy.dispatchEach _ _ _ _ _ (h.frame rfl rfl rfl fun id => ?_)
    rw [Map.get_map, Option.isSome_map]

theorem Tidy.pruneExpired (h : route.Tidy) (now : Instant) (ttl : Duration) :
    (route.pruneExpired now ttl).Tidy := by
  have hsub : ∀ id : B256, ((route.pruneExpired now ttl).byMessage[id]?).isSome →
      (route.byMessage[id]?).isSome := fun id hid => by
    simp only [RouteState.pruneExpired, Map.get_filter] at hid
    obtain ⟨slot, hs⟩ := Option.isSome_iff_exists.mp hid
    rw [(Option.filter_eq_some_iff.mp hs).1]
    rfl
  refine ⟨h.nodup.filter _, fun id => ?_, fun id hid => ?_, ?_, ?_⟩
  · rw [← Std.ExtTreeMap.contains_eq_isSome_getElem?]
    refine List.mem_filter.trans ⟨And.right, fun hc => ⟨(h.order id).mpr (hsub id ?_), hc⟩⟩
    rwa [← Std.ExtTreeMap.contains_eq_isSome_getElem?]
  · simp only [RouteState.pruneExpired, Map.get_filter, h.disjoint id (hsub id hid), Option.filter_none]
  · exact Nat.le_trans (Map.size_le_of_get hsub) h.bounded
  · refine Nat.le_trans (Map.size_le_of_get fun id hid => ?_) h.early
    simp only [RouteState.pruneExpired, Map.get_filter] at hid
    obtain ⟨votes, hv⟩ := Option.isSome_iff_exists.mp hid
    rw [(Option.filter_eq_some_iff.mp hv).1]
    rfl

theorem Tidy.collectStalled (h : route.Tidy) (chainKey : ChainKey) (now : Instant) :
    (route.collectStalled chainKey now).1.Tidy := by
  refine h.frame rfl rfl rfl fun id => ?_
  simp only [RouteState.collectStalled, Map.get_map, Option.isSome_map]

end RouteState

theorem RouteTrans.tidy {chainKey : ChainKey} {op : PoolOp} {route route' : RouteState}
    (ht : RouteTrans ecrecover chainKey op route route') (h : route.Tidy) : route'.Tidy := by
  cases ht with
  | noteIndexed => exact h.noteIndexed _ _ _ _
  | noteVote => exact h.noteVote _ _ _
  | applyAttestorSet => exact h.applyAttestorSet _ _ _
  | noteDeliveryResult => exact h.onSlot _ _
  | requeueDelivery => exact h.onSlot _ _
  | pruneExpired => exact h.pruneExpired _ _
  | rotate => exact h.rotate _
  | load => exact h.noteIndexed _ _ _ _
  | collectReady => exact .dispatchEach _ _ _ _ _ h
  | collectStalled => exact h.collectStalled _ _

/-! ## Runs -/

theorem State.new_tidy (routes : List RouteAttestors) (cache : VoteCacheConfig) :
    (State.new routes cache).Every fun _ route => route.Tidy :=
  new_every routes cache fun r => ⟨.nil, fun id => by simp, fun id hid => by simp at hid,
    by simp, by simp⟩

theorem PoolStep.tidy {s t : State} {a : PoolOp × List DeliveryJob} (h : PoolStep ecrecover s a t)
    (hs : s.Every fun _ route => route.Tidy) : t.Every fun _ route => route.Tidy :=
  h.every (fun _ _ _ ht hr => ht.tidy hr) hs

/-- In every state of the pool, the order of a route lists exactly its loaded messages, each once,
no loaded message has early votes, and both tables are within `cacheMax`; and neither making room
nor pruning removes a slot that is neither delivered nor terminal. -/
theorem pool_structure (routes : List RouteAttestors) (cache : VoteCacheConfig)
    {l : List (PoolOp × List DeliveryJob)} {s : State} {chainKey : ChainKey} {route : RouteState}
    (h : Run (PoolStep ecrecover) (State.new routes cache) l s)
    (hr : s.byRoute[chainKey]? = some route) :
    route.order.Nodup ∧ (∀ id : B256, id ∈ route.order ↔ (route.byMessage[id]?).isSome) ∧
    (∀ id : B256, (route.byMessage[id]?).isSome → route.earlyVotes[id]? = none) ∧
    route.byMessage.size ≤ route.cacheMax ∧ route.earlyVotes.size ≤ route.cacheMax ∧
    ∀ (id : B256) (slot : MessageSlot), route.byMessage[id]? = some slot → slot.delivered = false →
      slot.terminal = false → route.makeRoom.1.byMessage[id]? = some slot ∧
        ∀ now ttl, (route.pruneExpired now ttl).byMessage[id]? = some slot := by
  have ht : route.Tidy := h.inv (fun _ _ _ hs hi => hs.tidy hi) (State.new_tidy routes cache) _ _ hr
  refine ⟨ht.nodup, ht.order, ht.disjoint, ht.bounded, ht.early, fun id slot hs hd hf => ⟨?_, ?_⟩⟩
  · rcases route.makeRoom_shrinks.slots id with e | ⟨-, slot', hs', hres⟩
    · rw [e, hs]
    · rw [hs] at hs'
      cases hs'
      simp [MessageSlot.resolved, hd, hf] at hres
  · intro now ttl
    simp [RouteState.pruneExpired, hs, hd, hf]

theorem pool_structure_indexed : ∃ route : RouteState, sampleIndexed.byRoute[2]? = some route ∧
    route.order.Nodup ∧ route.byMessage.size ≤ route.cacheMax := by
  have hr : Run (PoolStep fun _ _ => .ok 9) (.new [sampleRoute] sampleCache) _ sampleIndexed :=
    .snoc .nil (.apply nofun)
  have hs : (sampleIndexed.byRoute[2]?).isSome = true := by decide
  obtain ⟨route, hroute⟩ := Option.isSome_iff_exists.mp hs
  obtain ⟨hn, -, -, hb, -⟩ := pool_structure _ _ hr hroute
  exact ⟨route, hroute, hn, hb⟩

end MessageRelayer

import MessageRelayer.Pool.Tidy

/-!
# Early votes and the attestor set

A vote for a message that is not indexed yet is buffered when its signer is an
attestor of the route at that moment. A reload of the attestor set does not
look at the buffer, so the buffer stays within the set exactly as long as no
reload drops an attestor with a buffered vote (`early_votes_within`).
-/

namespace MessageRelayer

variable {ecrecover : Ecrecover}

/-- The signers of the buffered votes are attestors. -/
def RouteState.EarlyWithin (attestors : List Address) (route : RouteState) : Prop :=
  ∀ (id : B256) (votes : EarlyVotes), route.earlyVotes[id]? = some votes →
    AllMembers attestors votes.signers

/-- The operation is no reload that drops an attestor of whom a vote is buffered. -/
def PoolOp.KeepsEarly (s : State) : PoolOp → Prop
  | applyAttestorSet update _ => ∀ route : RouteState, s.byRoute[update.chainKey]? = some route →
      route.EarlyWithin update.attestors
  | _ => True

/-- An operation that is no such reload. -/
def KeepingStep (ecrecover : Ecrecover) (s : State) (a : PoolOp × List DeliveryJob) (t : State) : Prop :=
  PoolStep ecrecover s a t ∧ a.1.KeepsEarly s

namespace RouteState

variable {route : RouteState}

/-- A route with the same attestors and no other buffered votes. -/
structure Fewer (route route' : RouteState) : Prop where
  attestors : route'.attestors = route.attestors
  early : ∀ (id : B256) (votes : EarlyVotes), route'.earlyVotes[id]? = some votes →
    route.earlyVotes[id]? = some votes

theorem Fewer.within {route' : RouteState} (hf : route.Fewer route')
    (h : route.EarlyWithin route.attestors) : route'.EarlyWithin route'.attestors := by
  rw [hf.attestors]
  exact fun id votes hv => h id votes (hf.early id votes hv)

theorem Fewer.refl (route : RouteState) : route.Fewer route := ⟨rfl, fun _ _ hv => hv⟩

theorem Fewer.trans {route' route'' : RouteState} (h : route.Fewer route')
    (h' : route'.Fewer route'') : route.Fewer route'' :=
  ⟨h'.attestors.trans h.attestors, fun id votes hv => h.early id votes (h'.early id votes hv)⟩

@[simp] theorem dispatchIfReady_earlyVotes (chainKey : ChainKey) (hash : B256) (now : Instant)
    (allowProbe : Bool) :
    (route.dispatchIfReady chainKey hash now allowProbe).1.earlyVotes = route.earlyVotes := by
  rcases dispatchIfReady_cases chainKey hash route now allowProbe with
    e | ⟨_, _, _, -, -, -, e⟩ <;> rw [e]

theorem dispatchIfReady_fewer (route : RouteState) (chainKey : ChainKey) (hash : B256)
    (now : Instant) (allowProbe : Bool) :
    route.Fewer (route.dispatchIfReady chainKey hash now allowProbe).1 :=
  ⟨by simp, fun _ _ hv => by simpa using hv⟩

theorem dispatchEach_earlyVotes (chainKey : ChainKey) (now : B256 → Instant) (allowProbe : Bool)
    (hashes : List B256) : ∀ route : RouteState,
      (route.dispatchEach chainKey now allowProbe hashes).1.earlyVotes = route.earlyVotes := by
  induction hashes with
  | nil => exact fun _ => rfl
  | cons hash hashes ih =>
    exact fun route => (ih _).trans (dispatchIfReady_earlyVotes chainKey hash (now hash) allowProbe)

theorem dispatchEach_fewer (chainKey : ChainKey) (now : B256 → Instant) (allowProbe : Bool)
    (hashes : List B256) (route : RouteState) :
    route.Fewer (route.dispatchEach chainKey now allowProbe hashes).1 :=
  ⟨(dispatchEach_config chainKey now allowProbe hashes route).1, fun _ _ hv => by
    rwa [dispatchEach_earlyVotes] at hv⟩

theorem rotate_fewer (ids : List B256) : ∀ route : RouteState, route.Fewer (route.rotate ids) := by
  induction ids with
  | nil => exact .refl
  | cons id ids ih =>
    intro route
    have hf : route.Fewer (route.forget id) := ⟨rfl, fun _ _ hv => hv⟩
    exact hf.trans (ih _)

theorem noteIndexed_fewer (route : RouteState) (chainKey : ChainKey) (indexed : IndexedMessage)
    (insertedAt now : Instant) :
    route.Fewer (route.noteIndexed chainKey indexed insertedAt now).1 := by
  have hr := route.makeRoom_shrinks
  have hroom : route.Fewer route.makeRoom.1 := ⟨hr.attestors, fun _ _ hv => hr.earlyVotes ▸ hv⟩
  unfold noteIndexed
  dsimp only
  split
  · exact .refl route
  · split
    · exact hroom
    · split
      · exact hroom.trans ⟨rfl, fun _ _ hv => hv⟩
      · refine Fewer.trans ?_ (dispatchIfReady_fewer _ _ _ _ _)
        refine hroom.trans ⟨rfl, fun id votes hv => ?_⟩
        simp only [adopt, Map.get_erase] at hv
        split at hv
        · cases hv
        · exact hv

theorem evictEarlyOverflow_fewer (route : RouteState) : route.Fewer route.evictEarlyOverflow := by
  obtain ⟨votes, he, hsub, -⟩ := evictEarlyOverflow_eq route
  rw [he]
  refine ⟨rfl, fun id entry hg => ?_⟩
  have hg : votes[id]? = some entry := hg
  rcases hsub id with e | e
  · rw [← e, hg]
  · rw [hg] at e
    cases e

/-- A vote is buffered of an attestor. -/
theorem EarlyWithin.bufferEarlyVote (h : route.EarlyWithin route.attestors) (hash : B256)
    (vote : MessageVote) (now : Instant) :
    (route.bufferEarlyVote ecrecover hash vote now).EarlyWithin
      (route.bufferEarlyVote ecrecover hash vote now).attestors := by
  unfold RouteState.bufferEarlyVote
  split
  · exact h
  · rename_i recovered hv
    refine (evictEarlyOverflow_fewer _).within fun id votes hg => ?_
    have hg : (route.earlyVotes.insert hash _)[id]? = some votes := hg
    rw [Map.get_insert] at hg
    split at hg
    · rw [← Option.some.inj hg]
      refine AllMembers.insert (fun a raw ha => ?_) (voter_some hv).1
      cases hb : route.earlyVotes[hash]? with
      | none =>
        rw [hb] at ha
        simp at ha
      | some early =>
        rw [hb] at ha
        exact h hash early hb a raw ha
    · exact h id votes hg

theorem EarlyWithin.noteVote (h : route.EarlyWithin route.attestors) (chainKey : ChainKey)
    (vote : MessageVote) (now : Instant) :
    (route.noteVote ecrecover chainKey vote now).1.EarlyWithin
      (route.noteVote ecrecover chainKey vote now).1.attestors := by
  unfold RouteState.noteVote
  dsimp only
  split
  · exact h.bufferEarlyVote _ vote now
  · split
    · exact h
    · split
      · exact h
      · split
        · exact h
        · split
          · exact h
          · exact (dispatchIfReady_fewer _ _ _ _ _).within h

/-- A reload leaves the buffer as it is. -/
theorem applyAttestorSet_early (route : RouteState) (chainKey : ChainKey) (update : RouteAttestors)
    (now : B256 → Instant) :
    (route.applyAttestorSet chainKey update now).1.attestors = update.attestors ∧
    (route.applyAttestorSet chainKey update now).1.earlyVotes = route.earlyVotes := by
  unfold applyAttestorSet
  dsimp only
  split
  · exact ⟨rfl, rfl⟩
  · obtain ⟨ha, -⟩ := dispatchEach_config chainKey now false _ _
    exact ⟨ha, dispatchEach_earlyVotes _ _ _ _ _⟩

theorem pruneExpired_fewer (route : RouteState) (now : Instant) (ttl : Duration) :
    route.Fewer (route.pruneExpired now ttl) := by
  refine ⟨rfl, fun id votes hv => ?_⟩
  simp only [pruneExpired, Map.get_filter] at hv
  exact (Option.filter_eq_some_iff.mp hv).1

end RouteState

/-- Every transition but a reload keeps the buffer within the attestors. -/
theorem RouteTrans.earlyWithin {chainKey : ChainKey} {op : PoolOp} {route route' : RouteState}
    (ht : RouteTrans ecrecover chainKey op route route') (hop : ∀ update now, op ≠ .applyAttestorSet update now)
    (h : route.EarlyWithin route.attestors) : route'.EarlyWithin route'.attestors := by
  cases ht with
  | noteIndexed | load => exact (RouteState.noteIndexed_fewer _ _ _ _ _).within h
  | noteVote => exact h.noteVote _ _ _
  | applyAttestorSet => exact absurd rfl (hop _ _)
  | noteDeliveryResult | requeueDelivery | collectStalled => exact h
  | pruneExpired => exact (RouteState.pruneExpired_fewer _ _ _).within h
  | rotate => exact (RouteState.rotate_fewer _ _).within h
  | collectReady => exact (RouteState.dispatchEach_fewer _ _ _ _ _).within h

/-! ## Runs -/

/-- A reload leaves the buffer of its route within the new set exactly when it drops no attestor of
whom a vote is buffered. -/
theorem applyAttestorSet_within {s t : State} {update : RouteAttestors} {now : B256 → Instant}
    {jobs : List DeliveryJob} (hs : PoolStep ecrecover s (.applyAttestorSet update now, jobs) t) :
    (∀ route, t.byRoute[update.chainKey]? = some route → route.EarlyWithin route.attestors) ↔
      PoolOp.KeepsEarly s (.applyAttestorSet update now) := by
  cases hs with
  | apply =>
    have hg := State.onRoute_get s update.chainKey []
      (fun route => route.applyAttestorSet update.chainKey update now) update.chainKey
    rw [if_pos rfl] at hg
    have ht : ((PoolOp.applyAttestorSet update now).apply ecrecover s).1.byRoute[update.chainKey]? =
      s.byRoute[update.chainKey]?.map fun route =>
        (route.applyAttestorSet update.chainKey update now).1 := hg
    rw [ht]
    constructor
    · intro h route hr
      have hw := h _ (by rw [hr]; rfl)
      obtain ⟨ha, he⟩ := RouteState.applyAttestorSet_early route update.chainKey update now
      rw [ha, RouteState.EarlyWithin, he] at hw
      exact hw
    · intro h route hr
      obtain ⟨old, ho, rfl⟩ := Option.map_eq_some_iff.mp hr
      obtain ⟨ha, he⟩ := RouteState.applyAttestorSet_early old update.chainKey update now
      rw [ha, RouteState.EarlyWithin, he]
      exact h old ho

theorem KeepingStep.within {s t : State} {a : PoolOp × List DeliveryJob}
    (h : KeepingStep ecrecover s a t) (hs : s.Every fun _ route => route.EarlyWithin route.attestors) :
    t.Every fun _ route => route.EarlyWithin route.attestors := by
  obtain ⟨hp, hk⟩ := h
  obtain ⟨op, jobs⟩ := a
  by_cases hop : ∃ update now, op = .applyAttestorSet update now
  · obtain ⟨update, now, rfl⟩ := hop
    have hw := (applyAttestorSet_within hp).mpr hk
    intro chainKey route hr
    by_cases e : chainKey = update.chainKey
    · exact hw route (e ▸ hr)
    · cases hp with
      | apply =>
        have hg := State.onRoute_get s update.chainKey []
          (fun route => route.applyAttestorSet update.chainKey update now) chainKey
        rw [if_neg e] at hg
        exact hs chainKey route (hg.symm.trans hr)
  · exact hp.every (fun _ _ _ ht => ht.earlyWithin fun update now e => hop ⟨update, now, e⟩) hs

/-- While no reload drops an attestor of whom a vote is buffered, every message that is not indexed
has buffered votes of attestors only, and at most as many as there are; and a reload breaks this
only by such a drop. -/
theorem early_votes_within (routes : List RouteAttestors) (cache : VoteCacheConfig)
    {l : List (PoolOp × List DeliveryJob)} {s : State}
    (h : Run (KeepingStep ecrecover) (State.new routes cache) l s) :
    (∀ (chainKey : ChainKey) (route : RouteState), s.byRoute[chainKey]? = some route →
      ∀ (id : B256) (votes : EarlyVotes), route.earlyVotes[id]? = some votes →
        votes.signers.size ≤ route.attestors.length ∧
        ∀ a raw, votes.signers[a]? = some raw → a ∈ route.attestors) ∧
    ∀ update now jobs t, PoolStep ecrecover s (.applyAttestorSet update now, jobs) t →
      ((∀ route : RouteState, t.byRoute[update.chainKey]? = some route →
        ∀ (id : B256) (votes : EarlyVotes), route.earlyVotes[id]? = some votes →
          ∀ a raw, votes.signers[a]? = some raw → a ∈ route.attestors) ↔
        PoolOp.KeepsEarly s (.applyAttestorSet update now)) := by
  refine ⟨fun chainKey route hr id votes hv => ?_, fun update now jobs t hs => applyAttestorSet_within hs⟩
  have hw := h.inv (fun _ _ _ hs hi => hs.within hi)
    (State.new_every routes cache fun r id votes hv => by simp at hv) chainKey route hr id votes hv
  exact ⟨Map.size_le_length hw, hw⟩

/-- A vote of 9 for a message that is not indexed. -/
def sampleEarly : State :=
  (PoolOp.apply (fun _ _ => .ok 9) (.new [sampleRoute] sampleCache) (.noteVote sampleVote 2)).1

theorem early_votes_within_early : ∃ route : RouteState, sampleEarly.byRoute[2]? = some route ∧
    ∃ votes : EarlyVotes, route.earlyVotes[(5 : B256)]? = some votes ∧
      votes.signers.size ≤ route.attestors.length := by
  have hr : Run (KeepingStep fun _ _ => .ok 9) (.new [sampleRoute] sampleCache) _ sampleEarly :=
    .snoc .nil ⟨.apply nofun, trivial⟩
  have hs : (sampleEarly.byRoute[2]?.bind fun route => route.earlyVotes[(5 : B256)]?).isSome = true := by
    decide
  obtain ⟨votes, hv⟩ := Option.isSome_iff_exists.mp hs
  obtain ⟨route, hroute, hv⟩ := Option.bind_eq_some_iff.mp hv
  exact ⟨route, hroute, votes, hv, ((early_votes_within _ _ hr).1 2 route hroute 5 votes hv).1⟩

/-- The set of the route is reloaded without 9. -/
def sampleDropped : State :=
  (PoolOp.apply (fun _ _ => .ok 9) sampleEarly (.applyAttestorSet ⟨2, [], 1⟩ fun _ => 3)).1

/-- A reload that drops an attestor leaves its vote in the buffer. -/
theorem early_votes_outlive_set : ¬ ∀ (ecrecover : Ecrecover) (routes : List RouteAttestors)
    (cache : VoteCacheConfig) (l : List (PoolOp × List DeliveryJob)) (s : State),
    Run (PoolStep ecrecover) (State.new routes cache) l s →
    ∀ (chainKey : ChainKey) (route : RouteState), s.byRoute[chainKey]? = some route →
      ∀ (id : B256) (votes : EarlyVotes), route.earlyVotes[id]? = some votes →
        votes.signers.size ≤ route.attestors.length := by
  intro h
  have h₁ : PoolStep (fun _ _ => .ok 9) (.new [sampleRoute] sampleCache) _ sampleEarly := .apply nofun
  have h₂ : PoolStep (fun _ _ => .ok 9) sampleEarly _ sampleDropped := .apply nofun
  have hs : (sampleDropped.byRoute[2]?.any fun route => route.earlyVotes[(5 : B256)]?.any fun votes =>
      decide (route.attestors.length < votes.signers.size)) = true := by decide
  obtain ⟨route, hroute, hv⟩ := (Option.any_eq_true _ _).mp hs
  obtain ⟨votes, hv, hlt⟩ := (Option.any_eq_true _ _).mp hv
  exact absurd (h _ _ _ _ _ (.snoc (.single h₁) h₂) 2 route hroute 5 votes hv) (Nat.not_le.mpr (of_decide_eq_true hlt))

end MessageRelayer

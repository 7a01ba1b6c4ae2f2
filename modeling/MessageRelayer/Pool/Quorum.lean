import MessageRelayer.Pool.Facts

/-!
# Every vote-carrying job carries a quorum

Signatures reach a slot by two ways, a vote for an indexed message and the
votes buffered before it was indexed, while the attestors and the threshold
may change between any two operations. The invariant (`State.Sound`) is kept
per slot: what a slot stores is canonical and recovers to the address it is
stored under, and in an unresolved slot these addresses are attestors. Every
operation restores it and returns only jobs that carry a quorum
(`PoolStep.sound`); `quorum_safety` is the result for every run.
-/

namespace MessageRelayer

open Prog

variable {ecrecover : Ecrecover}

/-! ## Verified votes -/

/-- What the `EOAValidator` contract accepts: `v` is 27 or 28 and `s` is in the low half. -/
def Canonical (raw : RawSignature) : Prop :=
  (sigV raw = 27 ∨ sigV raw = 28) ∧ sigS raw ≤ beNat secp256k1HalfOrderBe

/-- A canonical signature of `hash` by `signer`. -/
structure Verified (ecrecover : Ecrecover) (hash : B256) (signer : Address) (raw : RawSignature) :
    Prop where
  canonical : Canonical raw
  recovers : ecrecover hash raw = .ok signer

theorem recoverSigner_ok {hash : B256} {raw : RawSignature} {a : Address}
    (h : recoverSigner ecrecover hash raw = .ok a) : Verified ecrecover hash a raw := by
  unfold recoverSigner at h
  split at h
  · cases h
  · rename_i hv
    split at h
    · cases h
    · rename_i hs
      refine ⟨⟨?_, Nat.le_of_not_lt hs⟩, h⟩
      rcases Decidable.not_and_iff_or_not.mp hv with hv | hv
      · exact .inl (Decidable.not_not.mp hv)
      · exact .inr (Decidable.not_not.mp hv)

theorem RouteState.voter_some {route : RouteState} {hash : B256} {vote : MessageVote} {a : Address}
    (h : route.voter ecrecover hash vote = some a) :
    a ∈ route.attestors ∧ Verified ecrecover hash a vote.signature := by
  unfold voter at h
  split at h
  · cases h
  · rename_i hm
    split at h
    · cases h
    · rename_i recovered hr
      split at h
      · cases h
      · rename_i he
        obtain rfl : recovered = a := Option.some.inj h
        have he : recovered = vote.signer := Decidable.not_not.mp he
        exact ⟨he ▸ by simpa using hm, recoverSigner_ok hr⟩

/-- The votes of a bundle are verified. -/
def AllVerified (ecrecover : Ecrecover) (hash : B256) (signers : Map Address RawSignature) : Prop :=
  ∀ a raw, signers[a]? = some raw → Verified ecrecover hash a raw

def AllMembers (attestors : List Address) (signers : Map Address RawSignature) : Prop :=
  ∀ a raw, signers[a]? = some raw → a ∈ attestors

theorem AllVerified.insert {hash : B256} {signers : Map Address RawSignature} {a : Address}
    {raw : RawSignature} (h : AllVerified ecrecover hash signers)
    (hv : Verified ecrecover hash a raw) : AllVerified ecrecover hash (signers.insert a raw) := by
  intro b r hb
  rw [Map.get_insert] at hb
  split at hb
  · rename_i e; cases hb; exact e ▸ hv
  · exact h b r hb

theorem AllMembers.insert {attestors : List Address} {signers : Map Address RawSignature}
    {a : Address} {raw : RawSignature} (h : AllMembers attestors signers) (ha : a ∈ attestors) :
    AllMembers attestors (signers.insert a raw) := by
  intro b r hb
  rw [Map.get_insert] at hb
  split at hb
  · rename_i e; exact e ▸ ha
  · exact h b r hb

/-- The votes of a bundle, one by one. -/
theorem bundle_votes {hash : B256} {attestors : List Address} {signers : Map Address RawSignature}
    (hv : AllVerified ecrecover hash signers) (hm : AllMembers attestors signers) :
    ∃ votes : List (Address × RawSignature), signers.vals = votes.map (·.2) ∧
      votes.length = signers.size ∧ (votes.map (·.1)).Nodup ∧
      ∀ v ∈ votes, v.1 ∈ attestors ∧ Canonical v.2 ∧ ecrecover hash v.2 = .ok v.1 := by
  refine ⟨signers.toList, rfl, Std.ExtTreeMap.length_toList, ?_, fun v hv' => ?_⟩
  · have := Map.nodup_keys signers
    rwa [← Std.ExtTreeMap.map_fst_toList_eq_keys] at this
  · have hg := Map.mem_toList.mp hv'
    exact ⟨hm _ _ hg, (hv _ _ hg).canonical, (hv _ _ hg).recovers⟩

theorem keepMembers_get {attestors : List Address} {signers : Map Address RawSignature} {a : Address}
    {raw : RawSignature} (h : (keepMembers attestors signers)[a]? = some raw) :
    signers[a]? = some raw ∧ a ∈ attestors := by
  rw [keepMembers, Map.get_filter] at h
  obtain ⟨hs, ha⟩ := Option.filter_eq_some_iff.mp h
  exact ⟨hs, by simpa using ha⟩

/-! ## The invariant -/

structure MessageSlot.Sound (ecrecover : Ecrecover) (attestors : List Address) (hash : B256)
    (slot : MessageSlot) : Prop where
  id : slot.indexed.messageId = hash
  verified : AllVerified ecrecover hash slot.signers
  members : slot.resolved = false → AllMembers attestors slot.signers

structure RouteState.Sound (ecrecover : Ecrecover) (route : RouteState) : Prop where
  slots : ∀ (hash : B256) (slot : MessageSlot), route.byMessage[hash]? = some slot →
    slot.Sound ecrecover route.attestors hash
  early : ∀ (hash : B256) (votes : EarlyVotes), route.earlyVotes[hash]? = some votes →
    AllVerified ecrecover hash votes.signers

def State.Sound (ecrecover : Ecrecover) (s : State) : Prop :=
  ∀ (chainKey : ChainKey) (route : RouteState), s.byRoute[chainKey]? = some route → route.Sound ecrecover

/-- The votes of a job are those of a quorum: at least `threshold` distinct attestors, each with a
canonical signature of the message. -/
def DeliveryJob.Quorate (ecrecover : Ecrecover) (attestors : List Address) (threshold : Nat)
    (job : DeliveryJob) : Prop :=
  0 < threshold ∧ ∃ votes : List (Address × RawSignature),
    job.votesCalldata = encodeVotes (votes.map (·.2)) ∧ threshold ≤ votes.length ∧
    (votes.map (·.1)).Nodup ∧
    ∀ v ∈ votes, v.1 ∈ attestors ∧ Canonical v.2 ∧ ecrecover job.messageId v.2 = .ok v.1

/-- What `PoolStep` promises of a job of a route: it carries a quorum, unless it only reconciles. -/
structure DeliveryJob.Ok (ecrecover : Ecrecover) (chainKey : ChainKey) (attestors : List Address)
    (threshold : Nat) (job : DeliveryJob) : Prop where
  chainKey : job.chainKey = chainKey
  quorate : job.reconcileOnly = false → job.Quorate ecrecover attestors threshold

/-- What an operation on a route leads to: a route with the invariant, and jobs in order. -/
structure RouteState.Keeps (ecrecover : Ecrecover) (chainKey : ChainKey)
    (p : RouteState × List DeliveryJob) : Prop where
  sound : p.1.Sound ecrecover
  jobs : ∀ job ∈ p.2, job.Ok ecrecover chainKey p.1.attestors p.1.threshold

/-- The same of an operation that returns at most one job. -/
def RouteState.Keeps? (ecrecover : Ecrecover) (chainKey : ChainKey)
    (p : RouteState × Option DeliveryJob) : Prop :=
  Keeps ecrecover chainKey (p.1, p.2.toList)

/-! ## Dispatch -/

namespace RouteState

variable {route : RouteState} {chainKey : ChainKey} {hash : B256}

/-- A route with fewer slots and fewer early votes. -/
theorem Sound.mono {route' : RouteState} (h : route.Sound ecrecover)
    (ha : route'.attestors = route.attestors)
    (hs : ∀ (hash : B256) (slot : MessageSlot), route'.byMessage[hash]? = some slot → route.byMessage[hash]? = some slot)
    (he : ∀ (hash : B256) (votes : EarlyVotes), route'.earlyVotes[hash]? = some votes →
      route.earlyVotes[hash]? = some votes) : route'.Sound ecrecover where
  slots hash slot hg := by rw [ha]; exact h.slots hash slot (hs hash slot hg)
  early hash votes hg := h.early hash votes (he hash votes hg)

theorem Sound.insert (h : route.Sound ecrecover) (hash : B256) (slot : MessageSlot)
    (order : List B256) (hs : slot.Sound ecrecover route.attestors hash) :
    ({ route with byMessage := route.byMessage.insert hash slot, order } : RouteState).Sound
      ecrecover where
  slots hash' slot' hg := by
    simp only [Map.get_insert] at hg
    split at hg
    · rename_i e; cases hg; exact e ▸ hs
    · exact h.slots hash' slot' hg
  early := h.early

/-- An operation on one slot that keeps the invariant of slots. -/
theorem Sound.onSlot (h : route.Sound ecrecover) (hash : B256) (f : MessageSlot → MessageSlot)
    (hf : ∀ slot, slot.Sound ecrecover route.attestors hash →
      (f slot).Sound ecrecover route.attestors hash) :
    (route.onSlot hash f).Sound ecrecover where
  slots hash' slot' hg := by
    simp only [RouteState.onSlot, Map.get_modify] at hg
    split at hg
    · rename_i e
      obtain ⟨slot, hs, rfl⟩ := Option.map_eq_some_iff.mp hg
      exact e ▸ hf slot (e ▸ h.slots hash' slot hs)
    · exact h.slots hash' slot' hg
  early := h.early

/-- A slot that is dispatched, and its job. -/
theorem dispatch_sound {slot : MessageSlot} (chainKey : ChainKey) (h : slot.Sound ecrecover route.attestors hash)
    {now : Instant} {allowProbe : Bool} (hr : slot.ready route.threshold now allowProbe = true) :
    (slot.dispatch chainKey (slot.hasQuorum route.threshold)).1.Sound ecrecover route.attestors hash ∧
    (slot.dispatch chainKey (slot.hasQuorum route.threshold)).2.Ok ecrecover chainKey
      route.attestors route.threshold := by
  refine ⟨⟨h.id, h.verified, h.members⟩, rfl, fun hro => ?_⟩
  have hu := (ready_open hr).1
  have hq : slot.hasQuorum route.threshold = true := by
    simp only [MessageSlot.dispatch, Bool.or_eq_false_iff, Bool.not_eq_false'] at hro
    exact hro.2
  simp only [MessageSlot.hasQuorum, Bool.and_eq_true, decide_eq_true_eq] at hq
  obtain ⟨votes, hvotes, hl, hn, hall⟩ := bundle_votes h.verified (h.members hu)
  rw [← h.id] at hall
  exact ⟨hq.1, votes, congrArg encodeVotes hvotes, hl ▸ hq.2, hn, hall⟩

@[simp] theorem dispatchIfReady_attestors (now : Instant) (allowProbe : Bool) :
    (route.dispatchIfReady chainKey hash now allowProbe).1.attestors = route.attestors := by
  rcases dispatchIfReady_cases chainKey hash route now allowProbe with
    e | ⟨_, _, _, -, -, -, e⟩ <;> rw [e]

@[simp] theorem dispatchIfReady_threshold (now : Instant) (allowProbe : Bool) :
    (route.dispatchIfReady chainKey hash now allowProbe).1.threshold = route.threshold := by
  rcases dispatchIfReady_cases chainKey hash route now allowProbe with
    e | ⟨_, _, _, -, -, -, e⟩ <;> rw [e]

theorem Sound.noJob (h : route.Sound ecrecover) : Keeps? ecrecover chainKey (route, none) :=
  ⟨h, fun _ hj => absurd hj List.not_mem_nil⟩

theorem Sound.noJobs (h : route.Sound ecrecover) : Keeps ecrecover chainKey (route, []) :=
  ⟨h, fun _ hj => absurd hj List.not_mem_nil⟩

theorem dispatchIfReady_keeps (h : route.Sound ecrecover) (chainKey : ChainKey) (hash : B256)
    (now : Instant) (allowProbe : Bool) :
    Keeps? ecrecover chainKey (route.dispatchIfReady chainKey hash now allowProbe) := by
  rcases dispatchIfReady_cases chainKey hash route now allowProbe with
    e | ⟨slot, slot', job, hg, hr, hd, e⟩ <;> rw [e]
  · exact h.noJob
  · obtain ⟨hs, hj⟩ := dispatch_sound chainKey (h.slots _ _ hg) hr
    rw [hd] at hs hj
    exact ⟨h.insert _ _ _ hs, fun job hm => (List.mem_singleton.mp hm) ▸ hj⟩

theorem dispatchEach_config (chainKey : ChainKey) (now : B256 → Instant) (allowProbe : Bool) (hashes : List B256) :
    ∀ route : RouteState,
      (route.dispatchEach chainKey now allowProbe hashes).1.attestors = route.attestors ∧
      (route.dispatchEach chainKey now allowProbe hashes).1.threshold = route.threshold := by
  induction hashes with
  | nil => exact fun _ => ⟨rfl, rfl⟩
  | cons hash hashes ih =>
    intro route
    obtain ⟨ha, ht⟩ := ih (route.dispatchIfReady chainKey hash (now hash) allowProbe).1
    exact ⟨ha.trans (dispatchIfReady_attestors _ _), ht.trans (dispatchIfReady_threshold _ _)⟩

theorem dispatchEach_keeps (chainKey : ChainKey) (now : B256 → Instant) (allowProbe : Bool) (hashes : List B256) :
    ∀ route : RouteState, route.Sound ecrecover →
      Keeps ecrecover chainKey (route.dispatchEach chainKey now allowProbe hashes) := by
  induction hashes with
  | nil => exact fun _ h => h.noJobs
  | cons hash hashes ih =>
    intro route h
    have hd := dispatchIfReady_keeps h chainKey hash (now hash) allowProbe
    have hi := ih _ hd.sound
    obtain ⟨ha, ht⟩ := dispatchEach_config chainKey now allowProbe hashes
      (route.dispatchIfReady chainKey hash (now hash) allowProbe).1
    refine ⟨hi.sound, fun job hj => ?_⟩
    rcases List.mem_append.mp hj with hj | hj
    · have := hd.jobs job hj
      rwa [← ha, ← ht] at this
    · exact hi.jobs job hj

/-! ## Room -/

theorem forget_sound (h : route.Sound ecrecover) (hash : B256) : (route.forget hash).Sound ecrecover :=
  h.mono rfl (fun a _ hg => by
    rw [forget_get] at hg
    split at hg
    · cases hg
    · exact hg) fun _ _ hg => hg

theorem Sound.shrinks {route' : RouteState} (h : route.Sound ecrecover)
    (hs : route.Shrinks route') : route'.Sound ecrecover :=
  h.mono hs.attestors (fun _ _ hg => hs.get hg) fun _ _ hg => hs.earlyVotes ▸ hg

theorem evictEarlyLoop_sound (fuel : Nat) : ∀ route : RouteState, route.Sound ecrecover →
    (route.evictEarlyLoop fuel).Sound ecrecover := by
  induction fuel with
  | zero => exact fun _ h => h
  | succ fuel ih =>
    intro route h
    unfold evictEarlyLoop
    split
    · split
      · exact h
      · refine ih _ (h.mono rfl (fun _ _ hg => hg) fun _ _ hg => ?_)
        simp only [Map.get_erase] at hg
        split at hg
        · cases hg
        · exact hg
    · exact h

/-! ## Votes and indexed messages -/

theorem bufferEarlyVote_sound (h : route.Sound ecrecover) (hash : B256) (vote : MessageVote) (now : Instant) :
    (route.bufferEarlyVote ecrecover hash vote now).Sound ecrecover := by
  unfold bufferEarlyVote
  split
  · exact h
  · rename_i recovered hv
    refine evictEarlyLoop_sound _ _ ⟨h.slots, fun hash' votes hg => ?_⟩
    simp only [Map.get_insert] at hg
    split at hg
    · rename_i e
      obtain rfl := Option.some.inj hg
      rw [e]
      refine AllVerified.insert (fun a raw ha => ?_) (voter_some hv).2
      cases he : route.earlyVotes[hash]? with
      | none => rw [he] at ha; simp at ha
      | some early => rw [he] at ha; exact h.early _ _ he a raw ha
    · exact h.early hash' votes hg

/-- A verified vote joins its slot. -/
theorem Sound.insertVote (h : route.Sound ecrecover) {hash : B256} {slot : MessageSlot}
    {vote : MessageVote} {recovered : Address} (hg : route.byMessage[hash]? = some slot)
    (hv : route.voter ecrecover hash vote = some recovered) :
    ({ route with
        byMessage := route.byMessage.insert hash
          { slot with signers := slot.signers.insert recovered vote.signature } } :
      RouteState).Sound ecrecover :=
  have hs := h.slots _ _ hg
  have hv := voter_some hv
  h.insert hash _ route.order
    ⟨hs.id, hs.verified.insert hv.2, fun hu => (hs.members hu).insert hv.1⟩

theorem noteVote_keeps (h : route.Sound ecrecover) (chainKey : ChainKey) (vote : MessageVote)
    (now : Instant) :
    Keeps? ecrecover chainKey (route.noteVote ecrecover chainKey vote now) := by
  unfold noteVote
  dsimp only
  split
  · exact (bufferEarlyVote_sound h _ vote now).noJob
  · rename_i slot hg
    split
    · exact h.noJob
    · split
      · exact h.noJob
      · rename_i recovered hv
        split
        · exact h.noJob
        · split
          · exact (h.insertVote hg hv).noJob
          · exact dispatchIfReady_keeps (h.insertVote hg hv) _ _ _ _

/-- A message that was just indexed has no votes yet. -/
theorem admit_sound (h : route.Sound ecrecover) (indexed : IndexedMessage) (insertedAt : Instant)
    (order : List B256) :
    ({ route with
        byMessage := route.byMessage.insert indexed.messageId (.new indexed insertedAt)
        order } : RouteState).Sound ecrecover :=
  h.insert _ _ _ ⟨rfl, fun _ _ hg => by simp [MessageSlot.new] at hg,
    fun _ _ _ hg => by simp [MessageSlot.new] at hg⟩

/-- The votes adopted from the buffer are verified, and checked against the present set. -/
theorem adopt_sound (h : route.Sound ecrecover) {hash : B256} {early : EarlyVotes}
    (he : route.earlyVotes[hash]? = some early) : (route.adopt hash early).Sound ecrecover := by
  have ho := h.onSlot hash
    (fun slot => { slot with signers := keepMembers route.attestors early.signers })
    fun slot hs => ⟨hs.id, fun a raw hg => h.early _ _ he a raw (keepMembers_get hg).1,
      fun _ a raw hg => (keepMembers_get hg).2⟩
  exact ho.mono rfl (fun _ _ hg => hg) fun _ _ hg => by
    simp only [adopt, Map.get_erase] at hg
    split at hg
    · cases hg
    · exact hg

theorem noteIndexed_keeps (h : route.Sound ecrecover) (chainKey : ChainKey)
    (indexed : IndexedMessage) (insertedAt now : Instant) :
    Keeps? ecrecover chainKey (route.noteIndexed chainKey indexed insertedAt now) := by
  unfold noteIndexed
  dsimp only
  split
  · exact h.noJob
  · have hr := h.shrinks route.makeRoom_shrinks
    split
    · exact hr.noJob
    · have h' := admit_sound hr indexed insertedAt (route.makeRoom.1.order ++ [indexed.messageId])
      split
      · exact h'.noJob
      · rename_i early he
        exact dispatchIfReady_keeps (adopt_sound h' he) _ _ _ _

theorem noteIndexed_config (route : RouteState) (chainKey : ChainKey) (indexed : IndexedMessage)
    (insertedAt now : Instant) :
    (route.noteIndexed chainKey indexed insertedAt now).1.attestors = route.attestors ∧
    (route.noteIndexed chainKey indexed insertedAt now).1.threshold = route.threshold := by
  have hc := route.makeRoom_shrinks
  unfold noteIndexed
  dsimp only
  split
  · exact ⟨rfl, rfl⟩
  · split
    · exact ⟨hc.attestors, hc.threshold⟩
    · split
      · exact ⟨hc.attestors, hc.threshold⟩
      · exact ⟨(dispatchIfReady_attestors _ _).trans hc.attestors,
          (dispatchIfReady_threshold _ _).trans hc.threshold⟩

/-- The route with a new set, to which the votes of its unresolved slots are cut down. -/
theorem resetSet_sound (h : route.Sound ecrecover) (update : RouteAttestors) :
    ({ route with
        attestors := update.attestors
        threshold := update.threshold
        byMessage := route.byMessage.map fun _ slot =>
          if slot.delivered || slot.terminal then slot
          else { slot with signers := keepMembers update.attestors slot.signers } } :
      RouteState).Sound ecrecover := by
  refine ⟨fun hash slot hg => ?_, h.early⟩
  simp only [Map.get_map] at hg
  obtain ⟨old, ho, rfl⟩ := Option.map_eq_some_iff.mp hg
  have hs := h.slots _ _ ho
  split
  · rename_i hu
    exact ⟨hs.id, hs.verified, fun hu' => by rw [MessageSlot.resolved, hu] at hu'; cases hu'⟩
  · exact ⟨hs.id, fun a raw hg => hs.verified a raw (keepMembers_get hg).1,
      fun _ a raw hg => (keepMembers_get hg).2⟩

theorem applyAttestorSet_keeps (h : route.Sound ecrecover) (chainKey : ChainKey)
    (update : RouteAttestors) (now : B256 → Instant) :
    Keeps ecrecover chainKey (route.applyAttestorSet chainKey update now) := by
  unfold applyAttestorSet
  dsimp only
  split
  · rename_i hc
    simp only [not_or, Decidable.not_not] at hc
    exact Sound.noJobs ⟨hc.1 ▸ h.slots, h.early⟩
  · exact dispatchEach_keeps _ _ _ _ _ (resetSet_sound h update)

theorem pruneExpired_sound (h : route.Sound ecrecover) (now : Instant) (ttl : Duration) :
    (route.pruneExpired now ttl).Sound ecrecover := by
  refine h.mono rfl (fun _ _ hg => ?_) fun _ _ hg => ?_ <;>
  · simp only [pruneExpired, Map.get_filter] at hg
    exact (Option.filter_eq_some_iff.mp hg).1

theorem collectStalled_sound (h : route.Sound ecrecover) (chainKey : ChainKey) (now : Instant) :
    (route.collectStalled chainKey now).1.Sound ecrecover := by
  refine ⟨fun hash slot hg => ?_, h.early⟩
  simp only [collectStalled, Map.get_map] at hg
  obtain ⟨old, ho, rfl⟩ := Option.map_eq_some_iff.mp hg
  have hs := h.slots _ _ ho
  split
  · exact ⟨hs.id, hs.verified, hs.members⟩
  · exact hs

end RouteState

theorem MessageSlot.noteDeliveryResult_sound {attestors : List Address} {hash : B256}
    {slot : MessageSlot} (h : slot.Sound ecrecover attestors hash) (outcome : DeliveryResultKind)
    (now later : Instant) (wall : Option Nat) :
    (slot.noteDeliveryResult outcome now later wall).Sound ecrecover attestors hash := by
  cases outcome with
  | delivered => exact ⟨h.id, h.verified, fun hu => by simp [noteDeliveryResult, resolved] at hu⟩
  | terminal => exact ⟨h.id, h.verified, fun hu => by simp [noteDeliveryResult, resolved] at hu⟩
  | retryable | awaitingVotes | awaitingExecution => exact ⟨h.id, h.verified, h.members⟩

/-! ## The whole state -/

/-- The jobs that a step returns, with the sets of the state it leads to. -/
def State.Emits (ecrecover : Ecrecover) (s : State) (jobs : List DeliveryJob) : Prop :=
  ∀ job ∈ jobs, ∃ route : RouteState, s.byRoute[job.chainKey]? = some route ∧
    (job.reconcileOnly = false → job.Quorate ecrecover route.attestors route.threshold)

/-- Attestors and threshold of a route. -/
def State.config (s : State) (chainKey : ChainKey) : Option (List Address × Nat) :=
  s.byRoute[chainKey]?.map fun route => (route.attestors, route.threshold)

theorem State.Emits.nil (s : State) : s.Emits ecrecover [] :=
  fun _ hj => absurd hj List.not_mem_nil

theorem State.Emits.append {s : State} {jobs jobs' : List DeliveryJob}
    (h : s.Emits ecrecover jobs) (h' : s.Emits ecrecover jobs') :
    s.Emits ecrecover (jobs ++ jobs') :=
  fun job hj => (List.mem_append.mp hj).elim (h job) (h' job)

/-- Jobs stay in order while their routes keep their sets. -/
theorem State.Emits.congr {s s' : State} {jobs : List DeliveryJob} (h : s.Emits ecrecover jobs)
    (hc : s'.config = s.config) : s'.Emits ecrecover jobs := by
  intro job hj
  obtain ⟨route, hr, hq⟩ := h job hj
  have : s'.config job.chainKey = some (route.attestors, route.threshold) := by
    rw [hc, State.config, hr]; rfl
  obtain ⟨route', hr', e⟩ := Option.map_eq_some_iff.mp this
  obtain ⟨ha, ht⟩ := Prod.mk.inj e
  exact ⟨route', hr', fun hro => by rw [ha, ht]; exact hq hro⟩

namespace State

variable {s : State}

theorem onRoute_sound {α : Type} (h : s.Sound ecrecover) (chainKey : ChainKey) (default : α)
    (f : RouteState → RouteState × α)
    (hf : ∀ route : RouteState, route.Sound ecrecover → (f route).1.Sound ecrecover) :
    (s.onRoute chainKey default f).1.Sound ecrecover := by
  intro a route hg
  rw [onRoute_get] at hg
  split at hg
  · obtain ⟨old, ho, rfl⟩ := Option.map_eq_some_iff.mp hg
    exact hf old (h _ _ ho)
  · exact h a route hg

theorem onRoute_config {α : Type} (chainKey : ChainKey) (default : α)
    (f : RouteState → RouteState × α)
    (hf : ∀ route : RouteState, (f route).1.attestors = route.attestors ∧
      (f route).1.threshold = route.threshold) :
    (s.onRoute chainKey default f).1.config = s.config := by
  funext a
  rw [config, onRoute_get]
  split
  · rw [Option.map_map]
    exact Option.map_congr fun route _ => Prod.ext (hf route).1 (hf route).2
  · rfl

theorem onRoute_keeps (h : s.Sound ecrecover) (chainKey : ChainKey)
    (f : RouteState → RouteState × List DeliveryJob)
    (hf : ∀ route : RouteState, route.Sound ecrecover →
      RouteState.Keeps ecrecover chainKey (f route)) :
    (s.onRoute chainKey [] f).1.Sound ecrecover ∧
    (s.onRoute chainKey [] f).1.Emits ecrecover (s.onRoute chainKey [] f).2 := by
  refine ⟨onRoute_sound h _ _ _ fun route hr => (hf route hr).sound, fun job hj => ?_⟩
  have hg := onRoute_get s chainKey [] f chainKey
  rw [if_pos rfl] at hg
  cases hr : s.byRoute[chainKey]? with
  | none => simp only [onRoute, hr] at hj; cases hj
  | some route =>
    simp only [onRoute, hr] at hj
    have ho := (hf route (h _ _ hr)).jobs job hj
    exact ⟨_, by rw [ho.chainKey, hg, hr]; rfl, ho.quorate⟩

theorem onRoute_keeps? (h : s.Sound ecrecover) (chainKey : ChainKey)
    (f : RouteState → RouteState × Option DeliveryJob)
    (hf : ∀ route : RouteState, route.Sound ecrecover →
      RouteState.Keeps? ecrecover chainKey (f route)) :
    (s.onRoute chainKey none f).1.Sound ecrecover ∧
    (s.onRoute chainKey none f).1.Emits ecrecover (s.onRoute chainKey none f).2.toList := by
  have := onRoute_keeps h chainKey (fun route => ((f route).1, (f route).2.toList)) hf
  rwa [show ([] : List DeliveryJob) = (none : Option DeliveryJob).toList from rfl,
    onRoute_map] at this

theorem eachRoute_sound {α : Type} (f : ChainKey → RouteState → RouteState × List α)
    (hf : ∀ (chainKey : ChainKey) (route : RouteState), route.Sound ecrecover →
      (f chainKey route).1.Sound ecrecover) (chainKeys : List ChainKey) :
    ∀ s : State, s.Sound ecrecover → (s.eachRoute f chainKeys).1.Sound ecrecover := by
  induction chainKeys with
  | nil => exact fun _ h => h
  | cons chainKey chainKeys ih => exact fun s h => ih _ (onRoute_sound h _ _ _ (hf chainKey))

theorem eachRoute_config {α : Type} (f : ChainKey → RouteState → RouteState × List α)
    (hf : ∀ (chainKey : ChainKey) (route : RouteState),
      (f chainKey route).1.attestors = route.attestors ∧
      (f chainKey route).1.threshold = route.threshold) (chainKeys : List ChainKey) :
    ∀ s : State, (s.eachRoute f chainKeys).1.config = s.config := by
  induction chainKeys with
  | nil => exact fun _ => rfl
  | cons chainKey chainKeys ih =>
    exact fun s => (ih _).trans (onRoute_config _ _ _ (hf chainKey))

theorem eachRoute_keeps (f : ChainKey → RouteState → RouteState × List DeliveryJob)
    (hf : ∀ (chainKey : ChainKey) (route : RouteState), route.Sound ecrecover →
      RouteState.Keeps ecrecover chainKey (f chainKey route))
    (hc : ∀ (chainKey : ChainKey) (route : RouteState),
      (f chainKey route).1.attestors = route.attestors ∧
      (f chainKey route).1.threshold = route.threshold) (chainKeys : List ChainKey) :
    ∀ s : State, s.Sound ecrecover →
      (s.eachRoute f chainKeys).1.Sound ecrecover ∧
      (s.eachRoute f chainKeys).1.Emits ecrecover (s.eachRoute f chainKeys).2 := by
  induction chainKeys with
  | nil => exact fun s h => ⟨h, .nil s⟩
  | cons chainKey chainKeys ih =>
    intro s h
    obtain ⟨hs, hj⟩ := onRoute_keeps h chainKey (f chainKey) (hf chainKey)
    obtain ⟨hs', hj'⟩ := ih _ hs
    exact ⟨hs', (hj.congr (eachRoute_config f hc chainKeys _)).append hj'⟩

/-! ## Refill -/

theorem noteIndexed_keeps (h : s.Sound ecrecover) (indexed : IndexedMessage)
    (insertedAt now : Instant) :
    (s.noteIndexed indexed insertedAt now).1.Sound ecrecover ∧
    (s.noteIndexed indexed insertedAt now).1.Emits ecrecover
      (s.noteIndexed indexed insertedAt now).2.toList :=
  onRoute_keeps? h _ _ fun _ hr => RouteState.noteIndexed_keeps hr _ _ _ _

theorem noteIndexed_config (indexed : IndexedMessage) (insertedAt now : Instant) :
    (s.noteIndexed indexed insertedAt now).1.config = s.config :=
  onRoute_config _ _ _ fun route => RouteState.noteIndexed_config route _ _ _ _

theorem noteEach_keeps (clock : B256 → Instant × Instant) (pending : List IndexedMessage) :
    ∀ s : State, s.Sound ecrecover →
      (s.noteEach clock pending).1.Sound ecrecover ∧
      (s.noteEach clock pending).1.Emits ecrecover (s.noteEach clock pending).2 ∧
      (s.noteEach clock pending).1.config = s.config := by
  induction pending with
  | nil => exact fun s h => ⟨h, .nil s, rfl⟩
  | cons indexed pending ih =>
    intro s h
    obtain ⟨hs, hj⟩ := noteIndexed_keeps h indexed (clock indexed.messageId).1
      (clock indexed.messageId).2
    obtain ⟨hs', hj', hc⟩ := ih _ hs
    exact ⟨hs', (hj.congr hc).append hj', hc.trans (noteIndexed_config _ _ _)⟩

theorem rotate_sound {route : RouteState} (h : route.Sound ecrecover) (ids : List B256) :
    (route.rotate ids).Sound ecrecover := by
  induction ids generalizing route with
  | nil => exact h
  | cons id ids ih => exact ih (RouteState.forget_sound h id)

theorem rotate_config (route : RouteState) (ids : List B256) :
    (route.rotate ids).attestors = route.attestors ∧
    (route.rotate ids).threshold = route.threshold := by
  induction ids generalizing route with
  | nil => exact ⟨rfl, rfl⟩
  | cons id ids ih => exact ih (route.forget id)

/-- What a refill makes of the state, whatever the store answers. -/
def Refilled (ecrecover : Ecrecover) (s : State) (r : State × Except Error (List DeliveryJob)) :
    Prop :=
  r.1.Sound ecrecover ∧ r.1.Emits ecrecover (r.2.toOption.getD []) ∧ r.1.config = s.config

variable {W : Type} (H : Env WorkCall WorkCall.Answer W)

theorem refillRoute_keeps (h : s.Sound ecrecover) (now : Instant) (clock : B256 → Instant × Instant)
    (chainKey : ChainKey) (w : W) :
    wp H (s.refillRoute now clock chainKey) w fun _ r => Refilled ecrecover s r := by
  unfold refillRoute
  split
  · exact ⟨h, .nil s, rfl⟩
  · rename_i route hr
    rw [wp_bind, wp_workPending]
    intro pending w' _
    cases pending with
    | error e => exact ⟨h, .nil s, rfl⟩
    | ok pending =>
      dsimp only
      rw [wp_bind]
      refine wp_mono (wp_true H _ _) fun w' r _ => ?_
      cases r with
      | error e => exact ⟨h, .nil s, rfl⟩
      | ok =>
        have hs := onRoute_sound h chainKey ()
          (fun route' => (route'.rotate ((route.candidates now).take
            (pending.length - (route.cacheMax - route.byMessage.size))), ()))
          fun _ hr' => rotate_sound hr' _
        obtain ⟨hs', hj, hc⟩ := noteEach_keeps clock pending _ hs
        exact ⟨hs', hj, hc.trans (onRoute_config _ _ _ fun route => rotate_config route _)⟩

theorem refillRoutes_keeps (now : Instant) (clock : B256 → Instant × Instant)
    (chainKeys : List ChainKey) : ∀ (s : State) (w : W), s.Sound ecrecover →
      wp H (s.refillRoutes now clock chainKeys) w fun _ r => Refilled ecrecover s r := by
  induction chainKeys with
  | nil => exact fun s _ h => ⟨h, .nil s, rfl⟩
  | cons chainKey chainKeys ih =>
    intro s w h
    rw [refillRoutes, wp_bind]
    refine wp_mono (refillRoute_keeps H h now clock chainKey w) fun w' r hr => ?_
    obtain ⟨s₁, r⟩ := r
    obtain ⟨hs, hj, hc⟩ := hr
    cases r with
    | error e => exact ⟨hs, hj, hc⟩
    | ok jobs =>
      dsimp only
      rw [wp_bind]
      refine wp_mono (ih s₁ w' hs) fun w'' r hr => ?_
      obtain ⟨s₂, r⟩ := r
      obtain ⟨hs', hj', hc'⟩ := hr
      refine ⟨hs', ?_, hc'.trans hc⟩
      cases r with
      | error e => exact hj'
      | ok jobs' => exact (hj.congr hc').append hj'

end State

/-! ## Runs -/

theorem State.new_sound (routes : List RouteAttestors) (cache : VoteCacheConfig) :
    (State.new routes cache).Sound ecrecover := fun chainKey route hg => by
  obtain ⟨hm, he⟩ := new_route hg
  exact ⟨fun _ _ hg => by rw [hm] at hg; simp at hg, fun _ _ hg => by rw [he] at hg; simp at hg⟩

theorem State.noteDeliveryResult_sound {s : State} (h : s.Sound ecrecover) (result : DeliveryResult)
    (now later : Instant) (wall : Option Nat) :
    (s.noteDeliveryResult result now later wall).Sound ecrecover :=
  onRoute_sound h _ _ _ fun _ hr => hr.onSlot _ _ fun _ hs =>
    MessageSlot.noteDeliveryResult_sound hs _ _ _ _

theorem State.requeueDelivery_sound {s : State} (h : s.Sound ecrecover) (chainKey : ChainKey)
    (messageId : B256) (now : Instant) : (s.requeueDelivery chainKey messageId now).Sound ecrecover :=
  onRoute_sound h _ _ _ fun _ hr => hr.onSlot _ _ fun _ hs => ⟨hs.id, hs.verified, hs.members⟩

theorem State.pruneExpired_sound {s : State} (h : s.Sound ecrecover) (now : Instant) :
    (s.pruneExpired now).Sound ecrecover :=
  eachRoute_sound _ (fun _ _ hr => RouteState.pruneExpired_sound hr _ _) _ _ h

theorem State.collectStalled_sound {s : State} (h : s.Sound ecrecover) (now : Instant) :
    (s.collectStalledReobservations now).1.Sound ecrecover :=
  eachRoute_sound _ (fun _ _ hr => RouteState.collectStalled_sound hr _ _) _ _ h

theorem State.collectReadyDeliveries_keeps {s : State} (h : s.Sound ecrecover) (now : Instant) :
    (s.collectReadyDeliveries now).1.Sound ecrecover ∧
    (s.collectReadyDeliveries now).1.Emits ecrecover (s.collectReadyDeliveries now).2 :=
  eachRoute_keeps _ (fun _ _ hr => RouteState.dispatchEach_keeps _ _ _ _ _ hr)
    (fun _ _ => RouteState.dispatchEach_config _ _ _ _ _) _ _ h

/-- Every operation keeps the invariant, and the jobs it returns carry quorums of the sets that it
leaves. -/
theorem PoolStep.sound {s s' : State} {op : PoolOp} {jobs : List DeliveryJob}
    (h : PoolStep ecrecover s (op, jobs) s') (hs : s.Sound ecrecover) :
    s'.Sound ecrecover ∧ s'.Emits ecrecover jobs := by
  cases h with
  | refill hx =>
    obtain ⟨hs', hj, -⟩ := hx.post (State.refillRoutes_keeps anyStore _ _ _ s () hs)
    exact ⟨hs', hj⟩
  | apply hop =>
    cases op with
    | noteIndexed indexed insertedAt now => exact State.noteIndexed_keeps hs _ _ _
    | noteVote vote now =>
      exact State.onRoute_keeps? hs _ _ fun _ hr => RouteState.noteVote_keeps hr _ _ _
    | applyAttestorSet update now =>
      exact State.onRoute_keeps hs _ _ fun _ hr => RouteState.applyAttestorSet_keeps hr _ _ _
    | noteDeliveryResult result now later wall =>
      exact ⟨State.noteDeliveryResult_sound hs _ _ _ _, .nil _⟩
    | requeueDelivery chainKey messageId now =>
      exact ⟨State.requeueDelivery_sound hs _ _ _, .nil _⟩
    | pruneExpired now =>
      exact ⟨State.pruneExpired_sound hs now, .nil _⟩
    | refill now clock => exact absurd rfl (hop now clock)
    | collectReadyDeliveries now =>
      exact State.collectReadyDeliveries_keeps hs now
    | collectStalledReobservations now =>
      exact ⟨State.collectStalled_sound hs now, .nil _⟩

/-- In every run of the pool, a job that is not only to reconcile carries a quorum of its route: it
is emitted in a state whose route has a positive threshold, and its votes are the encoded
signatures of at least that many distinct attestors of the route, each canonical and recovering
to its attestor over the job's message. -/
theorem quorum_safety (routes : List RouteAttestors) (cache : VoteCacheConfig)
    {l : List (PoolOp × List DeliveryJob)} {s s' : State} {op : PoolOp} {jobs : List DeliveryJob}
    (hr : Run (PoolStep ecrecover) (State.new routes cache) l s)
    (hs : PoolStep ecrecover s (op, jobs) s') {job : DeliveryJob} (hj : job ∈ jobs)
    (hv : job.reconcileOnly = false) :
    ∃ route : RouteState, s'.byRoute[job.chainKey]? = some route ∧ 0 < route.threshold ∧
      ∃ votes : List (Address × RawSignature),
        job.votesCalldata = encodeVotes (votes.map (·.2)) ∧ route.threshold ≤ votes.length ∧
        (votes.map (·.1)).Nodup ∧
        ∀ v ∈ votes, v.1 ∈ route.attestors ∧ Canonical v.2 ∧
          ecrecover job.messageId v.2 = .ok v.1 := by
  have hi : s.Sound ecrecover :=
    hr.inv (fun _ _ _ h hi => (PoolStep.sound h hi).1) (State.new_sound routes cache)
  obtain ⟨route, hg, hq⟩ := (hs.sound hi).2 job hj
  exact ⟨route, hg, hq hv⟩

/-- A message of a route with the single attestor 9, and 9's vote for it. -/
def sampleMessage : IndexedMessage where
  chainKey := 2
  messageId := 5
  emitter := 6
  outbox := 7
  sequence := 1
  destinationChainKey := 2
  creditcoinChainId := 42
  payload := [1]
  txHash := 8
  blockHeight := 3

def sampleVote : MessageVote where
  chainKey := 2
  messageId := 5
  signer := 9
  signature := (Vector.replicate 64 1).push 27

def sampleRoute : RouteAttestors where
  chainKey := 2
  attestors := [9]
  threshold := 1

def sampleCache : VoteCacheConfig where
  ttlSeconds := 1800
  maxMessages := 4

/-- The pool of `sampleRoute` once `sampleMessage` is indexed. -/
def sampleIndexed : State :=
  (PoolOp.apply (fun _ _ => .ok 9) (.new [sampleRoute] sampleCache) (.noteIndexed sampleMessage 1 1)).1

theorem quorum_safety_vote :
    ∃ job ∈ (PoolOp.apply (fun _ _ => .ok 9) sampleIndexed (.noteVote sampleVote 2)).2,
      job.reconcileOnly = false ∧
      ∃ route : RouteState,
        (PoolOp.apply (fun _ _ => .ok 9) sampleIndexed
          (.noteVote sampleVote 2)).1.byRoute[job.chainKey]? = some route ∧ 0 < route.threshold ∧
        ∃ votes : List (Address × RawSignature),
          job.votesCalldata = encodeVotes (votes.map (·.2)) ∧ route.threshold ≤ votes.length ∧
          (votes.map (·.1)).Nodup ∧
          ∀ v ∈ votes, v.1 ∈ route.attestors ∧ Canonical v.2 ∧
            (fun _ _ => .ok 9 : Ecrecover) job.messageId v.2 = .ok v.1 := by
  obtain ⟨job, hj, hv⟩ :
      ∃ job ∈ (PoolOp.apply (fun _ _ => .ok 9) sampleIndexed (.noteVote sampleVote 2)).2,
        job.reconcileOnly = false := by decide
  have hr : Run (PoolStep fun _ _ => .ok 9) (.new [sampleRoute] sampleCache) _ sampleIndexed :=
    .snoc .nil (.apply fun _ _ h => by cases h)
  exact ⟨job, hj, hv, quorum_safety _ _ hr (.apply fun _ _ h => by cases h) hj hv⟩

end MessageRelayer

import Mathlib.Data.List.Dedup
import MessageRelayer.Pool.Accounts
import MessageRelayer.Pool.Invalid
import MessageRelayer.Pool.Tidy

/-!
# The order of votes

Valid votes for a message may come before it is indexed, and wait in the
buffer, or after, and join its slot. Up to the index the route is as it was
but for the buffered votes of the message (`Buffered`); from then on its slot
has the votes so far, and is in flight exactly when they are a quorum
(`Loaded`). What the end looks like depends only on who voted
(`vote_order_independent`).
-/

namespace MessageRelayer

variable {ecrecover : Ecrecover}

/-- Operations in turn, with the jobs that they return. -/
def State.applyAll (ecrecover : Ecrecover) : List PoolOp → State → State × List DeliveryJob
  | [], s => (s, [])
  | op :: ops, s =>
    let (s, jobs) := op.apply ecrecover s
    let (s, jobs') := applyAll ecrecover ops s
    (s, jobs ++ jobs')

/-- A vote and the time at which it is noted. -/
def voteOp (v : MessageVote × Instant) : PoolOp := .noteVote v.1 v.2

theorem State.applyAll_cons (op : PoolOp) (ops : List PoolOp) (s : State) :
    s.applyAll ecrecover (op :: ops) =
      (((op.apply ecrecover s).1.applyAll ecrecover ops).1,
        (op.apply ecrecover s).2 ++ ((op.apply ecrecover s).1.applyAll ecrecover ops).2) := rfl

theorem State.applyAll_append (ops ops' : List PoolOp) : ∀ s : State,
    s.applyAll ecrecover (ops ++ ops') =
      ((((s.applyAll ecrecover ops).1).applyAll ecrecover ops').1,
        (s.applyAll ecrecover ops).2 ++ (((s.applyAll ecrecover ops).1).applyAll ecrecover ops').2) := by
  induction ops with
  | nil => exact fun _ => rfl
  | cons op ops ih =>
    intro s
    simp only [List.cons_append, State.applyAll_cons, ih, List.append_assoc]

/-! ## Bundles -/

/-- The bundle has the votes of exactly these signers. -/
def Voted (signers : Map Address RawSignature) (voters : List Address) : Prop :=
  ∀ a : Address, (signers[a]?).isSome ↔ a ∈ voters

section
variable {signers : Map Address RawSignature} {voters : List Address} {a : Address}
  {raw : RawSignature}

theorem Voted.empty : Voted ∅ [] := fun a => by simp

theorem Voted.size (h : Voted signers voters) : signers.size = voters.dedup.length := by
  refine Nat.le_antisymm (Map.size_le_length fun a raw ha => ?_) ?_
  · rw [List.mem_dedup, ← h a, ha]
    rfl
  · rw [← Std.ExtTreeMap.length_keys]
    refine ((List.nodup_dedup voters).subperm fun a ha => ?_).length_le
    rw [List.mem_dedup, ← h a] at ha
    exact Map.mem_keys.mpr (Option.isSome_iff_exists.mp ha)

theorem Voted.insert (h : Voted signers voters) : Voted (signers.insert a raw) (voters ++ [a]) := by
  intro b
  rw [Map.get_insert, List.mem_append, List.mem_singleton]
  split
  · rename_i e
    simp [e]
  · rename_i e
    rw [h b]
    simp [e]

/-- A vote of someone who voted. -/
theorem Voted.again (h : Voted signers voters) (ha : a ∈ voters) : Voted signers (voters ++ [a]) := by
  intro b
  rw [h b, List.mem_append, List.mem_singleton]
  exact ⟨.inl, fun hb => hb.elim (fun hb => hb) fun e => e ▸ ha⟩

/-- All of them are attestors. -/
theorem Voted.keepMembers (h : Voted signers voters) {attestors : List Address}
    (hm : ∀ a ∈ voters, a ∈ attestors) : Voted (keepMembers attestors signers) voters := by
  intro a
  rw [MessageRelayer.keepMembers, Map.get_filter, ← h a]
  cases ha : signers[a]? with
  | none => rfl
  | some raw =>
    have hin := hm a ((h a).mp (by rw [ha]; rfl))
    simp [hin]

end

/-! ## The two phases -/

/-- A vote for the message, valid on the route. -/
structure MessageVote.Valid (ecrecover : Ecrecover) (base : RouteState) (indexed : IndexedMessage)
    (vote : MessageVote) : Prop where
  chainKey : vote.chainKey = indexed.chainKey
  messageId : vote.messageId = indexed.messageId
  member : vote.signer ∈ base.attestors
  verified : Verified ecrecover indexed.messageId vote.signer vote.signature

/-- The early votes before the message is indexed: those of the route `base`, and the votes for the
message so far. -/
structure Buffered (base : RouteState) (id : B256) (voters : List Address)
    (early : Map B256 EarlyVotes) : Prop where
  other : ∀ a : B256, a ≠ id → early[a]? = base.earlyVotes[a]?
  absent : early[id]? = none → voters = []
  present : ∀ votes : EarlyVotes, early[id]? = some votes → Voted votes.signers voters

/-- The slot of the message once it is indexed. -/
structure MessageSlot.Gathered (threshold : Nat) (indexed : IndexedMessage) (voters : List Address)
    (slot : MessageSlot) : Prop where
  indexed : slot.indexed = indexed
  voted : Voted slot.signers voters
  open' : slot.delivered = false ∧ slot.terminal = false ∧ slot.executionAccepted = false
  due : slot.nextDeliveryAttemptAt = none
  inFlight : slot.inFlight = true ↔ threshold ≤ voters.dedup.length

structure Loaded (base : RouteState) (indexed : IndexedMessage) (voters : List Address)
    (route : RouteState) : Prop where
  attestors : route.attestors = base.attestors
  threshold : route.threshold = base.threshold
  slot : ∃ slot : MessageSlot, route.byMessage[indexed.messageId]? = some slot ∧
    slot.Gathered base.threshold indexed voters

/-- One of the jobs carries the votes for the message. -/
def CarriesVotes (id : B256) (jobs : List DeliveryJob) : Prop :=
  ∃ job ∈ jobs, job.messageId = id ∧ job.reconcileOnly = false

theorem carriesVotes_append {id : B256} {jobs jobs' : List DeliveryJob} :
    CarriesVotes id (jobs ++ jobs') ↔ CarriesVotes id jobs ∨ CarriesVotes id jobs' := by
  simp only [CarriesVotes, List.mem_append, or_and_right, exists_or]

theorem not_carriesVotes_nil {id : B256} : ¬ CarriesVotes id [] :=
  fun ⟨_, hj, _⟩ => absurd hj List.not_mem_nil

section
variable {base : RouteState} {indexed : IndexedMessage} {voters : List Address}

theorem MessageVote.Valid.voter {vote : MessageVote} (hv : vote.Valid ecrecover base indexed)
    {route : RouteState} (ha : route.attestors = base.attestors) :
    route.voter ecrecover vote.messageId vote = some vote.signer := by
  refine RouteState.voter_iff.mpr ⟨rfl, ?_, ?_⟩
  · rw [ha]
    exact hv.member
  · rw [hv.messageId]
    exact hv.verified

/-! ## Before the index -/

theorem RouteState.evictEarlyOverflow_of_le {route : RouteState}
    (h : route.earlyVotes.size ≤ route.cacheMax) : route.evictEarlyOverflow = route := by
  unfold evictEarlyOverflow
  cases route.earlyVotes.size with
  | zero => rfl
  | succ n => rw [evictEarlyLoop, if_neg (Nat.not_lt.mpr h)]

/-- With room for one more entry, the buffer keeps every vote for the message. -/
theorem Buffered.vote {early : Map B256 EarlyVotes}
    (h : Buffered base indexed.messageId voters early)
    (hn : base.byMessage[indexed.messageId]? = none) (hcap : base.earlyVotes.size < base.cacheMax)
    {vote : MessageVote} (hv : vote.Valid ecrecover base indexed) (chainKey : ChainKey) (now : Instant) :
    ∃ early', ({ base with earlyVotes := early } : RouteState).noteVote ecrecover chainKey vote now =
        ({ base with earlyVotes := early' }, none) ∧
      Buffered base indexed.messageId (voters ++ [vote.signer]) early' := by
  generalize hentry : early[indexed.messageId]?.getD { signers := ∅, firstSeen := now } = entry
  have hvoted : Voted entry.signers voters := by
    rw [← hentry]
    cases he : early[indexed.messageId]? with
    | none =>
      rw [h.absent he]
      exact .empty
    | some votes => exact h.present votes he
  refine ⟨early.insert indexed.messageId
    { entry with signers := entry.signers.insert vote.signer vote.signature }, ?_, ?_, ?_, ?_⟩
  · have hsize : (early.insert indexed.messageId
        { entry with signers := entry.signers.insert vote.signer vote.signature }).size ≤
        base.cacheMax := by
      have hle : (base.earlyVotes.insert indexed.messageId entry).size ≤ base.earlyVotes.size + 1 :=
        Std.ExtTreeMap.size_insert_le
      refine Nat.le_trans (Map.size_le_of_get fun a ha => ?_) (Nat.le_trans hle hcap)
      rw [Map.get_insert] at ha ⊢
      split
      · rfl
      · rename_i e
        rw [if_neg e, h.other a e] at ha
        exact ha
    have hbuf : ({ base with earlyVotes := early } : RouteState).bufferEarlyVote ecrecover
        vote.messageId vote now = ({ base with
          earlyVotes := early.insert indexed.messageId
            { entry with signers := entry.signers.insert vote.signer vote.signature } }) := by
      have hvoter : ({ base with earlyVotes := early } : RouteState).voter ecrecover vote.messageId
          vote = some vote.signer := hv.voter rfl
      rw [RouteState.bufferEarlyVote, hvoter]
      dsimp only
      rw [hv.messageId, hentry]
      exact RouteState.evictEarlyOverflow_of_le hsize
    rw [RouteState.noteVote]
    dsimp only
    rw [hbuf, hv.messageId, hn]
  · intro a ha
    rw [Map.get_insert, if_neg ha]
    exact h.other a ha
  · intro hnone
    simp at hnone
  · intro votes hvotes
    rw [Map.get_insert_self] at hvotes
    cases hvotes
    exact hvoted.insert

/-! ## From the index on -/

/-- A slot that is not in flight is dispatched exactly when its votes are a quorum. -/
theorem dispatch_loaded (route : RouteState) (ha : route.attestors = base.attestors)
    (ht : route.threshold = base.threshold) (hpos : 0 < base.threshold) {slot : MessageSlot}
    (hs : route.byMessage[indexed.messageId]? = some slot) (hi : slot.indexed = indexed)
    (hv : Voted slot.signers voters)
    (ho : slot.delivered = false ∧ slot.terminal = false ∧ slot.executionAccepted = false)
    (hd : slot.nextDeliveryAttemptAt = none) (hf : slot.inFlight = false) (chainKey : ChainKey)
    (now : Instant) :
    Loaded base indexed voters (route.dispatchIfReady chainKey indexed.messageId now false).1 ∧
    (CarriesVotes indexed.messageId
        (route.dispatchIfReady chainKey indexed.messageId now false).2.toList ↔
      base.threshold ≤ voters.dedup.length) := by
  have hsize := hv.size
  unfold RouteState.dispatchIfReady
  rw [hs]
  dsimp only
  by_cases hq : base.threshold ≤ voters.dedup.length
  · have hquorum : slot.hasQuorum route.threshold = true := by
      simp [MessageSlot.hasQuorum, ht, hpos, hsize, hq]
    have hr : slot.ready route.threshold now false = true := by
      simp [MessageSlot.ready, ho, hf, hd, hquorum]
    rw [if_pos hr, hquorum]
    refine ⟨⟨ha, ht, _, Map.get_insert_self _ _ _, ⟨hi, hv, ho, rfl, ?_⟩⟩, ?_⟩
    · exact ⟨fun _ => hq, fun _ => rfl⟩
    · refine ⟨fun _ => hq, fun _ => ⟨_, List.mem_singleton_self _, ?_, ?_⟩⟩
      · show slot.indexed.messageId = indexed.messageId
        rw [hi]
      · simp [MessageSlot.dispatch, ho]
  · have hr : slot.ready route.threshold now false = false := by
      simp [MessageSlot.ready, MessageSlot.hasQuorum, MessageSlot.canReconcile, ho, hd, hf, ht, hsize,
        hq]
    rw [hr]
    refine ⟨⟨ha, ht, slot, hs, ⟨hi, hv, ho, hd, ?_⟩⟩, ?_⟩
    · rw [hf]
      exact ⟨fun h => Bool.noConfusion h, fun h => absurd h hq⟩
    · exact ⟨fun h => absurd h not_carriesVotes_nil, fun h => absurd h hq⟩

theorem RouteState.adopt_get (route : RouteState) {id : B256} {slot : MessageSlot}
    (hs : route.byMessage[id]? = some slot) (votes : EarlyVotes) :
    (route.adopt id votes).byMessage[id]? =
      some { slot with signers := keepMembers route.attestors votes.signers } := by
  simp [adopt, onSlot, hs]

/-- A message that is admitted has the votes that were buffered for it. -/
theorem Buffered.index {early : Map B256 EarlyVotes}
    (h : Buffered base indexed.messageId voters early)
    (hn : base.byMessage[indexed.messageId]? = none) (hpos : 0 < base.threshold)
    (hm : ∀ a ∈ voters, a ∈ base.attestors) {route : RouteState}
    (hroute : route = { base with earlyVotes := early }) (chainKey : ChainKey)
    (insertedAt now : Instant) :
    (route.noteIndexed chainKey indexed insertedAt now).1.byMessage[indexed.messageId]? = none ∨
    Loaded base indexed voters (route.noteIndexed chainKey indexed insertedAt now).1 ∧
      (CarriesVotes indexed.messageId
          (route.noteIndexed chainKey indexed insertedAt now).2.toList ↔
        base.threshold ≤ voters.dedup.length) := by
  have hn : route.byMessage[indexed.messageId]? = none := by rw [hroute]; exact hn
  have hr := route.makeRoom_shrinks
  have ha : route.makeRoom.1.attestors = base.attestors := by rw [hr.attestors, hroute]
  have ht : route.makeRoom.1.threshold = base.threshold := by rw [hr.threshold, hroute]
  have he : route.makeRoom.1.earlyVotes = early := by rw [hr.earlyVotes, hroute]
  unfold RouteState.noteIndexed
  dsimp only
  rw [if_neg (by rw [Map.not_contains_iff.mpr hn]; exact Bool.false_ne_true)]
  split
  · exact .inl (hr.unloaded hn)
  · split
    · rename_i hearly
      rw [he] at hearly
      rw [h.absent hearly]
      refine .inr ⟨⟨ha, ht, _, Map.get_insert_self _ _ _, ⟨rfl, .empty, ⟨rfl, rfl, rfl⟩, rfl, ?_⟩⟩, ?_⟩
      · exact ⟨fun hf => Bool.noConfusion hf, fun hle => absurd hpos (Nat.not_lt.mpr hle)⟩
      · exact ⟨fun hc => absurd hc not_carriesVotes_nil, fun hle => absurd hpos (Nat.not_lt.mpr hle)⟩
    · rename_i votes hearly
      rw [he] at hearly
      have hv := (h.present votes hearly).keepMembers hm
      rw [← ha] at hv
      have hslot := RouteState.adopt_get { route.makeRoom.1 with
            byMessage := route.makeRoom.1.byMessage.insert indexed.messageId
              (.new indexed insertedAt)
            order := route.makeRoom.1.order ++ [indexed.messageId] }
          (Map.get_insert_self _ _ _) votes
      refine .inr (dispatch_loaded _ ?_ ?_ hpos hslot rfl hv ⟨rfl, rfl, rfl⟩ rfl rfl chainKey now)
      · exact ha
      · exact ht

/-- A vote for the loaded message. -/
theorem Loaded.vote {route : RouteState} (h : Loaded base indexed voters route)
    (hpos : 0 < base.threshold) {vote : MessageVote} (hv : vote.Valid ecrecover base indexed)
    (chainKey : ChainKey) (now : Instant) :
    Loaded base indexed (voters ++ [vote.signer]) (route.noteVote ecrecover chainKey vote now).1 ∧
    (base.threshold ≤ voters.dedup.length ∨ CarriesVotes indexed.messageId
        (route.noteVote ecrecover chainKey vote now).2.toList ↔
      base.threshold ≤ (voters ++ [vote.signer]).dedup.length) := by
  obtain ⟨ha, ht, slot, hs, hg⟩ := h
  have hvoter := hv.voter ha
  unfold RouteState.noteVote
  dsimp only
  rw [hv.messageId] at hvoter ⊢
  rw [hs]
  dsimp only
  rw [if_neg (by simp [hg.open']), hvoter]
  dsimp only
  split
  · rename_i hc
    have hagain := hg.voted.again ((hg.voted vote.signer).mp (by
      rwa [← Std.ExtTreeMap.contains_eq_isSome_getElem?]))
    have hsame : (voters ++ [vote.signer]).dedup.length = voters.dedup.length := by
      rw [← hagain.size, hg.voted.size]
    refine ⟨⟨ha, ht, slot, hs, ⟨hg.indexed, hagain, hg.open', hg.due, ?_⟩⟩, ?_⟩
    · rw [hsame]
      exact hg.inFlight
    · rw [hsame]
      exact ⟨fun hor => hor.resolve_right not_carriesVotes_nil, .inl⟩
  · rename_i hfresh
    have hvoted : Voted (slot.signers.insert vote.signer vote.signature) (voters ++ [vote.signer]) :=
      hg.voted.insert
    have hsize := hvoted.size
    have hle : voters.dedup.length ≤ (voters ++ [vote.signer]).dedup.length := by
      rw [← hsize, ← hg.voted.size]
      exact Std.ExtTreeMap.size_le_size_insert
    have hget := Map.get_insert_self route.byMessage indexed.messageId
      { slot with signers := slot.signers.insert vote.signer vote.signature }
    by_cases hf : slot.inFlight = true
    · have hq := hg.inFlight.mp hf
      rw [if_pos (Bool.or_eq_true_iff.mpr (.inr hf))]
      refine ⟨⟨ha, ht, _, hget, ⟨hg.indexed, hvoted, hg.open', hg.due, ?_⟩⟩, ?_⟩
      · exact ⟨fun _ => Nat.le_trans hq hle, fun _ => hf⟩
      · exact ⟨fun _ => Nat.le_trans hq hle, fun _ => .inl hq⟩
    · have hno : ¬ base.threshold ≤ voters.dedup.length := fun h => hf (hg.inFlight.mpr h)
      have hf : slot.inFlight = false := by simpa using hf
      split
      · rename_i hbelow
        have hlt : ¬ base.threshold ≤ (voters ++ [vote.signer]).dedup.length := by
          simp only [hf, Bool.or_false, decide_eq_true_eq, ht, hsize] at hbelow
          exact Nat.not_le.mpr hbelow
        refine ⟨⟨ha, ht, _, hget, ⟨hg.indexed, hvoted, hg.open', hg.due, ?_⟩⟩, ?_⟩
        · exact ⟨fun h => absurd (hf.symm.trans h) Bool.false_ne_true, fun h => absurd h hlt⟩
        · exact ⟨fun h => h.elim (absurd · hno) (absurd · not_carriesVotes_nil),
            fun h => absurd h hlt⟩
      · have hready := dispatch_loaded ({ route with
            byMessage := route.byMessage.insert indexed.messageId
              { slot with signers := slot.signers.insert vote.signer vote.signature } } : RouteState)
          ha ht hpos hget hg.indexed hvoted hg.open' hg.due hf chainKey now
        refine ⟨hready.1, ?_⟩
        rw [hready.2]
        exact ⟨fun h => h.elim (absurd · hno) fun h => h, .inr⟩

/-- A vote for a message that was not admitted does not load it. -/
theorem RouteState.noteVote_none {route : RouteState} {vote : MessageVote}
    (hn : route.byMessage[vote.messageId]? = none) (chainKey : ChainKey) (now : Instant) :
    (route.noteVote ecrecover chainKey vote now).1.byMessage[vote.messageId]? = none := by
  rw [noteVote]
  dsimp only
  rw [hn]
  dsimp only
  rw [RouteState.bufferEarlyVote_byMessage]
  exact hn

/-! ## Runs of votes -/

/-- What a vote does to its route. -/
theorem State.vote_apply (ecrecover : Ecrecover) {s : State} {v : MessageVote × Instant} {chainKey : ChainKey}
    (hk : v.1.chainKey = chainKey) {route : RouteState}
    (hr : s.byRoute[chainKey]? = some route) :
    ((voteOp v).apply ecrecover s).1.byRoute[chainKey]? =
        some (route.noteVote ecrecover v.1.chainKey v.1 v.2).1 ∧
    ((voteOp v).apply ecrecover s).2 =
        (route.noteVote ecrecover v.1.chainKey v.1 v.2).2.toList := by
  simp only [voteOp, PoolOp.apply, State.noteVote, State.onRoute_get, State.onRoute_snd, hk, hr]
  exact ⟨rfl, rfl⟩

/-- Votes before the index are buffered, and return no jobs. -/
theorem State.votes_buffered (hn : base.byMessage[indexed.messageId]? = none)
    (hcap : base.earlyVotes.size < base.cacheMax) (before : List (MessageVote × Instant))
    (hv : ∀ v ∈ before, v.1.Valid ecrecover base indexed) :
    ∀ (s : State) (voters : List Address) (early : Map B256 EarlyVotes),
      s.byRoute[indexed.chainKey]? = some { base with earlyVotes := early } →
      Buffered base indexed.messageId voters early →
      (s.applyAll ecrecover (before.map voteOp)).2 = [] ∧
      ∃ early', (s.applyAll ecrecover (before.map voteOp)).1.byRoute[indexed.chainKey]? =
          some { base with earlyVotes := early' } ∧
        Buffered base indexed.messageId (voters ++ before.map (·.1.signer)) early' := by
  induction before with
  | nil =>
    intro s voters early hs h
    simp only [List.map_nil, List.append_nil]
    exact ⟨rfl, early, hs, h⟩
  | cons v before ih =>
    intro s voters early hs h
    have hvalid := hv v List.mem_cons_self
    obtain ⟨hget, hjobs⟩ := State.vote_apply ecrecover hvalid.chainKey hs
    obtain ⟨early', hvote, h'⟩ := h.vote hn hcap hvalid v.1.chainKey v.2
    rw [hvote] at hget hjobs
    obtain ⟨hnil, early'', hrun, h''⟩ :=
      ih (fun v hm => hv v (List.mem_cons_of_mem _ hm)) _ _ _ hget h'
    refine ⟨?_, early'', hrun, ?_⟩
    · rw [List.map_cons, State.applyAll_cons, hjobs, hnil]
      rfl
    · rw [List.map_cons, ← List.singleton_append, ← List.append_assoc]
      exact h''

/-- Votes from the index on join the slot, and the one that makes the quorum returns the job. -/
theorem State.votes_loaded (hpos : 0 < base.threshold) (after : List (MessageVote × Instant))
    (hv : ∀ v ∈ after, v.1.Valid ecrecover base indexed) :
    ∀ (s : State) (voters : List Address) (route : RouteState),
      s.byRoute[indexed.chainKey]? = some route → Loaded base indexed voters route →
      (∃ route', (s.applyAll ecrecover (after.map voteOp)).1.byRoute[indexed.chainKey]? =
          some route' ∧ Loaded base indexed (voters ++ after.map (·.1.signer)) route') ∧
      (base.threshold ≤ voters.dedup.length ∨
          CarriesVotes indexed.messageId (s.applyAll ecrecover (after.map voteOp)).2 ↔
        base.threshold ≤ (voters ++ after.map (·.1.signer)).dedup.length) := by
  induction after with
  | nil =>
    intro s voters route hs h
    simp only [List.map_nil, List.append_nil]
    exact ⟨⟨route, hs, h⟩, fun hor => hor.resolve_right not_carriesVotes_nil, .inl⟩
  | cons v after ih =>
    intro s voters route hs h
    have hvalid := hv v List.mem_cons_self
    obtain ⟨hget, hjobs⟩ := State.vote_apply ecrecover hvalid.chainKey hs
    obtain ⟨hloaded, hjob⟩ := h.vote hpos hvalid v.1.chainKey v.2
    obtain ⟨hrun, hrest⟩ := ih (fun v hm => hv v (List.mem_cons_of_mem _ hm)) _ _ _ hget hloaded
    have hsigners : voters ++ (v :: after).map (·.1.signer) =
        voters ++ [v.1.signer] ++ after.map (·.1.signer) := by simp
    rw [hsigners]
    refine ⟨hrun, ?_⟩
    rw [List.map_cons, State.applyAll_cons, carriesVotes_append, hjobs, ← or_assoc, hjob]
    exact hrest

/-- Votes for a message that was not admitted do not load it. -/
theorem State.votes_rejected (after : List (MessageVote × Instant))
    (hv : ∀ v ∈ after, v.1.Valid ecrecover base indexed) :
    ∀ (s : State) (route : RouteState), s.byRoute[indexed.chainKey]? = some route →
      route.byMessage[indexed.messageId]? = none →
      ∃ route', (s.applyAll ecrecover (after.map voteOp)).1.byRoute[indexed.chainKey]? =
          some route' ∧ route'.byMessage[indexed.messageId]? = none := by
  induction after with
  | nil => exact fun s route hs hn => ⟨route, hs, hn⟩
  | cons v after ih =>
    intro s route hs hn
    have hvalid := hv v List.mem_cons_self
    obtain ⟨hget, -⟩ := State.vote_apply ecrecover hvalid.chainKey hs
    refine ih (fun v hm => hv v (List.mem_cons_of_mem _ hm)) _ _ hget ?_
    rw [← hvalid.messageId] at hn ⊢
    exact RouteState.noteVote_none hn _ _

end

/-- Take valid votes for a message in any order, some before the message is indexed and some after,
on a route with a positive threshold and room for the early ones. If the message is admitted then
its slot ends with the votes of exactly those who voted, and a job that carries votes was returned
exactly when they are as many as the threshold. -/
theorem vote_order_independent {s : State} {base : RouteState} {indexed : IndexedMessage}
    (hbase : s.byRoute[indexed.chainKey]? = some base)
    (hnew : base.byMessage[indexed.messageId]? = none)
    (hearly : base.earlyVotes[indexed.messageId]? = none)
    (hcap : base.earlyVotes.size < base.cacheMax) (hpos : 0 < base.threshold)
    {votes : List MessageVote} (hv : ∀ vote ∈ votes, vote.Valid ecrecover base indexed)
    {before after : List (MessageVote × Instant)}
    (hp : ((before ++ after).map (·.1)).Perm votes) (insertedAt now : Instant)
    {s' : State} {jobs : List DeliveryJob}
    (hrun : s.applyAll ecrecover
      (before.map voteOp ++ .noteIndexed indexed insertedAt now :: after.map voteOp) = (s', jobs))
    {route : RouteState} (hroute : s'.byRoute[indexed.chainKey]? = some route)
    {slot : MessageSlot} (hslot : route.byMessage[indexed.messageId]? = some slot) :
    (∀ a : Address, (slot.signers[a]?).isSome ↔ a ∈ votes.map (·.signer)) ∧
    ((∃ job ∈ jobs, job.messageId = indexed.messageId ∧ job.reconcileOnly = false) ↔
      base.threshold ≤ (votes.map (·.signer)).dedup.length) := by
  have hmem : ∀ v ∈ before ++ after, v.1.Valid ecrecover base indexed := fun v hm =>
    hv _ (hp.mem_iff.mp (List.mem_map_of_mem hm))
  have hbefore : ∀ v ∈ before, v.1.Valid ecrecover base indexed := fun v hm =>
    hmem v (List.mem_append_left _ hm)
  have hafter : ∀ v ∈ after, v.1.Valid ecrecover base indexed := fun v hm =>
    hmem v (List.mem_append_right _ hm)
  have hsigners : (before.map (·.1.signer) ++ after.map (·.1.signer)).Perm
      (votes.map (·.signer)) := by
    have := hp.map (·.signer)
    rwa [List.map_map, List.map_append] at this
  obtain ⟨hnil, early, hbuf, hb⟩ := State.votes_buffered hnew hcap before hbefore s []
    base.earlyVotes hbase ⟨fun _ _ => rfl, fun _ => rfl, fun votes h => by
      rw [hearly] at h; cases h⟩
  rw [List.nil_append] at hb
  have hn : ((PoolOp.noteIndexed indexed insertedAt now).apply ecrecover
      (s.applyAll ecrecover (before.map voteOp)).1).1.byRoute[indexed.chainKey]? =
      some (({ base with earlyVotes := early } : RouteState).noteIndexed indexed.chainKey indexed
        insertedAt now).1 := by
    simp only [PoolOp.apply, State.noteIndexed, State.onRoute_get, hbuf]
    rfl
  have hj : ((PoolOp.noteIndexed indexed insertedAt now).apply ecrecover
      (s.applyAll ecrecover (before.map voteOp)).1).2 =
      (({ base with earlyVotes := early } : RouteState).noteIndexed indexed.chainKey indexed
        insertedAt now).2.toList := by
    simp only [PoolOp.apply, State.noteIndexed, State.onRoute_snd, hbuf]
    rfl
  rw [State.applyAll_append, hnil, State.applyAll_cons, hj, List.nil_append] at hrun
  cases hrun
  have hmembers : ∀ a ∈ before.map (·.1.signer), a ∈ base.attestors := by
    intro a ha
    obtain ⟨v, hm, rfl⟩ := List.mem_map.mp ha
    exact (hbefore v hm).member
  rcases hb.index hnew hpos hmembers rfl indexed.chainKey insertedAt now with hnone | ⟨hloaded, hjob⟩
  · obtain ⟨route', hg, hnone⟩ := State.votes_rejected after hafter _ _ hn hnone
    rw [hg] at hroute
    cases hroute
    rw [hnone] at hslot
    cases hslot
  · obtain ⟨⟨route', hg, hl⟩, hjobs⟩ := State.votes_loaded hpos after hafter _ _ _ hn hloaded
    obtain ⟨slot', hs', hgathered⟩ := hl.slot
    rw [hg] at hroute
    cases hroute
    rw [hs'] at hslot
    cases hslot
    refine ⟨fun a => ?_, ?_⟩
    · rw [hgathered.voted a]
      exact hsigners.mem_iff
    · show CarriesVotes _ _ ↔ _
      rw [carriesVotes_append, hjob, hjobs]
      exact (hsigners.dedup.length_eq ▸ Iff.rfl)

/-- Signatures whose first byte is their signer. -/
def firstByte : Ecrecover := fun _ raw => .ok (.ofNat 160 (raw.toList.headD 0).toNat)

def voteOf (signer : Byte) : MessageVote :=
  { sampleVote with
    signer := .ofNat 160 signer.toNat
    signature := (Vector.replicate 1 signer ++ Vector.replicate 63 (1 : Byte)).push 27 }

/-- Three attestors who are all needed: 9 and 8 vote before `sampleMessage` is indexed, 9 again and 10
after. -/
def splitVotes : State × List DeliveryJob :=
  (State.new [⟨2, [8, 9, 10], 3⟩] sampleCache).applyAll firstByte
    ([(voteOf 9, 1), (voteOf 8, 2)].map voteOp ++
      .noteIndexed sampleMessage 3 3 :: [(voteOf 9, 4), (voteOf 10, 5)].map voteOp)

theorem vote_order_independent_split :
    ∃ route : RouteState, splitVotes.1.byRoute[sampleMessage.chainKey]? = some route ∧
    ∃ slot : MessageSlot, route.byMessage[sampleMessage.messageId]? = some slot ∧
      (∀ a : Address, (slot.signers[a]?).isSome ↔ a ∈ [(8 : Address), 9, 9, 10]) ∧
      ((∃ job ∈ splitVotes.2,
          job.messageId = sampleMessage.messageId ∧ job.reconcileOnly = false) ↔
        3 ≤ [(8 : Address), 9, 9, 10].dedup.length) := by
  have hbase : ((State.new [⟨2, [8, 9, 10], 3⟩] sampleCache).byRoute[sampleMessage.chainKey]?.any
      fun base => decide (
        base.attestors = [8, 9, 10] ∧ base.threshold = 3 ∧ base.earlyVotes.size < base.cacheMax ∧
        base.byMessage[sampleMessage.messageId]?.isNone ∧
        base.earlyVotes[sampleMessage.messageId]?.isNone)) = true := by decide
  have hend : ((splitVotes.1.byRoute[sampleMessage.chainKey]?.bind fun route =>
      route.byMessage[sampleMessage.messageId]?).isSome) = true := by decide +kernel
  obtain ⟨base, hb, hprops⟩ := (Option.any_eq_true _ _).mp hbase
  obtain ⟨ha, ht, hcap, hn, hearly⟩ := of_decide_eq_true hprops
  obtain ⟨slot, hs⟩ := Option.isSome_iff_exists.mp hend
  obtain ⟨route, hr, hs⟩ := Option.bind_eq_some_iff.mp hs
  have hone : ∀ signer : Byte, signer = 8 ∨ signer = 9 ∨ signer = 10 →
      (voteOf signer).Valid firstByte base sampleMessage := by
    rintro signer (rfl | rfl | rfl)
    all_goals
      refine ⟨rfl, rfl, ?_, ⟨by unfold Canonical; decide, by decide⟩⟩
      rw [ha]
      decide
  have hvalid : ∀ vote ∈ [voteOf 8, voteOf 9, voteOf 9, voteOf 10],
      vote.Valid firstByte base sampleMessage := by
    simp only [List.forall_mem_cons, List.not_mem_nil, false_imp_iff, implies_true, and_true]
    exact ⟨hone 8 (by simp), hone 9 (by simp), hone 9 (by simp), hone 10 (by simp)⟩
  have hperm : ([(voteOf 9, 1), (voteOf 8, 2)] ++ [(voteOf 9, 4), (voteOf 10, 5)]
      |>.map (Prod.fst (β := Instant))).Perm [voteOf 8, voteOf 9, voteOf 9, voteOf 10] :=
    .swap _ _ _
  have h := vote_order_independent hb (Option.isNone_iff_eq_none.mp hn)
    (Option.isNone_iff_eq_none.mp hearly) hcap (by omega) hvalid hperm 3 3 rfl hr hs
  rw [ht] at h
  exact ⟨route, hr, slot, hs, h⟩

end MessageRelayer

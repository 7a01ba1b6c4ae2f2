import MessageRelayer.Pool.Quorum
import MessageRelayer.Relay.Stable

/-!
# What a delivery job says

A job has the content of the message whose slot it was dispatched from. So
while the slots of the pool are among some copies of messages, and an
operation admits only such copies, every job that the operation returns says
what one of these copies says (`PoolOp.said`), and so does every job of a
refill from a store of such copies (`State.refillRoutes_said`). With the
quorum that the pool asks for, and the sets of attestors that it was given, the
jobs of an operation and of a refill are admissible (`PoolAdmits.operation`,
`PoolAdmits.refill`).
-/

namespace MessageRelayer

open Prog hiding ask

variable {ecrecover : Ecrecover} {copies copies' : Copies}

/-- The job has the content of the message. -/
structure DeliveryJob.Of (message : IndexedMessage) (job : DeliveryJob) : Prop where
  messageId : job.messageId = message.messageId
  emitter : job.emitter = message.emitter
  outbox : job.outbox = message.outbox
  sequence : job.sequence = message.sequence
  payload : job.payload = message.payload

/-- The job has the content of one of the copies. -/
def DeliveryJob.Says (copies : Copies) (job : DeliveryJob) : Prop :=
  ∃ id message, copies job.chainKey id message ∧ job.Of message

def AllSay (copies : Copies) (jobs : List DeliveryJob) : Prop := ∀ job ∈ jobs, job.Says copies

theorem AllSay.nil : AllSay copies [] := fun _ hj => absurd hj List.not_mem_nil

theorem AllSay.append {jobs jobs' : List DeliveryJob} (h : AllSay copies jobs)
    (h' : AllSay copies jobs') : AllSay copies (jobs ++ jobs') :=
  fun job hj => (List.mem_append.mp hj).elim (h job) (h' job)

theorem AllSay.mono {jobs : List DeliveryJob} (h : AllSay copies jobs)
    (hc : ∀ chainKey id message, copies chainKey id message → copies' chainKey id message) :
    AllSay copies' jobs := by
  intro job hj
  obtain ⟨id, message, hm, hs⟩ := h job hj
  exact ⟨id, message, hc _ _ _ hm, hs⟩

namespace RouteState

variable {route : RouteState} {chainKey : ChainKey}

/-! ## Operations on a route -/

theorem dispatchIfReady_said (h : route.Within copies chainKey) (hash : B256) (now : Instant)
    (allowProbe : Bool) :
    AllSay copies (route.dispatchIfReady chainKey hash now allowProbe).2.toList := by
  rcases dispatchIfReady_cases chainKey hash route now allowProbe with
    e | ⟨slot, slot', job, hs, -, hd, e⟩ <;> rw [e]
  · exact .nil
  · intro job' hj
    obtain rfl : job' = job := List.mem_singleton.mp hj
    cases hd
    exact ⟨hash, slot.indexed, h hash slot hs, rfl, rfl, rfl, rfl, rfl⟩

theorem dispatchEach_said (chainKey : ChainKey) (now : B256 → Instant) (allowProbe : Bool)
    (hashes : List B256) : ∀ route : RouteState, route.Within copies chainKey →
      AllSay copies (route.dispatchEach chainKey now allowProbe hashes).2 := by
  induction hashes with
  | nil => exact fun _ _ => .nil
  | cons hash hashes ih =>
    intro route h
    have hrest := ih _ (h.held (dispatchIfReady_held route chainKey hash (now hash) allowProbe))
    exact (dispatchIfReady_said h hash (now hash) allowProbe).append hrest

/-- One slot is written, with the message that it had. -/
theorem Within.insert (h : route.Within copies chainKey) {hash : B256} {slot slot' : MessageSlot}
    (hs : route.byMessage[hash]? = some slot) (hh : slot.Holds slot') :
    ({ route with byMessage := route.byMessage.insert hash slot' } : RouteState).Within copies
      chainKey :=
  h.held (.insert hs hh)

theorem noteVote_said (h : route.Within copies chainKey) (vote : MessageVote) (now : Instant) :
    AllSay copies (route.noteVote ecrecover chainKey vote now).2.toList := by
  unfold noteVote
  dsimp only
  split
  · exact .nil
  · rename_i slot hs
    split
    · exact .nil
    · split
      · exact .nil
      · rename_i recovered _
        split
        · exact .nil
        · have hh : slot.Holds { slot with
              signers := slot.signers.insert recovered vote.signature } := ⟨rfl, rfl, rfl⟩
          split
          · exact .nil
          · exact dispatchIfReady_said (h.insert hs hh) _ _ _

theorem noteIndexed_said (h : route.Within copies chainKey) (indexed : IndexedMessage)
    (hm : copies chainKey indexed.messageId indexed) (insertedAt now : Instant) :
    AllSay copies (route.noteIndexed chainKey indexed insertedAt now).2.toList := by
  unfold noteIndexed
  dsimp only
  split
  · exact .nil
  · have hroom : route.makeRoom.1.Within copies chainKey :=
      h.held (.shrinks route.makeRoom_shrinks)
    split
    · exact .nil
    · -- the slot of the message joins the others
      have hnew : ({ route.makeRoom.1 with
          byMessage := route.makeRoom.1.byMessage.insert indexed.messageId (.new indexed insertedAt)
          order := route.makeRoom.1.order ++ [indexed.messageId] } : RouteState).Within copies
            chainKey := by
        intro id slot hg
        rw [Map.get_insert] at hg
        split at hg
        · rename_i e
          cases hg
          exact e ▸ hm
        · exact hroom id slot hg
      split
      · exact .nil
      · exact dispatchIfReady_said (hnew.held (adopt_held _ _ _)) _ _ _

theorem applyAttestorSet_said (h : route.Within copies chainKey) (update : RouteAttestors)
    (now : B256 → Instant) : AllSay copies (route.applyAttestorSet chainKey update now).2 := by
  unfold applyAttestorSet
  dsimp only
  split
  · exact .nil
  · refine dispatchEach_said chainKey now false _ _ fun id slot hs => ?_
    rw [Map.get_map] at hs
    obtain ⟨old, hg, rfl⟩ := Option.map_eq_some_iff.mp hs
    have hold := h id old hg
    split <;> exact hold

end RouteState

/-! ## Operations on the state -/

namespace State

variable {s : State}

theorem onRoute_said (h : s.Every (RouteState.Within copies)) (chainKey : ChainKey)
    (f : RouteState → RouteState × List DeliveryJob)
    (hf : ∀ route : RouteState, route.Within copies chainKey → AllSay copies (f route).2) :
    AllSay copies (s.onRoute chainKey [] f).2 := by
  rw [onRoute_snd]
  cases hr : s.byRoute[chainKey]? with
  | none => exact .nil
  | some route => exact hf route (h chainKey route hr)

theorem onRoute_said_option (h : s.Every (RouteState.Within copies)) (chainKey : ChainKey)
    (f : RouteState → RouteState × Option DeliveryJob)
    (hf : ∀ route : RouteState, route.Within copies chainKey → AllSay copies (f route).2.toList) :
    AllSay copies (s.onRoute chainKey none f).2.toList := by
  rw [onRoute_snd]
  cases hr : s.byRoute[chainKey]? with
  | none => exact .nil
  | some route => exact hf route (h chainKey route hr)

theorem eachRoute_said (h : s.Every (RouteState.Within copies))
    (f : ChainKey → RouteState → RouteState × List DeliveryJob)
    (hf : ∀ (chainKey : ChainKey) (route : RouteState), route.Within copies chainKey →
      AllSay copies (f chainKey route).2) : AllSay copies (s.eachRoute f s.byRoute.keys).2 := by
  rw [eachRoute_snd f (Map.nodup_keys _)]
  intro job hj
  obtain ⟨chainKey, -, hj⟩ := List.mem_flatMap.mp hj
  cases hr : s.byRoute[chainKey]? with
  | none =>
    rw [hr] at hj
    exact absurd hj List.not_mem_nil
  | some route =>
    rw [hr] at hj
    exact hf chainKey route (h chainKey route hr) job hj

theorem noteIndexed_said (h : s.Every (RouteState.Within copies)) (indexed : IndexedMessage)
    (hm : copies indexed.chainKey indexed.messageId indexed) (insertedAt now : Instant) :
    AllSay copies (s.noteIndexed indexed insertedAt now).2.toList :=
  onRoute_said_option h _ _ fun _ hr => RouteState.noteIndexed_said hr indexed hm _ _

theorem noteEach_said (clock : B256 → Instant × Instant) (pending : List IndexedMessage)
    (hm : ∀ m ∈ pending, copies m.chainKey m.messageId m) : ∀ s : State,
      s.Every (RouteState.Within copies) → AllSay copies (s.noteEach clock pending).2 := by
  induction pending with
  | nil => exact fun _ _ => .nil
  | cons m pending ih =>
    intro s h
    have hone : ∀ m' ∈ [m], copies m'.chainKey m'.messageId m' := fun m' hm' => by
      rw [List.mem_singleton.mp hm']
      exact hm m List.mem_cons_self
    have hnext := noteEach_within clock [m] hone s h
    have hrest := ih (fun m' hm' => hm m' (List.mem_cons_of_mem _ hm')) _ hnext
    exact (noteIndexed_said h m (hm m List.mem_cons_self) _ _).append hrest

/-! ## Refill -/

theorem refillRoute_said (hk : s.Every RouteState.Keyed) (h : s.Every (RouteState.Within copies))
    (now : Instant) (clock : B256 → Instant × Instant) (chainKey : ChainKey) :
    wp copiesEnv (s.refillRoute now clock chainKey) copies fun copies' r =>
      (∀ chainKey id message, copies chainKey id message → copies' chainKey id message) ∧
        AllSay copies' (r.2.toOption.getD []) := by
  unfold refillRoute
  split
  · exact ⟨fun _ _ _ hm => hm, .nil⟩
  · rename_i route hr
    rw [wp_bind, wp_workPending]
    intro a copies₁ ha
    cases a with
    | error => exact ⟨ha.1, .nil⟩
    | ok pending =>
      dsimp only
      rw [wp_bind]
      have hroute := (h chainKey route hr).mono ha.1
      refine wp_mono (RouteState.reaffirm_refilling (hk chainKey route hr) _ copies₁ hroute).2
        fun copies₂ r hg => ?_
      have hgrow : ∀ chainKey id message, copies chainKey id message → copies₂ chainKey id message :=
        fun _ _ _ hm => hg _ _ _ (ha.1 _ _ _ hm)
      cases r with
      | error => exact ⟨hgrow, .nil⟩
      | ok =>
        refine ⟨hgrow, noteEach_said clock pending (fun m hm => ?_) _ ?_⟩
        · obtain ⟨e, hm⟩ := ha.2 m hm
          rw [e]
          exact hg _ _ _ hm
        · exact (h.within_mono hgrow).onRoute _ _ _ fun route hw =>
            hw.held (RouteState.rotate_held _ route)

/-- The jobs of a refill say what the copies in the pool and in the store say. -/
theorem refillRoutes_said (now : Instant) (clock : B256 → Instant × Instant)
    (chainKeys : List ChainKey) : ∀ (s : State) (copies : Copies), s.Every RouteState.Keyed →
      s.Every (RouteState.Within copies) → wp copiesEnv (s.refillRoutes now clock chainKeys) copies
        fun copies' r => AllSay copies' (r.2.toOption.getD []) := by
  induction chainKeys with
  | nil => exact fun _ _ _ _ => .nil
  | cons chainKey chainKeys ih =>
    intro s copies hk h
    rw [refillRoutes, wp_bind]
    have hkeyed : wp copiesEnv (s.refillRoute now clock chainKey) copies fun _ r =>
        r.1.Every RouteState.Keyed := hk.refillRoute copiesEnv
      (fun _ _ _ (hr : RouteTrans (fun _ _ => .error "") _ _ _ _) hk => hr.keyed hk) chainKey copies
    have hwithin := (refillRoute_within hk h now clock chainKey).2
    refine wp_mono (wp_and (wp_and hwithin hkeyed) (refillRoute_said hk h now clock chainKey))
      fun copies₁ r hr => ?_
    obtain ⟨⟨hw₁, hk₁⟩, -, hsay⟩ := hr
    obtain ⟨s₁, _ | jobs⟩ := r
    · exact .nil
    · dsimp only
      rw [wp_bind]
      -- the copies only grow while the other routes are refilled
      have hgrow : wp copiesEnv (s₁.refillRoutes now clock chainKeys) copies₁ fun copies₂ _ =>
          ∀ chainKey id message, copies₁ chainKey id message → copies₂ chainKey id message :=
        wp_inv (I := fun copies₂ : Copies => ∀ chainKey id message, copies₁ chainKey id message →
          copies₂ chainKey id message)
          (fun copies₂ _ _ copies₃ (ha : copiesEnv copies₂ _ _ copies₃) hc _ _ _ hm =>
            ha.1 _ _ _ (hc _ _ _ hm)) fun _ _ _ hm => hm
      refine wp_mono (wp_and hgrow (ih s₁ copies₁ hk₁ hw₁)) fun copies₂ r hr => ?_
      obtain ⟨hc, hsay₂⟩ := hr
      obtain ⟨s₂, _ | jobs₂⟩ := r
      · exact .nil
      · exact (hsay.mono hc).append hsay₂

end State

/-- The jobs of an operation other than a refill say what the slots and the messages that it admits
say. -/
theorem PoolOp.said {s : State} {op : PoolOp} (h : s.Every (RouteState.Within copies))
    (ha : ∀ message insertedAt, op.Admits message insertedAt →
      copies message.chainKey message.messageId message) : AllSay copies (op.apply ecrecover s).2 := by
  cases op with
  | noteIndexed indexed insertedAt now =>
    exact State.noteIndexed_said h indexed (ha _ _ .noteIndexed) _ _
  | noteVote vote now =>
    exact State.onRoute_said_option h _ _ fun _ hr => RouteState.noteVote_said hr vote now
  | applyAttestorSet update now =>
    exact State.onRoute_said h _ _ fun _ hr => RouteState.applyAttestorSet_said hr update now
  | collectReadyDeliveries now =>
    exact State.eachRoute_said h _ fun _ _ hr => RouteState.dispatchEach_said _ _ _ _ _ hr
  | _ => exact .nil

/-! ## Sets of attestors -/

def RouteState.set (chainKey : ChainKey) (route : RouteState) : RouteAttestors :=
  ⟨chainKey, route.attestors, route.threshold⟩

/-- A new set of attestors is one that is supplied. -/
def PoolOp.Supplied (sets : RouteAttestors → Prop) : PoolOp → Prop
  | applyAttestorSet update _ => sets update
  | _ => True

namespace RouteState

variable {route : RouteState} {chainKey : ChainKey}

theorem evictEarlyLoop_set (fuel : Nat) : ∀ route : RouteState,
    (route.evictEarlyLoop fuel).set chainKey = route.set chainKey := by
  induction fuel with
  | zero => exact fun _ => rfl
  | succ fuel ih =>
    intro route
    unfold evictEarlyLoop
    split
    · split
      · rfl
      · exact ih _
    · rfl

theorem noteVote_set (vote : MessageVote) (now : Instant) :
    (route.noteVote ecrecover chainKey vote now).1.set chainKey = route.set chainKey := by
  unfold noteVote
  dsimp only
  split
  · unfold bufferEarlyVote
    split
    · rfl
    · exact evictEarlyLoop_set _ _
  · split
    · rfl
    · split
      · rfl
      · split
        · rfl
        · split
          · rfl
          · simp [RouteState.set]

theorem applyAttestorSet_set {update : RouteAttestors} (hk : update.chainKey = chainKey)
    (now : B256 → Instant) :
    (route.applyAttestorSet chainKey update now).1.set chainKey = update := by
  subst hk
  unfold applyAttestorSet
  dsimp only
  split
  · rfl
  · obtain ⟨ha, ht⟩ := dispatchEach_config update.chainKey now false _ _
    rw [RouteState.set, ha, ht]

end RouteState

/-- The set of a route after an operation is the one from before, or a new one. -/
theorem RouteTrans.supplied {sets : RouteAttestors → Prop} {chainKey : ChainKey} {op : PoolOp}
    {route route' : RouteState} (ht : RouteTrans ecrecover chainKey op route route')
    (ho : op.Supplied sets) (h : sets (route.set chainKey)) : sets (route'.set chainKey) := by
  cases ht with
  | @noteIndexed _ indexed insertedAt now =>
    obtain ⟨ha, ht⟩ := RouteState.noteIndexed_config route chainKey indexed insertedAt now
    rwa [RouteState.set, ha, ht]
  | @load _ indexed now clock =>
    obtain ⟨ha, ht⟩ := RouteState.noteIndexed_config route chainKey indexed
      (clock indexed.messageId).1 (clock indexed.messageId).2
    rwa [RouteState.set, ha, ht]
  | noteVote => rwa [RouteState.noteVote_set]
  | applyAttestorSet hk =>
    rw [RouteState.applyAttestorSet_set hk]
    exact ho
  | @rotate _ ids =>
    obtain ⟨ha, ht⟩ := State.rotate_config route ids
    rwa [RouteState.set, ha, ht]
  | @collectReady _ now hashes =>
    obtain ⟨ha, ht⟩ := RouteState.dispatchEach_config chainKey (fun _ => now) true hashes route
    rwa [RouteState.set, ha, ht]
  | noteDeliveryResult | requeueDelivery | pruneExpired | collectStalled => exact h

theorem State.new_supplied {sets : RouteAttestors → Prop} {routes : List RouteAttestors}
    (hr : ∀ r ∈ routes, sets r) (cache : VoteCacheConfig) :
    (State.new routes cache).Every fun chainKey route => sets (route.set chainKey) := by
  unfold State.new State.Every
  generalize hm : (∅ : Map ChainKey RouteState) = m
  have hi : ∀ (chainKey : ChainKey) (route : RouteState), m[chainKey]? = some route →
      sets (route.set chainKey) := fun _ _ hg => by
    rw [← hm] at hg
    simp at hg
  clear hm
  induction routes generalizing m with
  | nil => exact hi
  | cons r routes ih =>
    refine ih (fun r' hr' => hr r' (List.mem_cons_of_mem _ hr')) _ fun a route hg => ?_
    rw [Map.get_insert] at hg
    split at hg
    · rename_i e
      rw [e, ← Option.some.inj hg]
      exact hr r List.mem_cons_self
    · exact hi a route hg

/-! ## Admissible jobs -/

section
variable (ecrecover : Ecrecover) (copies : Copies) (sets : RouteAttestors → Prop)

/-- The job says what one of the copies says, and carries a quorum of one of the sets unless it only
reconciles. -/
structure DeliveryJob.Admissible (job : DeliveryJob) : Prop where
  content : job.Says copies
  quorate : job.reconcileOnly = false → ∃ set, sets set ∧ set.chainKey = job.chainKey ∧
    job.Quorate ecrecover set.attestors set.threshold

/-- A pool of which every job is admissible. -/
structure PoolAdmits (s : State) : Prop where
  keyed : s.Every RouteState.Keyed
  within : s.Every (RouteState.Within copies)
  sound : s.Sound ecrecover
  sets : s.Every fun chainKey route => sets (route.set chainKey)

end

section
variable {sets : RouteAttestors → Prop} {s t : State} {jobs : List DeliveryJob}

theorem DeliveryJob.Admissible.of_emits (he : t.Emits ecrecover jobs)
    (ht : t.Every fun chainKey route => sets (route.set chainKey)) (hs : AllSay copies jobs) :
    ∀ job ∈ jobs, job.Admissible ecrecover copies sets := by
  intro job hj
  obtain ⟨route, hr, hq⟩ := he job hj
  exact ⟨hs job hj, fun hv => ⟨route.set job.chainKey, ht _ route hr, rfl, hq hv⟩⟩

theorem PoolAdmits.new {routes : List RouteAttestors} (hr : ∀ r ∈ routes, sets r)
    (cache : VoteCacheConfig) : PoolAdmits ecrecover copies sets (.new routes cache) where
  keyed := State.new_keyed routes cache
  within := State.new_every routes cache fun _ _ _ hs => by simp at hs
  sound := State.new_sound routes cache
  sets := State.new_supplied hr cache

/-- An operation other than a refill, with copies that are among `copies` and a set among `sets`. -/
theorem PoolAdmits.operation (h : PoolAdmits ecrecover copies sets s) (op : PoolOp)
    (hop : ∀ now clock, op ≠ .refill now clock) (hs : op.Supplied sets)
    (ha : ∀ message insertedAt, op.Admits message insertedAt →
      copies message.chainKey message.messageId message) :
    PoolAdmits ecrecover copies sets (op.apply ecrecover s).1 ∧
      ∀ job ∈ (op.apply ecrecover s).2, job.Admissible ecrecover copies sets := by
  have hstep : PoolStep ecrecover s (op, (op.apply ecrecover s).2) (op.apply ecrecover s).1 :=
    .apply hop
  obtain ⟨hsound, hemits⟩ := hstep.sound h.sound
  have hsets := PoolStep.every hstep (fun _ _ _ ht => ht.supplied hs) h.sets
  have hwithin : (op.apply ecrecover s).1.Every (RouteState.Within copies) := by
    refine State.within_iff.mpr fun chainKey id message hm => ?_
    rcases hstep.carries hm with hm | ⟨rfl, rfl, insertedAt, had⟩
    · exact State.within_iff.mp h.within _ _ _ hm
    · exact ha message insertedAt had
  exact ⟨⟨hstep.keyed h.keyed, hwithin, hsound, hsets⟩, .of_emits hemits hsets (PoolOp.said h.within ha)⟩

/-- A refill from a store of copies. -/
theorem PoolAdmits.refill (h : PoolAdmits ecrecover copies sets s) (now : Instant)
    (clock : B256 → Instant × Instant) :
    wp copiesEnv (s.refill now clock) copies fun copies' r => PoolAdmits ecrecover copies' sets r.1 ∧
      ∀ job ∈ r.2.toOption.getD [], job.Admissible ecrecover copies' sets := by
  have hloads := (State.refillRoutes_refilling now clock s.byRoute.keys s copies h.keyed
    h.within).loads
  have hsays := State.refillRoutes_said now clock s.byRoute.keys s copies h.keyed h.within
  have hkeeps := State.refillRoutes_keeps copiesEnv now clock s.byRoute.keys s copies h.sound
  have hsets : wp copiesEnv (s.refill now clock) copies fun _ r =>
      r.1.Every fun chainKey route => sets (route.set chainKey) :=
    State.Every.refillRoutes copiesEnv (fun _ _ _ (ht : RouteTrans ecrecover _ _ _ _) =>
      ht.supplied trivial) _ s copies h.sets
  refine wp_mono (wp_and (wp_and hloads hsays) (wp_and hkeeps hsets)) fun copies' r hr => ?_
  obtain ⟨⟨⟨hw, hk⟩, hsay⟩, ⟨hsound, hemits, -⟩, hset⟩ := hr
  exact ⟨⟨hk, hw, hsound, hset⟩, .of_emits hemits hset hsay⟩

end

end MessageRelayer

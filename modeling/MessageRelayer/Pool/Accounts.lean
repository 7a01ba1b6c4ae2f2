import MessageRelayer.Pool.Quorum
import MessageRelayer.Work.Facts

/-!
# What an operation can do to one slot

The account of a slot: whether a job of it is in flight, whether it is
resolved, and its attempts. Every operation of the pool but the two that
return a job to its slot moves each account by one `Move`: nothing, a
dispatch (with exactly one job of the slot), an admission, or the eviction of
a slot that is not in flight. So the jobs that an operation returns are
exactly the slots that it puts in flight (`State.Moves`).
-/

namespace MessageRelayer

open Prog

variable {ecrecover : Ecrecover}

/-! ## Accounts and moves -/

structure Account where
  inFlight : Bool
  resolved : Bool
  attempts : Nat

namespace Account

def fresh : Account := ⟨false, false, 0⟩

def dispatched (a : Account) : Account := ⟨true, a.resolved, satAdd32 a.attempts 1⟩

/-- After a result. -/
def settled (a : Account) (outcome : DeliveryResultKind) : Account :=
  ⟨false, a.resolved || outcome.final, a.attempts⟩

/-- After a job that was not handed over. -/
def requeued (a : Account) : Account := ⟨false, a.resolved, a.attempts - 1⟩

end Account

/-- A move of the account of one slot, if the slot is loaded, and the jobs of it that go out. -/
inductive Move : Option Account → Nat → Option Account → Prop where
  | quiet (o : Option Account) : Move o 0 o
  | evict {a : Account} (h : a.inFlight = false) : Move (some a) 0 none
  | load : Move none 0 (some .fresh)
  | dispatch {a : Account} (h : a.inFlight = false) (hr : a.resolved = false) :
      Move (some a) 1 (some a.dispatched)
  | loadDispatch : Move none 1 (some Account.fresh.dispatched)

/-- A resolved slot is not in flight. -/
def Account.Ok (a : Account) : Prop := a.resolved = true → a.inFlight = false

theorem Move.ok {o o' : Option Account} {n : Nat} (h : Move o n o') (ho : ∀ a ∈ o, a.Ok) :
    ∀ a ∈ o', a.Ok := by
  cases h with
  | quiet => exact ho
  | evict => exact fun _ ha => by cases ha
  | load => exact fun a ha => by cases ha; exact fun hr => rfl
  | dispatch _ hr => exact fun a ha => by cases ha; exact fun hr' => absurd (hr.symm.trans hr') (by decide)
  | loadDispatch => exact fun a ha => by cases ha; exact fun hr => by cases hr

theorem Move.unresolved {o o' : Option Account} {n : Nat} (h : Move o n o')
    (ho : ∀ a ∈ o, a.resolved = false) : ∀ a ∈ o', a.resolved = false := by
  cases h with
  | quiet => exact ho
  | evict => exact fun _ ha => by cases ha
  | load | loadDispatch => exact fun a ha => by cases ha; rfl
  | dispatch _ hr => exact fun a ha => by cases ha; exact hr

/-- Two moves are one, unless the slot is evicted and admitted again. -/
theorem Move.trans {o o' o'' : Option Account} {m n : Nat} (h : Move o m o') (h' : Move o' n o'')
    (hx : o' = none → o = none ∨ o'' = none) : Move o (m + n) o'' := by
  cases h with
  | quiet => rwa [Nat.zero_add]
  | evict hf =>
    cases h' with
    | quiet => exact .evict hf
    | load | loadDispatch => simp at hx
  | load =>
    cases h' with
    | quiet => exact .load
    | evict => exact .quiet none
    | dispatch => exact .loadDispatch
  | dispatch hf hr =>
    cases h' with
    | quiet => exact .dispatch hf hr
    | evict hf' | dispatch hf' => cases hf'
  | loadDispatch =>
    cases h' with
    | quiet => exact .loadDispatch
    | evict hf' | dispatch hf' => cases hf'

def MessageSlot.account (slot : MessageSlot) : Account :=
  ⟨slot.inFlight, slot.resolved, slot.deliveryAttempts⟩

def RouteState.account (route : RouteState) (hash : B256) : Option Account :=
  route.byMessage[hash]?.map MessageSlot.account

def State.account (s : State) (chainKey : ChainKey) (hash : B256) : Option Account :=
  s.byRoute[chainKey]?.bind fun route => route.account hash

/-- A job of the message. -/
def DeliveryJob.of (chainKey : ChainKey) (hash : B256) (job : DeliveryJob) : Bool :=
  decide (job.chainKey = chainKey ∧ job.messageId = hash)

theorem DeliveryJob.of_iff {chainKey : ChainKey} {hash : B256} {job : DeliveryJob} :
    job.of chainKey hash = true ↔ job.chainKey = chainKey ∧ job.messageId = hash :=
  decide_eq_true_iff

theorem DeliveryJob.of_false {chainKey : ChainKey} {hash : B256} {job : DeliveryJob}
    (h : ¬(chainKey = job.chainKey ∧ hash = job.messageId)) : job.of chainKey hash = false :=
  decide_eq_false fun e => h ⟨e.1.symm, e.2.symm⟩

/-! ## Routes -/

namespace RouteState

variable {route : RouteState} {chainKey : ChainKey}

/-- An operation moves every slot of a route by one move. -/
structure Moves (chainKey : ChainKey) (route : RouteState) (p : RouteState × List DeliveryJob) :
    Prop where
  move : ∀ hash, Move (route.account hash) (p.2.countP (·.of chainKey hash)) (p.1.account hash)
  key : ∀ job ∈ p.2, job.chainKey = chainKey

def Moves? (chainKey : ChainKey) (route : RouteState) (p : RouteState × Option DeliveryJob) : Prop :=
  route.Moves chainKey (p.1, p.2.toList)

theorem Moves.quiet {route' : RouteState} (h : ∀ hash, route'.account hash = route.account hash) :
    route.Moves chainKey (route', []) :=
  ⟨fun hash => h hash ▸ .quiet _, fun _ hj => absurd hj List.not_mem_nil⟩

theorem Moves.trans {r₁ r₂ : RouteState} {j₁ j₂ : List DeliveryJob}
    (h : route.Moves chainKey (r₁, j₁)) (h' : r₁.Moves chainKey (r₂, j₂))
    (hx : ∀ hash, r₁.account hash = none → route.account hash = none ∨ r₂.account hash = none) :
    route.Moves chainKey (r₂, j₁ ++ j₂) where
  move hash := by
    rw [List.countP_append]
    exact (h.move hash).trans (h'.move hash) (hx hash)
  key job hj := (List.mem_append.mp hj).elim (h.key job) (h'.key job)

theorem account_insert (route : RouteState) (hash : B256) (slot : MessageSlot) (order : List B256)
    (a : B256) :
    ({ route with byMessage := route.byMessage.insert hash slot, order } : RouteState).account a =
      if a = hash then some slot.account else route.account a := by
  simp only [account, Map.get_insert]
  split <;> rfl

/-- A slot whose account stays the same. -/
theorem account_insert_quiet {hash : B256} {slot slot' : MessageSlot} (order : List B256)
    (hs : route.byMessage[hash]? = some slot) (ha : slot'.account = slot.account) (a : B256) :
    ({ route with byMessage := route.byMessage.insert hash slot', order } : RouteState).account a =
      route.account a := by
  rw [account_insert]
  split
  · rename_i e; rw [e, account, hs, ha]; rfl
  · rfl

theorem account_onSlot (route : RouteState) (hash : B256) (f : MessageSlot → MessageSlot)
    (a : B256) : (route.onSlot hash f).account a =
      if a = hash then route.byMessage[a]?.map fun slot => (f slot).account
      else route.account a := by
  simp only [account, onSlot, Map.get_modify]
  split
  · rw [Option.map_map]; rfl
  · rfl

theorem dispatchIfReady_moves (h : route.Sound ecrecover) (chainKey : ChainKey) (hash : B256)
    (now : Instant) (allowProbe : Bool) :
    route.Moves? chainKey (route.dispatchIfReady chainKey hash now allowProbe) := by
  rcases dispatchIfReady_cases chainKey hash route now allowProbe with
    e | ⟨slot, slot', job, hs, hr, hd, e⟩ <;> rw [e]
  · exact .quiet fun _ => rfl
  · obtain ⟨hu, hf⟩ := ready_open hr
    obtain ⟨rfl, rfl⟩ := Prod.mk.inj hd
    have hid := (h.slots _ _ hs).id
    refine ⟨fun a => ?_, fun job hj => (List.mem_singleton.mp hj) ▸ rfl⟩
    rw [account_insert]
    simp only [Option.toList_some, List.countP_singleton, DeliveryJob.of, hid, true_and,
      decide_eq_true_eq]
    by_cases e : a = hash
    · rw [if_pos e, if_pos e.symm, e, account, hs]
      exact .dispatch hf hu
    · rw [if_neg e, if_neg fun e' => e e'.symm]
      exact .quiet _

/-- A dispatch loads and evicts nothing. -/
theorem dispatchIfReady_none {hash a : B256} {now : Instant} {allowProbe : Bool} :
    (route.dispatchIfReady chainKey hash now allowProbe).1.account a = none ↔
      route.account a = none := by
  rcases dispatchIfReady_cases chainKey hash route now allowProbe with
    e | ⟨slot, slot', job, hs, hr, hd, e⟩ <;> rw [e]
  rw [account_insert]
  split
  · rename_i e'; simp [e', account, hs]
  · rfl

theorem dispatchEach_moves (chainKey : ChainKey) (now : B256 → Instant) (allowProbe : Bool)
    (hashes : List B256) : ∀ route : RouteState, route.Sound ecrecover →
      route.Moves chainKey (route.dispatchEach chainKey now allowProbe hashes) := by
  induction hashes with
  | nil => exact fun _ _ => .quiet fun _ => rfl
  | cons hash hashes ih =>
    intro route h
    exact (dispatchIfReady_moves h chainKey hash (now hash) allowProbe).trans
      (ih _ (dispatchIfReady_keeps h chainKey hash (now hash) allowProbe).sound)
      fun a ha => .inl (dispatchIfReady_none.mp ha)

/-! ## Votes and indexed messages -/

/-- No resolved slot of the route is in flight. -/
def Idle (route : RouteState) : Prop := ∀ hash, ∀ a ∈ route.account hash, a.Ok

theorem evictEarlyLoop_byMessage (fuel : Nat) : ∀ route : RouteState,
    (route.evictEarlyLoop fuel).byMessage = route.byMessage := by
  induction fuel with
  | zero => exact fun _ => rfl
  | succ fuel ih =>
    intro route
    unfold evictEarlyLoop
    split
    · split
      · rfl
      · exact ih _
    · rfl

theorem bufferEarlyVote_byMessage (route : RouteState) (hash : B256) (vote : MessageVote)
    (now : Instant) :
    (route.bufferEarlyVote ecrecover hash vote now).byMessage = route.byMessage := by
  unfold bufferEarlyVote
  split
  · rfl
  · exact evictEarlyLoop_byMessage _ _

theorem noteVote_moves (h : route.Sound ecrecover) (chainKey : ChainKey) (vote : MessageVote)
    (now : Instant) : route.Moves? chainKey (route.noteVote ecrecover chainKey vote now) := by
  have hq : route.Moves? chainKey (route, none) := .quiet fun _ => rfl
  unfold noteVote
  dsimp only
  split
  · exact .quiet fun a => by rw [account, bufferEarlyVote_byMessage]; rfl
  · rename_i slot hg
    split
    · exact hq
    · split
      · exact hq
      · rename_i recovered hv
        split
        · exact hq
        · have hs := account_insert_quiet route.order hg
            (show MessageSlot.account { slot with
              signers := slot.signers.insert recovered vote.signature } = slot.account from rfl)
          split
          · exact .quiet hs
          · exact Moves.trans (.quiet hs) (dispatchIfReady_moves (h.insertVote hg hv) _ _ _ _)
              fun a ha => .inl (hs a ▸ ha)

/-- A route that gives up resolved slots. -/
theorem Shrinks.account {route' : RouteState} (h : route.Shrinks route') (hash : B256) :
    route'.account hash = route.account hash ∨
      route'.account hash = none ∧ ∃ a, route.account hash = some a ∧ a.resolved = true := by
  rcases h.slots hash with e | ⟨e, slot, hs, hr⟩
  · exact .inl (by rw [RouteState.account, RouteState.account, e])
  · exact .inr ⟨by rw [RouteState.account, e]; rfl, slot.account,
      by rw [RouteState.account, hs]; rfl, hr⟩

theorem Shrinks.moves {route' : RouteState} (h : route.Shrinks route') (hi : route.Idle) :
    route.Moves chainKey (route', []) := by
  refine ⟨fun hash => ?_, fun _ hj => absurd hj List.not_mem_nil⟩
  rcases h.account hash with e | ⟨e, a, ha, hr⟩
  · rw [e]; exact .quiet _
  · rw [e, ha]; exact .evict (hi hash a ha hr)

theorem adopt_account (route : RouteState) (hash : B256) (early : EarlyVotes) (a : B256) :
    (route.adopt hash early).account a = route.account a := by
  refine (account_onSlot route hash _ a).trans ?_
  split <;> rfl

/-- The slot of a message that is indexed, then its dispatch. -/
theorem noteIndexed_cases (route : RouteState) (chainKey : ChainKey) (indexed : IndexedMessage)
    (insertedAt now : Instant) :
    (∃ route', route.Shrinks route' ∧
      route.noteIndexed chainKey indexed insertedAt now = (route', none)) ∨
    route.byMessage[indexed.messageId]? = none ∧ ∃ r₁ r₂ : RouteState, route.Shrinks r₁ ∧
      (∀ a, r₂.account a = if a = indexed.messageId then some .fresh else r₁.account a) ∧
      (route.noteIndexed chainKey indexed insertedAt now = (r₂, none) ∨
        (∀ ecrecover, route.Sound ecrecover → r₂.Sound ecrecover) ∧
        route.noteIndexed chainKey indexed insertedAt now =
          r₂.dispatchIfReady chainKey indexed.messageId now false) := by
  unfold noteIndexed
  dsimp only
  split
  · exact .inl ⟨route, .refl route, rfl⟩
  · rename_i hn
    split
    · exact .inl ⟨_, route.makeRoom_shrinks, rfl⟩
    · refine .inr ⟨Map.not_contains_iff.mp (Bool.not_eq_true _ ▸ hn), route.makeRoom.1, ?_⟩
      split
      · exact ⟨_, route.makeRoom_shrinks, account_insert _ _ _ _, .inl rfl⟩
      · rename_i early he
        refine ⟨_, route.makeRoom_shrinks, fun a => (adopt_account _ _ _ a).trans
          (account_insert _ _ _ _ a), .inr ⟨fun _ h => ?_, rfl⟩⟩
        exact adopt_sound (admit_sound (h.shrinks route.makeRoom_shrinks) _ _ _) he

theorem noteIndexed_moves (h : route.Sound ecrecover) (hi : route.Idle) (chainKey : ChainKey)
    (indexed : IndexedMessage) (insertedAt now : Instant) :
    route.Moves? chainKey (route.noteIndexed chainKey indexed insertedAt now) := by
  rcases noteIndexed_cases route chainKey indexed insertedAt now with
    ⟨route', hs, e⟩ | ⟨hn, r₁, r₂, hs, ha, hd⟩
  · rw [e]; exact hs.moves hi
  · have hn : route.account indexed.messageId = none := by rw [account, hn]; rfl
    have h₁ : r₁.account indexed.messageId = none := by
      rcases hs.account indexed.messageId with e | ⟨e, -⟩
      · exact e.trans hn
      · exact e
    have h₂ : r₁.Moves chainKey (r₂, []) := by
      refine ⟨fun a => ?_, fun _ hj => absurd hj List.not_mem_nil⟩
      rw [ha]
      split
      · rename_i e; rw [e, h₁]; exact .load
      · exact .quiet _
    have h₂ : route.Moves chainKey (r₂, []) := (hs.moves hi).trans h₂ fun a hz => by
      by_cases e : a = indexed.messageId
      · exact .inl (e ▸ hn)
      · exact .inr (by rw [ha, if_neg e]; exact hz)
    rcases hd with e | ⟨hr, e⟩ <;> rw [e]
    · exact h₂
    · exact h₂.trans (dispatchIfReady_moves (hr _ h) _ _ _ _)
        fun a hz => .inr (dispatchIfReady_none.mpr hz)

/-- A message other than the indexed one is not admitted. -/
theorem noteIndexed_none {chainKey : ChainKey} {indexed : IndexedMessage}
    {insertedAt now : Instant} {a : B256} (h : route.account a = none)
    (hne : a ≠ indexed.messageId) :
    (route.noteIndexed chainKey indexed insertedAt now).1.account a = none := by
  have hz : ∀ r₁ : RouteState, route.Shrinks r₁ → r₁.account a = none := fun r₁ hs => by
    rcases hs.account a with e | ⟨e, -⟩
    · exact e.trans h
    · exact e
  rcases noteIndexed_cases route chainKey indexed insertedAt now with
    ⟨route', hs, e⟩ | ⟨-, r₁, r₂, hs, ha, hd⟩
  · rw [e]; exact hz _ hs
  · have h₂ : r₂.account a = none := by rw [ha, if_neg hne]; exact hz _ hs
    rcases hd with e | ⟨-, e⟩ <;> rw [e]
    · exact h₂
    · exact dispatchIfReady_none.mpr h₂

/-- Only a resolved slot makes room. -/
theorem noteIndexed_evicts {chainKey : ChainKey} {indexed : IndexedMessage}
    {insertedAt now : Instant} {hash : B256} {a : Account} (h : route.account hash = some a)
    (hn : (route.noteIndexed chainKey indexed insertedAt now).1.account hash = none) :
    a.resolved = true := by
  have hz : ∀ r₁ : RouteState, route.Shrinks r₁ → r₁.account hash = none → a.resolved = true :=
    fun r₁ hs hz => by
      rcases hs.account hash with e | ⟨-, b, hb, hr⟩
      · rw [← e, hz] at h; cases h
      · rw [h] at hb; cases hb; exact hr
  rcases noteIndexed_cases route chainKey indexed insertedAt now with
    ⟨route', hs, e⟩ | ⟨-, r₁, r₂, hs, ha, hd⟩
  · rw [e] at hn; exact hz _ hs hn
  · have h₂ : r₂.account hash = none := by
      rcases hd with e | ⟨-, e⟩ <;> rw [e] at hn
      · exact hn
      · exact dispatchIfReady_none.mp hn
    rw [ha] at h₂
    split at h₂
    · cases h₂
    · exact hz _ hs h₂

/-! ## The other operations -/

theorem account_map (route route' : RouteState) {f : B256 → MessageSlot → MessageSlot}
    (h : route'.byMessage = route.byMessage.map f)
    (hf : ∀ hash slot, (f hash slot).account = slot.account) (a : B256) :
    route'.account a = route.account a := by
  rw [account, h, Map.get_map, Option.map_map, account]
  exact Option.map_congr fun slot _ => hf a slot

theorem applyAttestorSet_moves (h : route.Sound ecrecover) (chainKey : ChainKey)
    (update : RouteAttestors) (now : B256 → Instant) :
    route.Moves chainKey (route.applyAttestorSet chainKey update now) := by
  unfold applyAttestorSet
  dsimp only
  split
  · exact .quiet fun _ => rfl
  · have hq := account_map route { route with
        attestors := update.attestors
        threshold := update.threshold
        byMessage := route.byMessage.map fun _ slot =>
          if slot.delivered || slot.terminal then slot
          else { slot with signers := keepMembers update.attestors slot.signers } }
      rfl fun _ slot => by split <;> rfl
    exact Moves.trans (.quiet hq) (dispatchEach_moves _ _ _ _ _ (resetSet_sound h update))
      fun a ha => .inl (hq a ▸ ha)

theorem pruneExpired_moves (hi : route.Idle) (now : Instant) (ttl : Duration) :
    route.Moves chainKey (route.pruneExpired now ttl, []) := by
  refine ⟨fun a => ?_, fun _ hj => absurd hj List.not_mem_nil⟩
  simp only [account, pruneExpired, Map.get_filter]
  cases hg : route.byMessage[a]? with
  | none => exact .quiet _
  | some slot =>
    rw [Option.filter_some]
    split
    · exact .quiet _
    · rename_i hk
      refine .evict (hi a slot.account (by rw [account, hg]; rfl) ?_)
      simp only [Bool.not_eq_true', Bool.or_eq_false_iff, Bool.and_eq_false_iff, not_and_or,
        Bool.not_eq_false, not_or] at hk
      rcases hk with hd | ⟨ht, -⟩
      · simp only [MessageSlot.account, MessageSlot.resolved, hd, Bool.true_or]
      · simp only [MessageSlot.account, MessageSlot.resolved, ht, Bool.or_true]

theorem collectStalled_account (route : RouteState) (chainKey : ChainKey) (now : Instant) (a : B256) :
    (route.collectStalled chainKey now).1.account a = route.account a :=
  account_map route _ rfl (fun _ slot => by split <;> rfl) a

/-- The slots that `refill` may rotate out are not in flight. -/
theorem candidates_idle {now : Instant} {id : B256} (h : id ∈ route.candidates now) :
    ∃ a, route.account id = some a ∧ a.inFlight = false := by
  obtain ⟨-, hp⟩ := List.mem_filter.mp (List.mem_of_mem_take h)
  obtain ⟨slot, hs, hp⟩ := (Option.any_eq_true _ _).mp hp
  simp only [Bool.and_eq_true, Bool.not_eq_true'] at hp
  exact ⟨slot.account, by rw [account, hs]; rfl, hp.1.1.1⟩

theorem rotate_account (ids : List B256) (a : B256) : ∀ route : RouteState,
    (route.rotate ids).account a = if a ∈ ids then none else route.account a := by
  induction ids with
  | nil => simp [rotate]
  | cons id ids ih =>
    intro route
    refine (ih (route.forget id)).trans ?_
    simp only [account, forget_get, List.mem_cons]
    by_cases e : a = id
    · simp [e]
    · simp [e]

theorem rotate_moves {ids : List B256}
    (h : ∀ id ∈ ids, ∃ a, route.account id = some a ∧ a.inFlight = false) :
    route.Moves chainKey (route.rotate ids, []) := by
  refine ⟨fun a => ?_, fun _ hj => absurd hj List.not_mem_nil⟩
  rw [rotate_account]
  split
  · rename_i hm
    obtain ⟨b, hb, hf⟩ := h a hm
    rw [hb]; exact .evict hf
  · exact .quiet _

end RouteState

/-! ## The whole state -/

/-- An operation moves every slot by one move, and returns the jobs of those it dispatches. -/
def State.Moves (s : State) (p : State × List DeliveryJob) : Prop :=
  ∀ chainKey hash, Move (s.account chainKey hash) (p.2.countP (·.of chainKey hash))
    (p.1.account chainKey hash)

def State.Idle (s : State) : Prop := ∀ chainKey hash, ∀ a ∈ s.account chainKey hash, a.Ok

theorem State.Idle.route {s : State} (h : s.Idle) {chainKey : ChainKey} {route : RouteState}
    (hr : s.byRoute[chainKey]? = some route) : route.Idle := fun hash a ha =>
  h chainKey hash a (by rw [State.account, hr]; exact ha)

namespace State

variable {s : State}

theorem Moves.idle {p : State × List DeliveryJob} (h : s.Moves p) (hi : s.Idle) : p.1.Idle :=
  fun chainKey hash => (h chainKey hash).ok (hi chainKey hash)

theorem Moves.quiet {s' : State} (h : s'.account = s.account) : s.Moves (s', []) :=
  fun _ _ => h ▸ .quiet _

theorem Moves.trans {p q : State × List DeliveryJob} (h : s.Moves p) (h' : p.1.Moves q)
    (hx : ∀ chainKey hash, p.1.account chainKey hash = none →
      s.account chainKey hash = none ∨ q.1.account chainKey hash = none) :
    s.Moves (q.1, p.2 ++ q.2) := fun chainKey hash => by
  rw [List.countP_append]
  exact (h chainKey hash).trans (h' chainKey hash) (hx chainKey hash)

theorem account_onRoute {α : Type} (s : State) (chainKey : ChainKey) (default : α)
    (f : RouteState → RouteState × α) (a : ChainKey) (hash : B256) :
    (s.onRoute chainKey default f).1.account a hash =
      if a = chainKey then s.byRoute[a]?.bind fun route => (f route).1.account hash
      else s.account a hash := by
  rw [account, onRoute_get]
  split
  · rw [Option.bind_map]; rfl
  · rfl

theorem onRoute_moves {chainKey : ChainKey} {f : RouteState → RouteState × List DeliveryJob}
    (hf : ∀ route : RouteState, s.byRoute[chainKey]? = some route →
      route.Moves chainKey (f route)) : s.Moves (s.onRoute chainKey [] f) := by
  intro a hash
  rw [account_onRoute, onRoute_snd]
  cases hr : s.byRoute[chainKey]? with
  | none =>
    simp only [Option.map_none, Option.getD_none, List.countP_nil]
    split
    · rename_i e; rw [account, e, hr]; exact .quiet none
    · exact .quiet _
  | some route =>
    have hm := hf route hr
    simp only [Option.map_some, Option.getD_some]
    split
    · rename_i e; rw [account, e, hr]; exact hm.move hash
    · rename_i e
      rw [List.countP_eq_zero.mpr fun job hj => ?_]
      · exact .quiet _
      · exact fun ho => e ((DeliveryJob.of_iff.mp ho).1.symm.trans (hm.key job hj))

theorem onRoute_moves? {chainKey : ChainKey} {f : RouteState → RouteState × Option DeliveryJob}
    (hf : ∀ route : RouteState, s.byRoute[chainKey]? = some route →
      route.Moves? chainKey (f route)) :
    s.Moves ((s.onRoute chainKey none f).1, (s.onRoute chainKey none f).2.toList) := by
  have := onRoute_moves (s := s) (f := fun route => ((f route).1, (f route).2.toList)) hf
  rwa [show ([] : List DeliveryJob) = (none : Option DeliveryJob).toList from rfl,
    onRoute_map] at this

theorem eachRoute_moves {f : ChainKey → RouteState → RouteState × List DeliveryJob}
    {chainKeys : List ChainKey} (hn : chainKeys.Nodup) : ∀ {s : State},
    (∀ chainKey ∈ chainKeys, ∀ route : RouteState, s.byRoute[chainKey]? = some route →
      route.Moves chainKey (f chainKey route)) → s.Moves (s.eachRoute f chainKeys) := by
  induction chainKeys with
  | nil => exact fun _ => .quiet rfl
  | cons chainKey chainKeys ih =>
    intro s hf
    obtain ⟨hm, hn⟩ := List.nodup_cons.mp hn
    have h₁ := onRoute_moves (hf chainKey List.mem_cons_self)
    have h₂ : (s.onRoute chainKey [] (f chainKey)).1.Moves
        ((s.onRoute chainKey [] (f chainKey)).1.eachRoute f chainKeys) :=
      ih hn fun a ha route hr => by
        rw [onRoute_get, if_neg fun e => hm (by rwa [← e])] at hr
        exact hf a (List.mem_cons_of_mem _ ha) route hr
    refine h₁.trans h₂ fun a hash hz => ?_
    by_cases e : a = chainKey
    · refine .inr ?_
      rw [account, eachRoute_get f hn, if_neg (e ▸ hm)]
      exact hz
    · rw [account_onRoute, if_neg e] at hz
      exact .inl hz

/-! ## Refill -/

theorem noteIndexed_moves (h : s.Sound ecrecover) (hi : s.Idle) (indexed : IndexedMessage)
    (insertedAt now : Instant) :
    s.Moves ((s.noteIndexed indexed insertedAt now).1,
      (s.noteIndexed indexed insertedAt now).2.toList) :=
  onRoute_moves? fun _ hr =>
    RouteState.noteIndexed_moves (h _ _ hr) (hi.route hr) _ _ _ _

/-- Only the indexed message is admitted. -/
theorem noteIndexed_none {indexed : IndexedMessage} {insertedAt now : Instant}
    {chainKey : ChainKey} {hash : B256} (h : s.account chainKey hash = none)
    (hne : ¬(chainKey = indexed.chainKey ∧ hash = indexed.messageId)) :
    (s.noteIndexed indexed insertedAt now).1.account chainKey hash = none := by
  rw [noteIndexed, account_onRoute]
  split
  · rename_i e
    subst e
    rw [account] at h
    cases hr : s.byRoute[indexed.chainKey]? with
    | none => rfl
    | some route =>
      rw [hr] at h
      exact RouteState.noteIndexed_none h fun e => hne ⟨rfl, e⟩
  · exact h

/-- Only resolved slots are evicted. -/
theorem noteIndexed_evicts {indexed : IndexedMessage} {insertedAt now : Instant}
    {chainKey : ChainKey} {hash : B256} {a : Account} (h : s.account chainKey hash = some a)
    (hn : (s.noteIndexed indexed insertedAt now).1.account chainKey hash = none) :
    a.resolved = true := by
  rw [noteIndexed, account_onRoute] at hn
  split at hn
  · rename_i e
    subst e
    rw [account] at h
    cases hr : s.byRoute[indexed.chainKey]? with
    | none => rw [hr] at h; cases h
    | some route =>
      rw [hr] at h hn
      exact RouteState.noteIndexed_evicts h hn
  · rw [h] at hn; cases hn

theorem noteEach_none {clock : B256 → Instant × Instant} {chainKey : ChainKey} {hash : B256}
    {pending : List IndexedMessage}
    (hp : ∀ m ∈ pending, ¬(chainKey = m.chainKey ∧ hash = m.messageId)) : ∀ {s : State},
    s.account chainKey hash = none →
      (s.noteEach clock pending).1.account chainKey hash = none := by
  induction pending with
  | nil => exact id
  | cons m pending ih =>
    exact fun h => ih (fun m' hm => hp m' (List.mem_cons_of_mem _ hm))
      (noteIndexed_none h (hp m List.mem_cons_self))

/-- A message that is loaded and resolved may be evicted; were it also indexed, it would come back. -/
theorem noteEach_moves (clock : B256 → Instant × Instant) (pending : List IndexedMessage) :
    ∀ {s : State}, s.Sound ecrecover → s.Idle →
      (∀ m ∈ pending, ∀ a ∈ s.account m.chainKey m.messageId, a.resolved = false) →
      s.Moves (s.noteEach clock pending) := by
  induction pending with
  | nil => exact fun _ _ _ => .quiet rfl
  | cons m pending ih =>
    intro s h hi hp
    have h₁ := noteIndexed_moves h hi m (clock m.messageId).1 (clock m.messageId).2
    have h₂ := ih (noteIndexed_keeps h m (clock m.messageId).1 (clock m.messageId).2).1 (h₁.idle hi)
      fun m' hm => (h₁ m'.chainKey m'.messageId).unresolved (hp m' (List.mem_cons_of_mem _ hm))
    refine h₁.trans h₂ fun chainKey hash hz => ?_
    cases ha : s.account chainKey hash with
    | none => exact .inl rfl
    | some a =>
      refine .inr (noteEach_none (fun m' hm e => ?_) hz)
      have hr := hp m' (List.mem_cons_of_mem _ hm) a (by rw [← e.1, ← e.2]; exact ha)
      rw [noteIndexed_evicts ha hz] at hr
      cases hr

end State

/-- A store whose answers to `pending` are records of the route that are not loaded, as
`WorkStore::pending` answers. -/
def unloadedStore : Env WorkCall WorkCall.Answer Unit := fun _ c a _ =>
  match c, a with
  | .pending chainKey loaded _, .ok (ms : List IndexedMessage) =>
    ∀ m ∈ ms, m.chainKey = chainKey ∧ m.messageId ∉ loaded
  | _, _ => True

namespace State

variable {s : State}

theorem noteEach_other {clock : B256 → Instant × Instant} {chainKey : ChainKey}
    {pending : List IndexedMessage} (hp : ∀ m ∈ pending, m.chainKey ≠ chainKey) : ∀ s : State,
    (s.noteEach clock pending).1.byRoute[chainKey]? = s.byRoute[chainKey]? := by
  induction pending with
  | nil => exact fun _ => rfl
  | cons m pending ih =>
    intro s
    exact (ih (fun m' hm => hp m' (List.mem_cons_of_mem _ hm)) _).trans
      ((onRoute_get s m.chainKey none _ chainKey).trans (if_neg (hp m List.mem_cons_self).symm))

/-- Slots that are not in flight leave a route. -/
theorem rotate_moves {chainKey : ChainKey} {route : RouteState}
    (hr : s.byRoute[chainKey]? = some route) {ids : List B256}
    (h : ∀ id ∈ ids, ∃ a, route.account id = some a ∧ a.inFlight = false) :
    s.Moves ((s.onRoute chainKey () fun route => (route.rotate ids, ())).1, []) := by
  rw [← onRoute_map (fun _ => ([] : List DeliveryJob))]
  exact onRoute_moves fun route' hr' => by
    rw [hr] at hr'; cases hr'; exact RouteState.rotate_moves h

theorem rotate_account {chainKey : ChainKey} (ids : List B256) (hash : B256) :
    (s.onRoute chainKey () fun route => (route.rotate ids, ())).1.account chainKey hash =
      if hash ∈ ids then none else s.account chainKey hash := by
  rw [account_onRoute, if_pos rfl, account]
  cases s.byRoute[chainKey]? with
  | none => split <;> rfl
  | some route => exact RouteState.rotate_account ids hash route

/-- What a refill of some routes does to the slots. -/
structure Refills (chainKeys : List ChainKey) (s : State)
    (r : State × Except Error (List DeliveryJob)) : Prop where
  moves : ∀ jobs, r.2 = .ok jobs → s.Moves (r.1, jobs)
  other : ∀ chainKey ∉ chainKeys, r.1.byRoute[chainKey]? = s.byRoute[chainKey]?

theorem refillRoute_moves (h : s.Sound ecrecover) (hi : s.Idle) (now : Instant)
    (clock : B256 → Instant × Instant) (chainKey : ChainKey) :
    wp unloadedStore (s.refillRoute now clock chainKey) () fun _ r => Refills [chainKey] s r := by
  have he : ∀ e : Error, Refills [chainKey] s (s, .error e) :=
    fun e => ⟨fun _ he => (by cases he), fun _ _ => rfl⟩
  unfold refillRoute
  split
  · exact ⟨fun jobs e => (by cases e; exact .quiet rfl), fun _ _ => rfl⟩
  · rename_i route hr
    rw [wp_bind, wp_workPending]
    intro pending w' hw
    cases pending with
    | error e => exact he e
    | ok pending =>
      dsimp only
      rw [wp_bind]
      refine wp_mono (wp_true unloadedStore _ _) fun w' r _ => ?_
      cases r with
      | error e => exact he e
      | ok =>
        have hw : ∀ m ∈ pending, m.chainKey = chainKey ∧ m.messageId ∉ route.byMessage.keys := hw
        generalize hids : (route.candidates now).take
          (pending.length - (route.cacheMax - route.byMessage.size)) = ids
        have hc : ∀ id ∈ ids, ∃ a, route.account id = some a ∧ a.inFlight = false :=
          fun id hm => RouteState.candidates_idle (List.mem_of_mem_take (hids ▸ hm))
        have hu : ∀ m ∈ pending, s.account m.chainKey m.messageId = none := fun m hm => by
          obtain ⟨e, hk⟩ := hw m hm
          rw [account, e, hr]
          cases hg : route.byMessage[m.messageId]? with
          | none => exact congrArg (Option.map MessageSlot.account) hg
          | some slot => exact absurd (Map.mem_keys.mpr ⟨slot, hg⟩) hk
        have h₁ := rotate_moves hr hc
        have h₂ := noteEach_moves clock pending
          (onRoute_sound h chainKey () (fun route => (route.rotate ids, ()))
            fun _ hr' => rotate_sound hr' _) (h₁.idle hi) fun m hm a ha => by
              rw [Option.mem_def, (hw m hm).1, rotate_account, ← (hw m hm).1, hu m hm, ite_self] at ha
              cases ha
        refine ⟨fun jobs e => ?_, fun a hm => ?_⟩
        · cases e
          refine h₁.trans h₂ fun a hash hz => ?_
          by_cases e : ∃ m ∈ pending, a = m.chainKey ∧ hash = m.messageId
          · obtain ⟨m, hm, rfl, rfl⟩ := e
            exact .inl (hu m hm)
          · exact .inr (noteEach_none (fun m hm e' => e ⟨m, hm, e'⟩) hz)
        · have hm : a ≠ chainKey := fun e => hm (e ▸ List.mem_singleton.mpr rfl)
          refine (noteEach_other (fun m hm' e => hm (e.symm.trans (hw m hm').1)) _).trans ?_
          rw [onRoute_get, if_neg hm]

theorem refillRoutes_moves (now : Instant) (clock : B256 → Instant × Instant)
    {chainKeys : List ChainKey} (hn : chainKeys.Nodup) : ∀ {s : State}, s.Sound ecrecover → s.Idle →
      wp unloadedStore (s.refillRoutes now clock chainKeys) () fun _ r => Refills chainKeys s r := by
  induction chainKeys with
  | nil => exact fun _ _ => ⟨fun jobs e => (by cases e; exact .quiet rfl), fun _ _ => rfl⟩
  | cons chainKey chainKeys ih =>
    intro s h hi
    obtain ⟨hm, hn⟩ := List.nodup_cons.mp hn
    rw [refillRoutes, wp_bind]
    refine wp_mono (wp_and (refillRoute_keeps unloadedStore h now clock chainKey ())
      (refillRoute_moves h hi now clock chainKey)) fun _ r hr => ?_
    obtain ⟨s₁, r⟩ := r
    obtain ⟨⟨hs, -, -⟩, hr⟩ := hr
    cases r with
    | error e => exact ⟨fun _ e => (by cases e), fun a ha => hr.other a fun hm => ha
        (List.mem_singleton.mp hm ▸ List.mem_cons_self)⟩
    | ok jobs =>
      have h₁ := hr.moves jobs rfl
      dsimp only
      rw [wp_bind]
      refine wp_mono (ih hn hs (h₁.idle hi)) fun _ r hr' => ?_
      obtain ⟨s₂, r⟩ := r
      refine ⟨fun jobs' e => ?_, fun a ha => ?_⟩
      · cases r with
        | error e' => cases e
        | ok js =>
          cases e
          refine h₁.trans (hr'.moves js rfl) fun a hash hz => ?_
          by_cases e : a = chainKey
          · refine .inr ?_
            rw [account, hr'.other a (e ▸ hm)]; exact hz
          · rw [account, hr.other a fun hm => e (List.mem_singleton.mp hm)] at hz
            exact .inl hz
      · obtain ⟨hne, ha⟩ := not_or.mp (List.mem_cons.not.mp ha)
        exact (hr'.other a ha).trans (hr.other a fun hm => hne (List.mem_singleton.mp hm))

/-! ## The other operations -/

theorem noteVote_moves (h : s.Sound ecrecover) (vote : MessageVote) (now : Instant) :
    s.Moves ((s.noteVote ecrecover vote now).1, (s.noteVote ecrecover vote now).2.toList) :=
  onRoute_moves? fun _ hr => RouteState.noteVote_moves (h _ _ hr) _ _ _

theorem applyAttestorSet_moves (h : s.Sound ecrecover) (update : RouteAttestors)
    (now : B256 → Instant) : s.Moves (s.applyAttestorSet update now) :=
  onRoute_moves fun _ hr => RouteState.applyAttestorSet_moves (h _ _ hr) _ _ _

theorem collectReadyDeliveries_moves (h : s.Sound ecrecover) (now : Instant) :
    s.Moves (s.collectReadyDeliveries now) :=
  eachRoute_moves (Map.nodup_keys _) fun _ _ _ hr =>
    RouteState.dispatchEach_moves _ _ _ _ _ (h _ _ hr)

/-- An operation on every route that returns no job. -/
theorem eachRoute_quiet {α : Type} {f : ChainKey → RouteState → RouteState × List α}
    (hf : ∀ (chainKey : ChainKey) (route : RouteState), s.byRoute[chainKey]? = some route →
      route.Moves chainKey ((f chainKey route).1, [])) :
    s.Moves ((s.eachRoute f s.byRoute.keys).1, []) := by
  intro chainKey hash
  rw [account, account, eachRoute_keys_get]
  cases hr : s.byRoute[chainKey]? with
  | none => exact .quiet none
  | some route => exact (hf _ _ hr).move hash

theorem pruneExpired_moves (hi : s.Idle) (now : Instant) : s.Moves (s.pruneExpired now, []) :=
  eachRoute_quiet fun _ _ hr => RouteState.pruneExpired_moves (hi.route hr) _ _

theorem collectStalled_account (s : State) (now : Instant) :
    (s.collectStalledReobservations now).1.account = s.account := by
  funext chainKey hash
  rw [account, account, collectStalledReobservations, eachRoute_keys_get]
  cases s.byRoute[chainKey]? with
  | none => rfl
  | some route => exact RouteState.collectStalled_account route _ _ hash

theorem account_onSlot (s : State) (chainKey : ChainKey) (hash : B256)
    (f : MessageSlot → MessageSlot) (g : Account → Account)
    (hg : ∀ slot, (f slot).account = g slot.account) (a : ChainKey) (b : B256) :
    (s.onRoute chainKey () fun route => (route.onSlot hash f, ())).1.account a b =
      if a = chainKey ∧ b = hash then (s.account a b).map g else s.account a b := by
  rw [account_onRoute, account]
  by_cases e : a = chainKey
  · simp only [e, true_and, if_true]
    cases s.byRoute[chainKey]? with
    | none => split <;> rfl
    | some route =>
      simp only [Option.bind_some, RouteState.account_onSlot]
      split
      · rw [RouteState.account, Option.map_map]
        exact Option.map_congr fun slot _ => hg slot
      · rfl
  · simp only [e, false_and, if_false]

theorem account_noteDeliveryResult (s : State) (result : DeliveryResult) (now later : Instant)
    (wall : Option Nat) (chainKey : ChainKey) (hash : B256) :
    (s.noteDeliveryResult result now later wall).account chainKey hash =
      if chainKey = result.chainKey ∧ hash = result.messageId
      then (s.account chainKey hash).map (·.settled result.outcome)
      else s.account chainKey hash := by
  refine account_onSlot s _ _ _ (·.settled result.outcome) (fun slot => ?_) chainKey hash
  cases result.outcome <;>
    simp [MessageSlot.noteDeliveryResult, MessageSlot.account, MessageSlot.resolved,
      Account.settled, DeliveryResultKind.final]

theorem account_requeueDelivery (s : State) (a : ChainKey) (b : B256) (now : Instant)
    (chainKey : ChainKey) (hash : B256) :
    (s.requeueDelivery a b now).account chainKey hash =
      if chainKey = a ∧ hash = b then (s.account chainKey hash).map (·.requeued)
      else s.account chainKey hash :=
  account_onSlot s _ _ _ (·.requeued) (fun _ => rfl) chainKey hash

end State

end MessageRelayer

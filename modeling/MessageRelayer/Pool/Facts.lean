import MessageRelayer.Pool.Ops

/-!
# What the operations of the pool do

One statement for each building block of the pool's operations, from which
the invariants of the pool are derived: what `dispatch_if_ready` can do
(`dispatchIfReady_cases`), which slots `make_room` gives up (`Shrinks`), and
what an operation on one route (`onRoute_get`) or on each in turn
(`eachRoute_get`, `eachRoute_jobs`) makes of the state.
-/

namespace MessageRelayer

namespace RouteState

variable {route : RouteState}

/-- `dispatch_if_ready` does nothing, or dispatches a slot that is ready. -/
theorem dispatchIfReady_cases (chainKey : ChainKey) (hash : B256) (route : RouteState)
    (now : Instant) (allowProbe : Bool) :
    route.dispatchIfReady chainKey hash now allowProbe = (route, none) ∨
    ∃ (slot slot' : MessageSlot) (job : DeliveryJob), route.byMessage[hash]? = some slot ∧
      slot.ready route.threshold now allowProbe = true ∧
      slot.dispatch chainKey (slot.hasQuorum route.threshold) = (slot', job) ∧
      route.dispatchIfReady chainKey hash now allowProbe =
        ({ route with byMessage := route.byMessage.insert hash slot' }, some job) := by
  unfold dispatchIfReady
  split
  · exact .inl rfl
  · rename_i slot hs
    split
    · rename_i hr
      exact .inr ⟨slot, _, _, hs, hr, rfl, rfl⟩
    · exact .inl rfl

/-- A slot that is ready is neither resolved nor in flight. -/
theorem ready_open {slot : MessageSlot} {threshold : Nat} {now : Instant} {allowProbe : Bool}
    (h : slot.ready threshold now allowProbe = true) :
    slot.resolved = false ∧ slot.inFlight = false := by
  simp only [MessageSlot.ready, Bool.and_eq_true, Bool.not_eq_true', Bool.or_eq_false_iff] at h
  exact ⟨by simp only [MessageSlot.resolved, h.1.1.1, Bool.or_false], h.1.1.2⟩

/-! ## Room -/

/-- Some resolved slots are given up, and nothing else is. -/
structure Shrinks (route route' : RouteState) : Prop where
  attestors : route'.attestors = route.attestors
  threshold : route'.threshold = route.threshold
  cacheMax : route'.cacheMax = route.cacheMax
  earlyVotes : route'.earlyVotes = route.earlyVotes
  slots : ∀ hash : B256, route'.byMessage[hash]? = route.byMessage[hash]? ∨
    route'.byMessage[hash]? = none ∧
      ∃ slot : MessageSlot, route.byMessage[hash]? = some slot ∧ slot.resolved = true

theorem Shrinks.refl (route : RouteState) : route.Shrinks route :=
  ⟨rfl, rfl, rfl, rfl, fun _ => .inl rfl⟩

theorem Shrinks.trans {route' route'' : RouteState} (h : route.Shrinks route')
    (h' : route'.Shrinks route'') : route.Shrinks route'' where
  attestors := h'.attestors.trans h.attestors
  threshold := h'.threshold.trans h.threshold
  cacheMax := h'.cacheMax.trans h.cacheMax
  earlyVotes := h'.earlyVotes.trans h.earlyVotes
  slots hash := by
    rcases h'.slots hash with e' | ⟨e', slot, hs, hr⟩
    · rw [e']; exact h.slots hash
    · rcases h.slots hash with e | ⟨e, -⟩
      · exact .inr ⟨e', slot, e ▸ hs, hr⟩
      · rw [e] at hs; cases hs

/-- A route with fewer slots. -/
theorem Shrinks.get {route' : RouteState} (h : route.Shrinks route') {hash : B256}
    {slot : MessageSlot} (hs : route'.byMessage[hash]? = some slot) :
    route.byMessage[hash]? = some slot := by
  rcases h.slots hash with e | ⟨e, -⟩
  · exact e ▸ hs
  · rw [e] at hs; cases hs

theorem victim_resolved {hash : B256} (h : route.victim = some hash) :
    ∃ slot : MessageSlot, route.byMessage[hash]? = some slot ∧ slot.resolved = true := by
  have := List.find?_some (p := fun hash => route.byMessage[hash]?.any MessageSlot.resolved) h
  exact (Option.any_eq_true _ _).mp this

theorem forget_get (route : RouteState) (hash a : B256) :
    (route.forget hash).byMessage[a]? = if a = hash then none else route.byMessage[a]? :=
  Map.get_erase _ _ _

theorem forget_shrinks {hash : B256} (h : route.victim = some hash) :
    route.Shrinks (route.forget hash) := by
  refine ⟨rfl, rfl, rfl, rfl, fun a => ?_⟩
  rw [forget_get]
  split
  · rename_i e
    exact .inr ⟨rfl, e ▸ victim_resolved h⟩
  · exact .inl rfl

theorem makeRoomLoop_shrinks (fuel : Nat) : ∀ route : RouteState,
    route.Shrinks (route.makeRoomLoop fuel).1 := by
  induction fuel with
  | zero =>
    intro route
    unfold makeRoomLoop
    split
    · exact .refl route
    · split
      · contradiction
      · exact .refl route
  | succ fuel ih =>
    intro route
    unfold makeRoomLoop
    split
    · exact .refl route
    · split
      · rename_i hash _ hv he
        cases he
        exact (forget_shrinks hv).trans (ih _)
      · exact .refl route

theorem makeRoom_shrinks (route : RouteState) : route.Shrinks route.makeRoom.1 :=
  makeRoomLoop_shrinks _ route

end RouteState

/-! ## Operations on routes -/

namespace State

/-- A property of all routes. -/
def Every (P : ChainKey → RouteState → Prop) (s : State) : Prop :=
  ∀ (chainKey : ChainKey) (route : RouteState), s.byRoute[chainKey]? = some route → P chainKey route

/-- What holds of a route without messages and votes holds at the start. -/
theorem new_every {P : ChainKey → RouteState → Prop} (routes : List RouteAttestors) (cache : VoteCacheConfig)
    (hP : ∀ r : RouteAttestors, P r.chainKey
      { attestors := r.attestors, threshold := r.threshold, byMessage := ∅, order := [],
        cacheMax := cache.maxMessages, earlyVotes := ∅ }) : (State.new routes cache).Every P := by
  unfold State.new Every
  generalize hm : (∅ : Map ChainKey RouteState) = m
  have hi : ∀ (chainKey : ChainKey) (route : RouteState), m[chainKey]? = some route →
      P chainKey route := fun _ _ hg => by
    rw [← hm] at hg
    simp at hg
  clear hm
  induction routes generalizing m with
  | nil => exact hi
  | cons r routes ih =>
    refine ih _ fun a route hg => ?_
    rw [Map.get_insert] at hg
    split at hg
    · rename_i e
      rw [e, ← Option.some.inj hg]
      exact hP r
    · exact hi a route hg

/-- The pool starts empty. -/
theorem new_route {routes : List RouteAttestors} {cache : VoteCacheConfig} {chainKey : ChainKey}
    {route : RouteState} (h : (State.new routes cache).byRoute[chainKey]? = some route) :
    route.byMessage = ∅ ∧ route.earlyVotes = ∅ :=
  new_every (P := fun _ r => r.byMessage = ∅ ∧ r.earlyVotes = ∅) routes cache (fun _ => ⟨rfl, rfl⟩)
    chainKey route h

theorem onRoute_get {α : Type} (s : State) (chainKey : ChainKey) (default : α)
    (f : RouteState → RouteState × α) (a : ChainKey) :
    (s.onRoute chainKey default f).1.byRoute[a]? =
      if a = chainKey then s.byRoute[a]?.map fun route => (f route).1 else s.byRoute[a]? := by
  unfold onRoute
  split
  · rename_i hn
    split
    · rename_i e; rw [e, hn]; rfl
    · rfl
  · rename_i route hr
    simp only [Map.get_insert]
    split
    · rename_i e; rw [e, hr]; rfl
    · rfl

theorem onRoute_snd {α : Type} (s : State) (chainKey : ChainKey) (default : α)
    (f : RouteState → RouteState × α) :
    (s.onRoute chainKey default f).2 =
      (s.byRoute[chainKey]?.map fun route => (f route).2).getD default := by
  unfold onRoute
  split <;> rename_i h <;> rw [h] <;> rfl

theorem onRoute_map {α β : Type} (g : α → β) (s : State) (chainKey : ChainKey) (default : α)
    (f : RouteState → RouteState × α) :
    s.onRoute chainKey (g default) (fun route => ((f route).1, g (f route).2)) =
      ((s.onRoute chainKey default f).1, g (s.onRoute chainKey default f).2) := by
  unfold onRoute
  split <;> rfl

theorem eachRoute_get {α : Type} (f : ChainKey → RouteState → RouteState × List α)
    {chainKeys : List ChainKey} (hn : chainKeys.Nodup) (s : State) (a : ChainKey) :
    (s.eachRoute f chainKeys).1.byRoute[a]? =
      if a ∈ chainKeys then s.byRoute[a]?.map fun route => (f a route).1 else s.byRoute[a]? := by
  induction chainKeys generalizing s with
  | nil => simp [eachRoute]
  | cons chainKey chainKeys ih =>
    obtain ⟨hm, hn⟩ := List.nodup_cons.mp hn
    simp only [eachRoute, ih hn, onRoute_get, List.mem_cons]
    by_cases e : a = chainKey
    · subst e; simp [hm]
    · simp [e]

/-- What the operation returns for each route, in turn. -/
theorem eachRoute_snd {α : Type} (f : ChainKey → RouteState → RouteState × List α)
    {chainKeys : List ChainKey} (hn : chainKeys.Nodup) (s : State) :
    (s.eachRoute f chainKeys).2 = chainKeys.flatMap fun a =>
      (s.byRoute[a]?.map fun route => (f a route).2).getD [] := by
  induction chainKeys generalizing s with
  | nil => rfl
  | cons chainKey chainKeys ih =>
    obtain ⟨hm, hn⟩ := List.nodup_cons.mp hn
    simp only [eachRoute, ih hn, onRoute_snd, List.flatMap_def, List.map_cons, List.flatten_cons]
    refine congrArg (fun l => _ ++ List.flatten l) (List.map_congr_left fun a ha => ?_)
    rw [onRoute_get, if_neg fun e => hm (by rwa [← e])]

/-- An operation on every route of the state. -/
theorem eachRoute_keys_get {α : Type} (f : ChainKey → RouteState → RouteState × List α) (s : State)
    (a : ChainKey) : (s.eachRoute f s.byRoute.keys).1.byRoute[a]? =
      s.byRoute[a]?.map fun route => (f a route).1 := by
  rw [eachRoute_get f (Map.nodup_keys _)]
  split
  · rfl
  · rename_i h
    cases hr : s.byRoute[a]? with
    | none => rfl
    | some route => exact absurd (Map.mem_keys.mpr ⟨_, hr⟩) h

end State

end MessageRelayer

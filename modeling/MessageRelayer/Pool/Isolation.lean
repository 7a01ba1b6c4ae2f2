import MessageRelayer.Pool.Quorum

/-!
# The routes of the pool keep apart

The pool has one table of routes for all chains. Between two refills a route
does not depend on the others: it becomes what the operations of its own chain
and the ticks make of it, and the pool returns the jobs and the requests for
its chain that they return, in the same order, as if there were no other route
(`routes_keep_apart`). A refill is different: it takes the routes in turn, and
ends at the first failure of the store.
-/

namespace MessageRelayer

variable {ecrecover : Ecrecover}

/-- What an operation returns. -/
structure PoolOutput where
  jobs : List DeliveryJob
  requests : List ReobservationRequest

/-- Nothing is returned. -/
def PoolOutput.empty : PoolOutput := ⟨[], []⟩

def PoolOutput.append (a b : PoolOutput) : PoolOutput := ⟨a.jobs ++ b.jobs, a.requests ++ b.requests⟩

/-- What is for a chain. -/
def PoolOutput.of (chainKey : ChainKey) (out : PoolOutput) : PoolOutput where
  jobs := out.jobs.filter fun job => decide (job.chainKey = chainKey)
  requests := out.requests.filter fun request => decide (request.chainKey = chainKey)

/-- The chain that an operation is about, unless it is about all of them. -/
def PoolOp.chainKey : PoolOp → Option ChainKey
  | noteIndexed indexed _ _ => some indexed.chainKey
  | noteVote vote _ => some vote.chainKey
  | applyAttestorSet update _ => some update.chainKey
  | noteDeliveryResult result _ _ _ => some result.chainKey
  | requeueDelivery chainKey _ _ => some chainKey
  | pruneExpired _ | refill _ _ | collectReadyDeliveries _ | collectStalledReobservations _ => none

def PoolOp.concerns (chainKey : ChainKey) (op : PoolOp) : Bool :=
  op.chainKey.all fun a => decide (a = chainKey)

def PoolOp.isRefill : PoolOp → Bool
  | refill _ _ => true
  | _ => false

/-- An operation other than a refill, with all that it returns. -/
def PoolOp.perform (ecrecover : Ecrecover) (s : State) (op : PoolOp) : State × PoolOutput :=
  let (s', jobs) := op.apply ecrecover s
  (s', ⟨jobs,
    match op with
    | collectStalledReobservations now => (s.collectStalledReobservations now).2
    | _ => []⟩)

/-- What the operation makes of the route of a chain on its own. -/
def PoolOp.onRoute (ecrecover : Ecrecover) (chainKey : ChainKey) (ttl : Duration)
    (route : RouteState) : PoolOp → RouteState × PoolOutput
  | noteIndexed indexed insertedAt now =>
    let (route, job) := route.noteIndexed chainKey indexed insertedAt now
    (route, ⟨job.toList, []⟩)
  | noteVote vote now =>
    let (route, job) := route.noteVote ecrecover chainKey vote now
    (route, ⟨job.toList, []⟩)
  | applyAttestorSet update now =>
    let (route, jobs) := route.applyAttestorSet chainKey update now
    (route, ⟨jobs, []⟩)
  | noteDeliveryResult result now later wall =>
    (route.onSlot result.messageId (·.noteDeliveryResult result.outcome now later wall), ⟨[], []⟩)
  | requeueDelivery _ messageId now => (route.onSlot messageId (·.requeueDelivery now), ⟨[], []⟩)
  | pruneExpired now => (route.pruneExpired now ttl, ⟨[], []⟩)
  | refill _ _ => (route, ⟨[], []⟩)
  | collectReadyDeliveries now =>
    let (route, jobs) := route.dispatchEach chainKey (fun _ => now) true route.byMessage.keys
    (route, ⟨jobs, []⟩)
  | collectStalledReobservations now =>
    let (route, requests) := route.collectStalled chainKey now
    (route, ⟨[], requests⟩)

/-- The pool after operations, and all that they returned. -/
def performAll (ecrecover : Ecrecover) (s : State) : List PoolOp → State × PoolOutput
  | [] => (s, ⟨[], []⟩)
  | op :: ops =>
    let (s, out) := op.perform ecrecover s
    let (s, rest) := performAll ecrecover s ops
    (s, out.append rest)

/-- A route on its own after operations. -/
def performRoute (ecrecover : Ecrecover) (chainKey : ChainKey) (ttl : Duration)
    (route : RouteState) : List PoolOp → RouteState × PoolOutput
  | [] => (route, ⟨[], []⟩)
  | op :: ops =>
    let (route, out) := op.onRoute ecrecover chainKey ttl route
    let (route, rest) := performRoute ecrecover chainKey ttl route ops
    (route, out.append rest)

/-! ## Jobs and requests of a route -/

namespace RouteState

variable {route : RouteState} {chainKey : ChainKey}

theorem dispatchIfReady_key (route : RouteState) (chainKey : ChainKey) (hash : B256) (now : Instant)
    (allowProbe : Bool) :
    ∀ job ∈ (route.dispatchIfReady chainKey hash now allowProbe).2, job.chainKey = chainKey := by
  intro job hj
  rcases dispatchIfReady_cases chainKey hash route now allowProbe with
    e | ⟨slot, slot', job', -, -, hd, e⟩
  · simp [e] at hj
  · rw [e] at hj
    cases hj
    cases hd
    rfl

theorem dispatchEach_key (chainKey : ChainKey) (now : B256 → Instant) (allowProbe : Bool)
    (hashes : List B256) : ∀ route : RouteState,
      ∀ job ∈ (route.dispatchEach chainKey now allowProbe hashes).2, job.chainKey = chainKey := by
  induction hashes with
  | nil => simp [dispatchEach]
  | cons hash hashes ih =>
    intro route job hj
    rcases List.mem_append.mp hj with hj | hj
    · exact dispatchIfReady_key route chainKey hash (now hash) allowProbe job
        (Option.mem_toList.mp hj)
    · exact ih _ job hj

theorem noteVote_key (route : RouteState) (chainKey : ChainKey) (vote : MessageVote) (now : Instant) :
    ∀ job ∈ (route.noteVote ecrecover chainKey vote now).2, job.chainKey = chainKey := by
  intro job hj
  unfold noteVote at hj
  dsimp only at hj
  split at hj
  · cases hj
  · split at hj
    · cases hj
    · split at hj
      · cases hj
      · split at hj
        · cases hj
        · split at hj
          · cases hj
          · exact dispatchIfReady_key _ _ _ _ _ job hj

theorem noteIndexed_key (route : RouteState) (chainKey : ChainKey) (indexed : IndexedMessage)
    (insertedAt now : Instant) :
    ∀ job ∈ (route.noteIndexed chainKey indexed insertedAt now).2, job.chainKey = chainKey := by
  intro job hj
  unfold noteIndexed at hj
  dsimp only at hj
  split at hj
  · cases hj
  · split at hj
    · cases hj
    · split at hj
      · cases hj
      · exact dispatchIfReady_key _ _ _ _ _ job hj

theorem applyAttestorSet_key (route : RouteState) (chainKey : ChainKey) (update : RouteAttestors)
    (now : B256 → Instant) :
    ∀ job ∈ (route.applyAttestorSet chainKey update now).2, job.chainKey = chainKey := by
  intro job hj
  unfold applyAttestorSet at hj
  dsimp only at hj
  split at hj
  · cases hj
  · exact dispatchEach_key _ _ _ _ _ job hj

theorem collectStalled_key (route : RouteState) (chainKey : ChainKey) (now : Instant) :
    ∀ request ∈ (route.collectStalled chainKey now).2, request.chainKey = chainKey := by
  intro request hr
  obtain ⟨slot, -, hs⟩ := List.mem_filterMap.mp hr
  split at hs
  · cases hs
    rfl
  · cases hs

end RouteState

/-- All of an output is for the chain. -/
def PoolOutput.All (chainKey : ChainKey) (out : PoolOutput) : Prop :=
  (∀ job ∈ out.jobs, job.chainKey = chainKey) ∧ ∀ request ∈ out.requests, request.chainKey = chainKey

theorem PoolOp.onRoute_all (chainKey : ChainKey) (ttl : Duration) (route : RouteState) (op : PoolOp) :
    (op.onRoute ecrecover chainKey ttl route).2.All chainKey := by
  cases op with
  | noteIndexed indexed insertedAt now =>
    exact ⟨fun job hj => route.noteIndexed_key chainKey indexed insertedAt now job
      (Option.mem_toList.mp hj), by simp [onRoute]⟩
  | noteVote vote now =>
    exact ⟨fun job hj => route.noteVote_key chainKey vote now job (Option.mem_toList.mp hj),
      by simp [onRoute]⟩
  | applyAttestorSet update now =>
    exact ⟨route.applyAttestorSet_key chainKey update now, by simp [onRoute]⟩
  | noteDeliveryResult result now later wall => exact ⟨by simp [onRoute], by simp [onRoute]⟩
  | requeueDelivery a messageId now => exact ⟨by simp [onRoute], by simp [onRoute]⟩
  | pruneExpired now => exact ⟨by simp [onRoute], by simp [onRoute]⟩
  | refill now clock => exact ⟨by simp [onRoute], by simp [onRoute]⟩
  | collectReadyDeliveries now =>
    exact ⟨RouteState.dispatchEach_key chainKey (fun _ => now) true _ route, by simp [onRoute]⟩
  | collectStalledReobservations now =>
    exact ⟨by simp [onRoute], route.collectStalled_key chainKey now⟩

/-! ## One operation -/

/-- What lists of a key each have for one of them. -/
theorem filter_flatMap_key {α : Type} {g : ChainKey → List α} {key : α → ChainKey} (a : ChainKey)
    (hg : ∀ b, ∀ x ∈ g b, key x = b) {chainKeys : List ChainKey} (hn : chainKeys.Nodup) :
    (chainKeys.flatMap g).filter (fun x => decide (key x = a)) =
      if a ∈ chainKeys then g a else [] := by
  induction chainKeys with
  | nil => rfl
  | cons b chainKeys ih =>
    obtain ⟨hb, hn⟩ := List.nodup_cons.mp hn
    rw [List.flatMap_cons, List.filter_append, ih hn]
    by_cases e : a = b
    · subst e
      have hall : (g a).filter (fun x => decide (key x = a)) = g a := by
        apply List.filter_eq_self.mpr
        intro x hx
        exact decide_eq_true (hg a x hx)
      simp [hb, hall]
    · have hnone : (g b).filter (fun x => decide (key x = a)) = [] := by
        apply List.filter_eq_nil_iff.mpr
        intro x hx h
        have := of_decide_eq_true h
        rw [hg b x hx] at this
        exact e this.symm
      simp [hnone, e]

theorem PoolOutput.All.of {chainKey : ChainKey} {out : PoolOutput} (h : out.All chainKey) :
    out.of chainKey = out := by
  have hj := List.filter_eq_self.mpr fun job hj => decide_eq_true (h.1 job hj)
  have hr := List.filter_eq_self.mpr fun request hr => decide_eq_true (h.2 request hr)
  rw [PoolOutput.of, hj, hr]

theorem PoolOutput.All.of_ne {chainKey a : ChainKey} {out : PoolOutput} (h : out.All a)
    (hne : a ≠ chainKey) : out.of chainKey = ⟨[], []⟩ := by
  have hj : out.jobs.filter (fun job => decide (job.chainKey = chainKey)) = [] := by
    apply List.filter_eq_nil_iff.mpr
    intro job hj hk
    exact hne ((h.1 job hj).symm.trans (of_decide_eq_true hk))
  have hr : out.requests.filter (fun request => decide (request.chainKey = chainKey)) = [] := by
    apply List.filter_eq_nil_iff.mpr
    intro request hr hk
    exact hne ((h.2 request hr).symm.trans (of_decide_eq_true hk))
  rw [PoolOutput.of, hj, hr]

@[simp] theorem PoolOutput.of_append (chainKey : ChainKey) (a b : PoolOutput) :
    (a.append b).of chainKey = (a.of chainKey).append (b.of chainKey) := by
  simp [PoolOutput.of, PoolOutput.append]

namespace PoolOp

variable {s : State} {op : PoolOp} {chainKey : ChainKey} {route : RouteState}

/-- An operation about one chain does with its route what it does with it alone. -/
theorem perform_keyed (hk : op.chainKey = some chainKey) (ttl : Duration) :
    op.perform ecrecover s = s.onRoute chainKey ⟨[], []⟩ (op.onRoute ecrecover chainKey ttl) := by
  cases op with
  | noteIndexed | noteVote | applyAttestorSet | noteDeliveryResult | requeueDelivery =>
    cases hk
    simp only [perform, apply, State.noteIndexed, State.noteVote, State.applyAttestorSet,
      State.noteDeliveryResult, State.requeueDelivery, State.onRoute]
    split <;> rfl
  | pruneExpired | refill | collectReadyDeliveries | collectStalledReobservations => cases hk

/-- A tick does with each route what it does with it alone. -/
theorem perform_tick_get (hk : op.chainKey = none) (hf : op.isRefill = false) (a : ChainKey) :
    (op.perform ecrecover s).1.byRoute[a]? = s.byRoute[a]?.map fun route =>
      (op.onRoute ecrecover a (fromSecs s.cache.ttlSeconds) route).1 := by
  cases op with
  | noteIndexed | noteVote | applyAttestorSet | noteDeliveryResult | requeueDelivery => cases hk
  | pruneExpired => exact State.eachRoute_keys_get _ s a
  | refill => cases hf
  | collectReadyDeliveries => exact State.eachRoute_keys_get _ s a
  | collectStalledReobservations => exact State.eachRoute_keys_get _ s a

/-- A tick returns what it returns for each route alone. -/
theorem perform_tick_of (hk : op.chainKey = none) (hf : op.isRefill = false)
    (hs : s.byRoute[chainKey]? = some route) :
    (op.perform ecrecover s).2.of chainKey =
      (op.onRoute ecrecover chainKey (fromSecs s.cache.ttlSeconds) route).2 := by
  have hmem : chainKey ∈ s.byRoute.keys := Map.mem_keys.mpr ⟨route, hs⟩
  cases op with
  | noteIndexed | noteVote | applyAttestorSet | noteDeliveryResult | requeueDelivery => cases hk
  | pruneExpired => rfl
  | refill => cases hf
  | collectReadyDeliveries now =>
    have hjobs : (s.collectReadyDeliveries now).2.filter
        (fun job => decide (job.chainKey = chainKey)) =
        (route.dispatchEach chainKey (fun _ => now) true route.byMessage.keys).2 := by
      rw [State.collectReadyDeliveries, State.eachRoute_snd _ (Map.nodup_keys _),
        filter_flatMap_key chainKey _ (Map.nodup_keys _), if_pos hmem, hs]
      · rfl
      · intro a job hj
        cases ha : s.byRoute[a]? with
        | none => simp [ha] at hj
        | some r =>
          rw [ha] at hj
          exact RouteState.dispatchEach_key _ _ _ _ _ job hj
    show PoolOutput.mk _ _ = PoolOutput.mk _ _
    rw [show (PoolOp.perform ecrecover s (collectReadyDeliveries now)).2.jobs =
      (s.collectReadyDeliveries now).2 from rfl, hjobs]
    rfl
  | collectStalledReobservations now =>
    have hrequests : (s.collectStalledReobservations now).2.filter
        (fun request => decide (request.chainKey = chainKey)) =
        (route.collectStalled chainKey now).2 := by
      rw [State.collectStalledReobservations, State.eachRoute_snd _ (Map.nodup_keys _),
        filter_flatMap_key chainKey _ (Map.nodup_keys _), if_pos hmem, hs]
      · rfl
      · intro a request hr
        cases ha : s.byRoute[a]? with
        | none => simp [ha] at hr
        | some r =>
          rw [ha] at hr
          exact RouteState.collectStalled_key _ _ _ request hr
    show PoolOutput.mk _ _ = PoolOutput.mk _ _
    rw [show (PoolOp.perform ecrecover s (collectStalledReobservations now)).2.requests =
      (s.collectStalledReobservations now).2 from rfl, hrequests]
    rfl

variable (ecrecover) in
/-- An operation with one route of the pool. -/
theorem perform_route (hf : op.isRefill = false) (hs : s.byRoute[chainKey]? = some route) :
    let one := if op.concerns chainKey then
        op.onRoute ecrecover chainKey (fromSecs s.cache.ttlSeconds) route
      else (route, ⟨[], []⟩)
    (op.perform ecrecover s).1.byRoute[chainKey]? = some one.1 ∧
      (op.perform ecrecover s).2.of chainKey = one.2 := by
  dsimp only
  cases hk : op.chainKey with
  | none =>
    have hc : op.concerns chainKey = true := by rw [concerns, hk]; rfl
    rw [if_pos hc, perform_tick_get hk hf, hs]
    exact ⟨rfl, perform_tick_of hk hf hs⟩
  | some a =>
    have hc : op.concerns chainKey = decide (a = chainKey) := by rw [concerns, hk]; rfl
    rw [hc, perform_keyed hk (fromSecs s.cache.ttlSeconds), State.onRoute_get, State.onRoute_snd]
    by_cases e : a = chainKey
    · subst e
      rw [hs]
      simp only [decide_true, if_true, Option.map_some, Option.getD_some]
      exact ⟨trivial, (op.onRoute_all a _ route).of⟩
    · rw [if_neg (Ne.symm e), hs]
      simp only [e, decide_false, Bool.false_eq_true, if_false, true_and]
      cases ha : s.byRoute[a]? with
      | none => rfl
      | some r => exact (op.onRoute_all a _ r).of_ne e

theorem perform_cache (op : PoolOp) (s : State) : (op.perform ecrecover s).1.cache = s.cache := by
  have hone {α : Type} (s : State) (a : ChainKey) (d : α) (f : RouteState → RouteState × α) :
      (s.onRoute a d f).1.cache = s.cache := by
    unfold State.onRoute
    split <;> rfl
  have heach {α : Type} (f : ChainKey → RouteState → RouteState × List α) (l : List ChainKey) :
      ∀ s : State, (s.eachRoute f l).1.cache = s.cache := by
    induction l with
    | nil => exact fun _ => rfl
    | cons a l ih => exact fun s => (ih _).trans (hone s a [] (f a))
  cases op with
  | noteIndexed | noteVote | applyAttestorSet | noteDeliveryResult | requeueDelivery =>
    exact hone s _ _ _
  | refill => rfl
  | pruneExpired | collectReadyDeliveries | collectStalledReobservations => exact heach _ _ s

end PoolOp

/-! ## Runs -/

/-- Whatever the pool does between two refills, each of its routes goes the way it would go
alone: it depends on nothing that the pool does for other chains, and what the pool returns for
its chain is what it returns on its own. -/
theorem routes_keep_apart {ops : List PoolOp} (hf : ∀ op ∈ ops, op.isRefill = false)
    {chainKey : ChainKey} : ∀ {s : State} {route : RouteState},
      s.byRoute[chainKey]? = some route →
      let alone := performRoute ecrecover chainKey (fromSecs s.cache.ttlSeconds) route
        (ops.filter fun op => op.concerns chainKey)
      (performAll ecrecover s ops).1.byRoute[chainKey]? = some alone.1 ∧
        (performAll ecrecover s ops).2.of chainKey = alone.2 := by
  induction ops with
  | nil => exact fun hs => ⟨hs, rfl⟩
  | cons op ops ih =>
    intro s route hs
    obtain ⟨hroute, hout⟩ := PoolOp.perform_route ecrecover (hf op List.mem_cons_self) hs
    obtain ⟨hroutes, houts⟩ := ih (fun op h => hf op (List.mem_cons_of_mem _ h)) hroute
    rw [PoolOp.perform_cache] at hroutes houts
    dsimp only [performAll]
    rw [PoolOutput.of_append, hroutes, houts, hout]
    by_cases hc : op.concerns chainKey = true
    · rw [List.filter_cons_of_pos hc, if_pos hc]
      exact ⟨rfl, rfl⟩
    · rw [List.filter_cons_of_neg hc, if_neg hc]
      exact ⟨rfl, rfl⟩

/-- Two routes with the same attestor. -/
def twoRoutes : State := .new [sampleRoute, { sampleRoute with chainKey := 3 }] sampleCache

/-- Votes for one message on both chains, of which one is indexed; then a tick. -/
def twoRouteOps : List PoolOp :=
  [.noteVote sampleVote 1, .noteVote { sampleVote with chainKey := 3 } 2,
    .noteIndexed sampleMessage 3 3, .applyAttestorSet ⟨3, [], 1⟩ fun _ => 4, .collectReadyDeliveries 5]

theorem routes_keep_apart_two : ∃ route : RouteState, twoRoutes.byRoute[(2 : ChainKey)]? = some route ∧
    let alone := performRoute (fun _ _ => .ok 9) 2 (fromSecs sampleCache.ttlSeconds) route
      (twoRouteOps.filter fun op => op.concerns 2)
    (performAll (fun _ _ => .ok 9) twoRoutes twoRouteOps).1.byRoute[(2 : ChainKey)]? = some alone.1 ∧
      (performAll (fun _ _ => .ok 9) twoRoutes twoRouteOps).2.of 2 = alone.2 := by
  have hs : (twoRoutes.byRoute[(2 : ChainKey)]?).isSome = true := by decide
  obtain ⟨route, hroute⟩ := Option.isSome_iff_exists.mp hs
  exact ⟨route, hroute, routes_keep_apart (by decide) hroute⟩

end MessageRelayer

import MessageRelayer.Pool.Facts

/-!
# Invariants of routes

The operations of the pool as transitions of one route (`RouteTrans`). A
property of routes that every transition of an operation keeps is kept on all
routes by the operation (`PoolStep.every`), whatever the store answers to a
refill.
-/

namespace MessageRelayer

open Prog

variable {ecrecover : Ecrecover}

/-- What an operation does to one route: one transition, and in a refill any number of them. -/
inductive RouteTrans (ecrecover : Ecrecover) (chainKey : ChainKey) :
    PoolOp → RouteState → RouteState → Prop where
  | noteIndexed {route : RouteState} {indexed : IndexedMessage} {insertedAt now : Instant}
      (hk : indexed.chainKey = chainKey) :
      RouteTrans ecrecover chainKey (.noteIndexed indexed insertedAt now) route
        (route.noteIndexed chainKey indexed insertedAt now).1
  | noteVote {route : RouteState} {vote : MessageVote} {now : Instant} (hk : vote.chainKey = chainKey) :
      RouteTrans ecrecover chainKey (.noteVote vote now) route
        (route.noteVote ecrecover chainKey vote now).1
  | applyAttestorSet {route : RouteState} {update : RouteAttestors} {now : B256 → Instant}
      (hk : update.chainKey = chainKey) :
      RouteTrans ecrecover chainKey (.applyAttestorSet update now) route
        (route.applyAttestorSet chainKey update now).1
  | noteDeliveryResult {route : RouteState} {result : DeliveryResult} {now later : Instant}
      {wall : Option Nat} :
      RouteTrans ecrecover chainKey (.noteDeliveryResult result now later wall) route
        (route.onSlot result.messageId (·.noteDeliveryResult result.outcome now later wall))
  | requeueDelivery {route : RouteState} {messageId : B256} {now : Instant} :
      RouteTrans ecrecover chainKey (.requeueDelivery chainKey messageId now) route
        (route.onSlot messageId (·.requeueDelivery now))
  | pruneExpired {route : RouteState} {now : Instant} {ttl : Duration} :
      RouteTrans ecrecover chainKey (.pruneExpired now) route (route.pruneExpired now ttl)
  | rotate {route : RouteState} {ids : List B256} {now : Instant}
      {clock : B256 → Instant × Instant} :
      RouteTrans ecrecover chainKey (.refill now clock) route (route.rotate ids)
  | load {route : RouteState} {indexed : IndexedMessage} {now : Instant}
      {clock : B256 → Instant × Instant} (hk : indexed.chainKey = chainKey) :
      RouteTrans ecrecover chainKey (.refill now clock) route
        (route.noteIndexed chainKey indexed (clock indexed.messageId).1
          (clock indexed.messageId).2).1
  | collectReady {route : RouteState} {now : Instant} {hashes : List B256} :
      RouteTrans ecrecover chainKey (.collectReadyDeliveries now) route
        (route.dispatchEach chainKey (fun _ => now) true hashes).1
  | collectStalled {route : RouteState} {now : Instant} :
      RouteTrans ecrecover chainKey (.collectStalledReobservations now) route
        (route.collectStalled chainKey now).1

namespace State

variable {P : ChainKey → RouteState → Prop} {s : State}

theorem Every.onRoute {α : Type} (h : s.Every P) (chainKey : ChainKey) (default : α)
    (f : RouteState → RouteState × α) (hf : ∀ route, P chainKey route → P chainKey (f route).1) :
    (s.onRoute chainKey default f).1.Every P := by
  intro a route hg
  rw [onRoute_get] at hg
  split at hg
  · rename_i e
    subst e
    obtain ⟨old, ho, rfl⟩ := Option.map_eq_some_iff.mp hg
    exact hf old (h _ _ ho)
  · exact h a route hg

theorem Every.eachRoute {α : Type} (f : ChainKey → RouteState → RouteState × List α)
    (hf : ∀ chainKey route, P chainKey route → P chainKey (f chainKey route).1)
    (chainKeys : List ChainKey) : ∀ s : State, s.Every P → (s.eachRoute f chainKeys).1.Every P := by
  induction chainKeys with
  | nil => exact fun _ h => h
  | cons chainKey chainKeys ih => exact fun s h => ih _ (h.onRoute _ _ _ (hf chainKey))

theorem Every.noteEach (clock : B256 → Instant × Instant)
    (hf : ∀ indexed route, P indexed.chainKey route →
      P indexed.chainKey (route.noteIndexed indexed.chainKey indexed (clock indexed.messageId).1
        (clock indexed.messageId).2).1) (pending : List IndexedMessage) :
    ∀ s : State, s.Every P → (s.noteEach clock pending).1.Every P := by
  induction pending with
  | nil => exact fun _ h => h
  | cons indexed pending ih => exact fun s h => ih _ (h.onRoute _ _ _ (hf indexed))

section
variable {W : Type} (H : Env WorkCall WorkCall.Answer W) {now : Instant}
  {clock : B256 → Instant × Instant}
  (hP : ∀ chainKey route route', RouteTrans ecrecover chainKey (.refill now clock) route route' →
    P chainKey route → P chainKey route')
include hP

theorem Every.refillRoute (h : s.Every P) (chainKey : ChainKey) (w : W) :
    wp H (s.refillRoute now clock chainKey) w fun _ r => r.1.Every P := by
  unfold State.refillRoute
  split
  · exact h
  · rename_i route _
    rw [wp_bind, wp_workPending]
    intro pending w' _
    cases pending with
    | error e => exact h
    | ok pending =>
      dsimp only
      rw [wp_bind]
      refine wp_mono (wp_true H _ _) fun w' r _ => ?_
      cases r with
      | error e => exact h
      | ok =>
        have hr := h.onRoute chainKey () (fun route' => (route'.rotate ((route.candidates now).take
          (pending.length - (route.cacheMax - route.byMessage.size))), ()))
          fun route' => hP chainKey route' _ .rotate
        exact Every.noteEach clock (fun indexed route => hP _ route _ (.load rfl)) pending _ hr

theorem Every.refillRoutes (chainKeys : List ChainKey) : ∀ (s : State) (w : W), s.Every P →
    wp H (s.refillRoutes now clock chainKeys) w fun _ r => r.1.Every P := by
  induction chainKeys with
  | nil => exact fun _ _ h => h
  | cons chainKey chainKeys ih =>
    intro s w h
    rw [State.refillRoutes, wp_bind]
    refine wp_mono (Every.refillRoute H hP h chainKey w) fun w' r hr => ?_
    obtain ⟨s₁, r⟩ := r
    cases r with
    | error e => exact hr
    | ok jobs =>
      dsimp only
      rw [wp_bind]
      exact wp_mono (ih s₁ w' hr) fun _ _ hr' => hr'

end

end State

/-- What every transition of an operation keeps, the operation keeps on all routes. -/
theorem PoolStep.every {P : ChainKey → RouteState → Prop} {s t : State} {op : PoolOp}
    {jobs : List DeliveryJob} (h : PoolStep ecrecover s (op, jobs) t)
    (hP : ∀ chainKey route route', RouteTrans ecrecover chainKey op route route' →
      P chainKey route → P chainKey route') (hs : s.Every P) : t.Every P := by
  cases h with
  | refill hx => exact hx.post (State.Every.refillRoutes anyStore hP _ s () hs)
  | apply hop =>
    cases op with
    | noteIndexed => exact hs.onRoute _ _ _ fun _ => hP _ _ _ (.noteIndexed rfl)
    | noteVote => exact hs.onRoute _ _ _ fun _ => hP _ _ _ (.noteVote rfl)
    | applyAttestorSet => exact hs.onRoute _ _ _ fun _ => hP _ _ _ (.applyAttestorSet rfl)
    | noteDeliveryResult => exact hs.onRoute _ _ _ fun _ => hP _ _ _ .noteDeliveryResult
    | requeueDelivery => exact hs.onRoute _ _ _ fun _ => hP _ _ _ .requeueDelivery
    | pruneExpired =>
      exact .eachRoute _ (fun chainKey route => hP chainKey route _ .pruneExpired) _ s hs
    | refill now clock => exact absurd rfl (hop now clock)
    | collectReadyDeliveries =>
      exact .eachRoute _ (fun chainKey route => hP chainKey route _ .collectReady) _ s hs
    | collectStalledReobservations =>
      exact .eachRoute _ (fun chainKey route => hP chainKey route _ .collectStalled) _ s hs

end MessageRelayer

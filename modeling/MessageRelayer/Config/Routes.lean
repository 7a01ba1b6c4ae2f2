import Mathlib.Data.List.Perm.Basic
import MessageRelayer.Config.Quorum
import MessageRelayer.Pool.Facts

/-!
# The routes of a configuration

A file is accepted exactly if it has routes, its schedule of retries is one,
its routes are for different chains and each of them is accepted by itself; so
their order does not matter, and none is affected by the others
(`file_accepted_iff`). Whatever start-up reads the routes from, the pool then
serves their chains and no others, each with its own attestors and threshold
(`configured_pool`).
-/

namespace MessageRelayer.Config

variable {parsers : Parsers}

/-! ## Files -/

theorem ChainRouteFile.intoRoute_chainKey {file : ChainRouteFile} {failedRetry : FailedRetryPolicy}
    {route : ChainRoute} (h : file.intoRoute parsers failedRetry = .ok route) :
    route.chainKey = file.chainKey := by
  unfold intoRoute at h
  obtain ⟨_, -, h⟩ := bind_ok.mp h
  obtain ⟨_, -, h⟩ := bind_ok.mp h
  obtain ⟨_, -, h⟩ := bind_ok.mp h
  obtain ⟨_, -, h⟩ := bind_ok.mp h
  obtain ⟨_, -, h⟩ := bind_ok.mp h
  obtain ⟨_, -, h⟩ := bind_ok.mp h
  obtain ⟨_, -, h⟩ := bind_ok.mp h
  obtain ⟨_, -, h⟩ := bind_ok.mp h
  cases h
  rfl

/-- The route that a file's route is read as, under the file's schedule. -/
def ReadsAs (parsers : Parsers) (failedRetry : FailedRetryPolicy) (file : ChainRouteFile)
    (route : ChainRoute) : Prop :=
  file.intoRoute parsers failedRetry = .ok route

theorem intoRoutes_iff {failedRetry : FailedRetryPolicy} {files : List ChainRouteFile} :
    ∀ {seen : List ChainKey} {routes : List ChainRoute},
      intoRoutes parsers failedRetry seen files = .ok routes ↔
        (files.map (·.chainKey)).Nodup ∧ (∀ file ∈ files, file.chainKey ∉ seen) ∧
          List.Forall₂ (ReadsAs parsers failedRetry) files routes := by
  induction files with
  | nil =>
    intro seen routes
    rw [List.forall₂_nil_left_iff]
    constructor
    · intro h
      cases h
      simp
    · rintro ⟨-, -, rfl⟩
      rfl
  | cons file files ih =>
    intro seen routes
    constructor
    · intro h
      obtain ⟨_, hseen, h⟩ := bind_ok.mp h
      obtain ⟨route, hroute, h⟩ := bind_ok.mp h
      obtain ⟨rest, hrest, h⟩ := bind_ok.mp h
      cases h
      have hnew := bailIf_ok.mp hseen
      obtain ⟨hnodup, hfresh, hreads⟩ := ih.mp hrest
      refine ⟨?_, ?_, .cons hroute hreads⟩
      · rw [List.map_cons, List.nodup_cons]
        refine ⟨fun hm => ?_, hnodup⟩
        obtain ⟨other, hother, he⟩ := List.mem_map.mp hm
        exact hfresh other hother (by simp [he])
      · intro other hother
        rcases List.mem_cons.mp hother with rfl | hother
        · exact hnew
        · exact fun hm => hfresh other hother (List.mem_cons_of_mem _ hm)
    · rintro ⟨hnodup, hfresh, hreads⟩
      obtain ⟨route, rest, hroute, hrest, rfl⟩ := List.forall₂_cons_left_iff.mp hreads
      rw [List.map_cons, List.nodup_cons] at hnodup
      have hnew : file.chainKey ∉ seen := hfresh file List.mem_cons_self
      have htail : ∀ other ∈ files, other.chainKey ∉ file.chainKey :: seen := by
        intro other hother hm
        rcases List.mem_cons.mp hm with he | hm
        · exact hnodup.1 (List.mem_map.mpr ⟨other, hother, he⟩)
        · exact hfresh other (List.mem_cons_of_mem _ hother) hm
      have hbail : bailIf (file.chainKey ∈ seen) s!"duplicate chain_key {file.chainKey} in config" =
          .ok () := bailIf_ok.mpr hnew
      rw [intoRoutes, hbail, show file.intoRoute parsers failedRetry = .ok route from hroute]
      show (intoRoutes parsers failedRetry (file.chainKey :: seen) files >>= fun rest =>
        pure (route :: rest)) = .ok (route :: rest)
      rw [ih.mpr ⟨hnodup.2, htail, hrest⟩]
      rfl

/-- A schedule of retries that passes its check. -/
def Scheduled (failedRetry : FailedRetryPolicy) : Prop :=
  0 < failedRetry.initialBackoffSecs ∧ failedRetry.initialBackoffSecs ≤ failedRetry.maxBackoffSecs

theorem validateFailedRetry_ok {failedRetry : FailedRetryPolicy} {origin : String} :
    validateFailedRetry failedRetry origin = .ok () ↔ Scheduled failedRetry := by
  unfold validateFailedRetry Scheduled
  constructor
  · intro h
    obtain ⟨_, hpos, hle⟩ := bind_ok.mp h
    exact ⟨Nat.pos_of_ne_zero (bailIf_ok.mp hpos), Nat.not_lt.mp (bailIf_ok.mp hle)⟩
  · rintro ⟨hpos, hle⟩
    exact bind_ok.mpr ⟨(), bailIf_ok.mpr (Nat.pos_iff_ne_zero.mp hpos),
      bailIf_ok.mpr (Nat.not_lt.mpr hle)⟩

theorem ConfigFile.intoConfig_iff {file : ConfigFile} {routes : List ChainRoute} :
    file.intoConfig parsers = .ok routes ↔ file.routes ≠ [] ∧ Scheduled file.delivery.failedRetry ∧
      (file.routes.map (·.chainKey)).Nodup ∧
        List.Forall₂ (ReadsAs parsers file.delivery.failedRetry) file.routes routes := by
  unfold intoConfig
  constructor
  · intro h
    obtain ⟨_, hne, h⟩ := bind_ok.mp h
    obtain ⟨_, hpolicy, h⟩ := bind_ok.mp h
    obtain ⟨hnodup, -, hreads⟩ := intoRoutes_iff.mp h
    exact ⟨bailIf_ok.mp hne, validateFailedRetry_ok.mp hpolicy, hnodup, hreads⟩
  · rintro ⟨hne, hpolicy, hnodup, hreads⟩
    exact bind_ok.mpr ⟨(), bailIf_ok.mpr hne, bind_ok.mpr ⟨(), validateFailedRetry_ok.mpr hpolicy,
      intoRoutes_iff.mpr ⟨hnodup, fun _ _ => List.not_mem_nil, hreads⟩⟩⟩

/-- A file is accepted, and as these routes, exactly if it has routes, its schedule is one, its routes
are for different chains, and each of them is read as the one of these in its place. So a file with the
same routes in another order is accepted as the same routes in that order. -/
theorem file_accepted_iff (file : ConfigFile) (routes : List ChainRoute) :
    (file.intoConfig parsers = .ok routes ↔
      file.routes ≠ [] ∧ Scheduled file.delivery.failedRetry ∧
        (file.routes.map (·.chainKey)).Nodup ∧
          List.Forall₂ (ReadsAs parsers file.delivery.failedRetry) file.routes routes) ∧
    ∀ reordered : List ChainRouteFile, reordered.Perm file.routes →
      file.intoConfig parsers = .ok routes → ∃ routes' : List ChainRoute, routes'.Perm routes ∧
        { file with routes := reordered }.intoConfig parsers = .ok routes' := by
  refine ⟨ConfigFile.intoConfig_iff, fun reordered hperm h => ?_⟩
  obtain ⟨hne, hpolicy, hnodup, hreads⟩ := ConfigFile.intoConfig_iff.mp h
  obtain ⟨routes', hreads', hperm'⟩ := List.perm_comp_forall₂ hperm hreads
  have hne' : reordered ≠ [] := by
    intro he
    rw [he] at hperm
    exact hne hperm.symm.eq_nil
  have hnodup' : (reordered.map (·.chainKey)).Nodup := (hperm.map _).nodup_iff.mpr hnodup
  exact ⟨routes', hperm', ConfigFile.intoConfig_iff.mpr ⟨hne', hpolicy, hnodup', hreads'⟩⟩

/-- A file with two routes, and what they are read as. -/
def twoRouteFile : ConfigFile where
  delivery := ⟨5, 60, 4 * 3600⟩
  routes := [sampleFile ["0x0000000000000000000000000000000000000001"],
    { sampleFile ["0x0000000000000000000000000000000000000001",
        "0x0000000000000000000000000000000000000002"] with chainKey := 3 }]

def twoRouteConfig : List ChainRoute :=
  [sampleRoute ⟨[1], by decide⟩, { sampleRoute ⟨[1, 2], by decide⟩ with chainKey := 3 }]

theorem file_accepted_iff_swapped : ∃ routes' : List ChainRoute, routes'.Perm twoRouteConfig ∧
    ({ twoRouteFile with routes := twoRouteFile.routes.reverse } : ConfigFile).intoConfig hexParsers =
      .ok routes' :=
  (file_accepted_iff twoRouteFile twoRouteConfig).2 _ (List.reverse_perm _) rfl

/-! ## What the pool serves -/

theorem reads_chainKeys {failedRetry : FailedRetryPolicy} {files : List ChainRouteFile}
    {routes : List ChainRoute} (h : List.Forall₂ (ReadsAs parsers failedRetry) files routes) :
    routes.map (·.chainKey) = files.map (·.chainKey) := by
  induction h with
  | nil => rfl
  | cons hroute _ ih =>
    rw [List.map_cons, List.map_cons, ih, ChainRouteFile.intoRoute_chainKey hroute]

/-- There are routes, for different chains. -/
theorem buildConfig_chainKeys {cli : Cli} {routes : List ChainRoute}
    (h : buildConfig parsers cli = .ok routes) :
    routes ≠ [] ∧ (routes.map (·.chainKey)).Nodup := by
  obtain ⟨_, -, h⟩ := bind_ok.mp h
  split at h
  · obtain ⟨file, -, h⟩ := bind_ok.mp (withContext_ok.mp h)
    obtain ⟨hne, -, hnodup, hreads⟩ := ConfigFile.intoConfig_iff.mp h
    refine ⟨fun he => ?_, ?_⟩
    · rw [he, List.forall₂_nil_right_iff] at hreads
      exact hne hreads
    · rwa [reads_chainKeys hreads]
  · obtain ⟨_, -, h⟩ := bind_ok.mp h
    obtain ⟨route, -, h⟩ := bind_ok.mp h
    cases h
    simp

theorem resolveAttestors_chainKey (route : ChainRoute) :
    (resolveAttestors route).chainKey = route.chainKey := by
  unfold resolveAttestors
  split <;> rfl

/-- A route of the pool before anything has happened. -/
def unusedRoute (cache : VoteCacheConfig) (r : RouteAttestors) : RouteState where
  attestors := r.attestors
  threshold := r.threshold
  byMessage := ∅
  order := []
  cacheMax := cache.maxMessages
  earlyVotes := ∅

/-- The table of the pool, as the routes are put into it. -/
def routeTable (cache : VoteCacheConfig) (routes : List RouteAttestors) (m : Map ChainKey RouteState) :
    Map ChainKey RouteState :=
  routes.foldl (fun m r => m.insert r.chainKey (unusedRoute cache r)) m

theorem routeTable_other (cache : VoteCacheConfig) {routes : List RouteAttestors} {a : ChainKey} :
    ∀ {m : Map ChainKey RouteState}, (∀ r ∈ routes, r.chainKey ≠ a) →
      (routeTable cache routes m)[a]? = m[a]? := by
  induction routes with
  | nil => exact fun _ => rfl
  | cons r routes ih =>
    intro m h
    have hr : a ≠ r.chainKey := (h r List.mem_cons_self).symm
    have hrest := ih (m := m.insert r.chainKey (unusedRoute cache r))
      fun other hm => h other (List.mem_cons_of_mem _ hm)
    exact hrest.trans (Map.get_insert_ne hr)

/-- Of different chains, no route displaces another. -/
theorem routeTable_get (cache : VoteCacheConfig) {routes : List RouteAttestors} {r : RouteAttestors}
    (hr : r ∈ routes) : ∀ {m : Map ChainKey RouteState}, (routes.map (·.chainKey)).Nodup →
      (routeTable cache routes m)[r.chainKey]? = some (unusedRoute cache r) := by
  induction routes with
  | nil => cases hr
  | cons first routes ih =>
    intro m hn
    obtain ⟨hfirst, hn⟩ := List.nodup_cons.mp hn
    rcases List.mem_cons.mp hr with rfl | hr
    · have hother : ∀ other ∈ routes, other.chainKey ≠ r.chainKey := by
        intro other hm he
        exact hfirst (List.mem_map.mpr ⟨other, hm, he⟩)
      exact (routeTable_other cache hother).trans (Map.get_insert_self _ _ _)
    · exact ih hr hn

/-- Of an accepted configuration, every route has passed the checks and is served by the pool, with its
own attestors and threshold, and no other chain is. -/
theorem configured_pool {cli : Cli} {routes : List ChainRoute}
    (h : buildConfig parsers cli = .ok routes) (cache : VoteCacheConfig) :
    let pool := State.new (routes.map resolveAttestors) cache
    routes ≠ [] ∧
      (∀ route ∈ routes, route.Valid ∧
        pool.byRoute[route.chainKey]? = some (unusedRoute cache (resolveAttestors route))) ∧
      ∀ chainKey, (∀ route ∈ routes, route.chainKey ≠ chainKey) → pool.byRoute[chainKey]? = none := by
  intro pool
  obtain ⟨hne, hnodup⟩ := buildConfig_chainKeys h
  have htable : pool.byRoute = routeTable cache (routes.map resolveAttestors) ∅ := rfl
  have hkeys : ((routes.map resolveAttestors).map (·.chainKey)).Nodup := by
    have hsame : (fun r : RouteAttestors => r.chainKey) ∘ resolveAttestors = fun r => r.chainKey :=
      funext resolveAttestors_chainKey
    rwa [List.map_map, hsame]
  refine ⟨hne, fun route hm => ⟨buildConfig_valid h route hm, ?_⟩, fun chainKey hnone => ?_⟩
  · have hget := routeTable_get cache (List.mem_map_of_mem hm) (m := ∅) hkeys
    rwa [resolveAttestors_chainKey] at hget
  · have hother : ∀ r ∈ routes.map resolveAttestors, r.chainKey ≠ chainKey := by
      intro r hr
      obtain ⟨route, hm, rfl⟩ := List.mem_map.mp hr
      rw [resolveAttestors_chainKey]
      exact hnone route hm
    rw [htable, routeTable_other cache hother]
    simp

/-- The second of two routes, and a chain that has none. -/
theorem configured_pool_two :
    let pool := State.new (twoRouteConfig.map resolveAttestors) ⟨600, 16⟩
    pool.byRoute[(3 : ChainKey)]? = some (unusedRoute ⟨600, 16⟩ ⟨3, [1, 2], 2⟩) ∧
      pool.byRoute[(4 : ChainKey)]? = none := by
  have h : buildConfig hexParsers
      { sampleCli [] with config := some ("config.yaml", .ok twoRouteFile) } = .ok twoRouteConfig := rfl
  obtain ⟨-, hserved, hother⟩ := configured_pool h ⟨600, 16⟩
  refine ⟨(hserved _ (List.mem_cons_of_mem _ List.mem_cons_self)).2, hother 4 ?_⟩
  decide

end MessageRelayer.Config

import MessageRelayer.Pool.Slots
import MessageRelayer.Pool.Tidy
import MessageRelayer.Work.Disk

/-!
# A refill conserves messages

A refill takes as many slots out of the working set of a route as the records
that the store offers need room for, and records each of them once more
before. So a message that was loaded is still loaded, or its record is on
disk; every record that was offered is loaded; and where the store failed the
route is as it was (`refill_conserves`).
-/

namespace MessageRelayer

open Prog

variable {ecrecover : Ecrecover}

namespace RouteState

variable {route : RouteState}

/-! ## Admission with room -/

theorem makeRoom_of_lt (h : route.byMessage.size < route.cacheMax) : route.makeRoom = (route, true) := by
  unfold makeRoom makeRoomLoop
  split
  · rfl
  · contradiction

/-- The messages join the working set, and nothing leaves it. -/
structure Admits (route : RouteState) (ms : List IndexedMessage) (route' : RouteState) : Prop where
  cacheMax : route'.cacheMax = route.cacheMax
  size : route'.byMessage.size ≤ route.byMessage.size + ms.length
  other : ∀ id ∉ ms.map (·.messageId), route'.byMessage[id]? = route.byMessage[id]?
  loaded : ∀ m ∈ ms, ∃ slot : MessageSlot, route'.byMessage[m.messageId]? = some slot ∧
    slot.indexed = m

theorem Admits.nil (route : RouteState) : route.Admits [] route :=
  ⟨rfl, Nat.le_refl _, fun _ _ => rfl, fun _ hm => absurd hm List.not_mem_nil⟩

/-- One more message, with an id of its own. -/
theorem Admits.cons {m : IndexedMessage} {ms : List IndexedMessage} {r₁ r₂ : RouteState}
    (h : route.Admits [m] r₁) (h' : r₁.Admits ms r₂) (hm : m.messageId ∉ ms.map (·.messageId)) :
    route.Admits (m :: ms) r₂ := by
  refine ⟨h'.cacheMax.trans h.cacheMax, ?_, fun id hid => ?_, fun m' hm' => ?_⟩
  · have h₁ := h.size
    have h₂ := h'.size
    simp only [List.length_cons, List.length_nil] at h₁ ⊢
    omega
  · rw [List.map_cons, List.mem_cons, not_or] at hid
    rw [h'.other id hid.2, h.other id (by simpa using hid.1)]
  · rcases List.mem_cons.mp hm' with rfl | hm'
    · obtain ⟨slot, hs, hi⟩ := h.loaded m' (List.mem_singleton_self _)
      exact ⟨slot, (h'.other _ hm).trans hs, hi⟩
    · exact h'.loaded m' hm'

/-- The slot of the message is written. -/
theorem Admits.write {m : IndexedMessage} {r₁ r₂ : RouteState} (h : route.Admits [m] r₁)
    (hc : r₂.cacheMax = r₁.cacheMax)
    (ho : ∀ id ≠ m.messageId, r₂.byMessage[id]? = r₁.byMessage[id]?)
    (hs : ∀ slot : MessageSlot, r₁.byMessage[m.messageId]? = some slot →
      ∃ slot' : MessageSlot, r₂.byMessage[m.messageId]? = some slot' ∧
        slot'.indexed = slot.indexed) : route.Admits [m] r₂ := by
  obtain ⟨slot, hg, hi⟩ := h.loaded m (List.mem_singleton_self _)
  refine ⟨hc.trans h.cacheMax, ?_, fun id hid => ?_, fun m' hm' => ?_⟩
  · refine Nat.le_trans (Map.size_le_of_get fun id hid => ?_) h.size
    by_cases e : id = m.messageId
    · rw [e, hg]
      rfl
    · rwa [← ho id e]
  · exact (ho id (by simpa using hid)).trans (h.other id hid)
  · rw [List.mem_singleton.mp hm']
    obtain ⟨slot', hg', hi'⟩ := hs slot hg
    exact ⟨slot', hg', hi'.trans hi⟩

theorem Admits.adopt {m : IndexedMessage} {r₁ : RouteState} (h : route.Admits [m] r₁)
    (early : EarlyVotes) : route.Admits [m] (r₁.adopt m.messageId early) := by
  refine h.write rfl (fun id hid => ?_) fun slot hs =>
    ⟨{ slot with signers := keepMembers r₁.attestors early.signers }, ?_, rfl⟩
  · simp [RouteState.adopt, onSlot, Map.get_modify, hid]
  · simp [RouteState.adopt, onSlot, hs]

theorem Admits.dispatch {m : IndexedMessage} {r₁ : RouteState} (h : route.Admits [m] r₁)
    (chainKey : ChainKey) (now : Instant) (allowProbe : Bool) :
    route.Admits [m] (r₁.dispatchIfReady chainKey m.messageId now allowProbe).1 := by
  rcases dispatchIfReady_cases chainKey m.messageId r₁ now allowProbe with
    e | ⟨slot, slot', job, hs, -, hd, e⟩ <;> rw [e]
  · exact h
  · refine h.write rfl (fun id hid => Map.get_insert_ne hid) fun slot₁ hs₁ =>
      ⟨slot', Map.get_insert_self _ _ _, ?_⟩
    rw [hs] at hs₁
    cases hs₁
    cases hd
    rfl

/-- A message that is indexed while there is room is loaded, and nothing else changes. -/
theorem noteIndexed_admits {indexed : IndexedMessage}
    (hn : route.byMessage[indexed.messageId]? = none)
    (hroom : route.byMessage.size < route.cacheMax) (chainKey : ChainKey)
    (insertedAt now : Instant) :
    route.Admits [indexed] (route.noteIndexed chainKey indexed insertedAt now).1 := by
  have hnew : ∀ (slot : MessageSlot) (order : List B256) (early : Map B256 EarlyVotes),
      slot.indexed = indexed → route.Admits [indexed] { route with
        byMessage := route.byMessage.insert indexed.messageId slot, order, earlyVotes := early } := by
    intro slot order early hi
    refine ⟨rfl, Std.ExtTreeMap.size_insert_le, fun id hid => ?_, fun m hm => ?_⟩
    · exact Map.get_insert_ne (by simpa using hid)
    · rw [List.mem_singleton.mp hm]
      exact ⟨slot, Map.get_insert_self _ _ _, hi⟩
  unfold noteIndexed
  dsimp only
  rw [if_neg (by rw [Map.not_contains_iff.mpr hn]; exact Bool.false_ne_true),
    makeRoom_of_lt hroom]
  dsimp only
  split
  · contradiction
  · split
    · exact hnew _ _ _ rfl
    · rename_i early _
      exact ((hnew _ _ _ rfl).adopt early).dispatch chainKey now false

/-! ## Rotation -/

theorem rotate_get (ids : List B256) (a : B256) : ∀ route : RouteState,
    (route.rotate ids).byMessage[a]? = if a ∈ ids then none else route.byMessage[a]? := by
  induction ids with
  | nil => simp [rotate]
  | cons id ids ih =>
    intro route
    refine (ih (route.forget id)).trans ?_
    rw [forget_get]
    by_cases e : a = id
    · simp [e]
    · simp [e]

/-- Loaded messages make room, each for one. -/
theorem rotate_size {ids : List B256} (hn : ids.Nodup) : ∀ route : RouteState,
    (∀ id ∈ ids, (route.byMessage[id]?).isSome) →
    (route.rotate ids).byMessage.size + ids.length = route.byMessage.size := by
  induction ids with
  | nil => exact fun _ _ => rfl
  | cons id ids ih =>
    intro route h
    obtain ⟨hid, hn⟩ := List.nodup_cons.mp hn
    have hrest := ih hn (route.forget id) fun a ha => by
      rw [forget_get, if_neg fun e : a = id => hid (e ▸ ha)]
      exact h a (List.mem_cons_of_mem _ ha)
    have hone : (route.forget id).byMessage.size + 1 = route.byMessage.size := by
      have hs := Option.isSome_iff_exists.mp (h id List.mem_cons_self)
      have hpos : 0 < route.byMessage.size := by
        rw [← Std.ExtTreeMap.length_keys]
        exact List.length_pos_of_mem (Map.mem_keys.mpr hs)
      show (route.byMessage.erase id).size + 1 = _
      rw [Std.ExtTreeMap.size_erase, if_pos (Map.contains_iff.mpr hs)]
      omega
    simp only [List.length_cons]
    show ((route.forget id).rotate ids).byMessage.size + _ = _
    omega

theorem rotate_cacheMax (ids : List B256) : ∀ route : RouteState,
    (route.rotate ids).cacheMax = route.cacheMax := by
  induction ids with
  | nil => exact fun _ => rfl
  | cons id ids ih => exact fun route => ih (route.forget id)

theorem candidates_nodup (h : route.Tidy) (now : Instant) : (route.candidates now).Nodup :=
  (h.nodup.filter _).sublist (List.take_sublist _ _)

/-- The slots that a refill may rotate out. -/
theorem candidates_waiting {now : Instant} {id : B256} (h : id ∈ route.candidates now) :
    ∃ slot : MessageSlot, route.byMessage[id]? = some slot ∧ slot.inFlight = false ∧
      slot.delivered = false ∧ slot.terminal = false := by
  have hf := List.mem_filter.mp (List.take_subset _ _ h)
  obtain ⟨slot, hs, hp⟩ := (Option.any_eq_true _ _).mp hf.2
  simp only [Bool.and_eq_true, Bool.not_eq_true'] at hp
  exact ⟨slot, hs, hp.1.1.1, hp.1.1.2, hp.1.2⟩

end RouteState

/-- Distinct messages of a route that has room for all of them. -/
theorem State.noteEach_admits (clock : B256 → Instant × Instant) {chainKey : ChainKey}
    {ms : List IndexedMessage} (hk : ∀ m ∈ ms, m.chainKey = chainKey)
    (hn : (ms.map (·.messageId)).Nodup) : ∀ (s : State) (route : RouteState),
      s.byRoute[chainKey]? = some route →
      (∀ m ∈ ms, route.byMessage[m.messageId]? = none) →
      route.byMessage.size + ms.length ≤ route.cacheMax →
      ∃ route', (s.noteEach clock ms).1.byRoute[chainKey]? = some route' ∧
        route.Admits ms route' := by
  induction ms with
  | nil => exact fun s route hr _ _ => ⟨route, hr, .nil route⟩
  | cons m ms ih =>
    intro s route hr hnew hroom
    obtain ⟨hm, hn⟩ := List.nodup_cons.mp hn
    rw [List.length_cons] at hroom
    have hone := RouteState.noteIndexed_admits (hnew m List.mem_cons_self) (by omega) m.chainKey
      (clock m.messageId).1 (clock m.messageId).2
    have hget : (s.noteIndexed m (clock m.messageId).1 (clock m.messageId).2).1.byRoute[chainKey]? =
        some (route.noteIndexed m.chainKey m (clock m.messageId).1 (clock m.messageId).2).1 := by
      rw [State.noteIndexed, onRoute_get, if_pos (hk m List.mem_cons_self).symm, hr]
      rfl
    have hnew' : ∀ m' ∈ ms, (route.noteIndexed m.chainKey m (clock m.messageId).1
        (clock m.messageId).2).1.byMessage[m'.messageId]? = none := by
      intro m' hm'
      rw [hone.other]
      · exact hnew m' (List.mem_cons_of_mem _ hm')
      · intro hin
        rw [List.map_singleton, List.mem_singleton] at hin
        exact hm (List.mem_map.mpr ⟨m', hm', hin⟩)
    have hsize := hone.size
    simp only [List.length_cons, List.length_nil] at hsize
    obtain ⟨route', hr', hrest⟩ := ih (fun m' hm' => hk m' (List.mem_cons_of_mem _ hm')) hn _ _ hget
      hnew' (by rw [hone.cacheMax]; omega)
    exact ⟨route', hr', hone.cons hrest hm⟩

/-! ## The calls of a refill -/

/-- The store, and what was said to it. -/
abbrev StoreLog := (Readers × Disk) × Said WorkCall WorkCall.Answer

/-- The store on its disk, with what was said. -/
def loggedStore : Env WorkCall WorkCall.Answer StoreLog := (storeEnv (diskEnv none)).logged

/-- One of the calls on the route failed. -/
def FailedOn (chainKey : ChainKey) (said : Said WorkCall WorkCall.Answer) : Prop :=
  ∃ x ∈ said, x.1.route = chainKey ∧ ∃ e, x.2 = .error e

/-- Calls on one route. -/
structure CallsOn (chainKey : ChainKey) (w w' : StoreLog)
    (calls : Said WorkCall WorkCall.Answer) : Prop where
  said : w'.2 = w.2 ++ calls
  route : ∀ x ∈ calls, x.1.route = chainKey
  other : ∀ chainKey' ≠ chainKey, w'.1.2.records chainKey' = w.1.2.records chainKey'

theorem CallsOn.nil (chainKey : ChainKey) (w : StoreLog) : CallsOn chainKey w w [] :=
  ⟨(List.append_nil _).symm, fun _ hx => absurd hx List.not_mem_nil, fun _ _ => rfl⟩

theorem CallsOn.append {chainKey : ChainKey} {w w₁ w₂ : StoreLog}
    {calls calls' : Said WorkCall WorkCall.Answer} (h : CallsOn chainKey w w₁ calls)
    (h' : CallsOn chainKey w₁ w₂ calls') : CallsOn chainKey w w₂ (calls ++ calls') := by
  refine ⟨?_, fun x hx => ?_, fun chainKey' hne => ?_⟩
  · rw [h'.said, h.said, List.append_assoc]
  · exact (List.mem_append.mp hx).elim (h.route x) (h'.route x)
  · rw [h'.other chainKey' hne, h.other chainKey' hne]

theorem loggedStore_call {w w' : StoreLog} {c : WorkCall} {a : c.Answer}
    (h : loggedStore w c a w') (hc : ∀ chainKey id, c ≠ .complete chainKey id) :
    CallsOn c.route w w' [⟨c, a⟩] := by
  refine ⟨h.2, fun x hx => ?_, fun chainKey' hne => funext fun id => ?_⟩
  · rw [List.mem_singleton.mp hx]
  · rcases storeEnv_writes h.1 hc chainKey' id with e | ⟨message, rfl, e, -⟩
    · exact e
    · exact absurd e hne

/-- What a refill of one route made of it, with the calls it made and the disk in the end. -/
structure RouteRefilled (chainKey : ChainKey) (route route' : RouteState)
    (calls : Said WorkCall WorkCall.Answer) (d : Disk) : Prop where
  cacheMax : route'.cacheMax = route.cacheMax
  kept : ∀ (id : B256) (slot : MessageSlot), route.byMessage[id]? = some slot →
    route'.byMessage[id]? = some slot ∨ slot.inFlight = false ∧ slot.delivered = false ∧
      slot.terminal = false ∧ d.records chainKey id = some slot.indexed
  failed : FailedOn chainKey calls → route' = route
  offered : ¬ FailedOn chainKey calls → ∀ (loaded : List B256) (limit : Nat)
    (ms : List IndexedMessage), ⟨.pending chainKey loaded limit, .ok ms⟩ ∈ calls →
      ∀ m ∈ ms, ∃ slot : MessageSlot, route'.byMessage[m.messageId]? = some slot ∧
        slot.indexed = m

/-- A route that no call was about. -/
theorem RouteRefilled.none {chainKey : ChainKey} (route : RouteState)
    {calls : Said WorkCall WorkCall.Answer} (h : ∀ x ∈ calls, x.1.route ≠ chainKey) (d : Disk) :
    RouteRefilled chainKey route route calls d :=
  ⟨rfl, fun _ _ hs => .inl hs, fun _ => rfl, fun _ _ _ _ hm => absurd rfl (h _ hm)⟩

theorem RouteRefilled.failure {chainKey : ChainKey} (route : RouteState)
    {calls : Said WorkCall WorkCall.Answer} (h : FailedOn chainKey calls) (d : Disk) :
    RouteRefilled chainKey route route calls d :=
  ⟨rfl, fun _ _ hs => .inl hs, fun _ => rfl, fun hn => absurd h hn⟩

/-- Only the calls on the route matter, and its records. -/
theorem RouteRefilled.congr {chainKey : ChainKey} {route route' : RouteState}
    {calls calls' : Said WorkCall WorkCall.Answer} {d d' : Disk}
    (h : RouteRefilled chainKey route route' calls d)
    (hc : ∀ x, x.1.route = chainKey → (x ∈ calls' ↔ x ∈ calls))
    (hd : d'.records chainKey = d.records chainKey) :
    RouteRefilled chainKey route route' calls' d' := by
  have hf : FailedOn chainKey calls' ↔ FailedOn chainKey calls :=
    exists_congr fun x => ⟨fun hx => ⟨(hc x hx.2.1).mp hx.1, hx.2⟩,
      fun hx => ⟨(hc x hx.2.1).mpr hx.1, hx.2⟩⟩
  refine ⟨h.cacheMax, fun id slot hs => ?_, fun hx => h.failed (hf.mp hx),
    fun hx loaded limit ms hm => ?_⟩
  · rw [hd]
    exact h.kept id slot hs
  · exact h.offered (fun hx' => hx (hf.mpr hx')) loaded limit ms ((hc _ rfl).mp hm)

/-- Slots that wait are recorded once more before they leave. -/
theorem RouteState.reaffirm_calls {chainKey : ChainKey} {route : RouteState}
    (hkeyed : route.Keyed chainKey) (ids : List B256) :
    ids.Nodup → ∀ w : StoreLog, wp loggedStore (route.reaffirm ids) w fun w' r =>
      ∃ calls, CallsOn chainKey w w' calls ∧ (∀ x ∈ calls, ∃ m, x.1 = .record m) ∧
        (∀ id ∉ ids, w'.1.2.records chainKey id = w.1.2.records chainKey id) ∧
        match r with
        | .error _ => FailedOn chainKey calls
        | .ok () => ¬ FailedOn chainKey calls ∧ ∀ id ∈ ids, ∀ slot : MessageSlot,
            route.byMessage[id]? = some slot →
            w'.1.2.records chainKey id = some slot.indexed := by
  induction ids with
  | nil =>
    intro _ w
    refine ⟨[], .nil chainKey w, fun x hx => absurd hx List.not_mem_nil, fun _ _ => rfl, ?_, ?_⟩
    · rintro ⟨x, hx, -⟩
      exact absurd hx List.not_mem_nil
    · exact fun id hid => absurd hid List.not_mem_nil
  | cons id ids ih =>
    intro hn w
    obtain ⟨hid, hn⟩ := List.nodup_cons.mp hn
    unfold reaffirm
    split
    · rename_i hs
      refine wp_mono (ih hn w) fun w' r h => ?_
      obtain ⟨calls, hc, hrec, hother, hr⟩ := h
      refine ⟨calls, hc, hrec, fun a ha => hother a (fun hm => ha (List.mem_cons_of_mem _ hm)), ?_⟩
      cases r with
      | error e => exact hr
      | ok =>
        refine ⟨hr.1, fun a ha slot hg => ?_⟩
        rcases List.mem_cons.mp ha with rfl | ha
        · rw [hs] at hg
          cases hg
        · exact hr.2 a ha slot hg
    · rename_i slot hs
      obtain ⟨hk, hi⟩ := hkeyed id slot hs
      rw [wp_bind, wp_workRecord]
      intro a w₁ ha
      have hcall := loggedStore_call ha nofun
      rw [show (WorkCall.record slot.indexed).route = chainKey from hk] at hcall
      have hsame : ∀ b : B256, b ≠ id → w₁.1.2.records chainKey b = w.1.2.records chainKey b := by
        intro b hb
        rcases storeEnv_writes ha.1 nofun chainKey b with e | ⟨m, hm, -, e, -⟩
        · exact e
        · cases hm
          exact absurd (e.trans hi) hb
      cases a with
      | error e =>
        refine ⟨_, hcall, fun x hx => ?_, fun b hb => hsame b fun e => hb (by simp [e]), ?_⟩
        · exact ⟨slot.indexed, by rw [List.mem_singleton.mp hx]⟩
        · exact ⟨_, List.mem_singleton_self _, hk, e, rfl⟩
      | ok u =>
        have hwritten := storeEnv_recorded ha.1
        rw [hk, hi] at hwritten
        refine wp_mono (ih hn w₁) fun w' r h => ?_
        obtain ⟨calls, hc, hrec, hother, hr⟩ := h
        refine ⟨_, hcall.append hc, fun x hx => ?_, fun b hb => ?_, ?_⟩
        · rcases List.mem_cons.mp hx with rfl | hx
          · exact ⟨slot.indexed, rfl⟩
          · exact hrec x hx
        · rw [List.mem_cons, not_or] at hb
          rw [hother b hb.2, hsame b hb.1]
        · have hfail : FailedOn chainKey (⟨.record slot.indexed, .ok u⟩ :: calls) ↔
              FailedOn chainKey calls := by
            simp [FailedOn]
          cases r with
          | error e => exact hfail.mpr hr
          | ok =>
            refine ⟨fun h => hr.1 (hfail.mp h), fun b hb slot' hg => ?_⟩
            rcases List.mem_cons.mp hb with rfl | hb
            · rw [hs] at hg
              cases hg
              rw [hother b hid]
              exact hwritten
            · exact hr.2 b hb slot' hg

/-! ## The refill -/

/-- What a refill of some routes made of the state. -/
structure RefilledAll (chainKeys : List ChainKey) (s s' : State) (w w' : StoreLog)
    (calls : Said WorkCall WorkCall.Answer) : Prop where
  said : w'.2 = w.2 ++ calls
  about : ∀ x ∈ calls, x.1.route ∈ chainKeys
  other : ∀ chainKey ∉ chainKeys, s'.byRoute[chainKey]? = s.byRoute[chainKey]?
  records : ∀ chainKey ∉ chainKeys, w'.1.2.records chainKey = w.1.2.records chainKey
  routes : ∀ chainKey ∈ chainKeys, ∀ route : RouteState, s.byRoute[chainKey]? = some route →
    ∃ route' : RouteState, s'.byRoute[chainKey]? = some route' ∧
      RouteRefilled chainKey route route' calls w'.1.2

/-- The slots of a route that a refill rotates out are those that its offers need room for. -/
theorem RouteState.room {route : RouteState} (h : route.Tidy) (now : Instant) {n : Nat}
    (hn : n ≤ route.cacheMax - route.byMessage.size + (route.candidates now).length) :
    (route.rotate ((route.candidates now).take
      (n - (route.cacheMax - route.byMessage.size)))).byMessage.size + n ≤ route.cacheMax := by
  have hb := h.bounded
  have hsize := rotate_size ((candidates_nodup h now).sublist (List.take_sublist
    (n - (route.cacheMax - route.byMessage.size)) _)) route fun id hid => by
      obtain ⟨slot, hs, -⟩ := candidates_waiting (List.take_subset _ _ hid)
      rw [hs]
      rfl
  rw [List.length_take] at hsize
  omega

theorem State.refillRoute_refilled {s : State} (ht : s.Every fun _ route => route.Tidy)
    (hk : s.Every RouteState.Keyed) (now : Instant) (clock : B256 → Instant × Instant)
    (chainKey : ChainKey) (w : StoreLog) :
    wp loggedStore (s.refillRoute now clock chainKey) w fun w' r =>
      ∃ calls, RefilledAll [chainKey] s r.1 w w' calls := by
  have hall : ∀ {s' : State} {w' : StoreLog} {calls : Said WorkCall WorkCall.Answer},
      CallsOn chainKey w w' calls →
      (∀ a ≠ chainKey, s'.byRoute[a]? = s.byRoute[a]?) →
      (∀ route : RouteState, s.byRoute[chainKey]? = some route → ∃ route' : RouteState,
        s'.byRoute[chainKey]? = some route' ∧ RouteRefilled chainKey route route' calls w'.1.2) →
      RefilledAll [chainKey] s s' w w' calls := by
    intro s' w' calls hc ho hr
    refine ⟨hc.said, fun x hx => List.mem_singleton.mpr (hc.route x hx), fun a ha => ?_,
      fun a ha => ?_, fun a ha route hs => ?_⟩
    · exact ho a (by simpa using ha)
    · exact hc.other a (by simpa using ha)
    · rw [List.mem_singleton.mp ha] at hs ⊢
      exact hr route hs
  unfold State.refillRoute
  split
  · rename_i hn
    exact ⟨[], hall (.nil chainKey w) (fun _ _ => rfl) fun route hr => by rw [hn] at hr; cases hr⟩
  · rename_i route hr
    have htidy := ht chainKey route hr
    have hkeyed := hk chainKey route hr
    rw [wp_bind, wp_workPending]
    intro a w₁ ha
    have hcall : CallsOn chainKey w w₁ [⟨.pending chainKey _ _, a⟩] := loggedStore_call ha nofun
    cases a with
    | error e =>
      refine ⟨_, hall hcall (fun _ _ => rfl) fun route₁ hr₁ => ⟨route₁, hr₁, .failure route₁ ?_ _⟩⟩
      exact ⟨_, List.mem_singleton_self _, rfl, e, rfl⟩
    | ok ms =>
      have hoffers := storeEnv_pending ha.1
      have hreplaced := (RouteState.candidates_nodup htidy now).sublist
        (List.take_sublist (ms.length - (route.cacheMax - route.byMessage.size)) _)
      dsimp only
      rw [wp_bind]
      refine wp_mono (RouteState.reaffirm_calls hkeyed _ hreplaced w₁) fun w₂ r h => ?_
      obtain ⟨calls, hc, hrecords, -, hr₂⟩ := h
      have hfailed : FailedOn chainKey ([⟨.pending chainKey _ _, .ok ms⟩] ++ calls) ↔
          FailedOn chainKey calls := by simp [FailedOn]
      cases r with
      | error e =>
        exact ⟨_, hall (hcall.append hc) (fun _ _ => rfl) fun route₁ hr₁ =>
          ⟨route₁, hr₁, .failure route₁ (hfailed.mpr hr₂) _⟩⟩
      | ok =>
        generalize hids : (route.candidates now).take
          (ms.length - (route.cacheMax - route.byMessage.size)) = ids at hr₂
        have hnew : ∀ m ∈ ms, route.byMessage[m.messageId]? = none := by
          intro m hm
          refine Option.eq_none_iff_forall_ne_some.mpr fun slot hs => ?_
          exact hoffers.unloaded m hm (Map.mem_keys.mpr ⟨slot, hs⟩)
        have hrotated : (s.onRoute chainKey () fun route => (route.rotate ids, ())).1.byRoute[chainKey]? =
            some (route.rotate ids) := by
          rw [onRoute_get, if_pos rfl, hr]
          rfl
        obtain ⟨route', hg, hadmits⟩ := State.noteEach_admits clock hoffers.route hoffers.distinct _
          _ hrotated (fun m hm => by rw [RouteState.rotate_get, hnew m hm]; simp) (by
            rw [RouteState.rotate_cacheMax, ← hids]
            exact RouteState.room htidy now hoffers.limit)
        refine ⟨_, hall (hcall.append hc) (fun b hb => ?_) fun route₁ hr₁ => ⟨route', hg, ?_⟩⟩
        · rw [State.noteEach_other (fun m hm e => hb (e.symm.trans (hoffers.route m hm))),
            onRoute_get, if_neg hb]
        · rw [hr] at hr₁
          cases hr₁
          refine ⟨hadmits.cacheMax.trans (RouteState.rotate_cacheMax ids route),
            fun id slot hs => ?_, fun hf => absurd (hfailed.mp hf) hr₂.1,
            fun _ loaded limit ms' hm => ?_⟩
          · by_cases hid : id ∈ ids
            · rw [← hids] at hid
              obtain ⟨slot', hs', hwaits⟩ :=
                RouteState.candidates_waiting (List.take_subset _ _ hid)
              rw [hs] at hs'
              cases hs'
              exact .inr ⟨hwaits.1, hwaits.2.1, hwaits.2.2, hr₂.2 id (hids ▸ hid) slot hs⟩
            · refine .inl ?_
              rw [hadmits.other id, RouteState.rotate_get, if_neg hid, hs]
              intro hin
              obtain ⟨m, hm, rfl⟩ := List.mem_map.mp hin
              rw [hnew m hm] at hs
              cases hs
          · rcases List.mem_cons.mp hm with e | hm
            · cases e
              exact hadmits.loaded
            · obtain ⟨m, e⟩ := hrecords _ hm
              cases e

section
variable {chainKey : ChainKey} {chainKeys : List ChainKey} {s s₁ s₂ : State} {w w₁ w₂ : StoreLog}
  {calls calls' : Said WorkCall WorkCall.Answer}

/-- The refill ends with one route. -/
theorem RefilledAll.stop (h : RefilledAll [chainKey] s s₁ w w₁ calls) (hk : chainKey ∉ chainKeys) :
    RefilledAll (chainKey :: chainKeys) s s₁ w w₁ calls := by
  have hne : ∀ a ∈ chainKeys, a ∉ [chainKey] := fun a ha e =>
    hk (List.mem_singleton.mp e ▸ ha)
  refine ⟨h.said, fun x hx => List.mem_cons.mpr (.inl (List.mem_singleton.mp (h.about x hx))),
    fun a ha => h.other a (fun hm => ha (List.mem_cons.mpr (.inl (List.mem_singleton.mp hm)))),
    fun a ha => h.records a (fun hm => ha (List.mem_cons.mpr (.inl (List.mem_singleton.mp hm)))),
    fun a ha route hr => ?_⟩
  rcases List.mem_cons.mp ha with rfl | ha
  · exact h.routes a (List.mem_singleton_self a) route hr
  · refine ⟨route, (h.other a (hne a ha)).trans hr, .none route (fun x hx e => ?_) _⟩
    exact hne a ha (e ▸ h.about x hx)

theorem RefilledAll.cons (h : RefilledAll [chainKey] s s₁ w w₁ calls)
    (h' : RefilledAll chainKeys s₁ s₂ w₁ w₂ calls') (hk : chainKey ∉ chainKeys) :
    RefilledAll (chainKey :: chainKeys) s s₂ w w₂ (calls ++ calls') := by
  have hsplit : ∀ a, a ∉ chainKey :: chainKeys → a ∉ [chainKey] ∧ a ∉ chainKeys := fun a ha =>
    ⟨fun hm => ha (List.mem_cons.mpr (.inl (List.mem_singleton.mp hm))),
      fun hm => ha (List.mem_cons_of_mem _ hm)⟩
  refine ⟨?_, fun x hx => ?_, fun a ha => ?_, fun a ha => ?_, fun a ha route hr => ?_⟩
  · rw [h'.said, h.said, List.append_assoc]
  · rcases List.mem_append.mp hx with hx | hx
    · exact List.mem_cons.mpr (.inl (List.mem_singleton.mp (h.about x hx)))
    · exact List.mem_cons_of_mem _ (h'.about x hx)
  · rw [h'.other a (hsplit a ha).2, h.other a (hsplit a ha).1]
  · rw [h'.records a (hsplit a ha).2, h.records a (hsplit a ha).1]
  · rcases List.mem_cons.mp ha with rfl | ha
    · obtain ⟨route', hg, hroute⟩ := h.routes a (List.mem_singleton_self a) route hr
      refine ⟨route', (h'.other a hk).trans hg, hroute.congr (fun x hx => ?_) (h'.records a hk)⟩
      rw [List.mem_append]
      exact ⟨fun hm => hm.resolve_right fun hm => hk (hx ▸ h'.about x hm), .inl⟩
    · have hne : a ∉ [chainKey] := fun e => hk (List.mem_singleton.mp e ▸ ha)
      obtain ⟨route', hg, hroute⟩ := h'.routes a ha route ((h.other a hne).trans hr)
      refine ⟨route', hg, hroute.congr (fun x hx => ?_) rfl⟩
      rw [List.mem_append]
      exact ⟨fun hm => hm.resolve_left fun hm => hne (hx ▸ h.about x hm), .inr⟩

end

theorem State.refillRoutes_refilled (ecrecover : Ecrecover) (now : Instant)
    (clock : B256 → Instant × Instant) (chainKeys : List ChainKey) :
    chainKeys.Nodup → ∀ (s : State) (w : StoreLog),
      (s.Every fun _ route => route.Tidy) → s.Every RouteState.Keyed →
      wp loggedStore (s.refillRoutes now clock chainKeys) w fun w' r =>
        ∃ calls, RefilledAll chainKeys s r.1 w w' calls := by
  induction chainKeys with
  | nil =>
    intro _ s w _ _
    exact ⟨[], (List.append_nil _).symm, fun _ hx => absurd hx List.not_mem_nil, fun _ _ => rfl,
      fun _ _ => rfl, fun _ ha => absurd ha List.not_mem_nil⟩
  | cons chainKey chainKeys ih =>
    intro hn s w ht hk
    obtain ⟨hkn, hn⟩ := List.nodup_cons.mp hn
    have htidy := ht.refillRoute loggedStore
      (fun _ _ _ (hr : RouteTrans ecrecover _ (.refill now clock) _ _) h => hr.tidy h) chainKey w
    have hkeyed := hk.refillRoute loggedStore
      (fun _ _ _ (hr : RouteTrans ecrecover _ (.refill now clock) _ _) h => hr.keyed h) chainKey w
    unfold State.refillRoutes
    rw [wp_bind]
    refine wp_mono (wp_and (s.refillRoute_refilled ht hk now clock chainKey w)
      (wp_and htidy hkeyed)) fun w₁ r h => ?_
    obtain ⟨⟨calls, hone⟩, ht₁, hk₁⟩ := h
    obtain ⟨s₁, r⟩ := r
    cases r with
    | error e => exact ⟨calls, hone.stop hkn⟩
    | ok jobs =>
      dsimp only
      rw [wp_bind]
      refine wp_mono (ih hn s₁ w₁ ht₁ hk₁) fun w₂ r h => ?_
      obtain ⟨calls', hrest⟩ := h
      exact ⟨calls ++ calls', hone.cons hrest hkn⟩

/-- After a refill of a pool, with any store and any failures: every message that was loaded on a
route is in the slot it was in, or it waited there and its record is on disk. Where a call on the
route failed, the route is as it was; else all records that the store offered are loaded. And the
working set is within its bound. -/
theorem refill_conserves (routes : List RouteAttestors) (cache : VoteCacheConfig)
    {l : List (PoolOp × List DeliveryJob)} {s : State}
    (hr : Run (PoolStep ecrecover) (State.new routes cache) l s) {now : Instant}
    {clock : B256 → Instant × Instant} {w w' : Readers × Disk}
    {calls : Said WorkCall WorkCall.Answer} {s' : State} {r : Except Error (List DeliveryJob)}
    (h : Exec loggedStore (s.refill now clock) (w, []) (w', calls) (s', r)) {chainKey : ChainKey}
    {route : RouteState} (hroute : s.byRoute[chainKey]? = some route) :
    ∃ route' : RouteState, s'.byRoute[chainKey]? = some route' ∧
      RouteRefilled chainKey route route' calls w'.2 ∧
      route'.byMessage.size ≤ route'.cacheMax := by
  have ht : s.Every fun _ route => route.Tidy :=
    hr.inv (fun _ _ _ => PoolStep.tidy) (State.new_tidy routes cache)
  obtain ⟨calls', hall⟩ := h.post
    (s.refillRoutes_refilled ecrecover now clock _ (Map.nodup_keys _) _ ht (pool_keyed hr))
  have htidy := h.post (ht.refillRoutes loggedStore
    (fun _ _ _ (hr : RouteTrans ecrecover _ (.refill now clock) _ _) h => hr.tidy h)
    s.byRoute.keys s (w, []))
  have hsaid : calls = calls' := hall.said
  subst hsaid
  obtain ⟨route', hg, hrefilled⟩ := hall.routes chainKey (Map.mem_keys.mpr ⟨route, hroute⟩) route hroute
  exact ⟨route', hg, hrefilled, (htidy chainKey route' hg).bounded⟩

/-- A second message, and files that hold its record and take every write. -/
def sampleWaiting : IndexedMessage := { sampleMessage with messageId := 6 }

def sampleFiles (d : Disk) (c : FsCall) : c.Answer × Disk :=
  (match c with
    | .tryExists .. => .ok true
    | .readDir _ => .ok [sampleWaiting.messageId]
    | .read .. => .ok sampleWaiting
    | .createDir _ | .createDirAll _ | .writeTmp .. | .rename .. | .syncDir _ | .removeFile .. =>
      .ok (), d.done none c)

/-- A call on the store over these files. -/
def sampleStore (w : StoreLog) (c : WorkCall) : c.Answer × StoreLog :=
  let (d, a, readers) := (c.body.run.run w.1.1).run sampleFiles w.1.2
  (a, ((readers, d), w.2 ++ [⟨c, a⟩]))

/-- A refill of `sampleIndexed` over them. -/
def sampleRefilled : StoreLog × State × Except Error (List DeliveryJob) :=
  (sampleIndexed.refill 1 fun _ => (2, 2)).run sampleStore
    ((∅, ⟨fun _ _ => none, none, fun _ _ => none⟩), [])

theorem refill_conserves_waiting :
    ∃ route route' : RouteState, sampleIndexed.byRoute[2]? = some route ∧
      sampleRefilled.2.1.byRoute[2]? = some route' ∧
      RouteRefilled 2 route route' sampleRefilled.1.2 sampleRefilled.1.1.2 ∧
      route'.byMessage.size ≤ route'.cacheMax := by
  have hr : Run (PoolStep fun _ _ => .ok 9) (.new [sampleRoute] sampleCache) _ sampleIndexed :=
    .snoc .nil (.apply nofun)
  have hs : (sampleIndexed.byRoute[2]?).isSome = true := by decide
  obtain ⟨route, hroute⟩ := Option.isSome_iff_exists.mp hs
  have hfiles : ∀ (d : Disk) (c : FsCall), diskEnv none d c (sampleFiles d c).1 (sampleFiles d c).2 := by
    intro d c
    cases c <;> rfl
  have hstore : ∀ (w : StoreLog) (c : WorkCall),
      loggedStore w c (sampleStore w c).1 (sampleStore w c).2 := fun w c =>
    ⟨exec_run hfiles _ _, rfl⟩
  obtain ⟨route', hg, hrefilled, hsize⟩ := refill_conserves _ _ hr
    (exec_run hstore (sampleIndexed.refill 1 fun _ => (2, 2)) _) hroute
  exact ⟨route, route', hroute, hg, hrefilled, hsize⟩

end MessageRelayer

import Mathlib.Data.List.Induction
import Mathlib.Data.List.Perm.Basic
import MessageRelayer.Basic

/-!
# Delivery outcomes

`outcome`: what the delivery worker concluded for a message, kept in a bounded
store and served over HTTP. The store is a map of verdicts beside a queue of
their ids (`OutcomeStore`); a verdict for an id that is there replaces the
earlier one, and one for an id that is not pushes it on the queue and evicts
past the cap from the front.

`OutcomeHistory` sets beside a store the ids that its calls inserted and the
ids that they evicted, and `OutcomeHistory.Kept` is what holds between the
three: the queue has each key of the map once, and what was inserted is what was
evicted and then the queue. Every call keeps it (`OutcomeHistory.Kept.record`),
so it holds after any calls (`outcome_store_kept`), and the verdict that the
store serves for an id is the last one recorded (`OutcomeHistory.after_get`).
-/

namespace MessageRelayer

/-- What the delivery worker concluded for a message. -/
inductive OutcomeKind where
  | delivered | destinationFailed | pending | undeliverable | terminal
  deriving DecidableEq

structure DeliveryOutcome where
  kind : OutcomeKind
  chainKey : ChainKey
  /-- The transaction that carried the delivery, when one was mined. -/
  txHash : Option B256
  reason : Option String
  /-- Unix seconds. -/
  recordedAt : Nat
  deriving DecidableEq

namespace DeliveryOutcome

/-- A verdict reached at `nowUnix`. -/
def new (kind : OutcomeKind) (chainKey : ChainKey) (nowUnix : Nat) : DeliveryOutcome :=
  ⟨kind, chainKey, none, none, nowUnix⟩

def withTx (o : DeliveryOutcome) (txHash : B256) : DeliveryOutcome := { o with txHash := some txHash }

def withReason (o : DeliveryOutcome) (reason : String) : DeliveryOutcome :=
  { o with reason := some reason }

end DeliveryOutcome

/-- The store, with the fields of its lock beside the cap and the counter. -/
structure OutcomeStore where
  byId : Map B256 DeliveryOutcome
  order : List B256
  cap : Nat
  /-- An `AtomicU64`. -/
  evictions : UInt64

namespace OutcomeStore

def new (cap : Nat) : OutcomeStore := ⟨∅, [], max cap 1, 0⟩

/-- The loop of `record`, from a queue: it pops the front while the queue is longer than the cap. -/
def evictPastCap (s : OutcomeStore) : List B256 → OutcomeStore
  | [] => { s with order := [] }
  | old :: order =>
    if (old :: order).length > s.cap then
      evictPastCap { s with byId := s.byId.erase old, evictions := s.evictions + 1 } order
    else { s with order := old :: order }

def record (s : OutcomeStore) (messageId : B256) (outcome : DeliveryOutcome) : OutcomeStore :=
  let inner := { s with byId := s.byId.insert messageId outcome }
  if s.byId[messageId]?.isNone then inner.evictPastCap (s.order ++ [messageId]) else inner

def get (s : OutcomeStore) (messageId : B256) : Option DeliveryOutcome := s.byId[messageId]?

/-- The verdicts of the requested ids that have one, in request order. -/
def getMany (s : OutcomeStore) (ids : List B256) : List (B256 × DeliveryOutcome) :=
  ids.filterMap fun id => s.byId[id]?.map fun o => (id, o)

def len (s : OutcomeStore) : Nat := s.byId.size

def isEmpty (s : OutcomeStore) : Bool := s.len == 0

/-! ## One call -/

/-- From a queue the loop evicted the front `gone`. -/
structure Evicted (s : OutcomeStore) (order gone : List B256) (t : OutcomeStore) : Prop where
  split : order = gone ++ t.order
  fits : gone.length = order.length - s.cap
  get : ∀ id : B256, t.byId[id]? = if id ∈ gone then none else s.byId[id]?
  evictions : t.evictions = s.evictions + UInt64.ofNat gone.length
  cap : t.cap = s.cap

theorem evictPastCap_spec (order : List B256) : ∀ s : OutcomeStore,
    ∃ gone, s.Evicted order gone (s.evictPastCap order) := by
  induction order with
  | nil =>
    exact fun s => ⟨[], rfl, by simp, fun id => by simp [evictPastCap], by simp [evictPastCap], rfl⟩
  | cons old order ih =>
    intro s
    rw [evictPastCap]
    split
    · rename_i hlong
      obtain ⟨gone, h⟩ := ih { s with byId := s.byId.erase old, evictions := s.evictions + 1 }
      refine ⟨old :: gone, ?_, ?_, fun id => ?_, ?_, h.cap⟩
      · rw [List.cons_append, ← h.split]
      · have hfits : gone.length = order.length - s.cap := h.fits
        simp only [List.length_cons] at hlong ⊢
        omega
      · rw [h.get, Map.get_erase]
        by_cases he : id = old <;> simp [he]
      · rw [h.evictions, List.length_cons, UInt64.ofNat_add, UInt64.add_assoc, UInt64.add_comm 1]
        rfl
    · rename_i hshort
      have h0 : (old :: order).length - s.cap = 0 := by omega
      exact ⟨[], rfl, h0.symm, fun id => by simp, by simp, rfl⟩

/-- The loop keeps the ids of the queue those of the map. -/
theorem Evicted.keys {s t : OutcomeStore} {order gone : List B256} (h : s.Evicted order gone t)
    (hnd : order.Nodup) (hk : ∀ id, id ∈ order ↔ s.byId.contains id = true) (id : B256) :
    id ∈ t.order ↔ t.byId.contains id = true := by
  rw [h.split] at hnd hk
  obtain ⟨-, -, hdisj⟩ := List.nodup_append.mp hnd
  rw [Std.ExtTreeMap.contains_eq_isSome_getElem?, h.get]
  split
  · rename_i hg
    exact iff_of_false (fun ht => hdisj id hg id ht rfl) Bool.false_ne_true
  · rename_i hg
    rw [← Std.ExtTreeMap.contains_eq_isSome_getElem?, ← hk, List.mem_append, or_iff_right hg]

/-- A verdict for an id that has one replaces it in place. -/
theorem record_replaces {s : OutcomeStore} {id : B256} (h : s.byId.contains id = true)
    (o : DeliveryOutcome) : s.record id o = { s with byId := s.byId.insert id o } := by
  obtain ⟨v, hv⟩ := Map.contains_iff.mp h
  rw [record, hv]
  rfl

/-- A verdict for an id without one is pushed, and what is over the cap is evicted. -/
theorem record_inserts {s : OutcomeStore} {id : B256} (h : s.byId.contains id = false)
    (o : DeliveryOutcome) : ∃ gone,
      Evicted { s with byId := s.byId.insert id o } (s.order ++ [id]) gone (s.record id o) := by
  rw [record, Map.not_contains_iff.mp h]
  exact evictPastCap_spec (s.order ++ [id]) _

/-- What the map has after a call is the new verdict, or what it had. -/
theorem get_record {s : OutcomeStore} {id a : B256} {o v : DeliveryOutcome}
    (h : (s.record id o).byId[a]? = some v) : a = id ∧ v = o ∨ a ≠ id ∧ s.byId[a]? = some v := by
  have hins : (s.byId.insert id o)[a]? = some v := by
    cases hc : s.byId.contains id with
    | true => rwa [record_replaces hc] at h
    | false =>
      obtain ⟨gone, he⟩ := record_inserts hc o
      rw [he.get] at h
      split at h
      · cases h
      · exact h
  rw [Map.get_insert] at hins
  split at hins
  · rename_i ha
    exact .inl ⟨ha, (Option.some.inj hins).symm⟩
  · rename_i ha
    exact .inr ⟨ha, hins⟩

end OutcomeStore

/-! ## Any calls -/

/-- A store beside the ids that its calls inserted and the ids that they evicted. -/
structure OutcomeHistory where
  store : OutcomeStore
  inserted : List B256
  evicted : List B256

namespace OutcomeHistory

/-- One call of `record`: it inserts the id if the map does not have it, and evicts what the map has no
longer. -/
def record (h : OutcomeHistory) (call : B256 × DeliveryOutcome) : OutcomeHistory :=
  let store := h.store.record call.1 call.2
  let fresh := if h.store.byId.contains call.1 then [] else [call.1]
  { store
    inserted := h.inserted ++ fresh
    evicted := h.evicted ++ (h.store.order ++ fresh).filter fun id => !store.byId.contains id }

def after (cap : Nat) (calls : List (B256 × DeliveryOutcome)) : OutcomeHistory :=
  calls.foldl record ⟨.new cap, [], []⟩

theorem after_concat (cap : Nat) (calls : List (B256 × DeliveryOutcome))
    (call : B256 × DeliveryOutcome) : after cap (calls ++ [call]) = (after cap calls).record call := by
  rw [after, List.foldl_append]
  rfl

/-- What holds of a store and its history. -/
structure Kept (h : OutcomeHistory) : Prop where
  nodup : h.store.order.Nodup
  keys : ∀ id : B256, id ∈ h.store.order ↔ h.store.byId.contains id = true
  cap_pos : 0 < h.store.cap
  fits : h.store.order.length ≤ h.store.cap
  fifo : h.inserted = h.evicted ++ h.store.order
  counted : h.store.evictions = UInt64.ofNat h.evicted.length
  /-- Nothing is evicted before the store is full. -/
  full : h.evicted.length = h.inserted.length - h.store.cap

theorem kept_new (cap : Nat) : Kept ⟨.new cap, [], []⟩ where
  nodup := List.nodup_nil
  keys id := by simp [OutcomeStore.new]
  cap_pos := Nat.lt_of_lt_of_le Nat.one_pos (Nat.le_max_right cap 1)
  fits := Nat.zero_le _
  fifo := rfl
  counted := rfl
  full := (Nat.zero_sub _).symm

variable {h : OutcomeHistory}

/-- The map has as many entries as the queue. -/
theorem Kept.len_eq (hk : h.Kept) : h.store.len = h.store.order.length := by
  have hp : h.store.byId.keys.Perm h.store.order :=
    (List.perm_ext_iff_of_nodup (Map.nodup_keys _) hk.nodup).mpr fun id => by
      rw [hk.keys, Map.mem_keys, Map.contains_iff]
  rw [OutcomeStore.len, ← Std.ExtTreeMap.length_keys]
  exact hp.length_eq

/-- Of two parts without repetitions, those that are not in the back are the front. -/
theorem filter_front {l front back : List B256} {has : B256 → Bool} (hl : l = front ++ back)
    (hnd : l.Nodup) (hb : ∀ id ∈ l, has id = true ↔ id ∈ back) :
    l.filter (fun id => !has id) = front := by
  subst hl
  obtain ⟨-, -, hdisj⟩ := List.nodup_append.mp hnd
  have hfront : ∀ id ∈ front, (!has id) = true := fun id hi => by
    rw [Bool.not_eq_true', ← Bool.not_eq_true, hb id (List.mem_append_left _ hi)]
    exact fun hi' => hdisj id hi id hi' rfl
  have hback : ∀ id ∈ back, ¬(!has id) = true := fun id hi => by
    rw [(hb id (List.mem_append_right _ hi)).mpr hi]
    exact Bool.false_ne_true
  rw [List.filter_append, List.filter_eq_self.mpr hfront, List.filter_eq_nil_iff.mpr hback,
    List.append_nil]

/-- A call for an id that has a verdict changes no more than the verdict. -/
theorem Kept.record_eq (hk : h.Kept) {id : B256} (hid : h.store.byId.contains id = true)
    (o : DeliveryOutcome) :
    (∀ a, (h.store.byId.insert id o).contains a = h.store.byId.contains a) ∧
    h.record (id, o) = { h with store := { h.store with byId := h.store.byId.insert id o } } := by
  have hkeys : ∀ a, (h.store.byId.insert id o).contains a = h.store.byId.contains a := fun a => by
    by_cases ha : a = id
    · rw [ha, hid, Map.contains_iff]
      exact ⟨o, Map.get_insert_self _ _ _⟩
    · rw [Std.ExtTreeMap.contains_eq_isSome_getElem?, Map.get_insert_ne ha,
        Std.ExtTreeMap.contains_eq_isSome_getElem?]
  have hnone : (h.store.order.filter fun a => !(h.store.byId.insert id o).contains a) = [] :=
    filter_front (List.nil_append _).symm hk.nodup fun a _ => by rw [hkeys, hk.keys]
  refine ⟨hkeys, ?_⟩
  simp only [record, OutcomeStore.record_replaces hid o, hid, if_true, List.append_nil, hnone]

theorem Kept.replace (hk : h.Kept) {id : B256} (hid : h.store.byId.contains id = true)
    (o : DeliveryOutcome) : (h.record (id, o)).Kept := by
  obtain ⟨hkeys, e⟩ := hk.record_eq hid o
  rw [e]
  exact { hk with keys := fun a => (hk.keys a).trans (by rw [hkeys]) }

/-- With an id that the map does not have, the queue has no repetitions either. -/
theorem Kept.nodup_push (hk : h.Kept) {id : B256} (hid : h.store.byId.contains id = false) :
    (h.store.order ++ [id]).Nodup := by
  have hnew : id ∉ h.store.order := by rw [hk.keys, hid]; exact Bool.false_ne_true
  rw [← List.concat_eq_append]
  exact (List.nodup_concat _ _).mpr ⟨hnew, hk.nodup⟩

/-- A call for an id that has none pushes it, and evicts from the front. -/
theorem Kept.insert (hk : h.Kept) {id : B256} (hid : h.store.byId.contains id = false)
    (o : DeliveryOutcome) : (h.record (id, o)).Kept := by
  obtain ⟨gone, he⟩ := OutcomeStore.record_inserts hid o
  have hnd := hk.nodup_push hid
  have hpushed : ∀ a, a ∈ h.store.order ++ [id] ↔ (h.store.byId.insert id o).contains a = true := by
    intro a
    rw [Std.ExtTreeMap.contains_insert, Bool.or_eq_true, beq_iff_eq, Map.cmp_eq, ← hk.keys,
      List.mem_append, List.mem_singleton, or_comm, eq_comm]
  have hkeys := he.keys hnd hpushed
  have hgone : ((h.store.order ++ [id]).filter fun a =>
      !(h.store.record id o).byId.contains a) = gone :=
    filter_front he.split hnd fun a _ => (hkeys a).symm
  have e : h.record (id, o) = ⟨h.store.record id o, h.inserted ++ [id], h.evicted ++ gone⟩ := by
    simp only [record, hid, Bool.false_eq_true, if_false, hgone]
  have hlen := congrArg List.length he.split
  have hfits := he.fits
  have hle := hk.fits
  simp only [List.length_append, List.length_singleton] at hlen hfits
  rw [he.split] at hnd
  rw [e]
  refine ⟨(List.nodup_append.mp hnd).2.1, hkeys, he.cap ▸ hk.cap_pos, ?_, ?_, ?_, ?_⟩
  · rw [he.cap]
    dsimp only
    omega
  · rw [hk.fifo, List.append_assoc, he.split, List.append_assoc]
  · rw [he.evictions, hk.counted, List.length_append, UInt64.ofNat_add]
  · have hinserted := congrArg List.length hk.fifo
    have hfull := hk.full
    have hcap : (h.store.record id o).cap = h.store.cap := he.cap
    simp only [List.length_append, List.length_singleton, hcap] at hinserted ⊢
    omega

theorem Kept.record (hk : h.Kept) (call : B256 × DeliveryOutcome) : (h.record call).Kept := by
  obtain ⟨id, o⟩ := call
  cases hid : h.store.byId.contains id with
  | true => exact hk.replace hid o
  | false => exact hk.insert hid o

theorem kept_after (cap : Nat) (calls : List (B256 × DeliveryOutcome)) : (after cap calls).Kept := by
  induction calls using List.reverseRecOn with
  | nil => exact kept_new cap
  | append_singleton calls call ih => rw [after_concat]; exact ih.record call

theorem record_cap (h : OutcomeHistory) (call : B256 × DeliveryOutcome) :
    (h.record call).store.cap = h.store.cap := by
  cases hid : h.store.byId.contains call.1 with
  | true => rw [record, OutcomeStore.record_replaces hid]
  | false =>
    obtain ⟨gone, he⟩ := OutcomeStore.record_inserts hid call.2
    rw [record, he.cap]

theorem after_cap (cap : Nat) (calls : List (B256 × DeliveryOutcome)) :
    (after cap calls).store.cap = max cap 1 := by
  induction calls using List.reverseRecOn with
  | nil => rfl
  | append_singleton calls call ih => rw [after_concat, record_cap, ih]

/-- The call's own verdict is served after it: what it evicts is older. -/
theorem Kept.get_self (hk : h.Kept) (id : B256) (o : DeliveryOutcome) :
    (h.record (id, o)).store.get id = some o := by
  cases hid : h.store.byId.contains id with
  | true =>
    rw [(hk.record_eq hid o).2]
    exact Map.get_insert_self _ _ _
  | false =>
    obtain ⟨gone, he⟩ := OutcomeStore.record_inserts hid o
    have hnew : id ∉ h.store.order := by rw [hk.keys, hid]; exact Bool.false_ne_true
    -- what is evicted is within the queue as it was, for the cap is not zero
    have hgone : id ∉ gone := fun hmem => by
      have hfits := he.fits
      have hle := hk.fits
      have hpos := hk.cap_pos
      simp only [List.length_append, List.length_singleton] at hfits
      obtain ⟨r, hr⟩ := List.prefix_of_prefix_length_le ⟨_, he.split.symm⟩
        (List.prefix_append h.store.order [id]) (by omega)
      exact hnew (hr ▸ List.mem_append_left _ hmem)
    rw [OutcomeStore.get, OutcomeHistory.record, he.get, if_neg hgone]
    exact Map.get_insert_self _ _ _

/-- The last verdict recorded for an id. -/
def lastVerdict (id : B256) (calls : List (B256 × DeliveryOutcome)) : Option DeliveryOutcome :=
  (calls.reverse.find? fun call => call.1 == id).map (·.2)

theorem lastVerdict_concat (id : B256) (calls : List (B256 × DeliveryOutcome))
    (call : B256 × DeliveryOutcome) :
    lastVerdict id (calls ++ [call]) = if id = call.1 then some call.2 else lastVerdict id calls := by
  rw [lastVerdict, List.reverse_append, List.reverse_singleton, List.singleton_append,
    List.find?_cons]
  by_cases e : call.1 = id
  · simp [e]
  · simp [lastVerdict, Ne.symm e, beq_eq_false_iff_ne.mpr e]

/-- A verdict that the store serves is the last one recorded for its id. -/
theorem after_get {cap : Nat} {calls : List (B256 × DeliveryOutcome)} {id : B256}
    {o : DeliveryOutcome} (hget : (after cap calls).store.get id = some o) :
    lastVerdict id calls = some o := by
  induction calls using List.reverseRecOn generalizing o with
  | nil => simp [after, OutcomeStore.get, OutcomeStore.new] at hget
  | append_singleton calls call ih =>
    rw [after_concat] at hget
    rw [lastVerdict_concat]
    obtain ⟨hid, ho⟩ | ⟨hid, ho⟩ := OutcomeStore.get_record hget
    · rw [if_pos hid, ho]
    · rw [if_neg hid, ih ho]

end OutcomeHistory

/-- After any calls the queue and the map have the same ids, once each and no more than the cap; what was
inserted is what was evicted, oldest first, and then the queue; the counter has the evictions, in its own
width, and there are none before the store is full; a verdict for an id that has one neither reorders nor
evicts; each call's own verdict is served after it, and what is served is the last verdict of its id. -/
theorem outcome_store_kept (cap : Nat) (calls : List (B256 × DeliveryOutcome)) :
    let h := OutcomeHistory.after cap calls
    h.store.order.Nodup ∧ (∀ id : B256, id ∈ h.store.order ↔ h.store.byId.contains id = true) ∧
    h.store.cap = max cap 1 ∧ h.store.len ≤ h.store.cap ∧
    h.evicted.length + h.store.len = h.inserted.length ∧
    h.store.evictions = UInt64.ofNat h.evicted.length ∧
    (h.inserted.length < 2 ^ 64 → h.store.evictions.toNat + h.store.len = h.inserted.length) ∧
    h.inserted = h.evicted ++ h.store.order ∧
    h.evicted.length = h.inserted.length - h.store.cap ∧
    (∀ (id : B256) (o : DeliveryOutcome), h.store.byId.contains id = true →
      (h.store.record id o).order = h.store.order ∧
      (h.store.record id o).evictions = h.store.evictions ∧
      (h.record (id, o)).evicted = h.evicted ∧ (h.record (id, o)).inserted = h.inserted) ∧
    (∀ (id : B256) (o : DeliveryOutcome), (h.record (id, o)).store.get id = some o) ∧
    ∀ (id : B256) (o : DeliveryOutcome), h.store.get id = some o →
      OutcomeHistory.lastVerdict id calls = some o := by
  intro h
  have hk : h.Kept := OutcomeHistory.kept_after cap calls
  have hsum : h.evicted.length + h.store.len = h.inserted.length := by
    rw [hk.len_eq, hk.fifo, List.length_append]
  refine ⟨hk.nodup, hk.keys, OutcomeHistory.after_cap cap calls, ?_, hsum, hk.counted,
    fun hlt => ?_, hk.fifo, hk.full, ?_, hk.get_self, fun _ _ => OutcomeHistory.after_get⟩
  · rw [hk.len_eq]
    exact hk.fits
  · rw [hk.counted, UInt64.toNat_ofNat', Nat.mod_eq_of_lt (by omega), hsum]
  · intro id o hid
    have hr := OutcomeStore.record_replaces hid o
    have e := (hk.record_eq hid o).2
    exact ⟨by rw [hr], by rw [hr], by rw [e], by rw [e]⟩

end MessageRelayer

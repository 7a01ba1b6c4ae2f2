import MessageRelayer.Basic
import MessageRelayer.Lib.Prog

/-!
# Transactions that wait for their proof

`pending`: the queue of transactions that a proof submitter tracks
(`PendingTxs`), which over its capacity evicts one first seen earliest
(`PendingTxs.insert_spec`), and the set of those finished lately
(`BoundedSeen`). To iterate over a hash map is to ask for its entries, which
come in any order (`Map.Iteration`).
-/

namespace MessageRelayer

open Prog hiding ask

def transientBackoffBase : Duration := fromSecs 30
def transientBackoffMax : Duration := fromSecs (10 * 60)

/-- One tracked transaction. -/
structure PendingTx (M : Type) where
  firstSeen : Instant
  /-- The block that it was discovered in. -/
  block : Nat
  nextAttemptAt : Instant
  transientAttempts : Nat
  /-- What its logs say, for the checks before any proof is fetched. -/
  metadata : List M

/-- Hashes of transactions that await their submission, at most `cap`. -/
structure PendingTxs (M : Type) where
  seen : Map B256 (PendingTx M)
  cap : Nat
  bounded : seen.size ≤ cap

namespace PendingTxs

variable {M : Type}

def new (cap : Nat) : PendingTxs M where
  seen := ∅
  cap := cap
  bounded := Nat.zero_le _

def contains (p : PendingTxs M) (tx : B256) : Bool := p.seen.contains tx

def isFull (p : PendingTxs M) : Bool := decide (p.cap ≤ p.seen.size)

def remove (p : PendingTxs M) (tx : B256) : PendingTxs M where
  seen := p.seen.erase tx
  cap := p.cap
  bounded := Nat.le_trans Std.ExtTreeMap.size_erase_le p.bounded

/-- An operation on one entry; nothing happens for a transaction that is not tracked. -/
def onEntry (p : PendingTxs M) (tx : B256) (f : PendingTx M → PendingTx M) : PendingTxs M where
  seen := p.seen.modify tx f
  cap := p.cap
  bounded := by
    rw [Std.ExtTreeMap.size_modify]
    exact p.bounded

/-- How long a transaction has been tracked. -/
def age (p : PendingTxs M) (tx : B256) (now : Instant) : Option Duration :=
  p.seen[tx]?.map fun e => now - e.firstSeen

/-- The lowest discovery block of the tracked transactions. -/
def oldestPendingBlock (p : PendingTxs M) : Option Nat := (p.seen.vals.map (·.block)).min?

/-- The entry that an iteration finds first seen earliest leaves a queue that is one over `cap`. -/
def evictOldest {seen : Map B256 (PendingTx M)} (order : Map.Iteration seen) (cap : Nat)
    (h : seen.size ≤ cap + 1) : PendingTxs M × Option B256 :=
  match e : order.entries.minOn? (·.2.firstSeen) with
  | some (oldest, entry) =>
    have hm : seen.contains oldest = true :=
      Map.contains_iff.mpr ⟨entry, order.mem_entries.mp (List.minOn?_mem e)⟩
    ({ seen := seen.erase oldest
       cap := cap
       bounded := by
         rw [Std.ExtTreeMap.size_erase, if_pos hm]
         omega }, some oldest)
  | none =>
    ({ seen := seen
       cap := cap
       bounded := by
         have he : order.entries = [] := by
           by_contra hne
           have := List.isSome_minOn?_iff (f := fun x : B256 × PendingTx M => x.2.firstSeen) |>.mpr hne
           rw [e] at this
           cases this
         have hl := order.perm.length_eq
         rw [he, Std.ExtTreeMap.length_toList] at hl
         rw [← hl]
         exact Nat.zero_le _ }, none)

theorem size_insert_le (p : PendingTxs M) (tx : B256) (entry : PendingTx M) :
    (p.seen.insert tx entry).size ≤ p.cap + 1 :=
  Nat.le_trans Std.ExtTreeMap.size_insert_le (Nat.succ_le_succ p.bounded)

section
variable {E : Type} {A : E → Type}
  (iter : (seen : Map B256 (PendingTx M)) → Prog E A (Map.Iteration seen))

/-- Track a newly observed transaction, and return the one that was evicted for it. -/
def insert (p : PendingTxs M) (tx : B256) (now : Instant) (block : Nat) (metadata : List M) :
    Prog E A (PendingTxs M × Option B256) :=
  if p.contains tx then pure (p, none)
  else
    let entry : PendingTx M :=
      { firstSeen := now, block, nextAttemptAt := now, transientAttempts := 0, metadata }
    if h : (p.seen.insert tx entry).size ≤ p.cap then
      pure ({ seen := p.seen.insert tx entry, cap := p.cap, bounded := h }, none)
    else do
      let order ← iter (p.seen.insert tx entry)
      pure (evictOldest order p.cap (p.size_insert_le tx entry))

end

/-- Another entry for a transaction that is tracked, unless it is there. -/
def noteMeta [DecidableEq M] (p : PendingTxs M) (tx : B256) (item : M) : PendingTxs M :=
  p.onEntry tx fun e =>
    if item ∈ e.metadata then e else { e with metadata := e.metadata ++ [item] }

/-- At most `n` transactions whose next attempt is due, first seen first, with their metadata. -/
def ready (p : PendingTxs M) (n : Nat) (now : Instant) (order : Map.Iteration p.seen) :
    List (B256 × List M) :=
  let due := order.entries.filter fun (_, e) => decide (e.nextAttemptAt ≤ now)
  let sorted := due.mergeSort fun a b => decide (a.2.firstSeen ≤ b.2.firstSeen)
  (sorted.take n).map fun (h, e) => (h, e.metadata)

def defer (p : PendingTxs M) (tx : B256) (till : Instant) : PendingTxs M :=
  p.onEntry tx fun e => { e with nextAttemptAt := till }

/-- The backoff after a failure that was counted. -/
def transientBackoff (attempts : Nat) : Duration :=
  min (transientBackoffBase * 2 ^ min (attempts - 1) 31) transientBackoffMax

def recordTransientFailure (p : PendingTxs M) (tx : B256) (now : Instant) : PendingTxs M :=
  p.onEntry tx fun e =>
    { e with
      transientAttempts := e.transientAttempts + 1
      nextAttemptAt := now + transientBackoff (e.transientAttempts + 1) }

end PendingTxs

/-- Hashes in the order in which they were inserted, at most `cap`. -/
structure BoundedSeen where
  order : List B256
  cap : Nat
  nodup : order.Nodup
  bounded : order.length ≤ cap

namespace BoundedSeen

def new (cap : Nat) : BoundedSeen where
  order := []
  cap := cap
  nodup := List.nodup_nil
  bounded := Nat.zero_le _

def contains (s : BoundedSeen) (tx : B256) : Bool := s.order.contains tx

/-- Over the capacity, the hash that was inserted first goes. -/
def insert (s : BoundedSeen) (tx : B256) : BoundedSeen :=
  if h : tx ∈ s.order then s
  else
    have hn : (s.order ++ [tx]).Nodup :=
      List.nodup_append.mpr ⟨s.nodup, by simp, fun a ha b hb e =>
        h (List.mem_singleton.mp hb ▸ e ▸ ha)⟩
    if hc : (s.order ++ [tx]).length ≤ s.cap then
      { order := s.order ++ [tx], cap := s.cap, nodup := hn, bounded := hc }
    else
      { order := (s.order ++ [tx]).tail
        cap := s.cap
        nodup := hn.sublist (List.tail_sublist _)
        bounded := by
          have := s.bounded
          rw [List.length_tail, List.length_append, List.length_singleton]
          omega }

theorem contains_iff {s : BoundedSeen} {tx : B256} : s.contains tx = true ↔ tx ∈ s.order :=
  List.contains_iff_mem

/-- What is in the set was there, or was inserted. -/
theorem contains_insert {s : BoundedSeen} {tx a : B256} (h : (s.insert tx).contains a = true) :
    a = tx ∨ s.contains a = true := by
  rw [contains_iff, insert] at h
  rw [contains_iff]
  have happ : a ∈ s.order ++ [tx] → a = tx ∨ a ∈ s.order := fun h =>
    (List.mem_append.mp h).symm.imp List.mem_singleton.mp id
  split at h
  · exact .inr h
  · split at h
    · exact happ h
    · exact happ (List.mem_of_mem_tail h)

end BoundedSeen

/-! ## What the operations do -/

namespace PendingTxs

variable {M : Type} {p : PendingTxs M}

@[simp] theorem get_remove (p : PendingTxs M) (tx a : B256) :
    (p.remove tx).seen[a]? = if a = tx then none else p.seen[a]? := Map.get_erase p.seen tx a

@[simp] theorem get_onEntry (p : PendingTxs M) (tx a : B256) (f : PendingTx M → PendingTx M) :
    (p.onEntry tx f).seen[a]? = if a = tx then p.seen[a]?.map f else p.seen[a]? :=
  Map.get_modify p.seen tx a f

theorem contains_iff {tx : B256} : p.contains tx = true ↔ ∃ e, p.seen[tx]? = some e :=
  Map.contains_iff

/-- The lowest discovery block is at most that of any tracked transaction. -/
theorem oldestPendingBlock_le {tx : B256} {e : PendingTx M} (h : p.seen[tx]? = some e) :
    ∃ b, p.oldestPendingBlock = some b ∧ b ≤ e.block := by
  have hm : e.block ∈ p.seen.vals.map (·.block) :=
    List.mem_map.mpr ⟨e, List.mem_map.mpr ⟨(tx, e), Map.mem_toList.mpr h, rfl⟩, rfl⟩
  cases hb : p.oldestPendingBlock with
  | none =>
    rw [oldestPendingBlock, List.min?_eq_none_iff] at hb
    rw [hb] at hm
    cases hm
  | some b => exact ⟨b, rfl, (List.min?_eq_some_iff.mp hb).2 _ hm⟩

theorem mem_of_oldestPendingBlock {b : Nat} (h : p.oldestPendingBlock = some b) :
    ∃ (tx : B256) (e : PendingTx M), p.seen[tx]? = some e ∧ e.block = b := by
  obtain ⟨e, he, rfl⟩ := List.mem_map.mp (List.min?_eq_some_iff.mp h).1
  obtain ⟨⟨tx, e⟩, hm, rfl⟩ := List.mem_map.mp he
  exact ⟨tx, e, Map.mem_toList.mp hm, rfl⟩

/-- What tracking a new transaction does: over the capacity, an entry that was first seen no later
than any other, the new one among them, is evicted. -/
structure Inserted (p : PendingTxs M) (tx : B256) (entry : PendingTx M) (p' : PendingTxs M)
    (evicted : Option B256) : Prop where
  get : ∀ a, p'.seen[a]? = if evicted = some a then none else (p.seen.insert tx entry)[a]?
  oldest : ∀ a, evicted = some a → ∃ e : PendingTx M, (p.seen.insert tx entry)[a]? = some e ∧
    ∀ (b : B256) (e' : PendingTx M), (p.seen.insert tx entry)[b]? = some e' → e.firstSeen ≤ e'.firstSeen
  full : evicted.isSome → p.isFull

theorem evictOldest_spec {seen : Map B256 (PendingTx M)} (order : Map.Iteration seen) {cap : Nat}
    (h : seen.size ≤ cap + 1) :
    (∀ a, (evictOldest order cap h).1.seen[a]? =
      if (evictOldest order cap h).2 = some a then none else seen[a]?) ∧
    ∀ a, (evictOldest order cap h).2 = some a → ∃ e : PendingTx M, seen[a]? = some e ∧
      ∀ (b : B256) (e' : PendingTx M), seen[b]? = some e' → e.firstSeen ≤ e'.firstSeen := by
  unfold evictOldest
  split
  · rename_i oldest entry e
    refine ⟨fun a => ?_, fun a ha => ?_⟩
    · rw [Map.get_erase]
      by_cases ha : a = oldest
      · rw [if_pos ha, if_pos (by rw [ha])]
      · rw [if_neg ha, if_neg (by simpa using Ne.symm ha)]
    · obtain rfl : oldest = a := by simpa using ha
      refine ⟨entry, order.mem_entries.mp (List.minOn?_mem e), fun b e' hb => ?_⟩
      have hm := order.mem_entries.mpr hb
      have hle := List.apply_get_minOn?_le_of_mem (f := fun x : B256 × PendingTx M => x.2.firstSeen) hm
      simpa [e] using hle
  · exact ⟨fun a => by simp, fun a ha => by simp at ha⟩

theorem insert_spec {E W : Type} {A : E → Type} {H : Env E A W}
    {iter : (seen : Map B256 (PendingTx M)) → Prog E A (Map.Iteration seen)} {tx : B256}
    (hn : p.contains tx = false) (now : Instant) (block : Nat) (metadata : List M) (w : W) :
    wp H (p.insert iter tx now block metadata) w fun _ r =>
      p.Inserted tx { firstSeen := now, block, nextAttemptAt := now, transientAttempts := 0, metadata }
        r.1 r.2 := by
  rw [insert, hn]
  simp only [Bool.false_eq_true, ↓reduceIte]
  split
  · exact ⟨fun a => by simp, fun a ha => by simp at ha, fun h => by simp at h⟩
  · rename_i hs
    rw [wp_bind]
    refine wp_iff.mpr fun w' order _ => ?_
    obtain ⟨hget, hold⟩ := evictOldest_spec order (p.size_insert_le tx _)
    refine ⟨hget, hold, fun _ => decide_eq_true ?_⟩
    have hl := Std.ExtTreeMap.size_insert_le (t := p.seen) (k := tx) (v := (⟨now, block, now, 0, metadata⟩ : PendingTx M))
    omega

end PendingTxs

end MessageRelayer

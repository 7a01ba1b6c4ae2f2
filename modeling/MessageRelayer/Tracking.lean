import MessageRelayer.Lib.Holdback
import MessageRelayer.Pending

/-!
# A queue that holds a cursor back

What the submitters of proofs have in common (`claim::run`, `ack::run`): a
worker tracks transactions from the block at which it found them, finishes
some, and persists a cursor below the block of each that is left
(`heldCursor_saves`). It is a worker of a cursor that unfinished items hold
back (`PendingTxs.tracking`).
-/

namespace MessageRelayer.PendingTxs

open Prog

variable {M : Type} {p p' p₁ : PendingTxs M} {done done' done₁ : BoundedSeen}

/-! ## The cursor -/

/-- The cursor to persist: it never passes a transaction that is still pending. -/
def heldCursor (p : PendingTxs M) (lastSeen : Nat) : Nat :=
  match p.oldestPendingBlock with
  | none => lastSeen
  | some b => min lastSeen (b - 1)

def tracking (p : PendingTxs M) (lastSeen : Nat) (done : BoundedSeen) : Holdback.Worker B256 where
  cursor := lastSeen
  held := fun tx => p.seen[tx]?.map (·.block)
  done := fun tx => done.contains tx = true

theorem tracking_new (M : Type) (lastSeen cap doneCap : Nat) :
    (PendingTxs.new cap : PendingTxs M).tracking lastSeen (.new doneCap) =
      Holdback.Worker.start B256 lastSeen := by
  have hh : ∀ tx : B256, ((PendingTxs.new cap : PendingTxs M).tracking lastSeen
      (.new doneCap)).held tx = none := fun tx => by simp [tracking, PendingTxs.new]
  have hd : ∀ tx : B256, ((PendingTxs.new cap : PendingTxs M).tracking lastSeen
      (.new doneCap)).done tx = False := fun tx => by
    simp [tracking, BoundedSeen.new, BoundedSeen.contains]
  rw [Holdback.Worker.start, ← funext hh, ← funext hd]
  rfl

theorem tracking_held {tx : B256} {e : PendingTx M} (h : p.seen[tx]? = some e) (lastSeen : Nat) :
    (p.tracking lastSeen done).held tx = some e.block := congrArg (Option.map PendingTx.block) h

/-- The cursor that is persisted is held back by what is pending. -/
theorem heldCursor_saves (p : PendingTxs M) (lastSeen : Nat) (done : BoundedSeen) :
    (p.tracking lastSeen done).Saves (p.heldCursor lastSeen) := by
  refine ⟨?_, fun tx b hb => ?_, ?_⟩
  · show p.heldCursor lastSeen ≤ lastSeen
    rw [heldCursor]
    split
    · exact Nat.le_refl _
    · exact Nat.min_le_left _ _
  · obtain ⟨e, he, rfl⟩ := Option.map_eq_some_iff.mp hb
    obtain ⟨b, ho, hle⟩ := oldestPendingBlock_le he
    rw [heldCursor, ho]
    dsimp only
    omega
  · cases ho : p.oldestPendingBlock with
    | none => exact .inl (by rw [heldCursor, ho]; rfl)
    | some b =>
      obtain ⟨tx, e, he, rfl⟩ := mem_of_oldestPendingBlock ho
      have hc : p.heldCursor lastSeen = min lastSeen (e.block - 1) := by rw [heldCursor, ho]
      by_cases hle : lastSeen ≤ e.block - 1
      · exact .inl (by rw [hc, Nat.min_eq_left hle]; rfl)
      · exact .inr ⟨tx, e.block, tracking_held he lastSeen, by rw [hc, Nat.min_eq_right (by omega)]⟩

/-! ## Tracking transactions -/

@[simp] theorem isFull_onEntry (p : PendingTxs M) (tx : B256) (f : PendingTx M → PendingTx M) :
    (p.onEntry tx f).isFull = p.isFull := by
  simp only [isFull, onEntry, Std.ExtTreeMap.size_modify]

section
variable [DecidableEq M] {tx a : B256} {item : M}

/-- An item more loses none. -/
theorem get_noteMeta {e₀ : PendingTx M} (tx : B256) (item : M) (h : p.seen[a]? = some e₀) :
    ∃ e : PendingTx M, (p.noteMeta tx item).seen[a]? = some e ∧ e.block = e₀.block ∧
      e₀.metadata ⊆ e.metadata ∧ (a = tx → item ∈ e.metadata) := by
  rw [noteMeta, get_onEntry, h]
  split
  · rename_i ha
    refine ⟨_, rfl, ?_⟩
    dsimp only
    split
    · rename_i hi
      exact ⟨rfl, List.Subset.refl _, fun _ => hi⟩
    · exact ⟨rfl, List.subset_append_left _ _, fun _ => List.mem_append_right _ (List.mem_singleton_self _)⟩
  · rename_i ha
    exact ⟨e₀, rfl, rfl, List.Subset.refl _, fun h => absurd h ha⟩

theorem of_get_noteMeta {e : PendingTx M} (h : (p.noteMeta tx item).seen[a]? = some e) :
    ∃ e₀ : PendingTx M, p.seen[a]? = some e₀ ∧ e.block = e₀.block ∧ e₀.metadata ⊆ e.metadata := by
  cases h₀ : p.seen[a]? with
  | none =>
    rw [noteMeta, get_onEntry, h₀] at h
    simp at h
  | some e₀ =>
    obtain ⟨e', he', hb, hm, -⟩ := get_noteMeta tx item h₀
    obtain rfl : e' = e := Option.some.inj (he'.symm.trans h)
    exact ⟨e₀, rfl, hb, hm⟩

end

/-! ## Finishing transactions -/

/-- What attempts do to the queue: the finished transactions leave it, and the others keep what they
are tracked with. -/
structure Settled (p p' : PendingTxs M) (done done' : BoundedSeen) (finished : List B256) : Prop where
  entry : ∀ (tx : B256) (e : PendingTx M), p'.seen[tx]? = some e →
    ∃ e₀ : PendingTx M, p.seen[tx]? = some e₀ ∧ e.firstSeen = e₀.firstSeen ∧
      e.block = e₀.block ∧ e.metadata = e₀.metadata
  kept : ∀ (tx : B256) (e₀ : PendingTx M), p.seen[tx]? = some e₀ →
    (∃ e : PendingTx M, p'.seen[tx]? = some e) ∨ tx ∈ finished
  gone : ∀ tx ∈ finished, p'.seen[tx]? = none
  done : ∀ tx, done'.contains tx = true → done.contains tx = true ∨ tx ∈ finished

theorem Settled.refl (p : PendingTxs M) (done : BoundedSeen) : Settled p p done done [] where
  entry _ e he := ⟨e, he, rfl, rfl, rfl⟩
  kept _ e he := .inl ⟨e, he⟩
  gone _ ht := absurd ht List.not_mem_nil
  done _ ht := .inl ht

theorem Settled.finish (p : PendingTxs M) (done : BoundedSeen) (tx : B256) :
    Settled p (p.remove tx) done (done.insert tx) [tx] where
  entry a e he := by
    rw [get_remove] at he
    split at he
    · cases he
    · exact ⟨e, he, rfl, rfl, rfl⟩
  kept a e he := by
    rw [get_remove]
    split
    · rename_i ht
      exact .inr (by rw [ht]; exact List.mem_singleton_self _)
    · exact .inl ⟨e, he⟩
  gone a ha := by rw [get_remove, if_pos (List.mem_singleton.mp ha)]
  done a ha := by
    rcases BoundedSeen.contains_insert ha with rfl | ha
    · exact .inr (List.mem_singleton_self _)
    · exact .inl ha

/-- An attempt that only changes when its transaction is tried next. -/
theorem Settled.retry (p : PendingTxs M) (done : BoundedSeen) (tx : B256)
    {f : PendingTx M → PendingTx M} (hf : ∀ e, (f e).firstSeen = e.firstSeen ∧
      (f e).block = e.block ∧ (f e).metadata = e.metadata) :
    Settled p (p.onEntry tx f) done done [] where
  entry a e he := by
    rw [get_onEntry] at he
    split at he
    · obtain ⟨e₀, he₀, rfl⟩ := Option.map_eq_some_iff.mp he
      exact ⟨e₀, he₀, hf e₀⟩
    · exact ⟨e, he, rfl, rfl, rfl⟩
  kept a e he := by
    rw [get_onEntry, he]
    split
    · exact .inl ⟨_, rfl⟩
    · exact .inl ⟨_, rfl⟩
  gone _ ht := absurd ht List.not_mem_nil
  done _ ht := .inl ht

theorem Settled.append {first more : List B256} (h : Settled p p₁ done done₁ first)
    (h' : Settled p₁ p' done₁ done' more) : Settled p p' done done' (first ++ more) where
  entry tx e he := by
    obtain ⟨e₁, he₁, hf₁, hb₁, hm₁⟩ := h'.entry tx e he
    obtain ⟨e₀, he₀, hf₀, hb₀, hm₀⟩ := h.entry tx e₁ he₁
    exact ⟨e₀, he₀, hf₁.trans hf₀, hb₁.trans hb₀, hm₁.trans hm₀⟩
  kept tx e₀ he₀ := by
    rcases h.kept tx e₀ he₀ with ⟨e₁, he₁⟩ | ht
    · exact (h'.kept tx e₁ he₁).imp_right (List.mem_append_right _)
    · exact .inr (List.mem_append_left _ ht)
  gone tx ht := by
    rcases List.mem_append.mp ht with ht | ht
    · cases he : p'.seen[tx]? with
      | none => rfl
      | some e =>
        obtain ⟨e₁, he₁, -⟩ := h'.entry tx e he
        rw [h.gone tx ht] at he₁
        cases he₁
    · exact h'.gone tx ht
  done tx ht := by
    rcases h'.done tx ht with ht | ht
    · exact (h.done tx ht).imp_right (List.mem_append_left _)
    · exact .inr (List.mem_append_right _ ht)

/-- Settling does not move the cursor. -/
theorem Settled.settles {finished : List B256} (h : Settled p p' done done' finished)
    {lastSeen lastSeen' : Nat} (hl : lastSeen' = lastSeen) :
    (p.tracking lastSeen done).Settles (p'.tracking lastSeen' done') finished where
  cursor := hl
  held tx b hb := by
    obtain ⟨e, he, rfl⟩ := Option.map_eq_some_iff.mp hb
    obtain ⟨e₀, he₀, -, hb₀, -⟩ := h.entry tx e he
    rw [tracking_held he₀, hb₀]
  kept tx b hb := by
    obtain ⟨e₀, he₀, rfl⟩ := Option.map_eq_some_iff.mp hb
    refine (h.kept tx e₀ he₀).imp_left fun ⟨e, he⟩ => ?_
    obtain ⟨e₁, he₁, -, hb₁, -⟩ := h.entry tx e he
    obtain rfl : e₁ = e₀ := Option.some.inj (he₁.symm.trans he₀)
    rw [tracking_held he, hb₁]
  done := h.done

/-- The metadata of a due transaction is that of its entry. -/
theorem mem_ready {n : Nat} {now : Instant} {order : Map.Iteration p.seen} {tx : B256}
    {metadata : List M} (h : (tx, metadata) ∈ p.ready n now order) :
    ∃ e : PendingTx M, p.seen[tx]? = some e ∧ e.metadata = metadata := by
  obtain ⟨⟨tx', e⟩, hm, he⟩ := List.mem_map.mp h
  cases he
  have hs := List.mem_of_mem_take hm
  rw [List.mem_mergeSort] at hs
  exact ⟨e, order.mem_entries.mp (List.mem_filter.mp hs).1, rfl⟩

end MessageRelayer.PendingTxs

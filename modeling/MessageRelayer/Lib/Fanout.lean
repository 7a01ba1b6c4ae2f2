import Mathlib.Data.List.Basic
import Mathlib.Tactic.Common

/-!
# Broadcast channels

A broadcast channel keeps the last values that were sent, up to its capacity,
and each receiver reads them at its own position (`Fanout.recv`); one that
has fallen further behind is told how many it missed. Here the channel is the
list of all that was sent.

A receiver that picks among the values it reads has a stream of them
(`Fanout.Stream`): nothing is out of order or twice, and nothing of a kind
that it always picks is left out. It is kept when a value is sent, and when one
is read and picked (`Stream.pick_value`) or passed over (`Stream.pass_value`).
-/

namespace Fanout

variable {α : Type}

/-- What a receiver is given. -/
inductive Recv (α : Type) where
  | value (a : α)
  | lagged (missed : Nat)
  | empty

/-- What a receiver reads at a position. -/
def recv (capacity : Nat) (sent : List α) (next : Nat) : Recv α :=
  if next < sent.length - capacity then .lagged (sent.length - capacity - next)
  else match sent[next]? with
    | some a => .value a
    | none => .empty

theorem recv_value {capacity next : Nat} {sent : List α} {a : α}
    (h : recv capacity sent next = .value a) : sent[next]? = some a := by
  rw [recv] at h
  split at h
  · cases h
  split at h
  · rename_i e
    rw [e]
    cases h
    rfl
  · cases h

/-- A receiver that is told of a gap has missed exactly the values that are no longer kept. -/
theorem recv_lagged {capacity next missed : Nat} {sent : List α}
    (h : recv capacity sent next = .lagged missed) :
    0 < missed ∧ next + missed + capacity = sent.length := by
  rw [recv] at h
  split at h
  · cases h
    omega
  split at h <;> cases h

/-- A receiver whose next value is no longer kept is told so. -/
theorem recv_of_behind {capacity next : Nat} {sent : List α} (h : next + capacity < sent.length) :
    recv capacity sent next = .lagged (sent.length - capacity - next) := by
  rw [recv, if_pos (by omega)]

/-- What a receiver that began at `start` and is at `next` has picked. -/
structure Stream (pick : α → Bool) (sent : List α) (start next : Nat) (out : List α) : Prop where
  start_le : start ≤ next
  next_le : next ≤ sent.length
  sublist : out.Sublist ((sent.drop start).take (next - start))
  picked : out.filter pick = ((sent.drop start).take (next - start)).filter pick

namespace Stream

variable {pick : α → Bool} {sent out : List α} {start next : Nat} {a : α}

/-- A receiver that subscribes. -/
theorem new (pick : α → Bool) (sent : List α) : Stream pick sent sent.length sent.length [] :=
  ⟨Nat.le_refl _, Nat.le_refl _, List.nil_sublist _, by simp⟩

/-- What has been read is not changed by what is sent. -/
theorem send (h : Stream pick sent start next out) (as : List α) :
    Stream pick (sent ++ as) start next out := by
  have hle : start ≤ sent.length := Nat.le_trans h.start_le h.next_le
  have hread : ((sent ++ as).drop start).take (next - start) =
      (sent.drop start).take (next - start) := by
    have hnext := h.next_le
    rw [List.drop_append_of_le_length hle, List.take_append_of_le_length]
    rw [List.length_drop]
    omega
  refine ⟨h.start_le, ?_, ?_, ?_⟩
  · rw [List.length_append]
    exact Nat.le_trans h.next_le (Nat.le_add_right _ _)
  · rw [hread]
    exact h.sublist
  · rw [hread]
    exact h.picked

theorem read_succ (h : start ≤ next) (ha : sent[next]? = some a) :
    (sent.drop start).take (next + 1 - start) = (sent.drop start).take (next - start) ++ [a] := by
  have hn : next + 1 - start = next - start + 1 := by omega
  have hget : (sent.drop start)[next - start]? = some a := by
    rw [List.getElem?_drop, Nat.add_sub_cancel' h]
    exact ha
  rw [hn, List.take_add_one, hget]
  rfl

/-- A value is read and picked. -/
theorem pick_value (h : Stream pick sent start next out) (ha : sent[next]? = some a) :
    Stream pick sent start (next + 1) (out ++ [a]) := by
  have hlt : next < sent.length := (List.getElem?_eq_some_iff.mp ha).1
  refine ⟨Nat.le_succ_of_le h.start_le, hlt, ?_, ?_⟩
  · rw [read_succ h.start_le ha]
    exact h.sublist.append (List.Sublist.refl _)
  · rw [read_succ h.start_le ha, List.filter_append, List.filter_append, h.picked]

/-- A value is read and passed over. -/
theorem pass_value (h : Stream pick sent start next out) (ha : sent[next]? = some a)
    (hp : pick a = false) : Stream pick sent start (next + 1) out := by
  have hlt : next < sent.length := (List.getElem?_eq_some_iff.mp ha).1
  refine ⟨Nat.le_succ_of_le h.start_le, hlt, ?_, ?_⟩
  · rw [read_succ h.start_le ha]
    exact h.sublist.trans (List.sublist_append_left _ _)
  · rw [read_succ h.start_le ha, List.filter_append, h.picked]
    simp [hp]

/-- What is always picked is a prefix of all of it, from the start on. -/
theorem prefix_drop (h : Stream pick sent start next out) :
    out.filter pick <+: (sent.drop start).filter pick := by
  rw [h.picked]
  exact (List.take_prefix _ _).filter _

/-- A receiver that has read everything has picked everything. -/
theorem caught_up (h : Stream pick sent start sent.length out) :
    out.filter pick = (sent.drop start).filter pick := by
  rw [h.picked, List.take_of_length_le]
  simp

end Stream

end Fanout

import Mathlib.Data.List.Induction
import Mathlib.Data.List.Sort
import MessageRelayer.Work.Lap

/-!
# Every record gets its turn

A cursor is fair (`Fair`) when its count is the number of records, its window
ascends from its position, all laps but the last were complete, and whatever
was present when the last lap began and was not removed is examined, in the
window, or ahead of it. The window of `refill` is the beginning of the sorted
list of the ids ahead (`window_eq`), so a refill keeps this, as do `takeNext`
and all that other calls do to the records (`Fair.changed`). The result is
`lap_fairness`.
-/

namespace MessageRelayer

open Prog WorkM

/-! ## The window -/

theorem insertSorted_eq (id : B256) (l : List B256) :
    insertSorted id l = l.orderedInsert (· ≤ ·) id := by
  induction l with
  | nil => rfl
  | cons x l ih => rw [insertSorted, List.orderedInsert_cons, ih]

theorem orderedInsert_take (id : B256) (l : List B256) (n : Nat) :
    ((l.take n).orderedInsert (· ≤ ·) id).take n = (l.orderedInsert (· ≤ ·) id).take n := by
  induction l generalizing n with
  | nil => rw [List.take_nil]
  | cons x l ih =>
    cases n with
    | zero => rfl
    | succ n =>
      rw [List.take_succ_cons, List.orderedInsert_cons, List.orderedInsert_cons]
      split
      · cases n with
        | zero => rfl
        | succ n => simp [List.take_take]
      · rw [List.take_succ_cons, List.take_succ_cons, ih]

theorem keepSmallest_eq (l : List B256) (id : B256) :
    keepSmallest (l.take windowSize) id = (l.orderedInsert (· ≤ ·) id).take windowSize := by
  have hl := List.orderedInsert_length (· ≤ ·) (l.take windowSize) id
  have ht := List.length_take_le windowSize l
  rw [keepSmallest, insertSorted_eq, ← orderedInsert_take]
  split
  · rw [List.dropLast_eq_take]
    congr 1
    omega
  · exact (List.take_of_length_le (by omega)).symm

/-- The window is the beginning of the sorted list. -/
theorem window_eq (ids : List B256) :
    ids.foldl keepSmallest [] = (ids.reverse.insertionSort (· ≤ ·)).take windowSize := by
  induction ids using List.reverseRecOn with
  | nil => rfl
  | append_singleton ids id ih =>
    rw [List.foldl_append, ih, List.foldl_cons, List.foldl_nil, keepSmallest_eq,
      List.reverse_append, List.reverse_singleton, List.singleton_append, List.insertionSort_cons]

theorem window_spec {ids : List B256} (hn : ids.Nodup) :
    (ids.foldl keepSmallest []).Pairwise (· < ·) ∧
    (∀ id ∈ ids.foldl keepSmallest [], id ∈ ids) ∧
    (∀ id ∈ ids, id ∈ ids.foldl keepSmallest [] ∨ ∀ x ∈ ids.foldl keepSmallest [], x < id) ∧
    (ids.foldl keepSmallest [] = [] → ids = []) := by
  have hp := List.perm_insertionSort (· ≤ ·) ids.reverse
  have hm : ∀ id, id ∈ ids.reverse.insertionSort (· ≤ ·) ↔ id ∈ ids := fun id => by
    rw [hp.mem_iff, List.mem_reverse]
  have hs : (ids.reverse.insertionSort (· ≤ ·)).Pairwise (· < ·) := by
    refine List.Pairwise.imp₂ (fun a b hle hne => ?_) (List.pairwise_insertionSort (· ≤ ·) _)
      (hp.nodup_iff.mpr (List.nodup_reverse.mpr hn))
    exact BitVec.lt_of_le_ne hle hne
  rw [window_eq]
  rw [← List.take_append_drop windowSize (ids.reverse.insertionSort (· ≤ ·))] at hs
  obtain ⟨ht, -, hd⟩ := List.pairwise_append.mp hs
  refine ⟨ht, fun id hi => (hm id).mp (List.mem_of_mem_take hi), fun id hi => ?_, fun he => ?_⟩
  · have hi := (hm id).mpr hi
    rw [← List.take_append_drop windowSize (ids.reverse.insertionSort (· ≤ ·))] at hi
    rcases List.mem_append.mp hi with hi | hi
    · exact .inl hi
    · exact .inr fun x hx => hd x hx id hi
  · rcases List.take_eq_nil_iff.mp he with h0 | hnil
    · exact absurd h0 (by decide)
    · exact List.eq_nil_iff_forall_not_mem.mpr fun id hi => by
        have := (hm id).mpr hi
        simp [hnil] at this

/-- The end of a lap is the largest id. -/
theorem maxId_spec (ids : List B256) (hne : ids ≠ []) :
    ∃ last ∈ ids, ids.foldl maxId none = some last ∧ ∀ id ∈ ids, id ≤ last := by
  induction ids using List.reverseRecOn with
  | nil => exact absurd rfl hne
  | append_singleton ids id ih =>
    rw [List.foldl_append, List.foldl_cons, List.foldl_nil]
    by_cases h : ids = []
    · subst h
      exact ⟨id, by simp, rfl, by simp⟩
    · obtain ⟨last, hl, he, hb⟩ := ih h
      rw [he, maxId]
      split
      · rename_i hlt
        refine ⟨id, by simp, rfl, fun x hx => ?_⟩
        rcases List.mem_append.mp hx with hx | hx
        · exact BitVec.le_trans (hb x hx) (BitVec.le_of_lt hlt)
        · rw [List.mem_singleton.mp hx]; exact BitVec.le_refl _
      · rename_i hlt
        refine ⟨last, by simp [hl], rfl, fun x hx => ?_⟩
        rcases List.mem_append.mp hx with hx | hx
        · exact hb x hx
        · rw [List.mem_singleton.mp hx]; exact BitVec.not_lt.mp hlt

/-! ## Fair cursors -/

/-- Present when the lap began, and not removed since. -/
def Lap.Kept (lap : Lap) (id : B256) : Prop := id ∈ lap.present ∧ id ∉ lap.removed

/-- The lap examines in ascending order, up to the largest id that was present. -/
structure Lap.Ordered (lap : Lap) : Prop where
  ascending : lap.examined.Pairwise (· < ·)
  bounded : ∀ id ∈ lap.examined, ∃ last ∈ lap.present, id ≤ last

/-- All that was kept is examined. -/
def Lap.Complete (lap : Lap) : Prop := ∀ id, lap.Kept id → id ∈ lap.examined

/-- Strictly after the position of the walk. -/
def RouteCursor.Ahead (cursor : RouteCursor) (id : B256) : Prop :=
  ∀ after, cursor.after = some after → after < id

/-- The lap that the cursor is in. -/
structure Current (records : Map B256 IndexedMessage) (cursor : RouteCursor) (lap : Lap) :
    Prop where
  lapEnd : ∃ last ∈ lap.present, cursor.lapEnd = some last ∧ ∀ id ∈ lap.present, id ≤ last
  within : ∀ id ∈ cursor.window, ∀ last, cursor.lapEnd = some last → id ≤ last
  passed : ∀ id ∈ lap.examined, ∃ after, cursor.after = some after ∧ id ≤ after
  recorded : ∀ id, lap.Kept id → records.contains id = true
  ahead : ∀ id, lap.Kept id → id ∈ lap.examined ∨ id ∈ cursor.window ∨
    (∀ x ∈ cursor.window, x < id) ∧ cursor.Ahead id

structure Fair (records : Map B256 IndexedMessage) (cursor : RouteCursor) (laps : List Lap) :
    Prop where
  live : cursor.liveRecords = records.size
  ascending : cursor.window.Pairwise (· < ·)
  next : ∀ id ∈ cursor.window, cursor.Ahead id
  ordered : ∀ lap ∈ laps, lap.Ordered
  complete : ∀ lap ∈ laps.tail, lap.Complete
  finished : cursor.after = none → cursor.window = [] → ∀ lap ∈ laps, lap.Complete
  current : ¬(cursor.after = none ∧ cursor.window = []) →
    ∃ lap rest, laps = lap :: rest ∧ Current records cursor lap

theorem Fair.start (records : Map B256 IndexedMessage) :
    Fair records { liveRecords := records.size, after := none, window := [], lapEnd := none } [] where
  live := rfl
  ascending := .nil
  next := nofun
  ordered := nofun
  complete := nofun
  finished := nofun
  current h := absurd ⟨rfl, rfl⟩ h

section
variable {records records' : Map B256 IndexedMessage} {cursor : RouteCursor} {laps : List Lap}

/-- The removals of a call, on the laps. -/
theorem removed_on (ids : List B256) (laps : List Lap) :
    (ids.map LapEvent.removed).foldl LapEvent.on laps = match laps with
      | [] => []
      | lap :: rest => { lap with removed := ids.reverse ++ lap.removed } :: rest := by
  induction ids generalizing laps with
  | nil => cases laps <;> rfl
  | cons id ids ih =>
    rw [List.map_cons, List.foldl_cons, ih]
    cases laps with
    | nil => rfl
    | cons lap rest => simp [LapEvent.on]

@[simp] theorem gone_self (records : Map B256 IndexedMessage) : gone records records = [] := by
  rw [gone, List.map_eq_nil_iff, List.filter_eq_nil_iff]
  intro id hi
  rw [Map.contains_iff.mpr (Map.mem_keys.mp hi)]
  decide

/-- Whatever becomes of the records, as long as they are counted. -/
theorem Fair.changed (h : Fair records cursor laps) (records' : Map B256 IndexedMessage) :
    Fair records' { cursor with liveRecords := records'.size }
      ((gone records records').foldl LapEvent.on laps) := by
  rw [gone, removed_on]
  cases laps with
  | nil =>
    exact ⟨rfl, h.ascending, h.next, nofun, nofun, nofun, fun ho => by
      obtain ⟨lap, rest, he, -⟩ := h.current ho
      cases he⟩
  | cons lap rest =>
    have hk : ∀ {removed : List B256} {id : B256},
        { lap with removed := removed ++ lap.removed : Lap }.Kept id →
          lap.Kept id ∧ id ∉ removed := fun hk =>
      ⟨⟨hk.1, fun hr => hk.2 (List.mem_append_right _ hr)⟩,
        fun hr => hk.2 (List.mem_append_left _ hr)⟩
    have hl := h.ordered lap List.mem_cons_self
    refine ⟨rfl, h.ascending, h.next, ?_, h.complete, fun ha hw => ?_, fun ho => ?_⟩
    · refine List.forall_mem_cons.mpr ⟨⟨hl.ascending, hl.bounded⟩, fun l hm => ?_⟩
      exact h.ordered l (List.mem_cons_of_mem _ hm)
    · refine List.forall_mem_cons.mpr ⟨fun id hi => ?_, h.complete⟩
      exact h.finished ha hw lap List.mem_cons_self id (hk hi).1
    · obtain ⟨_, _, he, hc⟩ := h.current ho
      cases he
      refine ⟨_, _, rfl, hc.lapEnd, hc.within, hc.passed, fun id hi => ?_,
        fun id hi => hc.ahead id (hk hi).1⟩
      obtain ⟨hi, hr⟩ := hk hi
      have := hc.recorded id hi
      by_contra hn
      refine hr (List.mem_reverse.mpr (List.mem_filter.mpr ⟨?_, ?_⟩))
      · exact Map.mem_keys.mpr (Map.contains_iff.mp this)
      · rw [Bool.not_eq_true']
        exact Bool.eq_false_iff.mpr hn

/-- One id from the window. -/
theorem Fair.taken (h : Fair records cursor laps) {id : B256} {window : List B256}
    (hw : cursor.window = id :: window) :
    Fair records { cursor with window, after := some id } (LapEvent.on laps (.examined id)) := by
  obtain ⟨lap, rest, rfl, hc⟩ := h.current (by simp [hw])
  have hp := h.ascending
  rw [hw, List.pairwise_cons] at hp
  have hn : cursor.Ahead id := h.next id (by simp [hw])
  have hl := h.ordered lap List.mem_cons_self
  obtain ⟨last, hm, he, hb⟩ := hc.lapEnd
  have hx : ∀ x ∈ lap.examined, x < id := fun x hx => by
    obtain ⟨after, ha, hle⟩ := hc.passed x hx
    have := hn after ha
    bv_omega
  refine ⟨h.live, hp.2, fun x hx a ha => ?_, ?_, h.complete, nofun, fun _ => ?_⟩
  · cases ha
    exact hp.1 x hx
  · refine List.forall_mem_cons.mpr ⟨⟨?_, fun x hx' => ?_⟩, fun l hm =>
      h.ordered l (List.mem_cons_of_mem _ hm)⟩
    · refine List.pairwise_append.mpr ⟨hl.ascending, by simp, fun x hx' y hy => ?_⟩
      rw [List.mem_singleton.mp hy]
      exact hx x hx'
    · rcases List.mem_append.mp hx' with hx' | hx'
      · exact hl.bounded x hx'
      · rw [List.mem_singleton.mp hx']
        exact ⟨last, hm, hc.within id (by simp [hw]) last he⟩
  · refine ⟨_, _, rfl, ⟨last, hm, he, hb⟩, fun x hx => hc.within x (by simp [hw, hx]), fun x hx' => ?_,
      hc.recorded, fun x hk => ?_⟩
    · refine ⟨id, rfl, ?_⟩
      rcases List.mem_append.mp hx' with hx' | hx'
      · exact BitVec.le_of_lt (hx x hx')
      · rw [List.mem_singleton.mp hx']
        exact BitVec.le_refl _
    · rcases hc.ahead x hk with hx' | hx' | ⟨hx', -⟩
      · exact .inl (List.mem_append_left _ hx')
      · rw [hw] at hx'
        rcases List.mem_cons.mp hx' with rfl | hx'
        · exact .inl (List.mem_append_right _ (List.mem_singleton_self _))
        · exact .inr (.inl hx')
      · rw [hw] at hx'
        refine .inr (.inr ⟨fun y hy => hx' y (List.mem_cons_of_mem _ hy), fun a ha => ?_⟩)
        cases ha
        exact hx' _ List.mem_cons_self

/-- The end of a lap. -/
theorem Fair.ended (h : Fair records cursor laps) (hw : cursor.window = [])
    (hc : ∀ lap ∈ laps, lap.Complete) : Fair records { cursor with after := none } laps :=
  ⟨h.live, h.ascending, nofun, h.ordered, h.complete, fun _ _ => hc, fun ho => absurd ⟨rfl, hw⟩ ho⟩

theorem skips_eq_false {id : B256} : cursor.skips id = false ↔
    cursor.Ahead id ∧ (cursor.after ≠ none → ∀ last, cursor.lapEnd = some last → id ≤ last) := by
  unfold RouteCursor.skips RouteCursor.Ahead
  cases cursor.after <;> cases cursor.lapEnd <;> simp

theorem mem_perm_keys {ids : List B256} (hp : ids.Perm records.keys) {id : B256} :
    id ∈ ids ↔ records.contains id = true := by
  rw [hp.mem_iff, Map.mem_keys, Map.contains_iff]

/-- A refill without a position starts a lap. -/
theorem Fair.refill_start (h : Fair records cursor laps) (ha : cursor.after = none)
    (hw : cursor.window = []) (hl : cursor.liveRecords ≠ 0) {ids : List B256}
    (hp : ids.Perm records.keys) :
    (cursor.refilled ids).window ≠ [] ∧
      Fair records (cursor.refilled ids) (LapEvent.on laps (.start records.keys)) := by
  have hf : ids.filter (fun id => !cursor.skips id) = ids := by
    refine List.filter_eq_self.mpr fun id _ => ?_
    rw [skips_eq_false.mpr ⟨fun a e => by simp [ha] at e, fun e => absurd ha e⟩]
    rfl
  have hne : ids ≠ [] := by
    intro e
    have := hp.length_eq
    rw [e, Std.ExtTreeMap.length_keys, ← h.live] at this
    exact hl this.symm
  obtain ⟨hs, hm, hk, hn⟩ := window_spec (hp.nodup_iff.mpr (Map.nodup_keys records))
  obtain ⟨last, hlm, hle, hlb⟩ := maxId_spec ids hne
  have hwin : (cursor.refilled ids).window = ids.foldl keepSmallest [] := by
    rw [RouteCursor.refilled, hf]
  have hend : (cursor.refilled ids).lapEnd = some last := by
    simp [RouteCursor.refilled, ha, hle]
  have hna : (cursor.refilled ids).after = none := ha
  refine ⟨fun e => hne (hn (hwin ▸ e)), h.live, hwin ▸ hs, ?_, ?_, h.finished ha hw, ?_, fun _ => ?_⟩
  · exact fun id _ a e => by simp [hna] at e
  · exact List.forall_mem_cons.mpr ⟨⟨.nil, nofun⟩, h.ordered⟩
  · exact fun _ e => absurd (hn (hwin ▸ e)) hne
  · refine ⟨_, _, rfl, ⟨last, hp.mem_iff.mp hlm, hend, fun id hi => hlb id (hp.mem_iff.mpr hi)⟩,
      fun id hi l e => ?_, nofun, fun id hi => ?_, fun id hi => .inr ?_⟩
    · rw [hend] at e
      cases e
      exact hlb id (hm id (hwin ▸ hi))
    · exact (mem_perm_keys hp).mp (hp.mem_iff.mpr hi.1)
    · rw [hwin]
      exact (hk id (hp.mem_iff.mpr hi.1)).imp_right fun hx => ⟨hx, fun a e => by simp [hna] at e⟩

/-- A refill within a lap finds what is left of it. -/
theorem Fair.refill_on (h : Fair records cursor laps) (ha : cursor.after ≠ none)
    (hw : cursor.window = []) {ids : List B256} (hp : ids.Perm records.keys) :
    Fair records (cursor.refilled ids) laps ∧
      ((cursor.refilled ids).window = [] → ∀ lap ∈ laps, lap.Complete) := by
  obtain ⟨hs, hm, hk, hn⟩ :=
    window_spec ((hp.nodup_iff.mpr (Map.nodup_keys records)).filter fun id => !cursor.skips id)
  obtain ⟨lap, rest, rfl, hc⟩ := h.current fun ho => ha ho.1
  obtain ⟨last, hlm, hle, hlb⟩ := hc.lapEnd
  have hend : (cursor.refilled ids).lapEnd = some last := by
    simp [RouteCursor.refilled, ha, hle]
  have hskip : ∀ id ∈ (cursor.refilled ids).window, cursor.skips id = false := fun id hi => by
    simpa using (List.mem_filter.mp (hm id hi)).2
  have hleft : ∀ id, lap.Kept id → id ∈ lap.examined ∨
      id ∈ ids.filter (fun id => !cursor.skips id) := fun id hi => by
    rcases hc.ahead id hi with hx | hx | ⟨-, hx⟩
    · exact .inl hx
    · rw [hw] at hx
      cases hx
    · refine .inr (List.mem_filter.mpr ⟨(mem_perm_keys hp).mpr (hc.recorded id hi), ?_⟩)
      rw [skips_eq_false.mpr ⟨hx, fun _ l e => ?_⟩]
      · rfl
      · rw [hle] at e
        cases e
        exact hlb id hi.1
  have hcomplete : (cursor.refilled ids).window = [] → lap.Complete := fun e id hi => by
    refine (hleft id hi).resolve_right fun hx => ?_
    rw [hn e] at hx
    cases hx
  refine ⟨⟨h.live, hs, fun id hi => (skips_eq_false.mp (hskip id hi)).1, h.ordered, h.complete,
      fun e => absurd e ha, fun _ => ⟨lap, rest, rfl, ⟨last, hlm, hend, hlb⟩, fun id hi l e => ?_,
        hc.passed, hc.recorded, fun id hi => ?_⟩⟩,
    fun e => List.forall_mem_cons.mpr ⟨hcomplete e, h.complete⟩⟩
  · rw [hend] at e
    cases e
    exact (skips_eq_false.mp (hskip id hi)).2 ha last hle
  · refine (hleft id hi).imp_right fun hx => (hk id hx).imp_right fun hb => ⟨hb, ?_⟩
    have hs : cursor.skips id = false := by simpa using (List.mem_filter.mp hx).2
    exact (skips_eq_false.mp hs).1

/-- Without records, nothing is kept. -/
theorem Fair.complete_of_empty (h : Fair records cursor laps) (hw : cursor.window = [])
    (hl : cursor.liveRecords = 0) : ∀ lap ∈ laps, lap.Complete := by
  by_cases ha : cursor.after = none
  · exact h.finished ha hw
  · obtain ⟨lap, rest, rfl, hc⟩ := h.current fun ho => ha ho.1
    refine List.forall_mem_cons.mpr ⟨fun id hi => ?_, h.complete⟩
    have hi := hc.recorded id hi
    rw [h.live] at hl
    have he : records.keys = [] :=
      List.eq_nil_of_length_eq_zero (by rw [Std.ExtTreeMap.length_keys, hl])
    have hk := (mem_perm_keys (List.Perm.refl records.keys)).mpr hi
    rw [he] at hk
    cases hk

end

end MessageRelayer

import MessageRelayer.Basic
import MessageRelayer.Lib.Runs

/-!
# Requests for more gas

`delivery::TopUpLedger`: what a delivery worker keeps of the `requestTopUp`
transactions that it has sent for a message. Each under-funded refusal asks
the ledger whether to send one (`TopUpLedger.begin`); if so, a task of its own
sends it, and tells the ledger at its end (`settle`, `fail`). The tasks run
beside the worker, and end in any order.

The mark of a message says how often it was begun and whether a task is
running (`Marked`), whatever the order of refusals and completions. So at most
three requests are sent for a message, one at a time, and none after one has
settled it (`top_up_attempts`).
-/

namespace MessageRelayer

def maxTopUpAttempts : Nat := 3

/-- What is known of the requests for a message. -/
inductive TopUpMark where
  | inFlight (attempts : Nat)
  /-- One has landed, or was rejected for good. -/
  | settled
  | failed (attempts : Nat)
  deriving DecidableEq

structure TopUpLedger where
  marks : Map B256 TopUpMark

namespace TopUpLedger

/-- Whether a request goes out now: its number, or why not. -/
def begin (ledger : TopUpLedger) (id : B256) : Except String (TopUpLedger × Nat) :=
  match ledger.marks[id]? with
  | some (.inFlight _) => .error "a request is already in flight"
  | some .settled => .error "already requested"
  | some (.failed attempts) =>
    if maxTopUpAttempts ≤ attempts then .error "attempts exhausted"
    else .ok (⟨ledger.marks.insert id (.inFlight (attempts + 1))⟩, attempts + 1)
  | none => .ok (⟨ledger.marks.insert id (.inFlight 1)⟩, 1)

/-- The request landed, or was rejected for good. -/
def settle (ledger : TopUpLedger) (id : B256) : TopUpLedger := ⟨ledger.marks.insert id .settled⟩

/-- The request did not complete. -/
def fail (ledger : TopUpLedger) (id : B256) : TopUpLedger :=
  match ledger.marks[id]? with
  | some (.inFlight attempts) | some (.failed attempts) =>
    ⟨ledger.marks.insert id (.failed attempts)⟩
  | some .settled => ledger
  | none => ⟨ledger.marks.insert id (.failed 1)⟩

end TopUpLedger

/-! ## Requests and their tasks -/

/-- The ledger, and the tasks that are running: the message of each, and the number of its request. -/
structure TopUps where
  ledger : TopUpLedger
  tasks : List (B256 × Nat)

def TopUps.start : TopUps := ⟨⟨∅⟩, []⟩

inductive TopUpAction where
  /-- A delivery was refused as under-funded; with what `begin` said. -/
  | refused (id : B256) (answer : Except String Nat)
  /-- A task has ended. -/
  | completed (id : B256) (attempt : Nat) (landed : Bool)

/-- `TopUpRequester::request`, and the end of a task that it has spawned. -/
inductive TopUpStep : TopUps → TopUpAction → TopUps → Prop where
  | sent {s : TopUps} {id : B256} {ledger : TopUpLedger} {n : Nat}
      (h : s.ledger.begin id = .ok (ledger, n)) :
      TopUpStep s (.refused id (.ok n)) ⟨ledger, s.tasks ++ [(id, n)]⟩
  | notSent {s : TopUps} {id : B256} {why : String} (h : s.ledger.begin id = .error why) :
      TopUpStep s (.refused id (.error why)) s
  | completed {s : TopUps} {id : B256} {n : Nat} {tasks tasks' : List (B256 × Nat)} {landed : Bool}
      (h : s.tasks = tasks ++ (id, n) :: tasks') :
      TopUpStep s (.completed id n landed)
        ⟨if landed then s.ledger.settle id else s.ledger.fail id, tasks ++ tasks'⟩

/-- How often a request for a message was begun. -/
def begun (id : B256) (l : List TopUpAction) : Nat :=
  l.countP fun
    | .refused a (.ok _) => decide (a = id)
    | .refused _ (.error _) | .completed .. => false

/-- A request for a message has settled it. -/
def TopUpSettled (id : B256) (l : List TopUpAction) : Prop := ∃ n, .completed id n true ∈ l

/-- The running tasks of a message. -/
def TopUps.tasksOf (s : TopUps) (id : B256) : List (B256 × Nat) :=
  s.tasks.filter fun t => decide (t.1 = id)

/-- What the mark of a message says of all that has happened. -/
def Marked (l : List TopUpAction) (s : TopUps) (id : B256) : Prop :=
  match s.ledger.marks[id]? with
  | none => begun id l = 0 ∧ s.tasksOf id = [] ∧ ¬TopUpSettled id l
  | some (.inFlight n) =>
    begun id l = n ∧ n ≤ maxTopUpAttempts ∧ s.tasksOf id = [(id, n)] ∧ ¬TopUpSettled id l
  | some .settled => begun id l ≤ maxTopUpAttempts ∧ s.tasksOf id = [] ∧ TopUpSettled id l
  | some (.failed n) =>
    begun id l = n ∧ n ≤ maxTopUpAttempts ∧ s.tasksOf id = [] ∧ ¬TopUpSettled id l

section
variable {l : List TopUpAction} {s s' : TopUps} {id a : B256} {n : Nat}

theorem begun_concat (id : B256) (l : List TopUpAction) (c : TopUpAction) :
    begun id (l ++ [c]) = begun id l + begun id [c] := List.countP_append

theorem settled_concat {c : TopUpAction} :
    TopUpSettled id (l ++ [c]) ↔ TopUpSettled id l ∨ ∃ n, c = .completed id n true := by
  simp only [TopUpSettled, List.mem_append, List.mem_singleton, exists_or, eq_comm]

/-- All that lets a request go out. -/
theorem TopUpLedger.begin_ok {ledger ledger' : TopUpLedger} (h : ledger.begin id = .ok (ledger', n)) :
    ledger' = ⟨ledger.marks.insert id (.inFlight n)⟩ ∧
    (ledger.marks[id]? = none ∧ n = 1 ∨
      ∃ k, ledger.marks[id]? = some (.failed k) ∧ k < maxTopUpAttempts ∧ n = k + 1) := by
  rw [begin] at h
  split at h
  · cases h
  · cases h
  · rename_i k hk
    split at h
    · cases h
    · rename_i hlt
      cases h
      exact ⟨rfl, .inr ⟨k, hk, Nat.not_le.mp hlt, rfl⟩⟩
  · rename_i hn
    cases h
    exact ⟨rfl, .inl ⟨hn, rfl⟩⟩

/-- A message that the action is not about keeps what its mark says. -/
theorem Marked.other {c : TopUpAction} (h : Marked l s id)
    (hm : s'.ledger.marks[id]? = s.ledger.marks[id]?) (ht : s'.tasksOf id = s.tasksOf id)
    (hb : begun id [c] = 0) (hs : ∀ n, c ≠ .completed id n true) : Marked (l ++ [c]) s' id := by
  have hset : TopUpSettled id (l ++ [c]) ↔ TopUpSettled id l :=
    settled_concat.trans (or_iff_left fun ⟨n, e⟩ => hs n e)
  have hbegun : begun id (l ++ [c]) = begun id l := by rw [begun_concat, hb, Nat.add_zero]
  rw [Marked] at h ⊢
  rwa [hm, ht, hset, hbegun]

theorem Marked.sent (h : Marked l s id) {ledger : TopUpLedger}
    (hb : s.ledger.begin id = .ok (ledger, n)) :
    Marked (l ++ [.refused id (.ok n)]) ⟨ledger, s.tasks ++ [(id, n)]⟩ id := by
  obtain ⟨rfl, hcase⟩ := TopUpLedger.begin_ok hb
  have hone : begun id [.refused id (.ok n)] = 1 := by simp [begun]
  have hset : TopUpSettled id (l ++ [.refused id (.ok n)]) ↔ TopUpSettled id l :=
    settled_concat.trans (or_iff_left fun ⟨_, e⟩ => by cases e)
  have htask : (⟨⟨s.ledger.marks.insert id (.inFlight n)⟩, s.tasks ++ [(id, n)]⟩ : TopUps).tasksOf id =
      s.tasksOf id ++ [(id, n)] := by simp [TopUps.tasksOf]
  rw [Marked] at h ⊢
  simp only [Map.get_insert_self, begun_concat, hone, hset, htask]
  obtain ⟨hn, rfl⟩ | ⟨k, hk, hlt, rfl⟩ := hcase
  · simp only [hn] at h
    exact ⟨by omega, by decide, by rw [h.2.1]; rfl, h.2.2⟩
  · simp only [hk] at h
    exact ⟨by omega, hlt, by rw [h.2.2.1]; rfl, h.2.2.2⟩

/-- A task that runs is the one that its message's mark stands for. -/
theorem Marked.running (h : Marked l s id) {tasks tasks' : List (B256 × Nat)}
    (ht : s.tasks = tasks ++ (id, n) :: tasks') :
    s.ledger.marks[id]? = some (.inFlight n) ∧ begun id l = n ∧ n ≤ maxTopUpAttempts ∧
      ¬TopUpSettled id l ∧ (tasks ++ tasks').filter (fun t => decide (t.1 = id)) = [] := by
  have htasks : s.tasksOf id = tasks.filter (fun t => decide (t.1 = id)) ++
      (id, n) :: tasks'.filter fun t => decide (t.1 = id) := by
    simp [TopUps.tasksOf, ht]
  have hne : s.tasksOf id ≠ [] := by simp [htasks]
  rw [Marked] at h
  split at h
  · exact absurd h.2.1 hne
  · rename_i k hk
    obtain ⟨hb, hle, hone, hset⟩ := h
    rw [htasks] at hone
    obtain ⟨hl, hr⟩ | ⟨_, hr⟩ := List.append_eq_singleton_iff.mp hone
    · obtain ⟨he, hnil⟩ := List.cons.inj hr
      cases he
      exact ⟨hk, hb, hle, hset, by rw [List.filter_append, hl, hnil, List.append_nil]⟩
    · cases hr
  · exact absurd h.2.1 hne
  · exact absurd h.2.2.1 hne

theorem Marked.begun_le (h : Marked l s id) : begun id l ≤ maxTopUpAttempts := by
  rw [Marked] at h
  split at h
  · rw [h.1]
    exact Nat.zero_le _
  · rw [h.1]
    exact h.2.1
  · exact h.1
  · rw [h.1]
    exact h.2.1

/-- A request goes out only when none is running and none has settled the message. -/
theorem Marked.free (h : Marked l s id) {ledger : TopUpLedger}
    (hb : s.ledger.begin id = .ok (ledger, n)) :
    (∀ m, (id, m) ∉ s.tasks) ∧ ¬TopUpSettled id l ∧ n = begun id l + 1 := by
  have hno : s.tasksOf id = [] → ∀ m, (id, m) ∉ s.tasks := fun he m hmem =>
    List.filter_eq_nil_iff.mp he (id, m) hmem (decide_eq_true rfl)
  rw [Marked] at h
  obtain ⟨-, ⟨hn, rfl⟩ | ⟨k, hk, -, rfl⟩⟩ := TopUpLedger.begin_ok hb
  · simp only [hn] at h
    exact ⟨hno h.2.1, h.2.2, by omega⟩
  · simp only [hk] at h
    exact ⟨hno h.2.2.1, h.2.2.2, by omega⟩

theorem Marked.completed (h : Marked l s id) {tasks tasks' : List (B256 × Nat)} (landed : Bool)
    (ht : s.tasks = tasks ++ (id, n) :: tasks') :
    Marked (l ++ [.completed id n landed])
      ⟨if landed then s.ledger.settle id else s.ledger.fail id, tasks ++ tasks'⟩ id := by
  obtain ⟨hm, hb, hle, hset, hnone⟩ := h.running ht
  have hzero : begun id [.completed id n landed] = 0 := rfl
  rw [Marked]
  cases landed with
  | true =>
    simp only [if_true, TopUpLedger.settle, Map.get_insert_self, begun_concat, hzero]
    exact ⟨by omega, hnone, settled_concat.mpr (.inr ⟨n, rfl⟩)⟩
  | false =>
    simp only [Bool.false_eq_true, if_false, TopUpLedger.fail, hm, Map.get_insert_self, begun_concat, hzero]
    exact ⟨by omega, hle, hnone, fun h => hset ((settled_concat.mp h).resolve_right fun ⟨_, e⟩ => by
      cases e)⟩

/-- A step leaves the marks of all other messages. -/
theorem TopUpLedger.fail_other (ledger : TopUpLedger) (h : id ≠ a) :
    (ledger.fail a).marks[id]? = ledger.marks[id]? := by
  rw [fail]
  split <;> first | rfl | exact Map.get_insert_ne h

theorem Marked.step {c : TopUpAction} (h : ∀ id, Marked l s id) (hs : TopUpStep s c s') (id : B256) :
    Marked (l ++ [c]) s' id := by
  cases hs with
  | @sent a ledger n hb =>
    by_cases e : id = a
    · subst e
      exact (h id).sent hb
    · obtain ⟨rfl, -⟩ := TopUpLedger.begin_ok hb
      refine (h id).other (Map.get_insert_ne e) ?_ ?_ fun _ => by simp
      · simp [TopUps.tasksOf, Ne.symm e]
      · simp [begun, Ne.symm e]
  | notSent _ => exact (h id).other rfl rfl rfl fun _ => by simp
  | @completed a n tasks tasks' landed ht =>
    by_cases e : id = a
    · subst e
      exact (h id).completed landed ht
    · refine (h id).other ?_ ?_ rfl fun _ => by simp [Ne.symm e]
      · cases landed with
        | true => exact Map.get_insert_ne e
        | false => exact TopUpLedger.fail_other _ e
      · simp [TopUps.tasksOf, ht, Ne.symm e]

theorem marked (hr : Run TopUpStep .start l s) (id : B256) : Marked l s id := by
  refine hr.hist (I := fun l s => ∀ id, Marked l s id) (fun l s c s' hs h => Marked.step h hs)
    (fun id => ?_) id
  simp [Marked, TopUps.start, begun, TopUps.tasksOf, TopUpSettled]

end

/-- In whatever order deliveries are refused and the tasks end: at most three requests for a message
are begun. One is begun only while none is running and none has settled the message; its number counts
those begun. When a task ends without success, its message is no longer in flight, and the number of
requests begun is kept. -/
theorem top_up_attempts (l : List TopUpAction) (s : TopUps) (hr : Run TopUpStep .start l s) (id : B256) :
    begun id l ≤ maxTopUpAttempts ∧
    (∀ n s', TopUpStep s (.refused id (.ok n)) s' →
      (∀ m, (id, m) ∉ s.tasks) ∧ ¬TopUpSettled id l ∧ n = begun id l + 1) ∧
    ∀ n s', TopUpStep s (.completed id n false) s' →
      s.ledger.marks[id]? = some (.inFlight (begun id l)) ∧
      s'.ledger.marks[id]? = some (.failed (begun id l)) ∧ ∀ m, (id, m) ∉ s'.tasks := by
  have hm := marked hr id
  refine ⟨hm.begun_le, fun n s' hs => ?_, fun n s' hs => ?_⟩
  · cases hs with
    | sent hb => exact hm.free hb
  · cases hs with
    | @completed _ _ tasks tasks' _ ht =>
      obtain ⟨hmark, hb, -, -, hnone⟩ := hm.running ht
      refine ⟨by rw [hmark, hb], ?_, fun m hmem => ?_⟩
      · simp [TopUpLedger.fail, hmark, hb]
      · exact List.filter_eq_nil_iff.mp hnone (id, m) hmem (decide_eq_true rfl)

/-- A request is begun and fails: the next is the second, and finds none running. -/
theorem top_up_attempts_retried :
    (6, 1) ∉ (⟨(⟨(∅ : Map B256 TopUpMark).insert 6 (.inFlight 1)⟩ : TopUpLedger).fail 6, []⟩ : TopUps).tasks
      ∧ 2 = begun 6 [.refused 6 (.ok 1), .completed 6 1 false] + 1 := by
  let s₁ : TopUps := ⟨⟨(∅ : Map B256 TopUpMark).insert 6 (.inFlight 1)⟩, [(6, 1)]⟩
  have h₁ : TopUpStep .start (.refused 6 (.ok 1)) s₁ := .sent rfl
  have h₂ : TopUpStep s₁ (.completed 6 1 false) ⟨s₁.ledger.fail 6, []⟩ :=
    .completed (show s₁.tasks = [] ++ (6, 1) :: [] from rfl)
  have hm : (s₁.ledger.fail 6).marks[(6 : B256)]? = some (.failed 1) := by decide
  have hb : (s₁.ledger.fail 6).begin 6 = .ok (⟨(s₁.ledger.fail 6).marks.insert 6 (.inFlight 2)⟩, 2) := by
    rw [TopUpLedger.begin, hm]
    rfl
  obtain ⟨hno, -, hn⟩ := (top_up_attempts _ _ (.snoc (.snoc .nil h₁) h₂) 6).2.1 2 _ (.sent hb)
  exact ⟨hno 1, hn⟩

end MessageRelayer

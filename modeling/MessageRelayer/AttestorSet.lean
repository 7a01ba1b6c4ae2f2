import MessageRelayer.Lib.Prog
import MessageRelayer.Lib.Runs
import MessageRelayer.Pool.State

/-!
# The watcher of a route's attestor set

`attestor_set::run` reads the set and the threshold of the destination's
validator, in two calls that name no block, and pushes the pair to the pool
whenever it is not the one that was pushed last. Blocks may be produced at any
time (`History`), also between the two calls: then the set is read at an
earlier block than the threshold. The pair is one that the validator had if
the threshold changed before the set did (`Unturned`), and so is every pair
that a run pushes all of whose polls are such (`pushed_pairs_held`).
-/

namespace MessageRelayer

open Prog

/-! ## Reading the validator -/

/-- The calls on the destination's node. -/
inductive ValidatorCall where
  | connect
  | attestors
  | threshold

abbrev ValidatorCall.Result : ValidatorCall → Type
  | connect => Unit
  | attestors => List Address
  | threshold => Nat

abbrev ValidatorCall.Answer (c : ValidatorCall) : Type := Except String c.Result

abbrev ValidatorM := ExceptT Error (Prog ValidatorCall ValidatorCall.Answer)

/-- A call whose failure is reported with a context. -/
def validatorCall (context : String) (c : ValidatorCall) : ValidatorM c.Result := do
  match ← ExceptT.lift (call c) with
  | .ok a => pure a
  | .error e => throw [context, e]

/-- The set, then the threshold; one that does not fit is the largest (it never delivers). -/
def readSet : ValidatorM (List Address × Nat) := do
  let attestors ← validatorCall "IVoteValidator.attestors() call failed" .attestors
  let threshold ← validatorCall "IVoteValidator.threshold() call failed" .threshold
  pure (attestors, min threshold u64Max)

def connectAndReadSet : ValidatorM (List Address × Nat) := do
  validatorCall "attestor-set watcher failed to connect to destination RPC" .connect
  readSet

/-! ## The watcher -/

/-- What the watcher does with a read: a pair that is not the last one is pushed. -/
def notePair (chainKey : ChainKey) (last : Option (List Address × Nat)) :
    Except Error (List Address × Nat) → Option (List Address × Nat) × Option RouteAttestors
  | .error _ => (last, none)
  | .ok pair =>
    if last.all fun l => decide (l.1 ≠ pair.1 ∨ l.2 ≠ pair.2) then
      (some pair, some { chainKey, attestors := pair.1, threshold := pair.2 })
    else (last, none)

/-- The set and the threshold of the validator. -/
structure ValidatorState where
  attestors : List Address
  threshold : Nat

/-- What the validator holds at each block. -/
abbrev History := Nat → ValidatorState

/-- The latest block, and the blocks at which the calls of a poll were answered. -/
abbrev Heads := Nat × List Nat

/-- What a call answers at a block. -/
def ValidatorState.answers (v : ValidatorState) : (c : ValidatorCall) → c.Result
  | .connect => ()
  | .attestors => v.attestors
  | .threshold => v.threshold

/-- A call reads at the latest block of its time, or fails. -/
def validatorEnv (history : History) : Env ValidatorCall ValidatorCall.Answer Heads :=
  fun w c a w' => w.1 ≤ w'.1 ∧ match a with
    | .ok r => r = (history w'.1).answers c ∧ w'.2 = w.2 ++ [w'.1]
    | .error _ => w'.2 = w.2

/-- What a poll pushes, and the blocks at which its calls were answered. -/
structure SetPoll where
  reads : List Nat
  push : Option RouteAttestors

/-- The watcher, with the latest block of the chain. -/
structure Watcher where
  last : Option (List Address × Nat)
  head : Nat

inductive WatcherStep (history : History) (chainKey : ChainKey) : Watcher → SetPoll → Watcher → Prop where
  /-- Blocks are produced, or a poll is skipped. -/
  | idle {s : Watcher} {head : Nat} (h : s.head ≤ head) :
      WatcherStep history chainKey s ⟨[], none⟩ { s with head }
  | poll {s : Watcher} {head : Nat} {reads : List Nat} {r : Except Error (List Address × Nat)}
      (h : Exec (validatorEnv history) connectAndReadSet.run (s.head, []) (head, reads) r) :
      WatcherStep history chainKey s ⟨reads, (notePair chainKey s.last r).2⟩
        ⟨(notePair chainKey s.last r).1, head⟩

/-- The threshold as the watcher has it. -/
def ValidatorState.quorum (v : ValidatorState) : Nat := min v.threshold u64Max

/-- A pair that the validator held at some block. -/
def Held (history : History) (update : RouteAttestors) : Prop :=
  ∃ m, update.attestors = (history m).attestors ∧ update.threshold = (history m).quorum

/-! ## Polls that are not torn -/

/-- Up to some block between two reads the set does not change, and from it on the threshold does
not. -/
def Steadily (history : History) (b b' : Nat) : Prop :=
  ∃ m, b ≤ m ∧ m ≤ b' ∧ (∀ k, b ≤ k → k ≤ m → (history k).attestors = (history b).attestors) ∧
    ∀ k, m ≤ k → k ≤ b' → (history k).quorum = (history b').quorum

/-- The reads of a poll, with no change of the threshold after one of the set. -/
def SetPoll.Unturned (history : History) (poll : SetPoll) : Prop :=
  ∀ b₀ b b', poll.reads = [b₀, b, b'] → Steadily history b b'

/-- A step whose polls are such. -/
def SteadyStep (history : History) (chainKey : ChainKey) (s : Watcher) (poll : SetPoll)
    (s' : Watcher) : Prop :=
  WatcherStep history chainKey s poll s' ∧ poll.Unturned history

/-- What is pushed was read, and is not what was pushed last. -/
theorem notePair_push {chainKey : ChainKey} {last : Option (List Address × Nat)}
    {r : Except Error (List Address × Nat)} {update : RouteAttestors}
    (h : (notePair chainKey last r).2 = some update) :
    r = .ok (update.attestors, update.threshold) := by
  cases r with
  | error e => cases h
  | ok pair =>
    rw [notePair] at h
    split at h
    · cases h
      rfl
    · cases h

theorem wp_validatorCall {W : Type} (H : Env ValidatorCall ValidatorCall.Answer W)
    (context : String) (c : ValidatorCall) (w : W) (Q : W → Except Error c.Result → Prop) :
    wp H (validatorCall context c).run w Q ↔ ∀ a w', H w c a w' → match a with
      | .ok r => Q w' (.ok r)
      | .error e => Q w' (.error [context, e]) := by
  rw [validatorCall, wp_run_bind, wp_run_lift, wp_call]
  refine forall_congr' fun a => forall_congr' fun w' => imp_congr Iff.rfl ?_
  cases a <;> exact Iff.rfl

/-- A pair that was read: the set of one block, and the threshold of a later one. -/
theorem connectAndReadSet_reads (history : History) (head : Nat) :
    wp (validatorEnv history) connectAndReadSet.run (head, []) fun w r =>
      ∀ pair, r = .ok pair → ∃ b₀ b b', w.2 = [b₀, b, b'] ∧ b ≤ b' ∧
        pair = ((history b).attestors, (history b').quorum) := by
  unfold connectAndReadSet readSet
  rw [wp_run_bind, wp_validatorCall]
  intro a w₁ h₁
  cases a with
  | error e => nofun
  | ok =>
    dsimp only
    rw [wp_run_bind, wp_validatorCall]
    intro a w₂ h₂
    cases a with
    | error e => nofun
    | ok attestors =>
      dsimp only
      rw [wp_run_bind, wp_validatorCall]
      intro a w₃ h₃
      cases a with
      | error e => nofun
      | ok threshold =>
        rintro pair ⟨⟩
        obtain ⟨-, -, hr₁⟩ := h₁
        obtain ⟨-, rfl, hr₂⟩ := h₂
        obtain ⟨hle, rfl, hr₃⟩ := h₃
        refine ⟨w₁.1, w₂.1, w₃.1, ?_, hle, rfl⟩
        rw [hr₃, hr₂, hr₁]
        rfl

/-- What a poll pushes: the set of one block, and the threshold of a later one. -/
theorem WatcherStep.push {history : History} {chainKey : ChainKey} {s s' : Watcher} {poll : SetPoll}
    (h : WatcherStep history chainKey s poll s') {update : RouteAttestors}
    (hp : poll.push = some update) : ∃ b₀ b b', poll.reads = [b₀, b, b'] ∧ b ≤ b' ∧
      update.attestors = (history b).attestors ∧ update.threshold = (history b').quorum := by
  cases h with
  | idle => cases hp
  | poll hx =>
    obtain ⟨b₀, b, b', hreads, hle, hpair⟩ :=
      hx.post (connectAndReadSet_reads history s.head) _ (notePair_push hp)
    exact ⟨b₀, b, b', hreads, hle, Prod.mk.inj hpair⟩

/-- A poll without a change of the threshold after one of the set pushes a pair that was held. -/
theorem SteadyStep.held {history : History} {chainKey : ChainKey} {s s' : Watcher} {poll : SetPoll}
    (h : SteadyStep history chainKey s poll s') {update : RouteAttestors}
    (hp : poll.push = some update) : Held history update := by
  obtain ⟨b₀, b, b', hreads, -, hset, hquorum⟩ := h.1.push hp
  obtain ⟨m, hbm, hmb, hm, hm'⟩ := h.2 b₀ b b' hreads
  exact ⟨m, hset.trans (hm m hbm (Nat.le_refl m)).symm,
    hquorum.trans (hm' m (Nat.le_refl m) hmb).symm⟩

/-- Nothing that the validator gave up comes back. -/
structure Onward (history : History) : Prop where
  attestors : ∀ {i j k}, i ≤ j → j ≤ k → (history i).attestors = (history k).attestors →
    (history j).attestors = (history i).attestors
  quorum : ∀ {i j k}, i ≤ j → j ≤ k → (history i).quorum = (history k).quorum →
    (history j).quorum = (history k).quorum

/-- Where nothing comes back, only such polls push a pair that was held. -/
theorem WatcherStep.steady {history : History} (hon : Onward history) {chainKey : ChainKey}
    {s s' : Watcher} {poll : SetPoll} (h : WatcherStep history chainKey s poll s')
    {update : RouteAttestors} (hp : poll.push = some update) (hheld : Held history update) :
    poll.Unturned history := by
  obtain ⟨b₀, b, b', hreads, hle, hset, hquorum⟩ := h.push hp
  obtain ⟨m, hm, hm'⟩ := hheld
  rw [hset] at hm
  rw [hquorum] at hm'
  intro c₀ c c' hc
  rw [hreads] at hc
  cases hc
  rcases Nat.lt_or_ge m b with hlt | hge
  · exact ⟨b, Nat.le_refl b, hle, fun k hk hk' => by rw [Nat.le_antisymm hk' hk],
      fun k hk hk' => hon.quorum (by omega) hk' hm'.symm⟩
  · rcases Nat.lt_or_ge b' m with hlt' | hge'
    · exact ⟨b', hle, Nat.le_refl b', fun k hk hk' => hon.attestors hk (by omega) hm,
        fun k hk hk' => by rw [Nat.le_antisymm hk' hk]⟩
    · exact ⟨m, hge, hge', fun k hk hk' => hon.attestors hk hk' hm,
        fun k hk hk' => hon.quorum hk hk' hm'.symm⟩

/-- In a run of the watcher in whose polls the threshold does not change after the set does, every
pair that is pushed is one that the validator held at some block. A poll of any run that is not such
pushes a pair that was never held, if nothing that the validator gave up comes back. -/
theorem pushed_pairs_held (history : History) (chainKey : ChainKey) :
    (∀ (l : List SetPoll) (head : Nat) (s : Watcher),
      Run (SteadyStep history chainKey) ⟨none, head⟩ l s →
      ∀ poll ∈ l, ∀ update, poll.push = some update → Held history update) ∧
    (Onward history → ∀ (s s' : Watcher) (poll : SetPoll), WatcherStep history chainKey s poll s' →
      ∀ update, poll.push = some update → Held history update → poll.Unturned history) := by
  refine ⟨fun l head s hr => ?_, fun hon s s' poll h update => h.steady hon⟩
  exact hr.hist (I := fun l _ => ∀ poll ∈ l, ∀ update, poll.push = some update → Held history update)
    (fun l s poll s' h hl poll' hm update hp => by
      rcases List.mem_append.mp hm with hm | hm
      · exact hl poll' hm update hp
      · rw [List.mem_singleton.mp hm] at hp
        exact h.held hp)
    fun poll hm => absurd hm List.not_mem_nil

/-- In block 1 the set shrinks to one attestor, and the threshold with it. -/
def sampleHistory : History := fun n => if n = 0 then ⟨[1, 2, 3], 2⟩ else ⟨[1], 1⟩

/-- So many blocks are produced before the threshold is read. -/
def sampleNode (blocks : Nat) (w : Heads) (c : ValidatorCall) : c.Answer × Heads :=
  let b := match c with
    | .connect | .attestors => w.1
    | .threshold => w.1 + blocks
  (.ok ((sampleHistory b).answers c), (b, w.2 ++ [b]))

theorem sampleNode_answers (blocks : Nat) (w : Heads) (c : ValidatorCall) :
    validatorEnv sampleHistory w c (sampleNode blocks w c).1 (sampleNode blocks w c).2 := by
  cases c <;> exact ⟨by simp [sampleNode], rfl, rfl⟩

theorem pushed_pairs_held_first : Held sampleHistory ⟨2, [1, 2, 3], 2⟩ := by
  have hread : Exec (validatorEnv sampleHistory) connectAndReadSet.run (0, []) (0, [0, 0, 0])
      (.ok ([1, 2, 3], 2)) := exec_run (sampleNode_answers 0) connectAndReadSet.run (0, [])
  have hpoll : SteadyStep sampleHistory 2 ⟨none, 0⟩ ⟨[0, 0, 0], some ⟨2, [1, 2, 3], 2⟩⟩
      ⟨some ([1, 2, 3], 2), 0⟩ := by
    refine ⟨WatcherStep.poll (s := ⟨none, 0⟩) hread, fun b₀ b b' hb => ?_⟩
    cases hb
    exact ⟨0, Nat.le_refl 0, Nat.le_refl 0, fun k _ hk => by rw [Nat.le_zero.mp hk],
      fun k _ hk => by rw [Nat.le_zero.mp hk]⟩
  exact (pushed_pairs_held sampleHistory 2).1 _ 0 _ (.single hpoll) _ (List.mem_singleton_self _) _
    rfl

/-- The set is read before the block, and the threshold after it. -/
theorem pushed_pair_torn : ¬ ∀ (history : History) (chainKey : ChainKey) (l : List SetPoll)
    (head : Nat) (s : Watcher), Run (WatcherStep history chainKey) ⟨none, head⟩ l s →
    ∀ poll ∈ l, ∀ update, poll.push = some update → Held history update := by
  intro h
  have hread : Exec (validatorEnv sampleHistory) connectAndReadSet.run (0, []) (1, [0, 0, 1])
      (.ok ([1, 2, 3], 1)) := exec_run (sampleNode_answers 1) connectAndReadSet.run (0, [])
  have hpoll : WatcherStep sampleHistory 2 ⟨none, 0⟩ ⟨[0, 0, 1], some ⟨2, [1, 2, 3], 1⟩⟩
      ⟨some ([1, 2, 3], 1), 1⟩ := WatcherStep.poll (s := ⟨none, 0⟩) hread
  obtain ⟨m, hset, hquorum⟩ :=
    h _ _ _ _ _ (.single hpoll) _ (List.mem_singleton_self _) _ rfl
  by_cases hm : m = 0
  · subst hm
    exact absurd hquorum (by decide)
  · rw [sampleHistory, if_neg hm] at hset
    exact absurd hset (by decide)

end MessageRelayer

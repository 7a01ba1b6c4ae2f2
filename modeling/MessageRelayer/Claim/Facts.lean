import MessageRelayer.Claim.Worker
import MessageRelayer.Tracking

/-!
# What the claim worker does

What discovery does to the queue (`Enqueued`, `discoverLocks_spec`), and what
a batch of attempts does to it (`Settled`, `processPending_spec`): in each
case which transactions leave it, and what the others keep.
-/

namespace MessageRelayer.Claim

open Prog hiding ask

/-! ## Discovery -/

/-- The log says that the transaction locked under a claim key. -/
def LockOf (codec : ClaimCodec) (log : Log) (tx key : B256) : Prop :=
  log.transactionHash = some tx ∧
    ∃ locked, codec.decodeLocked log = .ok locked ∧ claimKey codec locked = key

section
variable {codec : ClaimCodec} {done : BoundedSeen} {fromBlock : Nat} {logs : List Log}
  {p p' q : PendingTxs B256} {evicted more : List B256}

/-- What the logs of an answer do to the queue. -/
structure Enqueued (codec : ClaimCodec) (done : BoundedSeen) (fromBlock : Nat) (logs : List Log)
    (p p' : PendingTxs B256) (evicted : List B256) : Prop where
  found : ∀ log ∈ logs, ∀ tx key, LockOf codec log tx key →
    (∃ e : PendingTx B256, p'.seen[tx]? = some e) ∨ tx ∈ evicted ∨ done.contains tx = true
  block : ∀ (tx : B256) (e : PendingTx B256), p'.seen[tx]? = some e →
    (∃ e₀ : PendingTx B256, p.seen[tx]? = some e₀ ∧ e.block = e₀.block ∧
      e₀.metadata ⊆ e.metadata) ∨ ∃ log ∈ logs, log.transactionHash = some tx ∧
        e.block = log.blockNumber.getD fromBlock
  kept : ∀ (tx : B256) (e₀ : PendingTx B256), p.seen[tx]? = some e₀ →
    (∃ e : PendingTx B256, p'.seen[tx]? = some e ∧ e₀.metadata ⊆ e.metadata) ∨ tx ∈ evicted
  keys : ∀ log ∈ logs, ∀ tx key, LockOf codec log tx key →
    ∀ e : PendingTx B256, p'.seen[tx]? = some e →
      key ∈ e.metadata ∨ tx ∈ evicted ∨ done.contains tx = true

theorem Enqueued.nil (p : PendingTxs B256) : Enqueued codec done fromBlock [] p p [] where
  found _ hl := absurd hl List.not_mem_nil
  block _ e he := .inl ⟨e, he, rfl, List.Subset.refl _⟩
  kept _ e he := .inl ⟨e, he, List.Subset.refl _⟩
  keys _ hl := absurd hl List.not_mem_nil

/-- One log more, before the others: what its transaction is tracked with, if it is. -/
theorem Enqueued.cons {log : Log} (h : Enqueued codec done fromBlock logs q p' more)
    (hb : ∀ (tx : B256) (e : PendingTx B256), q.seen[tx]? = some e →
      (∃ e₀ : PendingTx B256, p.seen[tx]? = some e₀ ∧ e.block = e₀.block ∧
        e₀.metadata ⊆ e.metadata) ∨
        log.transactionHash = some tx ∧ e.block = log.blockNumber.getD fromBlock)
    (hk : ∀ (tx : B256) (e₀ : PendingTx B256), p.seen[tx]? = some e₀ →
      (∃ e : PendingTx B256, q.seen[tx]? = some e ∧ e₀.metadata ⊆ e.metadata) ∨ tx ∈ evicted)
    (hl : ∀ tx key, LockOf codec log tx key → done.contains tx = true ∨ tx ∈ evicted ∨
      ∃ e : PendingTx B256, q.seen[tx]? = some e ∧ key ∈ e.metadata) :
    Enqueued codec done fromBlock (log :: logs) p p' (evicted ++ more) := by
  -- an entry of the queue in between ends in the queue, or among the evicted
  have hq : ∀ (tx : B256) (e₁ : PendingTx B256), q.seen[tx]? = some e₁ →
      (∃ e : PendingTx B256, p'.seen[tx]? = some e ∧ e₁.metadata ⊆ e.metadata) ∨
        tx ∈ evicted ++ more := fun tx e₁ he₁ =>
    (h.kept tx e₁ he₁).imp_right (List.mem_append_right _)
  refine ⟨fun log' hm tx key hlock => ?_, fun tx e he => ?_, fun tx e₀ he₀ => ?_,
    fun log' hm tx key hlock e he => ?_⟩
  · rcases List.mem_cons.mp hm with rfl | hm
    · rcases hl tx key hlock with hd | hev | ⟨e₁, he₁, -⟩
      · exact .inr (.inr hd)
      · exact .inr (.inl (List.mem_append_left _ hev))
      · exact (hq tx e₁ he₁).imp (fun ⟨e, he, _⟩ => ⟨e, he⟩) .inl
    · exact (h.found log' hm tx key hlock).imp_right (Or.imp_left (List.mem_append_right _))
  · rcases h.block tx e he with ⟨e₁, he₁, hb₁, hs₁⟩ | ⟨log', hm, hr⟩
    · rcases hb tx e₁ he₁ with ⟨e₀, he₀, hb₀, hs₀⟩ | ⟨ht, hb₀⟩
      · exact .inl ⟨e₀, he₀, hb₁.trans hb₀, List.Subset.trans hs₀ hs₁⟩
      · exact .inr ⟨log, List.mem_cons_self, ht, hb₁.trans hb₀⟩
    · exact .inr ⟨log', List.mem_cons_of_mem _ hm, hr⟩
  · rcases hk tx e₀ he₀ with ⟨e₁, he₁, hs₁⟩ | hev
    · exact (hq tx e₁ he₁).imp_left fun ⟨e, he, hs⟩ => ⟨e, he, List.Subset.trans hs₁ hs⟩
    · exact .inr (List.mem_append_left _ hev)
  · rcases List.mem_cons.mp hm with rfl | hm
    · rcases hl tx key hlock with hd | hev | ⟨e₁, he₁, hkey⟩
      · exact .inr (.inr hd)
      · exact .inr (.inl (List.mem_append_left _ hev))
      · rcases hq tx e₁ he₁ with ⟨e', he', hs⟩ | hev
        · obtain rfl : e' = e := Option.some.inj (he'.symm.trans he)
          exact .inl (hs hkey)
        · exact .inr (.inl hev)
    · exact (h.keys log' hm tx key hlock e he).imp_right (Or.imp_left (List.mem_append_right _))

/-- A log that changes nothing. -/
theorem Enqueued.skip {log : Log} (h : Enqueued codec done fromBlock logs p p' evicted)
    (hl : ∀ tx key, LockOf codec log tx key → done.contains tx = true) :
    Enqueued codec done fromBlock (log :: logs) p p' evicted :=
  List.nil_append evicted ▸ h.cons (fun _ e he => .inl ⟨e, he, rfl, List.Subset.refl _⟩)
    (fun _ e he => .inl ⟨e, he, List.Subset.refl _⟩) fun tx key hk => .inl (hl tx key hk)

/-- Another key of a transaction that is tracked. -/
theorem Enqueued.noteMeta {log : Log} {tx key : B256}
    (h : Enqueued codec done fromBlock logs (p.noteMeta tx key) p' evicted)
    (ht : p.contains tx = true) (hl : ∀ tx' key', LockOf codec log tx' key' → tx' = tx ∧ key' = key) :
    Enqueued codec done fromBlock (log :: logs) p p' evicted := by
  rw [← List.nil_append evicted]
  refine h.cons (fun a e he => .inl (PendingTxs.of_get_noteMeta he)) (fun a e he => ?_) fun a k hk => ?_
  · obtain ⟨e', he', -, hsub, -⟩ := PendingTxs.get_noteMeta tx key he
    exact .inl ⟨e', he', hsub⟩
  · obtain ⟨rfl, rfl⟩ := hl a k hk
    obtain ⟨e, he⟩ := PendingTxs.contains_iff.mp ht
    obtain ⟨e', he', -, -, hitem⟩ := PendingTxs.get_noteMeta a k he
    exact .inr (.inr ⟨e', he', hitem rfl⟩)

/-- A transaction that is newly tracked. -/
theorem Enqueued.insert {log : Log} {tx key : B256} {now : Instant} {o : Option B256}
    (h : Enqueued codec done fromBlock logs q p' evicted) (hn : p.contains tx = false)
    (hi : p.Inserted tx ⟨now, log.blockNumber.getD fromBlock, now, 0, [key]⟩ q o)
    (ht : log.transactionHash = some tx)
    (hl : ∀ tx' key', LockOf codec log tx' key' → tx' = tx ∧ key' = key) :
    Enqueued codec done fromBlock (log :: logs) p p' (o.toList ++ evicted) := by
  refine h.cons (fun a e he => ?_) (fun a e he => ?_) fun a k hk => ?_
  · rw [hi.get] at he
    split at he
    · cases he
    rw [Map.get_insert] at he
    split at he
    · rename_i ha
      obtain rfl := Option.some.inj he
      exact .inr ⟨by rw [ha]; exact ht, rfl⟩
    · exact .inl ⟨e, he, rfl, List.Subset.refl _⟩
  · rw [hi.get, Map.get_insert]
    split
    · rename_i ho
      exact .inr (by rw [ho]; exact List.mem_singleton_self _)
    · refine .inl ?_
      rw [if_neg]
      · exact ⟨e, he, List.Subset.refl _⟩
      · rintro rfl
        rw [PendingTxs.contains_iff.mpr ⟨e, he⟩] at hn
        cases hn
  · obtain ⟨rfl, rfl⟩ := hl a k hk
    rw [hi.get, Map.get_insert_self]
    split
    · rename_i ho
      exact .inr (.inl (by rw [ho]; exact List.mem_singleton_self _))
    · exact .inr (.inr ⟨_, rfl, List.mem_singleton_self _⟩)

end

theorem enqueueLocks_spec {W : Type} {H : Env ClaimCall ClaimCall.Answer W} (codec : ClaimCodec)
    (done : BoundedSeen) (fromBlock : Nat) (logs : List Log) (p : PendingTxs B256) (w : W) :
    wp H (enqueueLocks codec done fromBlock logs p) w fun _ r =>
      Enqueued codec done fromBlock logs p r.1 r.2 := by
  induction logs generalizing p w with
  | nil => exact .nil p
  | cons log logs ih =>
    rw [enqueueLocks]
    split
    · rename_i ht
      exact wp_mono (ih p w) fun _ _ h => h.skip fun tx key hk => by
        have ht' := hk.1
        rw [ht] at ht'
        cases ht'
    · rename_i hd
      exact wp_mono (ih p w) fun _ _ h => h.skip fun tx key hk => by
        obtain ⟨-, locked, hl, -⟩ := hk
        rw [hd] at hl
        cases hl
    · rename_i txHash locked ht hd
      have hl : ∀ tx key, LockOf codec log tx key → tx = txHash ∧ key = claimKey codec locked := by
        rintro tx key ⟨h₁, locked', h₂, rfl⟩
        rw [ht] at h₁
        rw [hd] at h₂
        cases h₁
        cases h₂
        exact ⟨rfl, rfl⟩
      dsimp only
      split
      · rename_i hdone
        exact wp_mono (ih p w) fun _ _ h => h.skip fun tx key hk => by
          rw [(hl tx key hk).1]
          exact hdone
      split
      · rename_i hp
        exact wp_mono (ih _ w) fun _ _ h => h.noteMeta hp hl
      · rename_i hp
        have hn : p.contains txHash = false := by simpa using hp
        rw [wp_bind, wp_call]
        intro now w₁ _
        rw [wp_bind]
        refine wp_mono (PendingTxs.insert_spec hn now _ _ w₁) fun w₂ r hi => ?_
        rw [wp_bind]
        exact wp_mono (ih r.1 w₂) fun _ _ h => h.insert hn hi ht hl

/-- A scan of the worker: the head that it read, the range and the answer. -/
structure LockScan where
  tip : Nat
  fromBlock : Nat
  toBlock : Nat
  logs : List Log

/-- The scan that a discovery made, if it came to one. -/
def scanOf : ClaimSaid → Option LockScan
  | ⟨.getBlockNumber, .ok tip⟩ :: ⟨.getLogs _ fromBlock toBlock, .ok logs⟩ :: _ =>
    some ⟨tip, fromBlock, toBlock, logs⟩
  | _ => none

section
variable {codec : ClaimCodec} {route : ClaimRoute} {blockOf : B256 → Nat}

@[simp] theorem wp_claimAsk {W : Type} {H : Env ClaimCall ClaimCall.Answer W} (c : ClaimCall) (w : W)
    (Q : W → Except Error c.Answer → Prop) :
    wp (α := no_index (Except Error c.Answer)) H
      (ExceptT.run (α := no_index c.Answer) (ClaimM.ask c)) w Q ↔
      ∀ a w', H w c a w' → Q w' (.ok a) := by
  rw [ClaimM.ask, wp_run_lift, wp_call]

/-- What was said stays said. -/
theorem claimEnv_keeps {α : Type} (p : ClaimProg α) (said : ClaimSaid) :
    wp (claimEnv codec route blockOf) p said fun said' _ => said <+: said' := by
  refine wp_inv (I := fun s => said <+: s) (fun s c a s' ha hs => ?_) (List.prefix_refl _)
  rw [ha.1]
  exact hs.trans (List.prefix_append _ _)

/-- A scan of the blocks after the last one seen, and what it does to the queue. -/
structure Discovered (codec : ClaimCodec) (route : ClaimRoute) (blockOf : B256 → Nat)
    (w w' : ClaimWorker) (evicted : List B256) (scan : LockScan) : Prop where
  fromBlock : scan.fromBlock = w.lastSeen + 1
  toBlock : scan.toBlock = w'.lastSeen
  lt : w.lastSeen < w'.lastSeen
  head : w'.lastSeen ≤ scan.tip - route.confirmationDepth
  done : w'.done = w.done
  truthful : Truthful codec route blockOf
    (.getLogs route.sourceBridgeAddress scan.fromBlock scan.toBlock) (.ok scan.logs)
  enqueued : Enqueued codec w.done (w.lastSeen + 1) scan.logs w.pending w'.pending evicted

/-- Discovery scans and moves its cursor, or it leaves the worker as it is. -/
theorem discoverLocks_spec (w : ClaimWorker) :
    wp (claimEnv codec route blockOf) (discoverLocks codec route w).run [] fun said r =>
      ∀ w' evicted, r = .ok (w', evicted) → match scanOf said with
        | none => w' = w ∧ evicted = []
        | some scan => Discovered codec route blockOf w w' evicted scan := by
  simp only [discoverLocks, wp_run_bind, wp_claimAsk, wp_orThrow]
  rintro (e | tip) said ⟨rfl, htip⟩
  · exact fun w' evicted h => by cases h
  simp only [Except.mapError]
  split
  · rintro w' evicted h
    cases h
    exact ⟨rfl, rfl⟩
  rename_i hlt
  simp only [wp_run_bind, wp_claimAsk, wp_orThrow]
  rintro (e | logs) said ⟨rfl, hlogs⟩
  · exact fun w' evicted h => by cases h
  simp only [wp_run_lift]
  refine wp_mono (wp_and (claimEnv_keeps _ _) (enqueueLocks_spec codec w.done _ logs w.pending _))
    fun said r hr => ?_
  obtain ⟨hp, he⟩ := hr
  rintro w' evicted h
  cases h
  obtain ⟨rest, rfl⟩ := hp
  have htip : tip ≤ u64Max := htip
  refine ⟨rfl, rfl, ?_, Nat.min_le_left _ _, rfl, hlogs, he⟩
  simp only [satAdd64, maxBlocksPerScan]
  omega

end

/-! ## Attempts -/

/-- The outcome of an attempt ends the tracking of its transaction. -/
def Ends (w : ClaimWorker) (now : Instant) (a : Attempt) : Prop :=
  match a.outcome with
  | .ok .claimed | .ok (.terminal _) => True
  | .ok .notReady => ∃ e : PendingTx B256, w.pending.seen[a.txHash]? = some e ∧
      maxClaimAge < now - e.firstSeen
  | .ok (.rejected _) | .error _ => False

/-- What attempts do to the worker: the finished transactions leave the queue, and the others keep
what they are tracked with. -/
structure Settled (w w' : ClaimWorker) (now : Instant) (attempts : List Attempt)
    (finished : List B256) : Prop where
  lastSeen : w'.lastSeen = w.lastSeen
  entry : ∀ (tx : B256) (e : PendingTx B256), w'.pending.seen[tx]? = some e →
    ∃ e₀ : PendingTx B256, w.pending.seen[tx]? = some e₀ ∧ e.firstSeen = e₀.firstSeen ∧
      e.block = e₀.block ∧ e.metadata = e₀.metadata
  kept : ∀ (tx : B256) (e₀ : PendingTx B256), w.pending.seen[tx]? = some e₀ →
    (∃ e : PendingTx B256, w'.pending.seen[tx]? = some e) ∨ tx ∈ finished
  gone : ∀ tx ∈ finished, w'.pending.seen[tx]? = none
  done : ∀ tx, w'.done.contains tx = true → w.done.contains tx = true ∨ tx ∈ finished
  ended : ∀ tx ∈ finished, ∃ a ∈ attempts, a.txHash = tx ∧ Ends w now a

section
variable {w w' : ClaimWorker} {now : Instant} {a : Attempt} {attempts : List Attempt}

theorem Settled.queue {finished : List B256} (h : Settled w w' now attempts finished) :
    w.pending.Settled w'.pending w.done w'.done finished := ⟨h.entry, h.kept, h.gone, h.done⟩

theorem Settled.of_queue {finished : List B256}
    (h : w.pending.Settled w'.pending w.done w'.done finished) (hl : w'.lastSeen = w.lastSeen)
    (he : ∀ tx ∈ finished, ∃ a ∈ attempts, a.txHash = tx ∧ Ends w now a) :
    Settled w w' now attempts finished := ⟨hl, h.entry, h.kept, h.gone, h.done, he⟩

theorem Settled.finish (h : Ends w now a) :
    Settled w (w.finish a.txHash) now [a] [a.txHash] :=
  .of_queue (.finish w.pending w.done a.txHash) rfl fun _ ht =>
    ⟨a, List.mem_singleton_self _, (List.mem_singleton.mp ht).symm, h⟩

/-- An attempt that only changes when its transaction is tried next. -/
theorem Settled.retry (tx : B256) {f : PendingTx B256 → PendingTx B256}
    (hf : ∀ e, (f e).firstSeen = e.firstSeen ∧ (f e).block = e.block ∧
      (f e).metadata = e.metadata) :
    Settled w { w with pending := w.pending.onEntry tx f } now [a] [] :=
  .of_queue (.retry w.pending w.done tx hf) rfl fun _ ht => absurd ht List.not_mem_nil

theorem settle_spec (w : ClaimWorker) (now : Instant) (a : Attempt) :
    Settled w (w.settle now a).1 now [a] (w.settle now a).2.toList := by
  rw [ClaimWorker.settle]
  split
  · rename_i ho
    exact .finish (by rw [Ends, ho]; trivial)
  · rename_i ho
    exact .finish (by rw [Ends, ho]; trivial)
  · rename_i ho
    split
    · rename_i hage
      refine .finish ?_
      rw [Ends, ho]
      obtain ⟨age, hm, hlt⟩ := (Option.any_eq_true _ _).mp hage
      obtain ⟨e, he, rfl⟩ := Option.map_eq_some_iff.mp hm
      exact ⟨e, he, of_decide_eq_true hlt⟩
    · exact .retry a.txHash fun e => ⟨rfl, rfl, rfl⟩
  · exact .retry a.txHash fun e => ⟨rfl, rfl, rfl⟩
  · exact .retry a.txHash fun e => ⟨rfl, rfl, rfl⟩

/-- What ends a transaction after others were settled ends it before. -/
theorem Ends.before {finished : List B256} {b : Attempt} (h : Ends w' now b)
    (hs : Settled w w' now attempts finished) : Ends w now b := by
  revert h
  rw [Ends, Ends]
  split <;> intro h
  · trivial
  · trivial
  · obtain ⟨e, he, hlt⟩ := h
    obtain ⟨e₀, he₀, hfs, -, -⟩ := hs.entry _ e he
    exact ⟨e₀, he₀, by rw [← hfs]; exact hlt⟩
  · exact h
  · exact h

theorem Settled.append {w₁ : ClaimWorker} {first finished more : List B256}
    {rest : List Attempt} (h : Settled w w₁ now attempts first) (h' : Settled w₁ w' now rest more)
    (hf : finished = first ++ more) : Settled w w' now (attempts ++ rest) finished := by
  rw [hf]
  refine .of_queue (h.queue.append h'.queue) (h'.lastSeen.trans h.lastSeen) fun tx ht => ?_
  rcases List.mem_append.mp ht with ht | ht
  · obtain ⟨a, ha, he, hends⟩ := h.ended tx ht
    exact ⟨a, List.mem_append_left _ ha, he, hends⟩
  · obtain ⟨a, ha, he, hends⟩ := h'.ended tx ht
    exact ⟨a, List.mem_append_right _ ha, he, hends.before h⟩

theorem Settled.refl (w : ClaimWorker) (now : Instant) : Settled w w now [] [] :=
  .of_queue (.refl w.pending w.done) rfl fun _ ht => absurd ht List.not_mem_nil

theorem settleAll_spec (now : Instant) (attempts : List Attempt) (w : ClaimWorker) :
    Settled w (w.settleAll now attempts).1 now attempts (w.settleAll now attempts).2 := by
  induction attempts generalizing w with
  | nil => exact .refl w now
  | cons a attempts ih => exact (settle_spec w now a).append (ih _) rfl

end

section
variable {codec : ClaimCodec} {route : ClaimRoute} {blockOf : B256 → Nat}

/-- What one pass over the queue does: every attempt is a run of `claimTx` on a tracked transaction
with its keys. -/
structure Processed (codec : ClaimCodec) (route : ClaimRoute) (w w' : ClaimWorker) (now : Instant)
    (attempts : List Attempt) (finished : List B256) : Prop where
  settled : Settled w w' now attempts finished
  tracked : ∀ a ∈ attempts, ∃ e : PendingTx B256, w.pending.seen[a.txHash]? = some e ∧
    e.metadata = a.keys
  runs : ∀ a ∈ attempts, Exec heard (claimTx codec route a.keys a.txHash).run [] a.said a.outcome

theorem processPending_spec (w : ClaimWorker) :
    wp (claimEnv codec route blockOf) (processPending w) [] fun said r =>
      ∃ now attempts, Processed codec route w r.1 now attempts r.2 ∧ ⟨.now, now⟩ ∈ said ∧
        ∀ a ∈ attempts, ∃ batch answer, ⟨.attempts batch, answer⟩ ∈ said ∧ a ∈ answer := by
  simp only [processPending, wp_bind, wp_call]
  rintro now said ⟨rfl, -⟩ order said ⟨rfl, -⟩
  split
  · refine ⟨now, [], ⟨.refl w now, fun a ha => absurd ha List.not_mem_nil, fun a ha =>
      absurd ha List.not_mem_nil⟩, ?_, fun a ha => absurd ha List.not_mem_nil⟩
    exact List.mem_append_left _ (List.mem_singleton_self _)
  simp only [wp_bind, wp_call]
  rintro attempts said ⟨rfl, hperm, hruns⟩ now' said ⟨rfl, -⟩
  refine ⟨now', attempts, ⟨settleAll_spec now' attempts w, fun a ha => ?_, hruns⟩,
    List.mem_append_right _ (List.mem_singleton_self _), fun a ha => ?_⟩
  · exact PendingTxs.mem_ready (hperm.subset (List.mem_map.mpr ⟨a, ha, rfl⟩))
  · refine ⟨_, attempts, ?_, ha⟩
    exact List.mem_append_left _ (List.mem_append_right _ (List.mem_singleton_self _))

end

end MessageRelayer.Claim

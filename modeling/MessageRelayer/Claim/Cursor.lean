import MessageRelayer.Claim.Run

/-!
# The claim cursor

What the claim worker tracks a transaction with (`WorkerOk`), and what holds of
the cursor that it persists (`claim_cursor_holdback`): no cursor passes a
transaction that is still owed a claim, and a restart resumes before it. A
worker that starts without a checkpoint does pass it (`claim_cursor_overtakes`).
-/

namespace MessageRelayer.Claim

open Prog hiding ask

/-! ## The keys of a transaction -/

/-- A scan of the worker since it started, with what was evicted while its logs were read. -/
def Scanned (l : List ClaimEvent) (scan : LockScan) (evicted : List B256) : Prop :=
  ∃ said, .discovered said evicted ∈ since ClaimEvent.isStart l ∧ scanOf said = some scan

/-- What the worker knows of the transactions of its scans. -/
structure WorkerOk (codec : ClaimCodec) (blockOf : B256 → Nat) (l : List ClaimEvent)
    (w : ClaimWorker) : Prop where
  tracked : ∀ (tx : B256) (e : PendingTx B256), w.pending.seen[tx]? = some e → blockOf tx ≤ w.lastSeen
  done : ∀ tx, w.done.contains tx = true → blockOf tx ≤ w.lastSeen
  scanned : ∀ scan evicted, Scanned l scan evicted → ∀ log ∈ scan.logs, ∀ tx key,
    LockOf codec log tx key → blockOf tx ≤ w.lastSeen
  keys : ∀ scan evicted, Scanned l scan evicted → ∀ log ∈ scan.logs, ∀ tx key,
    LockOf codec log tx key → ∀ e : PendingTx B256, w.pending.seen[tx]? = some e →
      key ∈ e.metadata ∨ tx ∈ evicted

section
variable {codec : ClaimCodec} {route : ClaimRoute} {blockOf : B256 → Nat}
  {l : List ClaimEvent} {a : ClaimEvent} {w w' : ClaimWorker} {scan : LockScan} {evicted : List B256}

/-- A scan is that of the last step, or was there before. -/
theorem Scanned.of_concat (h : Scanned (l ++ [a]) scan evicted) :
    a.isStart = false ∧ Scanned l scan evicted ∨
      ∃ said, a = .discovered said evicted ∧ scanOf said = some scan := by
  obtain ⟨said, hm, hs⟩ := h
  rw [since_concat] at hm
  split at hm
  · obtain rfl := List.mem_singleton.mp hm
    exact .inr ⟨said, rfl, hs⟩
  · rename_i ha
    rcases List.mem_append.mp hm with hm | hm
    · exact .inl ⟨by simpa using ha, said, hm, hs⟩
    · obtain rfl := List.mem_singleton.mp hm
      exact .inr ⟨said, rfl, hs⟩

/-- A step that scans nothing. -/
theorem WorkerOk.quiet (h : WorkerOk codec blockOf l w)
    (ha : ∀ said evicted, a = .discovered said evicted → scanOf said = none) :
    WorkerOk codec blockOf (l ++ [a]) w := by
  have hl : ∀ scan evicted, Scanned (l ++ [a]) scan evicted → Scanned l scan evicted :=
    fun scan evicted hs => by
      rcases hs.of_concat with ⟨-, hs⟩ | ⟨said, rfl, hsaid⟩
      · exact hs
      · rw [ha said evicted rfl] at hsaid
        cases hsaid
  exact ⟨h.tracked, h.done, fun scan evicted hs => h.scanned scan evicted (hl scan evicted hs),
    fun scan evicted hs => h.keys scan evicted (hl scan evicted hs)⟩

theorem WorkerOk.new (cursor : Nat) (fresh : Bool) :
    WorkerOk codec blockOf (l ++ [.started cursor fresh]) (.new cursor) := by
  have hn : ∀ scan evicted, ¬ Scanned (l ++ [.started cursor fresh]) scan evicted :=
    fun scan evicted hs => by
      rcases hs.of_concat with ⟨ha, -⟩ | ⟨said, ha, -⟩
      · cases ha
      · cases ha
  refine ⟨fun tx e he => ?_, fun tx ht => ?_, fun scan evicted hs => (hn _ _ hs).elim,
    fun scan evicted hs => (hn _ _ hs).elim⟩
  · simp [ClaimWorker.new, PendingTxs.new] at he
  · simp [ClaimWorker.new, BoundedSeen.new, BoundedSeen.contains] at ht

/-- A transaction in the answer of a scan is in the blocks of the scan. -/
theorem Discovered.block {log : Log} {tx : B256}
    (h : Discovered codec route blockOf w w' evicted scan) (hm : log ∈ scan.logs)
    (ht : log.transactionHash = some tx) : w.lastSeen < blockOf tx ∧ blockOf tx ≤ w'.lastSeen := by
  obtain ⟨b, -, hfrom, hto, hof⟩ := h.truthful log hm
  rw [hof tx ht]
  rw [h.fromBlock] at hfrom
  exact ⟨by omega, h.toBlock ▸ hto⟩

/-- A scan is of blocks after all that the worker knows of, so that its answer has all the keys of
the transactions it adds. -/
theorem WorkerOk.discovered {said : ClaimSaid} (h : WorkerOk codec blockOf l w)
    (hs : scanOf said = some scan) (hd : Discovered codec route blockOf w w' evicted scan) :
    WorkerOk codec blockOf (l ++ [.discovered said evicted]) w' := by
  have hlt := Nat.le_of_lt hd.lt
  have hscan : ∀ scan' evicted', Scanned (l ++ [.discovered said evicted]) scan' evicted' →
      Scanned l scan' evicted' ∨ scan' = scan ∧ evicted' = evicted := fun scan' evicted' hs' => by
    rcases hs'.of_concat with ⟨-, hs'⟩ | ⟨said', ha, hsaid⟩
    · exact .inl hs'
    · cases ha
      rw [hs] at hsaid
      exact .inr ⟨(Option.some.inj hsaid).symm, rfl⟩
  refine ⟨fun tx e he => ?_, fun tx ht => ?_, fun scan' evicted' hs' log hm tx key hk => ?_,
    fun scan' evicted' hs' log hm tx key hk e he => ?_⟩
  · rcases hd.enqueued.block tx e he with ⟨e₀, he₀, -⟩ | ⟨log, hm, ht, -⟩
    · exact Nat.le_trans (h.tracked tx e₀ he₀) hlt
    · exact (hd.block hm ht).2
  · rw [hd.done] at ht
    exact Nat.le_trans (h.done tx ht) hlt
  · rcases hscan _ _ hs' with hs' | ⟨rfl, rfl⟩
    · exact Nat.le_trans (h.scanned _ _ hs' log hm tx key hk) hlt
    · exact (hd.block hm hk.1).2
  · rcases hscan _ _ hs' with hs' | ⟨rfl, rfl⟩
    · -- a transaction of an earlier answer is in no log of this one
      have hle := h.scanned _ _ hs' log hm tx key hk
      rcases hd.enqueued.block tx e he with ⟨e₀, he₀, -, hsub⟩ | ⟨log', hm', ht', -⟩
      · exact (h.keys _ _ hs' log hm tx key hk e₀ he₀).imp_left fun hkey => hsub hkey
      · have := (hd.block hm' ht').1
        omega
    · rcases hd.enqueued.keys log hm tx key hk e he with hkey | hev | hdone
      · exact .inl hkey
      · exact .inr hev
      · have := h.done tx hdone
        have := (hd.block hm hk.1).1
        omega

theorem WorkerOk.settled {said : ClaimSaid} {now : Instant} {attempts : List Attempt}
    {finished : List B256} (h : WorkerOk codec blockOf l w)
    (hp : Processed codec route w w' now attempts finished) :
    WorkerOk codec blockOf (l ++ [.processed said finished]) w' := by
  have hq : WorkerOk codec blockOf (l ++ [.processed said finished]) w :=
    h.quiet fun _ _ ha => by cases ha
  refine ⟨fun tx e he => ?_, fun tx ht => ?_, fun scan evicted hs log hm tx key hk => ?_,
    fun scan evicted hs log hm tx key hk e he => ?_⟩
  · obtain ⟨e₀, he₀, -⟩ := hp.settled.entry tx e he
    rw [hp.settled.lastSeen]
    exact h.tracked tx e₀ he₀
  · rw [hp.settled.lastSeen]
    rcases hp.settled.done tx ht with ht | ht
    · exact h.done tx ht
    · obtain ⟨a, ha, rfl, -⟩ := hp.settled.ended tx ht
      obtain ⟨e, he, -⟩ := hp.tracked a ha
      exact h.tracked _ e he
  · rw [hp.settled.lastSeen]
    exact hq.scanned scan evicted hs log hm tx key hk
  · obtain ⟨e₀, he₀, -, -, hmeta⟩ := hp.settled.entry tx e he
    rw [hmeta]
    exact hq.keys scan evicted hs log hm tx key hk e₀ he₀

/-- Of every process that runs the worker. -/
def HostOk (codec : ClaimCodec) (blockOf : B256 → Nat) (l : List ClaimEvent) (s : ClaimHost) : Prop :=
  ∀ p task, s.process = some p → p.task = some task → WorkerOk codec blockOf l task.worker

theorem ClaimStep.ok {s t : ClaimHost} (hx : ClaimStep codec route blockOf s a t)
    (h : HostOk codec blockOf l s) : HostOk codec blockOf (l ++ [a]) t := by
  cases hx with
  | boot => rintro p task ⟨⟩ ⟨⟩
  | crash => rintro p task ⟨⟩
  | start =>
    rintro p task ⟨⟩ ⟨⟩
    exact .new _ _
  | @discover _ _ w w' said evicted hx =>
    rintro p task ⟨⟩ ⟨⟩
    have hd := hx.post (discoverLocks_spec w) w' evicted rfl
    have hw := h _ _ rfl rfl
    cases hs : scanOf said with
    | none =>
      rw [hs] at hd
      obtain ⟨rfl, rfl⟩ := hd
      refine hw.quiet fun said' evicted' ha => ?_
      cases ha
      exact hs
    | some scan =>
      rw [hs] at hd
      exact hw.discovered hs hd
  | process hx =>
    rintro p task ⟨⟩ ⟨⟩
    obtain ⟨now, attempts, hp, -⟩ := hx.post (processPending_spec _)
    exact (h _ _ rfl rfl).settled hp
  | discoverFailed | persist | store =>
    rintro p task ⟨⟩ ⟨⟩
    exact (h _ _ rfl rfl).quiet fun _ _ ha => by cases ha
  | persistCut | storeCut => rintro p task ⟨⟩

theorem run_ok {file : Option CheckpointText} {s : ClaimHost}
    (h : Run (ClaimStep codec route blockOf) ⟨file, none⟩ l s) : HostOk codec blockOf l s :=
  h.hist (fun _ _ _ _ hx => hx.ok) fun p task hp => by cases hp

/-! ## The cursor -/

theorem history_append (l l' : List ClaimEvent) :
    history codec route (l ++ l') = history codec route l ++ history codec route l' :=
  List.flatMap_append

theorem insert_evicts {said said' : ClaimSaid} {p p' : PendingTxs B256} {tx o : B256}
    {now : Instant} {block : Nat} {keys : List B256}
    (hx : Exec (claimEnv codec route blockOf)
      (p.insert (fun seen => call (ClaimCall.iter seen)) tx now block keys) said said' (p', some o)) :
    p.Inserted tx ⟨now, block, now, 0, keys⟩ p' (some o) := by
  cases hn : p.contains tx with
  | false => exact hx.post (PendingTxs.insert_spec hn now block keys said)
  | true =>
    rw [PendingTxs.insert, if_pos hn] at hx
    cases hx

end

/-- The claim cursor, in every run of the worker from any file: a transaction that a scan has found,
that no later scan of its block and no fresh start has passed over, and that was neither finished
nor evicted (`Holdback.Owed`), is above every cursor that is persisted, and above the point at which
the cursor in the file resumes. -/
theorem claim_cursor_holdback (codec : ClaimCodec) (route : ClaimRoute) (blockOf : B256 → Nat)
    {file : Option CheckpointText} {l : List ClaimEvent} {s : ClaimHost}
    (h : Run (ClaimStep codec route blockOf) ⟨file, none⟩ l s) :
    (∀ l₁ e l₂ value, l = l₁ ++ e :: l₂ → e = .persisted value ∨ e = .persistCut value →
      ∀ tx, Holdback.Owed blockOf (history codec route l₁) tx → value < blockOf tx) ∧
    (∀ v, savedCursor route s.file = some v →
      ∀ tx, Holdback.Owed blockOf (history codec route l) tx → v - route.scanLookbackBlocks < blockOf tx) ∧
    -- what is tracked has the keys of the answer that it was found in, unless it was evicted there
    (∀ p task, s.process = some p → p.task = some task → ∀ scan evicted, Scanned l scan evicted →
      ∀ log ∈ scan.logs, ∀ tx key, LockOf codec log tx key →
        ∀ e : PendingTx B256, task.worker.pending.seen[tx]? = some e → key ∈ e.metadata ∨ tx ∈ evicted) ∧
    -- the cursors that one worker persists
    (Holdback.saves (Holdback.session (history codec route l))).Pairwise (· ≤ ·) ∧
    (∀ v ∈ Holdback.saves (Holdback.session (history codec route l)),
      ∃ b ∈ Holdback.bounds (Holdback.session (history codec route l)), v ≤ b) ∧
    -- what is evicted was first seen no later than any other
    ∀ (said said' : ClaimSaid) (p p' : PendingTxs B256) (tx o : B256) (now : Instant) (block : Nat)
      (keys : List B256), Exec (claimEnv codec route blockOf)
        (p.insert (fun seen => call (ClaimCall.iter seen)) tx now block keys) said said' (p', some o) →
      p.Inserted tx ⟨now, block, now, 0, keys⟩ p' (some o) := by
  have hr := run_holdback h
  refine ⟨fun l₁ e l₂ value hl he tx ht => ?_, fun v hv tx ht => Holdback.saved_lt hr hv ht,
    fun p task hp ht scan evicted hs log hm tx key hk => (run_ok h p task hp ht).keys scan evicted hs log hm tx key hk,
    Holdback.saves_sorted hr, fun v hv => Holdback.saves_le hr hv,
    fun said said' p p' tx o now block keys hx => insert_evicts hx⟩
  obtain ⟨rest, hrest⟩ : ∃ rest, history codec route l = history codec route l₁ ++ .save value :: rest := by
    rw [hl, history_append]
    rcases he with rfl | rfl
    · exact ⟨history codec route l₂, rfl⟩
    · exact ⟨.other :: history codec route l₂, rfl⟩
  rw [hrest] at hr
  exact Holdback.save_lt hr ht

/-! ## A cursor that overtakes a lock -/

theorem demoIdle : Exec (claimEnv demoCodec demoRoute fun _ => 105)
    (discoverLocks demoCodec demoRoute (.new 120)).run [] [⟨.getBlockNumber, .ok 120⟩]
    (.ok (.new 120, [])) :=
  claim_ask (.ok 120) (show 120 ≤ u64Max by decide) (by exact .ret)

theorem demoResume {v : Nat} : Exec (claimEnv demoCodec demoRoute fun _ => 105)
    (resumeCursor demoRoute (CheckpointStore.get (demoEntries v) (claimCheckpointKey demoRoute))).run []
    [] (.ok (v - 50)) := by
  have h : CheckpointStore.get (demoEntries v) (claimCheckpointKey demoRoute) = some v := by
    rw [CheckpointStore.get, demoEntries, Map.get_insert_self]
    rfl
  rw [h]
  exact .ret

/-- The process is gone, and the next one starts without a checkpoint as well. -/
def demoLost : List ClaimEvent :=
  demoFound ++ [.other, .other, .started 120 true, .discovered [⟨.getBlockNumber, .ok 120⟩] [],
    .persisted 120]

/-- The one after that starts from the checkpoint, and finds the lock. -/
def demoAgain : List ClaimEvent :=
  demoLost ++ [.other, .other, .started 70 false, .discovered (demoSaid 110 71) []]

theorem demoLost_run : Run DemoStep ⟨none, none⟩ demoLost
    ⟨some (serialize (demoEntries 120)), some ⟨demoEntries 120, some ⟨.new 120, .processing⟩⟩⟩ := by
  have hboot : DemoStep ⟨none, none⟩ .other ⟨none, some ⟨∅, none⟩⟩ := .boot CheckpointStore.load_missing
  have hcrashed := (demoFound_run.snoc .crash).snoc hboot
  have hidle := (hcrashed.snoc (.start (demoFresh (by decide)))).snoc (.discover demoIdle)
  exact hidle.snoc (.persist (demoPersist 120))

theorem demoAgain_run : Run DemoStep ⟨none, none⟩ demoAgain
    ⟨some (serialize (demoEntries 120)), some ⟨demoEntries 120, some ⟨demoWorker 110, .discovered⟩⟩⟩ := by
  have hcrashed := (demoLost_run.snoc .crash).snoc (.boot (CheckpointStore.load_written (demoEntries 120)))
  have hstart := hcrashed.snoc (.start demoResume)
  rw [show (CheckpointStore.get (demoEntries 120) (claimCheckpointKey demoRoute)).isNone = false from by
    rw [CheckpointStore.get, demoEntries, Map.get_insert_self]; rfl] at hstart
  exact hstart.snoc (.discover demoDiscover)

theorem claim_cursor_holdback_kept : ∃ s, Run DemoStep ⟨none, none⟩ (demoFound ++ [.persisted 104]) s ∧
    savedCursor demoRoute s.file = some 104 ∧ 104 < 105 ∧ 104 - demoRoute.scanLookbackBlocks < 105 := by
  have hc : savedCursor demoRoute (some (serialize (demoEntries 104))) = some 104 := by
    rw [savedCursor_serialize, CheckpointStore.get, demoEntries, Map.get_insert_self]
    rfl
  have ho : Holdback.Owed (fun _ => 105) (history demoCodec demoRoute demoFound) 12 :=
    ⟨⟨[.other, .start 70 true], .scan 71 110 110 (lockedTxs demoCodec [demoLog]) [], [], rfl,
      ⟨by decide, by decide, List.mem_singleton_self _⟩, fun _ h => absurd h List.not_mem_nil⟩,
      by simp [history, demoFound, ClaimEvent.history, scanOf, demoSaid, Holdback.Event.Releases]⟩
  have ho' : Holdback.Owed (fun _ => 105)
      (history demoCodec demoRoute (demoFound ++ [.persisted 104])) 12 :=
    ⟨⟨[.other, .start 70 true], .scan 71 110 110 (lockedTxs demoCodec [demoLog]) [], [.save 104], rfl,
      ⟨by decide, by decide, List.mem_singleton_self _⟩, by simp [Holdback.Event.Skips]⟩,
      by simp [history, demoFound, ClaimEvent.history, scanOf, demoSaid, Holdback.Event.Releases]⟩
  have h := claim_cursor_holdback demoCodec demoRoute (fun _ => 105) demoKept_run
  exact ⟨_, demoKept_run, hc, h.1 demoFound (.persisted 104) [] 104 rfl (.inl rfl) 12 ho, h.2.1 104 hc 12 ho'⟩

/-- A scan found the transaction, the cursor in the file is past it, and it was neither finished nor
evicted. -/
structure Overtaken (codec : ClaimCodec) (route : ClaimRoute) (blockOf : B256 → Nat)
    (l : List ClaimEvent) (s : ClaimHost) (tx : B256) : Prop where
  found : ∃ said evicted scan, .discovered said evicted ∈ l ∧ scanOf said = some scan ∧
    ∃ log ∈ scan.logs, ∃ key, LockOf codec log tx key
  cursor : ∃ v, savedCursor route s.file = some v ∧ blockOf tx ≤ v
  unfinished : ∀ e ∈ history codec route l, ¬ e.Releases tx

/-- A cursor overtakes a lock that was found: for good when it is that of a worker that started
without a checkpoint, and until it is persisted again when the worker went back by the lookback. -/
theorem claim_cursor_overtakes :
    (∃ s, Run DemoStep ⟨none, none⟩ demoLost s ∧
      Overtaken demoCodec demoRoute (fun _ => 105) demoLost s 12) ∧
    ∃ s, Run DemoStep ⟨none, none⟩ demoAgain s ∧
      Overtaken demoCodec demoRoute (fun _ => 105) demoAgain s 12 := by
  have hf : ∃ said evicted scan, .discovered said evicted ∈ demoFound ∧ scanOf said = some scan ∧
      ∃ log ∈ scan.logs, ∃ key, LockOf demoCodec log 12 key :=
    ⟨demoSaid 110 71, [], ⟨110, 71, 110, [demoLog]⟩, by simp [demoFound], rfl, demoLog,
      List.mem_singleton_self _, demoKey, rfl, _, rfl, rfl⟩
  have hc : savedCursor demoRoute (some (serialize (demoEntries 120))) = some 120 := by
    rw [savedCursor_serialize, CheckpointStore.get, demoEntries, Map.get_insert_self]
    rfl
  obtain ⟨said, evicted, scan, hm, hs⟩ := hf
  refine ⟨⟨_, demoLost_run, ⟨said, evicted, scan, List.mem_append_left _ hm, hs⟩, ⟨120, hc, by decide⟩, ?_⟩,
    _, demoAgain_run, ⟨said, evicted, scan, List.mem_append_left _ (List.mem_append_left _ hm), hs⟩,
    ⟨120, hc, by decide⟩, ?_⟩
  · simp [history, demoLost, demoFound, ClaimEvent.history, scanOf, demoSaid, Holdback.Event.Releases]
  · simp [history, demoAgain, demoLost, demoFound, ClaimEvent.history, scanOf, demoSaid,
      Holdback.Event.Releases]

end MessageRelayer.Claim

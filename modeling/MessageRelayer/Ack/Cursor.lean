import MessageRelayer.Ack.Run

/-!
# The acknowledgment cursor

A transaction that the acknowledgment worker tracks leaves its queue only after
an attempt that released it, or with the worker (`AckStep.custody`). What holds
of the cursor that is persisted (`ack_cursor_holdback`): no cursor passes a
transaction that is still to be settled, and a restart resumes before it. A
worker that starts without a checkpoint does pass it (`ack_cursor_overtakes`).
-/

namespace MessageRelayer.Ack

open Prog hiding ask

/-! ## What is tracked -/

/-- The worker of the process, while its task runs. -/
def AckHost.worker (s : AckHost) : Option AckWorker :=
  s.process.bind fun p => p.task.bind fun task =>
    match task.pc with
    | .waiting | .discovered | .processing => some task.worker
    | .gone => none

/-- Why a transaction is no longer tracked: the worker is gone, or an attempt has released it. -/
inductive Departed (settle : SettleCodec) (route : AckRoute) (sourceChainId : Nat) (event : AckEvent)
    (t : AckHost) (tx : B256) (e : PendingTx DeliveryEvent) : Prop where
  | ended (h : t.process = none)
  | gone (he : event = .gone)
  | released (outboxes : FinSet Address) (said : AckSaid) (finished : List B256)
      (he : event = .processed outboxes said finished) (hf : tx ∈ finished)
      (h : Released settle route sourceChainId outboxes said tx e.metadata)

section
variable {codec : DeliveryCodec} {settle : SettleCodec} {route : AckRoute} {sourceChainId : Nat}
  {blockOf : B256 → Nat} {w w' : AckWorker} {tx : B256} {e : PendingTx DeliveryEvent}

/-- What a step does to a transaction that is tracked. -/
theorem AckStep.custody {s t : AckHost} {event : AckEvent}
    (hx : AckStep codec settle route sourceChainId blockOf s event t) (hw : s.worker = some w)
    (he : w.pending.seen[tx]? = some e) :
    (∃ w', t.worker = some w' ∧ ∃ e' : PendingTx DeliveryEvent, w'.pending.seen[tx]? = some e' ∧
      e'.block = e.block ∧ e.metadata ⊆ e'.metadata) ∨
      Departed settle route sourceChainId event t tx e := by
  cases hx with
  | boot => cases hw
  | start => cases hw
  | crash | persistCut | storeCut => exact .inr (.ended rfl)
  | cancel | panic => exact .inr (.gone rfl)
  | discoverFailed | persist | store => exact .inl ⟨w, hw, e, he, rfl, List.Subset.refl _⟩
  | @discover _ _ w₀ w' said hx =>
    obtain rfl : w₀ = w := Option.some.inj hw
    have hd := hx.post (discoverDelivered_spec w₀) w' rfl
    split at hd
    · obtain rfl := hd
      exact .inl ⟨w', rfl, e, he, rfl, List.Subset.refl _⟩
    · exact .inl ⟨w', rfl, hd.kept tx e he⟩
  | @process _ _ w₀ w' said finished outboxes hx =>
    obtain rfl : w₀ = w := Option.some.inj hw
    have hp := hx.post (processPending_spec outboxes w₀) w' finished rfl
    rcases hp.queue.kept tx e he with ⟨e', he'⟩ | hf
    · obtain ⟨e₀, he₀, -, hb, hm⟩ := hp.queue.entry tx e' he'
      obtain rfl : e₀ = e := Option.some.inj (he₀.symm.trans he)
      exact .inl ⟨w', rfl, e', he', hb, by rw [hm]; exact List.Subset.refl _⟩
    · obtain ⟨e₀, he₀, hr⟩ := hp.released tx hf
      obtain rfl : e₀ = e := Option.some.inj (he₀.symm.trans he)
      exact .inr (.released outboxes said finished rfl hf hr)

/-- In every run, a transaction that the worker tracks is tracked at its end, with what it was tracked
with, or there was a step before which it was tracked and at which it left. -/
theorem run_custody {s t : AckHost} {l : List AckEvent}
    (hr : Run (AckStep codec settle route sourceChainId blockOf) s l t) (hw : s.worker = some w)
    (he : w.pending.seen[tx]? = some e) :
    (∃ w', t.worker = some w' ∧ ∃ e' : PendingTx DeliveryEvent, w'.pending.seen[tx]? = some e' ∧
      e'.block = e.block ∧ e.metadata ⊆ e'.metadata) ∨
      ∃ l₁ event l₂ s₁ s₂ w₁, ∃ e₁ : PendingTx DeliveryEvent, l = l₁ ++ event :: l₂ ∧
        Run (AckStep codec settle route sourceChainId blockOf) s l₁ s₁ ∧
        AckStep codec settle route sourceChainId blockOf s₁ event s₂ ∧ s₁.worker = some w₁ ∧
        w₁.pending.seen[tx]? = some e₁ ∧ e.metadata ⊆ e₁.metadata ∧
        Departed settle route sourceChainId event s₂ tx e₁ := by
  induction hr with
  | nil => exact .inl ⟨w, hw, e, he, rfl, List.Subset.refl _⟩
  | @snoc t u l event h hstep ih =>
    rcases ih with ⟨w₁, hw₁, e₁, he₁, hb₁, hs₁⟩ | ⟨l₁, event', l₂, s₁, s₂, w₁, e₁, rfl, hrest⟩
    · rcases hstep.custody hw₁ he₁ with ⟨w₂, hw₂, e₂, he₂, hb₂, hs₂⟩ | hl
      · exact .inl ⟨w₂, hw₂, e₂, he₂, hb₂.trans hb₁, List.Subset.trans hs₁ hs₂⟩
      · exact .inr ⟨l, event, [], t, u, w₁, e₁, rfl, h, hstep, hw₁, he₁, hs₁, hl⟩
    · refine .inr ⟨l₁, event', l₂ ++ [event], s₁, s₂, w₁, e₁, ?_, hrest⟩
      rw [List.append_assoc, List.cons_append]

/-! ## What is finished -/

/-- Of every process that runs the worker: it tracks nothing that it has finished. -/
def AckHost.Apart (s : AckHost) : Prop :=
  ∀ p task, s.process = some p → p.task = some task → ∀ tx, task.worker.done.contains tx = true →
    task.worker.pending.seen[tx]? = none

theorem AckStep.apart {s t : AckHost} {event : AckEvent}
    (hx : AckStep codec settle route sourceChainId blockOf s event t) (h : s.Apart) : t.Apart := by
  cases hx with
  | boot => rintro p task ⟨⟩ ⟨⟩
  | crash | persistCut | storeCut => rintro p task ⟨⟩
  | start =>
    rintro p task ⟨⟩ ⟨⟩ tx hd
    simp [AckWorker.new, BoundedSeen.new, BoundedSeen.contains] at hd
  | store =>
    rintro p task ⟨⟩ ht
    exact h _ _ rfl ht
  | cancel | panic | discoverFailed | persist =>
    have hw := h _ _ rfl rfl
    rintro p task ⟨⟩ ⟨⟩
    exact hw
  | @discover _ _ w w' said hx =>
    rintro p task ⟨⟩ ⟨⟩ tx hd
    have hs := hx.post (discoverDelivered_spec w) w' rfl
    split at hs
    · obtain rfl := hs
      exact h _ _ rfl rfl tx hd
    · have hd' : w.done.contains tx = true := by rw [← hs.done]; exact hd
      have hn := h _ _ rfl rfl tx hd'
      refine Option.eq_none_iff_forall_ne_some.mpr fun e he => ?_
      rcases hs.entry tx e he with ⟨e₀, he₀, -⟩ | ⟨hf, -⟩
      · rw [hn] at he₀
        cases he₀
      · rw [hd'] at hf
        cases hf
  | @process _ _ w w' said finished outboxes hx =>
    rintro p task ⟨⟩ ⟨⟩ tx hd
    have hp := hx.post (processPending_spec outboxes w) w' finished rfl
    rcases hp.queue.done tx hd with hd | hf
    · refine Option.eq_none_iff_forall_ne_some.mpr fun e he => ?_
      obtain ⟨e₀, he₀, -⟩ := hp.queue.entry tx e he
      rw [h _ _ rfl rfl tx hd] at he₀
      cases he₀
    · exact hp.queue.gone tx hf

theorem run_apart {file : Option CheckpointText} {l : List AckEvent} {s : AckHost}
    (h : Run (AckStep codec settle route sourceChainId blockOf) ⟨file, none⟩ l s) : s.Apart :=
  h.inv (fun _ _ _ hx => hx.apart) fun p task hp => by cases hp

end

/-- The acknowledgment cursor, in every run of the worker from any file. A transaction whose block a
scan has passed with one of its events in the answer, whose block no later scan without any and no
fresh start has passed, and that was not finished (`Holdback.Owed`), is above every cursor that is
persisted, and above the point at which the cursor in the file resumes. -/
theorem ack_cursor_holdback (codec : DeliveryCodec) (settle : SettleCodec) (route : AckRoute)
    (sourceChainId : Nat) (blockOf : B256 → Nat) {file : Option CheckpointText} {l : List AckEvent}
    {s : AckHost} (h : Run (AckStep codec settle route sourceChainId blockOf) ⟨file, none⟩ l s) :
    (∀ l₁ e l₂ value, l = l₁ ++ e :: l₂ → e = .persisted value ∨ e = .persistCut value →
      ∀ tx, Holdback.Owed blockOf (history codec route l₁) tx → value < blockOf tx) ∧
    (∀ v, cursorOf (ackCheckpointKey route) s.file = some v →
      ∀ tx, Holdback.Owed blockOf (history codec route l) tx → v - route.scanLookbackBlocks < blockOf tx) ∧
    -- the cursors that one worker persists
    (Holdback.saves (Holdback.session (history codec route l))).Pairwise (· ≤ ·) ∧
    -- what a scan finds is tracked with its event, or finished, or above the new cursor
    (∀ said lastSeen t w w', AckStep codec settle route sourceChainId blockOf s
      (.discovered said lastSeen) t → s.worker = some w → t.worker = some w' →
      ∀ scan, scanOf said = some scan → ∀ log ∈ scan.logs, ∀ tx event, DeliveryOf codec log tx event →
        (∃ e : PendingTx DeliveryEvent, w'.pending.seen[tx]? = some e ∧ event ∈ e.metadata) ∨
          w'.pending.seen[tx]? = none ∧ (w.done.contains tx = true ∨ w'.lastSeen < blockOf tx)) ∧
    -- what is finished was tracked until an attempt released it
    (∀ outboxes said finished t w, AckStep codec settle route sourceChainId blockOf s
      (.processed outboxes said finished) t → s.worker = some w → ∀ tx ∈ finished,
      ∃ e : PendingTx DeliveryEvent, w.pending.seen[tx]? = some e ∧
        Released settle route sourceChainId outboxes said tx e.metadata) ∧
    -- what is tracked stays tracked until then, or until the worker is gone
    ∀ (w : AckWorker) (tx : B256) (e : PendingTx DeliveryEvent), s.worker = some w →
      w.pending.seen[tx]? = some e → ∀ l' t,
      Run (AckStep codec settle route sourceChainId blockOf) s l' t →
        (∃ w', t.worker = some w' ∧ ∃ e' : PendingTx DeliveryEvent, w'.pending.seen[tx]? = some e' ∧
          e'.block = e.block ∧ e.metadata ⊆ e'.metadata) ∨
        ∃ l₁ event l₂ s₁ s₂ w₁, ∃ e₁ : PendingTx DeliveryEvent, l' = l₁ ++ event :: l₂ ∧
          Run (AckStep codec settle route sourceChainId blockOf) s l₁ s₁ ∧
          AckStep codec settle route sourceChainId blockOf s₁ event s₂ ∧ s₁.worker = some w₁ ∧
          w₁.pending.seen[tx]? = some e₁ ∧ e.metadata ⊆ e₁.metadata ∧
          Departed settle route sourceChainId event s₂ tx e₁ := by
  have hr := run_holdback h
  refine ⟨fun l₁ e l₂ value hl he tx ht => ?_, fun v hv tx ht => Holdback.saved_lt hr hv ht,
    Holdback.saves_sorted hr, fun said lastSeen t w w' hx hw hw' scan hs log hm tx event hd => ?_,
    fun outboxes said finished t w hx hw tx hf => ?_,
    fun w tx e hw he l' t hr' => run_custody hr' hw he⟩
  · obtain ⟨rest, hrest⟩ : ∃ rest, history codec route l = history codec route l₁ ++ .save value :: rest := by
      rw [hl, history_append]
      rcases he with rfl | rfl
      · exact ⟨history codec route l₂, rfl⟩
      · exact ⟨.other :: history codec route l₂, rfl⟩
    rw [hrest] at hr
    exact Holdback.save_lt hr ht
  · have hok := hx.apart (run_apart h)
    cases hx with
    | @discover _ _ w₀ w₁ _ hx =>
      obtain rfl : w₀ = w := Option.some.inj hw
      obtain rfl : w₁ = w' := Option.some.inj hw'
      have hsp := hx.post (discoverDelivered_spec w₀) w₁ rfl
      rw [hs] at hsp
      rcases hsp.found log hm tx event hd with hd | he | ⟨hn, hlt⟩
      · have hd' : w₁.done.contains tx = true := by rw [hsp.done]; exact hd
        exact .inr ⟨hok _ _ rfl rfl tx hd', .inl hd⟩
      · exact .inl he
      · exact .inr ⟨hn, .inr hlt⟩
  · cases hx with
    | @process _ _ w₀ w₁ _ _ _ hx =>
      obtain rfl : w₀ = w := Option.some.inj hw
      exact (hx.post (processPending_spec outboxes w₀) w₁ finished rfl).released tx hf

/-! ## A cursor that overtakes a delivery -/

def sampleEvents : DeliveryCodec where
  signatureHash := fun
    | .received => 0x296e1819195efaae72806919086efdeebeedebaba953aa284960065127d4ed3b
    | .queued => 0xb751aa276e91a9233d36014838d46fdd595d9d169a8911bd0beb368bd8fac55b
    | .deferred => 0x85c57ef3d335b510a63f27132a7f9ac40ad039d46aa96aa4f5a923a390868e76
    | .executed => 0x87e96aa303d9d859f45ea898c8c9619e9a321451a48f29454d7310dc2612cb94
  decodeLog := fun kind topics data =>
    match kind, topics, data with
    | .received, [_, id, _, _], [] | .queued, [_, id, _, _], [] | .deferred, [_, id, _, _], []
    | .executed, [_, id, _, _], _ :: _ => .ok id
    | _, _, _ => .error "invalid log"

/-- The message was received in the transaction 12 of block 105. -/
def sampleLog : Log where
  address := 4
  topics := [0x296e1819195efaae72806919086efdeebeedebaba953aa284960065127d4ed3b, sampleId, 8, 5]
  data := []
  blockNumber := some 105
  blockHash := some 11
  transactionHash := some 12
  removed := false

abbrev SampleStep := AckStep sampleEvents sampleCodec sampleRoute 102031 fun _ => 105

abbrev sampleEnv := ackEnv sampleCodec sampleRoute 102031 fun _ => 105

theorem ack_ask {α : Type} {c : AckCall} {said said' : AckSaid} {r : α} {k : c.Answer → AckProg α}
    (a : c.Answer) (ha : Faithful sampleCodec sampleRoute 102031 (fun _ => 105) c a)
    (h : Exec sampleEnv (k a) (said ++ [⟨c, a⟩]) said' r) : Exec sampleEnv (.ask c k) said said' r :=
  .ask (show sampleEnv said c a _ from ⟨rfl, ha⟩) h

/-- The worker with the delivery, after it scanned up to a block. -/
def sampleWorker (lastSeen : Nat) : AckWorker where
  lastSeen := lastSeen
  pending :=
    { seen := (∅ : Map B256 (PendingTx DeliveryEvent)).insert 12 ⟨0, 105, 0, 0, [⟨sampleId, false⟩]⟩
      cap := maxPendingAcks
      bounded := by
        have h := Std.ExtTreeMap.size_insert_le (t := (∅ : Map B256 (PendingTx DeliveryEvent)))
          (k := 12) (v := (⟨0, 105, 0, 0, [⟨sampleId, false⟩]⟩ : PendingTx DeliveryEvent))
        have he : (∅ : Map B256 (PendingTx DeliveryEvent)).size = 0 := rfl
        simp only [maxPendingAcks]
        omega }
  done := .new maxDoneTracked

def sampleTip : Height := ⟨110, by decide⟩

def sampleLater : Height := ⟨120, by decide⟩

/-- What a scan hears that finds the delivery. -/
def sampleScan : AckSaid :=
  [⟨.getBlockNumber, .ok sampleTip⟩, ⟨.getLogs 4 71 110, .ok [sampleLog]⟩, ⟨.now, (0 : Nat)⟩]

theorem sampleDiscover : Exec sampleEnv (discoverDelivered sampleEvents sampleRoute (.new 70)).run []
    sampleScan (.ok (sampleWorker 110)) := by
  refine ack_ask (.ok sampleTip) trivial ?_
  refine ack_ask (.ok [sampleLog]) ?_ ?_
  · intro log hm tx b _ hb
    obtain rfl := List.mem_singleton.mp hm
    exact Option.some.inj hb
  exact ack_ask (0 : Nat) trivial (by exact .ret)

/-- Where a worker starts that has no checkpoint. -/
theorem sampleFresh (tip : Height) : Exec sampleEnv
    (resumeCursor sampleRoute (CheckpointStore.get ∅ (ackCheckpointKey sampleRoute))).run []
    [⟨.getBlockNumber, .ok tip⟩] (.ok tip.val) := ack_ask (.ok tip) trivial (by exact .ret)

theorem sampleIdle : Exec sampleEnv (discoverDelivered sampleEvents sampleRoute (.new 120)).run []
    [⟨.getBlockNumber, .ok sampleLater⟩] (.ok (.new 120)) :=
  ack_ask (.ok sampleLater) trivial (by exact .ret)

def sampleEntries (v : Nat) : Entries := .insert ∅ (ackCheckpointKey sampleRoute) ⟨v, none, false⟩

theorem samplePersist (v : Nat) : Exec (fileEnv false)
    (CheckpointStore.set ∅ (ackCheckpointKey sampleRoute) v) none (some (serialize (sampleEntries v)))
    (.ok (), sampleEntries v) := CheckpointStore.persistEntry_written ∅ _ ⟨v, none, false⟩ none

theorem sampleCursor (v : Nat) :
    cursorOf (ackCheckpointKey sampleRoute) (some (serialize (sampleEntries v))) = some v := by
  rw [cursorOf_serialize, CheckpointStore.get, sampleEntries, Map.get_insert_self]
  rfl

/-- A worker starts without a checkpoint and finds the delivery. -/
def sampleFound : List AckEvent := [.other, .started 70 true, .discovered sampleScan 110]

theorem sampleFound_run : Run SampleStep ⟨none, none⟩ sampleFound
    ⟨none, some ⟨∅, some ⟨sampleWorker 110, .discovered⟩⟩⟩ := by
  have hboot : SampleStep ⟨none, none⟩ .other ⟨none, some ⟨∅, none⟩⟩ := .boot CheckpointStore.load_missing
  exact ((Run.single hboot).snoc (.start (sampleFresh ⟨70, by decide⟩))).snoc (.discover sampleDiscover)

/-- The worker holds its cursor before the delivery. -/
theorem sampleWorker_cursor : (sampleWorker 110).cursor = 104 := by
  have hv : (sampleWorker 110).pending.oldestPendingBlock = some 105 := by rfl
  rw [AckWorker.cursor, PendingTxs.heldCursor, hv]
  rfl

theorem sampleKept_run : Run SampleStep ⟨none, none⟩ (sampleFound ++ [.persisted 104])
    ⟨some (serialize (sampleEntries 104)),
      some ⟨sampleEntries 104, some ⟨sampleWorker 110, .processing⟩⟩⟩ := by
  have hr := sampleFound_run.snoc (.persist (samplePersist (sampleWorker 110).cursor))
  rw [sampleWorker_cursor] at hr
  exact hr

theorem ack_cursor_holdback_kept : ∃ s,
    Run SampleStep ⟨none, none⟩ (sampleFound ++ [.persisted 104]) s ∧
    cursorOf (ackCheckpointKey sampleRoute) s.file = some 104 ∧ 104 < 105 ∧
    104 - sampleRoute.scanLookbackBlocks < 105 := by
  have ho : Holdback.Owed (fun _ => 105) (history sampleEvents sampleRoute sampleFound) 12 :=
    ⟨⟨[.other, .start 70 true], .scan 71 110 110 (deliveryTxs sampleEvents [sampleLog]) [], [], rfl,
      ⟨by decide, by decide, by decide⟩, fun _ h => absurd h List.not_mem_nil⟩,
      by simp [history, sampleFound, AckEvent.history, scanOf, sampleScan, Holdback.Event.Releases]⟩
  have ho' : Holdback.Owed (fun _ => 105)
      (history sampleEvents sampleRoute (sampleFound ++ [.persisted 104])) 12 :=
    ⟨⟨[.other, .start 70 true], .scan 71 110 110 (deliveryTxs sampleEvents [sampleLog]) [],
      [.save 104], rfl, ⟨by decide, by decide, by decide⟩, by simp [Holdback.Event.Skips]⟩,
      by simp [history, sampleFound, AckEvent.history, scanOf, sampleScan, Holdback.Event.Releases]⟩
  have h := ack_cursor_holdback sampleEvents sampleCodec sampleRoute 102031 (fun _ => 105) sampleKept_run
  exact ⟨_, sampleKept_run, sampleCursor 104, h.1 sampleFound (.persisted 104) [] 104 rfl (.inl rfl) 12 ho,
    h.2.1 104 (sampleCursor 104) 12 ho'⟩

/-- The process is gone, and the next one starts without a checkpoint as well. -/
def sampleLost : List AckEvent :=
  sampleFound ++ [.other, .other, .started 120 true,
    .discovered [⟨.getBlockNumber, .ok sampleLater⟩] 120, .persisted 120]

/-- The one after that starts from the checkpoint, and finds the delivery. -/
def sampleAgain : List AckEvent :=
  sampleLost ++ [.other, .other, .started 70 false, .discovered sampleScan 110]

theorem sampleLost_run : Run SampleStep ⟨none, none⟩ sampleLost
    ⟨some (serialize (sampleEntries 120)), some ⟨sampleEntries 120, some ⟨.new 120, .processing⟩⟩⟩ := by
  have hboot : SampleStep ⟨none, none⟩ .other ⟨none, some ⟨∅, none⟩⟩ := .boot CheckpointStore.load_missing
  have hcrashed := (sampleFound_run.snoc .crash).snoc hboot
  have hidle := (hcrashed.snoc (.start (sampleFresh sampleLater))).snoc (.discover sampleIdle)
  exact hidle.snoc (.persist (samplePersist 120))

theorem sampleAgain_run : Run SampleStep ⟨none, none⟩ sampleAgain
    ⟨some (serialize (sampleEntries 120)),
      some ⟨sampleEntries 120, some ⟨sampleWorker 110, .discovered⟩⟩⟩ := by
  have hcrashed := (sampleLost_run.snoc .crash).snoc (.boot (CheckpointStore.load_written (sampleEntries 120)))
  have hget : CheckpointStore.get (sampleEntries 120) (ackCheckpointKey sampleRoute) = some 120 := by
    rw [CheckpointStore.get, sampleEntries, Map.get_insert_self]
    rfl
  have hresume : Exec sampleEnv (resumeCursor sampleRoute
      (CheckpointStore.get (sampleEntries 120) (ackCheckpointKey sampleRoute))).run [] [] (.ok 70) := by
    rw [hget]
    exact .ret
  have hstart := hcrashed.snoc (.start hresume)
  rw [hget] at hstart
  exact hstart.snoc (.discover sampleDiscover)

/-- A scan passed the transaction with an event of it, the cursor in the file is past it, and it was
not finished. -/
structure Overtaken (codec : DeliveryCodec) (route : AckRoute) (blockOf : B256 → Nat)
    (l : List AckEvent) (s : AckHost) (tx : B256) : Prop where
  found : ∃ said lastSeen scan, .discovered said lastSeen ∈ l ∧ scanOf said = some scan ∧
    blockOf tx ≤ lastSeen ∧ ∃ log ∈ scan.logs, ∃ event, DeliveryOf codec log tx event
  cursor : ∃ v, cursorOf (ackCheckpointKey route) s.file = some v ∧ blockOf tx ≤ v
  unfinished : ∀ e ∈ history codec route l, ¬ e.Releases tx

/-- A cursor overtakes a delivery that was found: for good when it is that of a worker that started
without a checkpoint, and until it is persisted again when the worker went back by the lookback. -/
theorem ack_cursor_overtakes :
    (∃ s, Run SampleStep ⟨none, none⟩ sampleLost s ∧
      Overtaken sampleEvents sampleRoute (fun _ => 105) sampleLost s 12) ∧
    ∃ s, Run SampleStep ⟨none, none⟩ sampleAgain s ∧
      Overtaken sampleEvents sampleRoute (fun _ => 105) sampleAgain s 12 := by
  have hm : .discovered sampleScan 110 ∈ sampleFound := by simp [sampleFound]
  have hlog : ∃ log ∈ [sampleLog], ∃ event, DeliveryOf sampleEvents log 12 event :=
    ⟨sampleLog, List.mem_singleton_self _, ⟨sampleId, false⟩, rfl, .received, rfl, rfl⟩
  refine ⟨⟨_, sampleLost_run, ⟨sampleScan, 110, ⟨110, 71, 110, [sampleLog]⟩,
      List.mem_append_left _ hm, rfl, by decide, hlog⟩, ⟨120, sampleCursor 120, by decide⟩, ?_⟩,
    _, sampleAgain_run, ⟨sampleScan, 110, ⟨110, 71, 110, [sampleLog]⟩,
      List.mem_append_left _ (List.mem_append_left _ hm), rfl, by decide, hlog⟩,
    ⟨120, sampleCursor 120, by decide⟩, ?_⟩
  · simp [history, sampleLost, sampleFound, AckEvent.history, scanOf, sampleScan,
      Holdback.Event.Releases]
  · simp [history, sampleAgain, sampleLost, sampleFound, AckEvent.history, scanOf, sampleScan,
      Holdback.Event.Releases]

end MessageRelayer.Ack

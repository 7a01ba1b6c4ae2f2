import MessageRelayer.Ack.Queue
import MessageRelayer.Checkpoint.Cursor

/-!
# Runs of the acknowledgment worker

The acknowledgment worker of a route with the checkpoint file, as a step
relation (`AckStep`): the process starts and may be gone after any step, the
worker starts from its checkpoint and goes round its loop until it is cancelled
or panics, and the other workers write their own entries to the file. Writes to
the file may fail or be cut short.

Every such run is one of a cursor that unfinished items hold back
(`run_holdback`): `history` is what it finds, finishes and saves.
-/

namespace MessageRelayer.Ack

open Prog hiding ask

/-! ## Steps -/

/-- Where the worker is in a turn of its loop. -/
inductive AckPc where
  | waiting
  /-- Discovery succeeded; the cursor is to be persisted. -/
  | discovered
  | processing
  /-- The task has ended; the process is to follow. -/
  | gone

structure AckTask where
  worker : AckWorker
  pc : AckPc

structure AckProcess where
  entries : Entries
  task : Option AckTask

structure AckHost where
  file : Option CheckpointText
  process : Option AckProcess

/-- What is seen of a step. -/
inductive AckEvent where
  /-- The worker starts; `fresh` is whether there was no checkpoint. -/
  | started (cursor : Nat) (fresh : Bool)
  | discovered (said : AckSaid) (lastSeen : Nat)
  | discoveryFailed
  /-- The cursor is written to the file, with success or without. -/
  | persisted (value : Nat)
  /-- The process is gone while it writes the cursor. -/
  | persistCut (value : Nat)
  | processed (outboxes : FinSet Address) (said : AckSaid) (finished : List B256)
  /-- The worker is cancelled, or panics. -/
  | gone
  | other

def ackCheckpointKey (route : AckRoute) : String := "ack:" ++ toString route.chainKey

inductive AckStep (codec : DeliveryCodec) (settle : SettleCodec) (route : AckRoute)
    (sourceChainId : Nat) (blockOf : B256 → Nat) : AckHost → AckEvent → AckHost → Prop where
  | boot {file file' : Option CheckpointText} {entries : Entries}
      (hx : Exec (fileEnv false) CheckpointStore.load.run file file' (.ok entries)) :
      AckStep codec settle route sourceChainId blockOf ⟨file, none⟩ .other ⟨file', some ⟨entries, none⟩⟩
  | crash {file : Option CheckpointText} {p : AckProcess} :
      AckStep codec settle route sourceChainId blockOf ⟨file, some p⟩ .other ⟨file, none⟩
  | start {file : Option CheckpointText} {entries : Entries} {said : AckSaid} {cursor : Nat}
      (hx : Exec (ackEnv settle route sourceChainId blockOf)
        (resumeCursor route (CheckpointStore.get entries (ackCheckpointKey route))).run [] said
        (.ok cursor)) :
      AckStep codec settle route sourceChainId blockOf ⟨file, some ⟨entries, none⟩⟩
        (.started cursor (CheckpointStore.get entries (ackCheckpointKey route)).isNone)
        ⟨file, some ⟨entries, some ⟨.new cursor, .waiting⟩⟩⟩
  -- the loop of the worker
  | cancel {file : Option CheckpointText} {entries : Entries} {w : AckWorker} :
      AckStep codec settle route sourceChainId blockOf ⟨file, some ⟨entries, some ⟨w, .waiting⟩⟩⟩
        .gone ⟨file, some ⟨entries, some ⟨w, .gone⟩⟩⟩
  | discover {file : Option CheckpointText} {entries : Entries} {w w' : AckWorker} {said : AckSaid}
      (hx : Exec (ackEnv settle route sourceChainId blockOf) (discoverDelivered codec route w).run []
        said (.ok w')) :
      AckStep codec settle route sourceChainId blockOf ⟨file, some ⟨entries, some ⟨w, .waiting⟩⟩⟩
        (.discovered said w'.lastSeen) ⟨file, some ⟨entries, some ⟨w', .discovered⟩⟩⟩
  | discoverFailed {file : Option CheckpointText} {entries : Entries} {w : AckWorker} :
      AckStep codec settle route sourceChainId blockOf ⟨file, some ⟨entries, some ⟨w, .waiting⟩⟩⟩
        .discoveryFailed ⟨file, some ⟨entries, some ⟨w, .processing⟩⟩⟩
  | persist {file file' : Option CheckpointText} {entries entries' : Entries} {w : AckWorker}
      {r : Except Error Unit}
      (hx : Exec (fileEnv false) (CheckpointStore.set entries (ackCheckpointKey route) w.cursor)
        file file' (r, entries')) :
      AckStep codec settle route sourceChainId blockOf ⟨file, some ⟨entries, some ⟨w, .discovered⟩⟩⟩
        (.persisted w.cursor) ⟨file', some ⟨entries', some ⟨w, .processing⟩⟩⟩
  | persistCut {file file' : Option CheckpointText} {entries : Entries} {w : AckWorker}
      (hx : Cut (fileEnv false) (CheckpointStore.set entries (ackCheckpointKey route) w.cursor)
        file file') :
      AckStep codec settle route sourceChainId blockOf ⟨file, some ⟨entries, some ⟨w, .discovered⟩⟩⟩
        (.persistCut w.cursor) ⟨file', none⟩
  | process {file : Option CheckpointText} {entries : Entries} {w w' : AckWorker} {said : AckSaid}
      {finished : List B256} (outboxes : FinSet Address)
      (hx : Exec (ackEnv settle route sourceChainId blockOf) (processPending route outboxes w) [] said
        (some (w', finished))) :
      AckStep codec settle route sourceChainId blockOf ⟨file, some ⟨entries, some ⟨w, .processing⟩⟩⟩
        (.processed outboxes said finished) ⟨file, some ⟨entries, some ⟨w', .waiting⟩⟩⟩
  | panic {file : Option CheckpointText} {entries : Entries} {w : AckWorker} {said : AckSaid}
      (outboxes : FinSet Address)
      (hx : Exec (ackEnv settle route sourceChainId blockOf) (processPending route outboxes w) [] said
        none) :
      AckStep codec settle route sourceChainId blockOf ⟨file, some ⟨entries, some ⟨w, .processing⟩⟩⟩
        .gone ⟨file, some ⟨entries, some ⟨w, .gone⟩⟩⟩
  -- the other workers
  | store {file file' : Option CheckpointText} {entries entries' : Entries}
      {task : Option AckTask} {r : Except Error Unit} (o : StoreOp)
      (hk : o.key ≠ ackCheckpointKey route)
      (hx : Exec (fileEnv false) (o.run entries) file file' (r, entries')) :
      AckStep codec settle route sourceChainId blockOf ⟨file, some ⟨entries, task⟩⟩ .other
        ⟨file', some ⟨entries', task⟩⟩
  | storeCut {file file' : Option CheckpointText} {entries : Entries} {task : Option AckTask}
      (o : StoreOp) (hk : o.key ≠ ackCheckpointKey route)
      (hx : Cut (fileEnv false) (o.run entries) file file') :
      AckStep codec settle route sourceChainId blockOf ⟨file, some ⟨entries, task⟩⟩ .other ⟨file', none⟩

/-! ## What a run finds, finishes and saves -/

section
variable (codec : DeliveryCodec) (route : AckRoute)

/-- The transactions of the logs that are delivery events. -/
def deliveryTxs (logs : List Log) : List B256 :=
  logs.filterMap fun log =>
    match decodeDeliveryLog codec log with
    | .ok (some _) => log.transactionHash
    | .ok none | .error _ => none

def AckEvent.history : AckEvent → List (Holdback.Event B256)
  | started cursor fresh => [.start cursor fresh]
  | discovered said lastSeen =>
    match scanOf said with
    | none => []
    | some scan => [.scan scan.fromBlock lastSeen (scan.tip - route.confirmationDepth)
        (deliveryTxs codec scan.logs) []]
  | discoveryFailed | gone => []
  | persisted value => [.save value]
  | persistCut value => [.save value, .other]
  | processed _ _ finished => [.settle finished]
  | other => [.other]

def history (l : List AckEvent) : List (Holdback.Event B256) :=
  l.flatMap (AckEvent.history codec route)

/-- The worker, as one of a cursor that is held back. -/
def AckWorker.tracking (w : AckWorker) : Holdback.Worker B256 := w.pending.tracking w.lastSeen w.done

def AckHost.tracking (s : AckHost) : Holdback.State B256 where
  saved := cursorOf (ackCheckpointKey route) s.file
  process := s.process.map fun p =>
    { kept := CheckpointStore.get p.entries (ackCheckpointKey route)
      worker := p.task.map (·.worker.tracking) }

end

section
variable {codec : DeliveryCodec} {settle : SettleCodec} {route : AckRoute} {sourceChainId : Nat}
  {blockOf : B256 → Nat} {w w' : AckWorker}

theorem history_append (l l' : List AckEvent) :
    history codec route (l ++ l') = history codec route l ++ history codec route l' :=
  List.flatMap_append

theorem mem_deliveryTxs {logs : List Log} {tx : B256} :
    tx ∈ deliveryTxs codec logs ↔ ∃ log ∈ logs, ∃ event, DeliveryOf codec log tx event := by
  rw [deliveryTxs, List.mem_filterMap]
  refine exists_congr fun log => and_congr_right fun _ => ⟨fun h => ?_, fun ⟨event, ht, kind, _, hd⟩ => ?_⟩
  · split at h
    · rename_i found hd
      exact ⟨⟨found.2, found.1 == .executed⟩, h, found.1, rfl, hd⟩
    · cases h
    · cases h
  · rw [hd]
    exact ht

theorem resumeCursor_spec {W : Type} {H : Env AckCall AckCall.Answer W} (v : Nat) (world : W) :
    wp H (resumeCursor route (some v)).run world fun _ r =>
      r = .ok (v - route.scanLookbackBlocks) := by
  rw [resumeCursor]
  exact rfl

theorem Discovered.scans {scan : DeliveryScan} (h : Discovered codec route blockOf w w' scan) :
    w.tracking.Scans blockOf w'.tracking scan.fromBlock w'.lastSeen
      (scan.tip - route.confirmationDepth) (deliveryTxs codec scan.logs) [] where
  first := h.fromBlock
  last := rfl
  cursor := h.le
  head := h.head
  found tx ht hle := by
    obtain ⟨log, hm, event, hl⟩ := mem_deliveryTxs.mp ht
    rcases h.found log hm tx event hl with hd | ⟨e, he, -⟩ | ⟨-, hlt⟩
    · exact .inr (.inr hd)
    · exact .inl ⟨e.block, PendingTxs.tracking_held he _⟩
    · exact absurd hle (Nat.not_le_of_lt hlt)
  held tx b hb := by
    obtain ⟨e, he, rfl⟩ := Option.map_eq_some_iff.mp hb
    rcases h.entry tx e he with ⟨e₀, he₀, hb₀⟩ | ⟨-, hlt, hof⟩
    · exact .inl (hb₀ ▸ PendingTxs.tracking_held he₀ _)
    · exact .inr ⟨hlt, Nat.le_of_eq hof⟩
  kept tx b hb := by
    obtain ⟨e₀, he₀, rfl⟩ := Option.map_eq_some_iff.mp hb
    obtain ⟨e, he, -⟩ := h.kept tx e₀ he₀
    exact .inl ⟨e.block, PendingTxs.tracking_held he _⟩
  done tx ht := by
    rw [AckWorker.tracking, h.done] at ht
    exact ht

/-- Every step is one of a cursor that is held back, or none. -/
theorem AckStep.holdback {s t : AckHost} {e : AckEvent}
    (h : AckStep codec settle route sourceChainId blockOf s e t) :
    Run (Holdback.Step blockOf route.scanLookbackBlocks) (s.tracking route)
      (e.history codec route) (t.tracking route) := by
  cases h with
  | @boot file file' entries hx =>
    obtain ⟨rfl, hl, -⟩ := hx.post (load_spec file)
    refine .single ?_
    simp only [AckHost.tracking, Option.map_some, Option.map_none, cursorOf_entriesOf (hl _ rfl)]
    exact .boot
  | crash => exact .single (.crash (.inl rfl))
  | @start file entries said cursor hx =>
    refine .single ?_
    have hn : (AckWorker.new cursor).tracking = Holdback.Worker.start B256 cursor :=
      PendingTxs.tracking_new DeliveryEvent cursor _ _
    simp only [AckHost.tracking, Option.map_some, Option.map_none, hn]
    cases hk : CheckpointStore.get entries (ackCheckpointKey route) with
    | none => exact .fresh cursor
    | some v =>
      rw [hk] at hx
      obtain rfl : cursor = v - route.scanLookbackBlocks := by
        simpa using hx.post (resumeCursor_spec v [])
      exact .resume
  | @discover file entries w w' said hx =>
    have hd := hx.post (discoverDelivered_spec w) w' rfl
    rw [AckEvent.history]
    cases hs : scanOf said with
    | none =>
      rw [hs] at hd
      obtain rfl := hd
      exact .nil
    | some scan =>
      rw [hs] at hd
      exact .single (.scan (Discovered.scans hd))
  | discoverFailed | cancel | panic => exact .nil
  | @persist _ _ _ _ w _ hx =>
    exact .single (.save (PendingTxs.heldCursor_saves w.pending w.lastSeen w.done) (cursorOf_set hx.cut)
      (get_set hx))
  | @persistCut _ _ _ w hx =>
    exact .snoc (.single (.save (PendingTxs.heldCursor_saves w.pending w.lastSeen w.done)
      (cursorOf_set hx) (.inl rfl))) (.crash (.inl rfl))
  | process outboxes hx =>
    have hp := hx.post (processPending_spec outboxes _) _ _ rfl
    exact .single (.settle (hp.queue.settles hp.lastSeen))
  | @store file file' entries entries' task r o hk hx =>
    refine .single ?_
    simp only [AckHost.tracking, Option.map_some, get_other hk hx]
    exact .elsewhere (cursorOf_other hk hx.cut)
  | storeCut o hk hx => exact .single (.crash (cursorOf_other hk hx))

/-- Every run is one of a cursor that is held back. -/
theorem run_holdback {s t : AckHost} {l : List AckEvent}
    (h : Run (AckStep codec settle route sourceChainId blockOf) s l t) :
    Run (Holdback.Step blockOf route.scanLookbackBlocks) (s.tracking route)
      (history codec route l) (t.tracking route) :=
  h.simulate (AckHost.tracking route) (AckEvent.history codec route) fun _ _ _ => AckStep.holdback

end

end MessageRelayer.Ack

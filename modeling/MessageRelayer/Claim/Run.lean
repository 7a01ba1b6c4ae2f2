import MessageRelayer.Checkpoint.Cursor
import MessageRelayer.Claim.Facts

/-!
# Runs of the claim worker

The claim worker of a route with the checkpoint file, as a step relation
(`ClaimStep`): the process starts and may be gone after any step, the worker
starts from its checkpoint and goes round its loop, and the other workers write
their own entries to the file. Writes to the file may fail or be cut short.

Every such run is one of a cursor that unfinished items hold back
(`run_holdback`): `history` is what it finds, finishes and saves.
-/

namespace MessageRelayer.Claim

open Prog hiding ask

/-! ## Steps -/

/-- Where the worker is in a turn of its loop. -/
inductive ClaimPc where
  | waiting
  /-- Discovery succeeded; the cursor is to be persisted. -/
  | discovered
  | processing

structure ClaimTask where
  worker : ClaimWorker
  pc : ClaimPc

structure ClaimProcess where
  entries : Entries
  task : Option ClaimTask

structure ClaimHost where
  file : Option CheckpointText
  process : Option ClaimProcess

/-- What is seen of a step. -/
inductive ClaimEvent where
  /-- The worker starts; `fresh` is whether there was no checkpoint. -/
  | started (cursor : Nat) (fresh : Bool)
  | discovered (said : ClaimSaid) (evicted : List B256)
  | discoveryFailed
  /-- The cursor is written to the file, with success or without. -/
  | persisted (value : Nat)
  /-- The process is gone while it writes the cursor. -/
  | persistCut (value : Nat)
  | processed (said : ClaimSaid) (finished : List B256)
  | other

def ClaimEvent.isStart : ClaimEvent → Bool
  | started .. => true
  | discovered .. | discoveryFailed | persisted _ | persistCut _ | processed .. | other => false

def claimCheckpointKey (route : ClaimRoute) : String := "claim:" ++ toString route.chainKey

inductive ClaimStep (codec : ClaimCodec) (route : ClaimRoute) (blockOf : B256 → Nat) :
    ClaimHost → ClaimEvent → ClaimHost → Prop where
  | boot {file file' : Option CheckpointText} {entries : Entries}
      (hx : Exec (fileEnv false) CheckpointStore.load.run file file' (.ok entries)) :
      ClaimStep codec route blockOf ⟨file, none⟩ .other ⟨file', some ⟨entries, none⟩⟩
  | crash {file : Option CheckpointText} {p : ClaimProcess} :
      ClaimStep codec route blockOf ⟨file, some p⟩ .other ⟨file, none⟩
  | start {file : Option CheckpointText} {entries : Entries} {said : ClaimSaid} {cursor : Nat}
      (hx : Exec (claimEnv codec route blockOf)
        (resumeCursor route (CheckpointStore.get entries (claimCheckpointKey route))).run [] said
        (.ok cursor)) :
      ClaimStep codec route blockOf ⟨file, some ⟨entries, none⟩⟩
        (.started cursor (CheckpointStore.get entries (claimCheckpointKey route)).isNone)
        ⟨file, some ⟨entries, some ⟨.new cursor, .waiting⟩⟩⟩
  -- the loop of the worker
  | discover {file : Option CheckpointText} {entries : Entries} {w w' : ClaimWorker}
      {said : ClaimSaid} {evicted : List B256}
      (hx : Exec (claimEnv codec route blockOf) (discoverLocks codec route w).run [] said
        (.ok (w', evicted))) :
      ClaimStep codec route blockOf ⟨file, some ⟨entries, some ⟨w, .waiting⟩⟩⟩
        (.discovered said evicted) ⟨file, some ⟨entries, some ⟨w', .discovered⟩⟩⟩
  | discoverFailed {file : Option CheckpointText} {entries : Entries} {w : ClaimWorker} :
      ClaimStep codec route blockOf ⟨file, some ⟨entries, some ⟨w, .waiting⟩⟩⟩
        .discoveryFailed ⟨file, some ⟨entries, some ⟨w, .processing⟩⟩⟩
  | persist {file file' : Option CheckpointText} {entries entries' : Entries} {w : ClaimWorker}
      {r : Except Error Unit}
      (hx : Exec (fileEnv false) (CheckpointStore.set entries (claimCheckpointKey route) w.cursor)
        file file' (r, entries')) :
      ClaimStep codec route blockOf ⟨file, some ⟨entries, some ⟨w, .discovered⟩⟩⟩
        (.persisted w.cursor) ⟨file', some ⟨entries', some ⟨w, .processing⟩⟩⟩
  | persistCut {file file' : Option CheckpointText} {entries : Entries} {w : ClaimWorker}
      (hx : Cut (fileEnv false) (CheckpointStore.set entries (claimCheckpointKey route) w.cursor)
        file file') :
      ClaimStep codec route blockOf ⟨file, some ⟨entries, some ⟨w, .discovered⟩⟩⟩
        (.persistCut w.cursor) ⟨file', none⟩
  | process {file : Option CheckpointText} {entries : Entries} {w w' : ClaimWorker}
      {said : ClaimSaid} {finished : List B256}
      (hx : Exec (claimEnv codec route blockOf) (processPending w) [] said (w', finished)) :
      ClaimStep codec route blockOf ⟨file, some ⟨entries, some ⟨w, .processing⟩⟩⟩
        (.processed said finished) ⟨file, some ⟨entries, some ⟨w', .waiting⟩⟩⟩
  -- the other workers
  | store {file file' : Option CheckpointText} {entries entries' : Entries}
      {task : Option ClaimTask} {r : Except Error Unit} (o : StoreOp)
      (hk : o.key ≠ claimCheckpointKey route)
      (hx : Exec (fileEnv false) (o.run entries) file file' (r, entries')) :
      ClaimStep codec route blockOf ⟨file, some ⟨entries, task⟩⟩ .other
        ⟨file', some ⟨entries', task⟩⟩
  | storeCut {file file' : Option CheckpointText} {entries : Entries} {task : Option ClaimTask}
      (o : StoreOp) (hk : o.key ≠ claimCheckpointKey route)
      (hx : Cut (fileEnv false) (o.run entries) file file') :
      ClaimStep codec route blockOf ⟨file, some ⟨entries, task⟩⟩ .other ⟨file', none⟩

/-! ## What a run finds, finishes and saves -/

section
variable (codec : ClaimCodec) (route : ClaimRoute)

/-- The transactions of the logs that decode. -/
def lockedTxs (logs : List Log) : List B256 :=
  logs.filterMap fun log =>
    match codec.decodeLocked log with
    | .ok _ => log.transactionHash
    | .error _ => none

def ClaimEvent.history : ClaimEvent → List (Holdback.Event B256)
  | started cursor fresh => [.start cursor fresh]
  | discovered said evicted =>
    match scanOf said with
    | none => []
    | some scan => [.scan scan.fromBlock scan.toBlock (scan.tip - route.confirmationDepth)
        (lockedTxs codec scan.logs) evicted]
  | discoveryFailed => []
  | persisted value => [.save value]
  | persistCut value => [.save value, .other]
  | processed _ finished => [.settle finished]
  | other => [.other]

def history (l : List ClaimEvent) : List (Holdback.Event B256) :=
  l.flatMap (ClaimEvent.history codec route)

/-- The claim cursor in the file. -/
def savedCursor (file : Option CheckpointText) : Option Nat :=
  (file.bind fun text => text.entry (claimCheckpointKey route)).map (·.block)

def ClaimWorker.tracking (w : ClaimWorker) : Holdback.Worker B256 where
  cursor := w.lastSeen
  held := fun tx => w.pending.seen[tx]?.map (·.block)
  done := fun tx => w.done.contains tx = true

def ClaimHost.tracking (s : ClaimHost) : Holdback.State B256 where
  saved := savedCursor route s.file
  process := s.process.map fun p =>
    { kept := CheckpointStore.get p.entries (claimCheckpointKey route)
      worker := p.task.map (·.worker.tracking) }

end

section
variable {codec : ClaimCodec} {route : ClaimRoute} {blockOf : B256 → Nat}
  {file file' : Option CheckpointText} {entries entries' : Entries} {w w' : ClaimWorker}

theorem mem_lockedTxs {logs : List Log} {tx : B256} :
    tx ∈ lockedTxs codec logs ↔ ∃ log ∈ logs, ∃ key, LockOf codec log tx key := by
  rw [lockedTxs, List.mem_filterMap]
  refine exists_congr fun log => and_congr_right fun _ => ⟨fun h => ?_, fun ⟨key, ht, locked, hl, _⟩ => ?_⟩
  · cases hl : codec.decodeLocked log with
    | error e =>
      rw [hl] at h
      cases h
    | ok locked =>
      rw [hl] at h
      exact ⟨claimKey codec locked, h, locked, hl, rfl⟩
  · rw [hl]
    exact ht

theorem savedCursor_serialize (entries : Entries) : savedCursor route (some (serialize entries)) =
    CheckpointStore.get entries (claimCheckpointKey route) := cursorOf_serialize _ entries

theorem savedCursor_entriesOf (h : entriesOf file = some entries) :
    savedCursor route file = CheckpointStore.get entries (claimCheckpointKey route) :=
  cursorOf_entriesOf h

/-! ## The worker holds its cursor back -/

theorem tracking_new (cursor : Nat) :
    (ClaimWorker.new cursor).tracking = Holdback.Worker.start B256 cursor :=
  PendingTxs.tracking_new B256 cursor _ _

theorem tracking_held {tx : B256} {e : PendingTx B256} (h : w.pending.seen[tx]? = some e) :
    w.tracking.held tx = some e.block := congrArg (Option.map PendingTx.block) h

theorem resumeCursor_spec {W : Type} {H : Env ClaimCall ClaimCall.Answer W} (v : Nat) (world : W) :
    wp H (resumeCursor route (some v)).run world fun _ r =>
      r = .ok (v - route.scanLookbackBlocks) := by
  rw [resumeCursor]
  exact rfl

theorem Discovered.scans {evicted : List B256} {scan : LockScan}
    (h : Discovered codec route blockOf w w' evicted scan) :
    w.tracking.Scans blockOf w'.tracking scan.fromBlock scan.toBlock
      (scan.tip - route.confirmationDepth) (lockedTxs codec scan.logs) evicted where
  first := h.fromBlock
  last := h.toBlock
  cursor := Nat.le_of_lt h.lt
  head := h.head
  found tx ht _ := by
    obtain ⟨log, hm, key, hl⟩ := mem_lockedTxs.mp ht
    exact (h.enqueued.found log hm tx key hl).imp_left fun ⟨e, he⟩ => ⟨e.block, tracking_held he⟩
  held tx b hb := by
    obtain ⟨e, he, rfl⟩ := Option.map_eq_some_iff.mp hb
    rcases h.enqueued.block tx e he with ⟨e₀, he₀, hb₀, -⟩ | ⟨log, hm, ht, hb₀⟩
    · exact .inl (hb₀ ▸ tracking_held he₀)
    · obtain ⟨b, hb, hfrom, -, hblock⟩ := h.truthful log hm
      have hof := hblock tx ht
      have hfirst := h.fromBlock
      rw [hb, Option.getD_some] at hb₀
      refine .inr ⟨?_, ?_⟩
      · show w.lastSeen < e.block
        omega
      · omega
  kept tx b hb := by
    obtain ⟨e₀, he₀, rfl⟩ := Option.map_eq_some_iff.mp hb
    exact (h.enqueued.kept tx e₀ he₀).imp_left fun ⟨e, he, _⟩ => ⟨e.block, tracking_held he⟩
  done tx ht := by
    rw [ClaimWorker.tracking, h.done] at ht
    exact ht

theorem Settled.settles {now : Instant} {attempts : List Attempt} {finished : List B256}
    (h : Settled w w' now attempts finished) : w.tracking.Settles w'.tracking finished :=
  h.queue.settles h.lastSeen

/-- The cursor that is persisted is held back by what is pending. -/
theorem cursor_saves (w : ClaimWorker) : w.tracking.Saves w.cursor :=
  PendingTxs.heldCursor_saves w.pending w.lastSeen w.done

/-- Every step is one of a cursor that is held back, or none. -/
theorem ClaimStep.holdback {s t : ClaimHost} {e : ClaimEvent}
    (h : ClaimStep codec route blockOf s e t) :
    Run (Holdback.Step blockOf route.scanLookbackBlocks) (s.tracking route)
      (e.history codec route) (t.tracking route) := by
  cases h with
  | @boot file file' entries hx =>
    obtain ⟨rfl, hl, -⟩ := hx.post (load_spec file)
    refine .single ?_
    simp only [ClaimHost.tracking, Option.map_some, Option.map_none, savedCursor_entriesOf (hl _ rfl)]
    exact .boot
  | crash => exact .single (.crash (.inl rfl))
  | @start file entries said cursor hx =>
    refine .single ?_
    simp only [ClaimHost.tracking, Option.map_some, Option.map_none, tracking_new]
    cases hk : CheckpointStore.get entries (claimCheckpointKey route) with
    | none => exact .fresh cursor
    | some v =>
      rw [hk] at hx
      obtain rfl : cursor = v - route.scanLookbackBlocks := by
        simpa using hx.post (resumeCursor_spec v [])
      exact .resume
  | @discover file entries w w' said evicted hx =>
    have hd := hx.post (discoverLocks_spec w) w' evicted rfl
    rw [ClaimEvent.history]
    cases hs : scanOf said with
    | none =>
      rw [hs] at hd
      obtain ⟨rfl, rfl⟩ := hd
      exact .nil
    | some scan =>
      rw [hs] at hd
      exact .single (.scan (Discovered.scans hd))
  | discoverFailed => exact .nil
  | persist hx =>
    exact .single (.save (cursor_saves _) (cursorOf_set hx.cut) (get_set hx))
  | @persistCut file file' entries w hx =>
    refine .snoc (.single (.save (cursor_saves w) (cursorOf_set hx) (.inl rfl)))
      (.crash (.inl rfl))
  | process hx =>
    obtain ⟨now, attempts, hp, -⟩ := hx.post (processPending_spec _)
    exact .single (.settle hp.settled.settles)
  | @store file file' entries entries' task r o hk hx =>
    refine .single ?_
    simp only [ClaimHost.tracking, Option.map_some, get_other hk hx]
    exact .elsewhere (cursorOf_other hk hx.cut)
  | storeCut o hk hx => exact .single (.crash (cursorOf_other hk hx))

/-- Every run is one of a cursor that is held back. -/
theorem run_holdback {s t : ClaimHost} {l : List ClaimEvent}
    (h : Run (ClaimStep codec route blockOf) s l t) :
    Run (Holdback.Step blockOf route.scanLookbackBlocks) (s.tracking route)
      (history codec route l) (t.tracking route) :=
  h.simulate (ClaimHost.tracking route) (ClaimEvent.history codec route) fun _ _ _ => ClaimStep.holdback

end

/-! ## A small deployment -/

/-- A lock of `10 ^ 18` with the nonce 7, in the transaction 12 of block 105. -/
def demoLog : Log where
  address := 5
  topics := [0xd4665e3049283582ba6f9eba07a5b3e12dab49e02da99e8927a47af5d134bea5,
    0x440f33cea415a19610f51b21d85bde365d96c453]
  data := word (10 ^ 18) ++ word 7
  blockNumber := some 105
  blockHash := some 11
  transactionHash := some 12
  removed := false

/-- The claim key of the lock. -/
def demoKey : B256 := 0x1cb29e72f8e38b44bb2278df0d901a3c5afcad2ef836c9a458cad46d9e1c0c34

def demoProof : SingleContinuityResponse where
  headerNumber := 105
  txBytes := some "0x02"
  lowerEndpointDigest := Hex.prefixed (word 3)
  roots := []
  merkleRoot := Hex.prefixed (word 4)
  siblings := []

def demoCodec : ClaimCodec where
  keccak256 := fun _ => demoKey
  decodeLocked := fun log =>
    match log.topics with
    | [_, recipient] => .ok
      { ccRecipient := recipient.setWidth 160
        amount := BitVec.ofNat 256 (beNat (log.data.take 32))
        nonce := BitVec.ofNat 256 (beNat (log.data.drop 32)) }
    | _ => .error "invalid topics"
  selector := fun
    | .alreadyClaimed => [0x64, 0x6c, 0xf5, 0x58]
    | .proofVerificationFailed => [0xd6, 0x11, 0xc3, 0x18]
    | .noLockedLogs => [0x1e, 0xf5, 0xfe, 0xac]
    | .wrongEmitter => [0x6b, 0xc6, 0x49, 0x80]
    | .malformedLockedLog => [0x9a, 0x13, 0x0c, 0x63]
    | .unsupportedTxType => [0xfe, 0x38, 0x64, 0x9a]
    | .encodedTransactionTooLarge => [0x63, 0x04, 0x6a, 0x3e]
  proofs :=
    { errorBody := fun _ => none
      response := fun _ => .ok demoProof
      canonicalReason := fun _ => some "OK" }

def demoRoute : ClaimRoute where
  chainKey := 2
  proofGenUrl := "http://proof-gen"
  sourceBridgeAddress := 5
  targetAddress := 6
  submitterAddress := 7
  confirmationDepth := 0
  startBlock := none
  scanLookbackBlocks := 50

abbrev DemoStep := ClaimStep demoCodec demoRoute fun _ => 105

theorem claim_ask {α : Type} {c : ClaimCall} {said said' : ClaimSaid} {r : α}
    {k : c.Answer → ClaimProg α} (a : c.Answer) (ha : Truthful demoCodec demoRoute (fun _ => 105) c a)
    (h : Exec (claimEnv demoCodec demoRoute fun _ => 105) (k a) (said ++ [⟨c, a⟩]) said' r) :
    Exec (claimEnv demoCodec demoRoute fun _ => 105) (.ask c k) said said' r :=
  .ask (show claimEnv demoCodec demoRoute _ said c a _ from ⟨rfl, ha⟩) h

/-- The worker with the lock, after it scanned up to a block. -/
def demoWorker (lastSeen : Nat) : ClaimWorker where
  lastSeen := lastSeen
  pending :=
    { seen := (∅ : Map B256 (PendingTx B256)).insert 12 ⟨0, 105, 0, 0, [demoKey]⟩
      cap := maxPendingClaims
      bounded := by
        have h := Std.ExtTreeMap.size_insert_le (t := (∅ : Map B256 (PendingTx B256))) (k := 12)
          (v := (⟨0, 105, 0, 0, [demoKey]⟩ : PendingTx B256))
        have he : (∅ : Map B256 (PendingTx B256)).size = 0 := rfl
        simp only [maxPendingClaims]
        omega }
  done := .new maxDoneTracked

/-- What a scan hears that finds the lock. -/
def demoSaid (tip fromBlock : Nat) : ClaimSaid :=
  [⟨.getBlockNumber, .ok tip⟩, ⟨.getLogs 5 fromBlock tip, .ok [demoLog]⟩, ⟨.now, (0 : Nat)⟩]

theorem demoDiscover : Exec (claimEnv demoCodec demoRoute fun _ => 105)
    (discoverLocks demoCodec demoRoute (.new 70)).run [] (demoSaid 110 71)
    (.ok (demoWorker 110, [])) := by
  refine claim_ask (.ok 110) (show 110 ≤ u64Max by decide) ?_
  refine claim_ask (.ok [demoLog]) ?_ ?_
  · rintro log hm
    obtain rfl := List.mem_singleton.mp hm
    exact ⟨105, rfl, by decide, by decide, fun _ _ => rfl⟩
  exact claim_ask (0 : Nat) trivial (by exact .ret)

/-- Where a worker starts that has no checkpoint. -/
theorem demoFresh {tip : Nat} (h : tip ≤ u64Max) : Exec (claimEnv demoCodec demoRoute fun _ => 105)
    (resumeCursor demoRoute (CheckpointStore.get ∅ (claimCheckpointKey demoRoute))).run []
    [⟨.getBlockNumber, .ok tip⟩] (.ok tip) :=
  claim_ask (.ok tip) h (by exact .ret)

def demoEntries (v : Nat) : Entries := .insert ∅ (claimCheckpointKey demoRoute) ⟨v, none, false⟩

theorem demoPersist (v : Nat) : Exec (fileEnv false)
    (CheckpointStore.set ∅ (claimCheckpointKey demoRoute) v) none (some (serialize (demoEntries v)))
    (.ok (), demoEntries v) := CheckpointStore.persistEntry_written ∅ _ ⟨v, none, false⟩ none

/-- A worker starts without a checkpoint and finds the lock. -/
def demoFound : List ClaimEvent := [.other, .started 70 true, .discovered (demoSaid 110 71) []]

theorem demoFound_run : Run DemoStep ⟨none, none⟩ demoFound
    ⟨none, some ⟨∅, some ⟨demoWorker 110, .discovered⟩⟩⟩ := by
  have hboot : DemoStep ⟨none, none⟩ .other ⟨none, some ⟨∅, none⟩⟩ := .boot CheckpointStore.load_missing
  exact ((Run.single hboot).snoc (.start (demoFresh (by decide)))).snoc (.discover demoDiscover)

/-- The worker holds its cursor before the lock. -/
theorem demoWorker_cursor : (demoWorker 110).cursor = 104 := by
  have hv : (demoWorker 110).pending.oldestPendingBlock = some 105 := by rfl
  rw [ClaimWorker.cursor, hv]
  rfl

/-- The cursor is persisted. -/
theorem demoKept_run : Run DemoStep ⟨none, none⟩ (demoFound ++ [.persisted 104])
    ⟨some (serialize (demoEntries 104)), some ⟨demoEntries 104, some ⟨demoWorker 110, .processing⟩⟩⟩ := by
  have hr := demoFound_run.snoc (.persist (demoPersist (demoWorker 110).cursor))
  rw [demoWorker_cursor] at hr
  exact hr

end MessageRelayer.Claim

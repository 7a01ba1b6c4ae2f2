import MessageRelayer.Source.Host

/-!
# No source message is lost

Every authorized publication in a block that a journaled all-Outbox cursor has
passed is kept: its record is on disk, or was removed for a final result of
its message (`no_source_message_lost`). The invariant (`Host.Ok`) says so of
the cursors in the file, in memory and on their way between the two, and of
the cursor of every watcher; a step of another task keeps what was kept, and a
poll moves its cursor only over a range whose messages were recorded
(`Finished.covered`).
-/

namespace MessageRelayer

open Prog hiding ask

/-! ## Keys -/

theorem toString_inj {a b : Nat} (h : toString a = toString b) : a = b := by
  have h := congrArg (fun s : String => Nat.ofDigitChars 10 s.toList 0) h
  simpa [Nat.toString_eq_repr, Nat.toList_repr] using h

theorem checkpointKey_inj {codec : SourceCodec} {a b : ChainKey}
    (h : checkpointKey codec a none = checkpointKey codec b none) : a = b := by
  have h : ("outboxes:" ++ toString a).toList = ("outboxes:" ++ toString b).toList :=
    congrArg String.toList h
  rw [String.toList_append, String.toList_append] at h
  exact toString_inj (String.toList_injective (List.append_cancel_left h))

/-- A key that begins with another word than that of an all-Outbox scan is another key. -/
theorem outboxes_ne (i : Nat) {a : String} {c d : Char} (hc : "outboxes:".toList[i]? = some c)
    (hd : a.toList[i]? = some d) (hne : c ≠ d) (b rest : String) : "outboxes:" ++ b ≠ a ++ rest := by
  intro h
  have h : ("outboxes:" ++ b).toList = (a ++ rest).toList := congrArg String.toList h
  rw [String.toList_append, String.toList_append] at h
  have h : ("outboxes:".toList ++ b.toList)[i]? = (a.toList ++ rest.toList)[i]? := by rw [h]
  rw [List.getElem?_append_left (List.getElem?_eq_some_iff.mp hc).1,
    List.getElem?_append_left (List.getElem?_eq_some_iff.mp hd).1, hc, hd] at h
  exact hne (Option.some.inj h)

theorem checkpointKey_pinned {codec : SourceCodec} {a b : ChainKey} {address : Address} :
    checkpointKey codec a none ≠ checkpointKey codec b (some address) := by
  have h := outboxes_ne 6 (a := "outbox-pinned:") rfl rfl (by decide) (toString a)
    (toString b ++ (":" ++ codec.displayAddress address))
  rwa [← String.append_assoc, ← String.append_assoc] at h

theorem checkpointKey_other {codec : SourceCodec} {a : ChainKey} {worker rest : String}
    (hw : worker = "ack:" ∨ worker = "claim:") : checkpointKey codec a none ≠ worker ++ rest := by
  rcases hw with rfl | rfl
  · exact outboxes_ne 0 rfl rfl (by decide) _ _
  · exact outboxes_ne 0 rfl rfl (by decide) _ _

/-! ## Covered blocks -/

variable {codec : SourceCodec} (chain : SourceChain codec) (startBlock : ChainKey → Option Nat)

/-- The last block before the scan that no cursor precedes. -/
def origin (chainKey : ChainKey) : Nat := (startBlock chainKey).getD 1 - 1

/-- The authorized publications after the block `origin` up to `cursor` are kept. -/
def Covered (d : Disk) (chainKey : ChainKey) (cursor : Nat) : Prop :=
  ∀ log block, chain.published log → log.blockNumber = some block →
    origin startBlock chainKey < block → block ≤ cursor → chain.Authorized chainKey block log →
    ∃ decoded, codec.decodePublished log = .ok decoded ∧ d.Kept chainKey decoded.messageId

/-- The journaled all-Outbox cursors among the entries are covered. -/
def EntriesOk (d : Disk) (entries : String → Option Entry) : Prop :=
  ∀ chainKey e, entries (checkpointKey codec chainKey none) = some e → e.durableWork = true →
    Covered chain startBlock d chainKey e.block

/-- A watcher that scans all Outboxes is at a covered block. -/
def SourceOk (d : Disk) (chainKey : ChainKey) (source : SourceRoute) (lastSeen : Nat) : Prop :=
  source.chainKey = chainKey ∧
    (source.outboxOverride = none → Covered chain startBlock d chainKey lastSeen)

/-- The entry of a key in the file. -/
def Disk.entry (d : Disk) (key : String) : Option Entry := d.checkpoint.bind fun text => text.entry key

variable {chain startBlock}

section
variable {d d' : Disk} (hd : d.Keeps d')
include hd

theorem Covered.mono {chainKey : ChainKey} {cursor : Nat}
    (h : Covered chain startBlock d chainKey cursor) : Covered chain startBlock d' chainKey cursor := by
  intro log block hp hb h₁ h₂ ha
  obtain ⟨decoded, hdec, hk⟩ := h log block hp hb h₁ h₂ ha
  exact ⟨decoded, hdec, hd _ _ hk⟩

theorem EntriesOk.mono {entries : String → Option Entry} (h : EntriesOk chain startBlock d entries) :
    EntriesOk chain startBlock d' entries := fun chainKey e he hj => (h chainKey e he hj).mono hd

theorem SourceOk.mono {chainKey : ChainKey} {source : SourceRoute} {lastSeen : Nat}
    (h : SourceOk chain startBlock d chainKey source lastSeen) :
    SourceOk chain startBlock d' chainKey source lastSeen := ⟨h.1, fun e => (h.2 e).mono hd⟩

end

/-! ## A finished range is covered -/

/-- What a poll heard is true: the chain is as the node showed it, and the messages that the store
acknowledged are kept. -/
def SaidOk (chain : SourceChain codec) (d : Disk) (said : SourceSaid) : Prop :=
  (∀ x ∈ said, chain.Answers x.1 x.2) ∧
    ∀ message, ⟨.record message, Except.ok ()⟩ ∈ said → d.Kept message.chainKey message.messageId

section
variable {d : Disk} {source : SourceRoute} {said : SourceSaid}

/-- The answered logs of a range have every publication in it. -/
theorem HeardLogs.complete {fromBlock toBlock block : Nat} {logs : List Log} {log : Log}
    (h : HeardLogs codec said fromBlock toBlock none logs) (ha : ∀ x ∈ said, chain.Answers x.1 x.2)
    (hp : chain.published log) (hb : log.blockNumber = some block) (h₁ : fromBlock ≤ block)
    (h₂ : block ≤ toBlock) : log ∈ logs := by
  rcases h with h | ⟨rfl, b, hm, rfl, ht, hr⟩
  · exact ha _ h log block hp hb h₁ h₂ fun _ e => by cases e
  · obtain rfl : block = b.number := by omega
    obtain ⟨hash, hh, hl⟩ := ha _ hm rfl ht log hp hb
    obtain ⟨receipt, hm, h₁, h₂, -, hk⟩ := hr hash hh
    refine hk log (ha _ hm h₁ log hp hl (hb.trans h₂.symm)) ?_
    simp [SourceCodec.keeps, chain.topic log hp]

/-- The authority that was heard is that of the chain. -/
theorem HeardAuthority.authorized {block : Nat} {log : Log} {b : Bool}
    (h : HeardAuthority codec source said log.address block b) (ho : source.outboxOverride = none)
    (ha : ∀ x ∈ said, chain.Answers x.1 x.2) (hc : chain.Authorized source.chainKey block log) :
    b = true := by
  obtain ⟨discovery, hdis, hmem⟩ := hc
  simp only [HeardAuthority, ho] at h
  rcases h with ⟨-, bytes, hm, hn⟩ | ⟨discovery', bytes, ⟨bytes', hm', hd'⟩, hm, hb⟩
  · rw [show bytes = _ from ha _ hm, hdis] at hn
    cases hn
  · rw [show bytes' = _ from ha _ hm', hdis] at hd'
    cases hd'
    rw [show bytes = _ from ha _ hm, hmem] at hb
    cases hb; rfl

theorem Finished.covered {finality : FinalityTracker} {lastSeen toBlock : Nat} {chainKey : ChainKey}
    (h : Finished codec source true finality lastSeen said toBlock) (hs : SaidOk chain d said)
    (hl : SourceOk chain startBlock d chainKey source lastSeen) :
    SourceOk chain startBlock d chainKey source toBlock := by
  obtain ⟨rfl, hl⟩ := hl
  refine ⟨rfl, fun ho log block hp hb h₁ h₂ ha => ?_⟩
  by_cases hle : block ≤ lastSeen
  · exact hl ho log block hp hb h₁ hle ha
  · obtain ⟨-, logs, hlogs, hdone⟩ := h.scanned
    have hm := (ho ▸ hlogs).complete hs.1 hp hb (by omega) h₂
    cases hdone log hm with
    | denied hb' hn =>
      cases hb.symm.trans hb'
      cases hn.authorized ho hs.1 ha
    | published hb' _ hdec _ hr _ => exact ⟨_, hdec, hs.2 _ (hr rfl)⟩

end

/-! ## The invariant -/

section
variable (chain : SourceChain codec) (startBlock : ChainKey → Option Nat) (d : Disk)

/-- A watcher that starts will resume at a covered block. -/
def StartOk (chainKey : ChainKey) (p : SourceProg (Except Error (SourceRoute × Nat))) : Prop :=
  ∃ said : SourceSaid,
    (∀ block, ⟨.cursor (checkpointKey codec chainKey none), (some block, true)⟩ ∈ said →
      Covered chain startBlock d chainKey block) ∧
    wp heard p said fun said' r => ∀ source lastSeen, r = .ok (source, lastSeen) →
      source.chainKey = chainKey ∧ (source.outboxOverride = none →
        lastSeen ≤ origin startBlock chainKey ∨ ∃ block, lastSeen ≤ block ∧
          ⟨.cursor (checkpointKey codec chainKey none), (some block, true)⟩ ∈ said')

/-- A poll moves its cursor to covered blocks only. -/
def PollOk (chainKey : ChainKey) (source : SourceRoute) (p : SourceProg (Except Error Unit)) : Prop :=
  ∃ finality lastSeen said, SourceOk chain startBlock d chainKey source lastSeen ∧
    SaidOk chain d said ∧ asks heard (fun said c => ∀ toBlock, c = .setLastSeen toBlock →
      Finished codec source true finality lastSeen said toBlock) p said

def WatcherOk (chainKey : ChainKey) : WatcherPc → Prop
  | .absent | .ended => True
  | .starting p => StartOk chain startBlock d chainKey p
  | .waiting source state | .persisting source state =>
      SourceOk chain startBlock d chainKey source state.lastSeen
  | .polling source state p => SourceOk chain startBlock d chainKey source state.lastSeen ∧
      PollOk chain startBlock d chainKey source p

/-- The entries, wherever they are written, have covered cursors. -/
def CheckpointOk : CheckpointMutex → Prop
  | .free entries => EntriesOk chain startBlock d (entries[·]?)
  | .held _ op => Only (fun c => ∀ text, c = .rename text → EntriesOk chain startBlock d text.entry) op ∧
      wp anything op () fun _ r => EntriesOk chain startBlock d (r.2[·]?)

/-- An operation keeps what was kept, and will have done what it answers. -/
def WorkOk (d : Disk) : WorkMutex → Prop
  | .free _ => True
  | .held owner c op => Only (FsCall.Allowed owner.cause) op ∧
      wp (sharedDisk owner.cause) op d fun d' r => c.Done r.1 d'

def PoolOk : PoolPc → Prop
  | .idle => True
  | .running result p => Only (WorkCall.Allowed result) p

structure Process.Ok (p : Process) : Prop where
  work : WorkOk d p.work
  checkpoint : CheckpointOk chain startBlock d p.checkpoint
  watchers : ∀ chainKey, WatcherOk chain startBlock d chainKey (p.watchers chainKey)
  pool : PoolOk p.pool

end

/-- Every cursor, on disk or in the process, is covered. -/
structure Host.Ok (chain : SourceChain codec) (startBlock : ChainKey → Option Nat) (s : Host) : Prop where
  file : EntriesOk chain startBlock s.disk s.disk.entry
  process : ∀ p ∈ s.process, p.Ok chain startBlock s.disk

section
variable {d d' : Disk} (hd : d.Keeps d')
include hd

theorem SaidOk.mono {said : SourceSaid} (h : SaidOk chain d said) : SaidOk chain d' said :=
  ⟨h.1, fun message hm => hd _ _ (h.2 message hm)⟩

theorem WatcherOk.mono {chainKey : ChainKey} {pc : WatcherPc}
    (h : WatcherOk chain startBlock d chainKey pc) : WatcherOk chain startBlock d' chainKey pc := by
  cases pc with
  | absent | ended => trivial
  | starting p =>
    obtain ⟨said, hs, hw⟩ := h
    exact ⟨said, fun block hm => (hs block hm).mono hd, hw⟩
  | waiting | persisting => exact SourceOk.mono hd h
  | polling =>
    obtain ⟨hl, finality, lastSeen, said, hs, hk, ha⟩ := h
    exact ⟨hl.mono hd, finality, lastSeen, said, hs.mono hd, hk.mono hd, ha⟩

theorem CheckpointOk.mono {m : CheckpointMutex} (h : CheckpointOk chain startBlock d m) :
    CheckpointOk chain startBlock d' m := by
  cases m with
  | free => exact EntriesOk.mono hd h
  | held => exact ⟨h.1.mono fun _ hc text e => (hc text e).mono hd, wp_mono h.2 fun _ _ he => he.mono hd⟩

theorem WorkOk.mono {m : WorkMutex} (h : WorkOk d m) : WorkOk d' m := by
  cases m with
  | free => trivial
  | held => exact ⟨h.1, wp_sharedDisk hd (fun _ _ _ hd' hc => hc.mono hd') h.2⟩

theorem Process.Ok.mono {p : Process} (h : p.Ok chain startBlock d) : p.Ok chain startBlock d' :=
  ⟨h.work.mono hd, h.checkpoint.mono hd, fun chainKey => (h.watchers chainKey).mono hd, h.pool⟩

end

theorem Process.Ok.withWatcher {d : Disk} {p : Process} (h : p.Ok chain startBlock d)
    {chainKey : ChainKey} {pc : WatcherPc} (hw : WatcherOk chain startBlock d chainKey pc) :
    (p.withWatcher chainKey pc).Ok chain startBlock d := by
  refine ⟨h.work, h.checkpoint, fun c => ?_, h.pool⟩
  simp only [Process.withWatcher]
  split
  · rename_i e; rw [e]; exact hw
  · exact h.watchers c

/-! ## Starting and polling -/

theorem resumeCursor_le (checkpoint : Option Nat) (durableWork : Bool) (route : ChainRoute)
    (hr : route.startBlock = startBlock route.chainKey) :
    resumeCursor checkpoint durableWork route.startBlock route.scanLookbackBlocks ≤
        origin startBlock route.chainKey ∨
      ∃ block, resumeCursor checkpoint durableWork route.startBlock route.scanLookbackBlocks ≤ block ∧
        checkpoint = some block ∧ durableWork = true := by
  rw [resumeCursor]
  cases checkpoint with
  | none => exact .inl (by rw [hr]; exact Nat.le_refl _)
  | some block =>
    cases durableWork with
    | false => exact .inl (by rw [hr]; exact Nat.le_refl _)
    | true => exact .inr ⟨block, Nat.sub_le _ _, rfl, rfl⟩

theorem watchOutbox_start (d : Disk) {route : ChainRoute}
    (hr : route.startBlock = startBlock route.chainKey) :
    StartOk chain startBlock d route.chainKey (watchOutbox codec route).run := by
  refine ⟨[], fun _ hm => absurd hm List.not_mem_nil, ?_⟩
  simp only [watchOutbox, wp_run_bind, wp_sourceAsk, wp_orTimeout, wp_orThrow, wp_run_pure, heard_iff]
  cases checkRoute route with
  | error => exact fun _ _ e => by cases e
  | ok =>
    rintro (e | _) _ rfl
    · exact fun _ _ e => by cases e
    rintro (_ | _ | creditcoinChainId) _ rfl
    · exact fun _ _ e => by cases e
    · exact fun _ _ e => by cases e
    rintro ⟨persisted, durableWork⟩ _ rfl
    dsimp only
    rintro (e | _) _ rfl
    · exact fun _ _ e => by cases e
    rintro source lastSeen e
    cases e
    refine ⟨rfl, fun ho => ?_⟩
    rcases resumeCursor_le persisted durableWork route hr with h | ⟨block, h, rfl, rfl⟩
    · exact .inl h
    · exact .inr ⟨block, h, by simp [show route.outboxAddress = none from ho]⟩

theorem pollOnce_ok {d : Disk} {chainKey : ChainKey} {source : SourceRoute} {state : ScanState}
    (h : SourceOk chain startBlock d chainKey source state.lastSeen) :
    PollOk chain startBlock d chainKey source
      (pollOnce codec source .finalized true state.finality state.lastSeen).run :=
  ⟨state.finality, state.lastSeen, [], h, ⟨fun _ hx => absurd hx List.not_mem_nil,
    fun _ hm => absurd hm List.not_mem_nil⟩, asks_pollOnce⟩

/-- An answer to a poll; `ha` is what the store has done. -/
theorem PollOk.answer {d : Disk} {chainKey : ChainKey} {source : SourceRoute} {c : SourceCall}
    {k : c.Answer → SourceProg (Except Error Unit)} {a : c.Answer}
    (h : PollOk chain startBlock d chainKey source (.ask c k)) (ha : chain.Answers c a)
    (hr : ∀ message, (⟨c, a⟩ : (c : SourceCall) × c.Answer) = ⟨.record message, Except.ok ()⟩ →
      d.Kept message.chainKey message.messageId) :
    PollOk chain startBlock d chainKey source (k a) := by
  obtain ⟨finality, lastSeen, said, hs, hk, -, hask⟩ := h
  refine ⟨finality, lastSeen, _, hs, ⟨fun x hx => ?_, fun message hm => ?_⟩,
    hask a _ (heard_iff.mpr rfl)⟩
  · rcases List.mem_append.mp hx with hx | hx
    · exact hk.1 x hx
    · rw [List.mem_singleton.mp hx]; exact ha
  · rcases List.mem_append.mp hm with hm | hm
    · exact hk.2 message hm
    · exact hr message (List.mem_singleton.mp hm).symm

/-- The cursor after an answer: moved to the end of a finished range, or where it was. -/
theorem PollOk.cursor {d : Disk} {chainKey : ChainKey} {source : SourceRoute} {c : SourceCall}
    {k : c.Answer → SourceProg (Except Error Unit)} {state : ScanState} (a : c.Answer)
    (h : PollOk chain startBlock d chainKey source (.ask c k))
    (hs : SourceOk chain startBlock d chainKey source state.lastSeen) :
    SourceOk chain startBlock d chainKey source (state.set ⟨c, a⟩).lastSeen := by
  cases c with
  | setLastSeen toBlock =>
    obtain ⟨finality, lastSeen, said, hl, hk, hg, -⟩ := h
    exact (hg toBlock rfl).covered hk hl
  | _ => exact hs

/-! ## The checkpoint file -/

theorem load_entries {file : Option CheckpointText} {entries : Entries}
    (h : Exec (fileEnv false) CheckpointStore.load.run file file (.ok entries)) (key : String) :
    entries[key]? = file.bind fun text => text.entry key := by
  have hw : wp (fileEnv false) CheckpointStore.load.run file fun _ r => ∀ entries : Entries,
      r = .ok entries → entries[key]? = file.bind fun text => text.entry key := by
    rw [CheckpointStore.load, wp_run_bind, wp_run_lift, wp_call]
    rintro ((_ | e) | _ | text | raw) file' ha
    · obtain ⟨rfl, -⟩ := ha
      rintro _ ⟨⟩
      exact Std.ExtTreeMap.getElem?_empty
    · exact fun _ e => by cases e
    · exact fun _ e => by cases e
    · exact fun _ e => by cases e
    · obtain ⟨rfl, -⟩ := ha
      rintro _ ⟨⟩
      rfl
  exact h.post hw entries rfl

theorem persistEntry_ok {d : Disk} {entries : Entries} {owner : Option ChainKey} {key : String}
    {entry : Entry} (h : EntriesOk chain startBlock d (entries[·]?))
    (he : ∀ chainKey, checkpointKey codec chainKey none = key → entry.durableWork = true →
      Covered chain startBlock d chainKey entry.block) :
    CheckpointOk chain startBlock d (.held owner (CheckpointStore.persistEntry entries key entry)) := by
  have hi : EntriesOk chain startBlock d ((entries.insert key entry)[·]?) := by
    intro chainKey e hm hj
    simp only [Map.get_insert] at hm
    split at hm
    · rename_i hk
      cases hm; exact he chainKey hk hj
    · exact h chainKey e hm hj
  refine ⟨only_of_asks (CheckpointStore.asks_persistEntry (fun _ c hc text e => ?_) ()),
    wp_mono (CheckpointStore.persistEntry_entries entries key entry ()) fun _ r hr => ?_⟩
  · subst e
    rcases hc with hc | hc
    · cases hc none
    · cases hc
      exact fun chainKey e hm => hi chainKey e (by rwa [serialize_entry] at hm)
  · obtain ⟨_ | _, entries'⟩ := r
    · rw [show entries' = entries from hr]; exact h
    · rw [show entries' = _ from hr]; exact hi

/-- A call on the file leaves covered cursors in it. -/
theorem CheckpointOk.call {d : Disk} {owner : Option ChainKey} {c : FileCall CheckpointText}
    {k : c.Answer → Prog (FileCall CheckpointText) FileCall.Answer (Except Error Unit × Entries)}
    {a : c.Answer} {file : Option CheckpointText}
    (h : CheckpointOk chain startBlock d (.held owner (.ask c k)))
    (ha : fileEnv false d.checkpoint c a file) (hf : EntriesOk chain startBlock d d.entry) :
    CheckpointOk chain startBlock d (.held owner (k a)) ∧
      EntriesOk chain startBlock d fun key => file.bind fun text => text.entry key := by
  refine ⟨⟨h.1.2 a, h.2 a () trivial⟩, ?_⟩
  have hdone : EntriesOk chain startBlock d
      fun key => (c.done d.checkpoint).bind fun text => text.entry key := by
    cases c with
    | rename text => exact h.1.1 text rfl
    | remove => exact fun _ _ e => by cases e
    | _ => exact hf
  have hsame : file = d.checkpoint ∨ file = c.done d.checkpoint := by
    unfold fileEnv at ha
    split at ha
    · exact .inl ha.2
    · exact .inl ha.2
    · exact .inl ha
    · exact .inr ha
    · exact ha.imp id And.right
  rcases hsame with rfl | rfl
  · exact hf
  · exact hdone

/-! ## The pool -/

theorem completeFinal_ok (result : DeliveryResult) :
    PoolOk (.running (some result) (completeFinal result >>= fun _ => pure ())) := by
  refine Only.bind ?_ fun _ => trivial
  rw [completeFinal]
  split
  · rename_i hf
    exact ⟨⟨result, rfl, rfl, rfl, hf⟩, fun _ => trivial⟩
  · trivial

theorem refill_ok (s : State) (now : Instant) (clock : B256 → Instant × Instant) :
    PoolOk (.running none (s.refill now clock >>= fun _ => pure ())) := by
  have hreaffirm : ∀ (route : RouteState) ids, Only (WorkCall.Allowed none) (route.reaffirm ids) := by
    intro route ids
    induction ids with
    | nil => trivial
    | cons id ids ih =>
      rw [RouteState.reaffirm]
      split
      · exact ih
      · refine Only.bind ⟨trivial, fun _ => trivial⟩ fun r => ?_
        cases r with
        | error => trivial
        | ok => exact ih
  have hroute : ∀ s : State, ∀ chainKey,
      Only (WorkCall.Allowed none) (s.refillRoute now clock chainKey) := by
    intro s chainKey
    rw [State.refillRoute]
    split
    · trivial
    · refine Only.bind ⟨trivial, fun _ => trivial⟩ fun r => ?_
      cases r with
      | error => trivial
      | ok => exact Only.bind (hreaffirm _ _) fun r => by cases r <;> trivial
  have hroutes : ∀ chainKeys, ∀ s : State,
      Only (WorkCall.Allowed none) (s.refillRoutes now clock chainKeys) := by
    intro chainKeys
    induction chainKeys with
    | nil => exact fun _ => trivial
    | cons chainKey chainKeys ih =>
      refine fun s => Only.bind (hroute s chainKey) fun r => ?_
      obtain ⟨s, _ | _⟩ := r
      · trivial
      · exact Only.bind (ih s) fun _ => trivial
  exact Only.bind (hroutes _ _) fun _ => trivial

/-! ## Runs -/

section
variable {d : Disk} {p : Process}

theorem Process.Ok.watcherAt {chainKey : ChainKey} {pc : WatcherPc} (h : p.Ok chain startBlock d)
    (hw : p.watchers chainKey = pc) : WatcherOk chain startBlock d chainKey pc :=
  hw ▸ h.watchers chainKey

theorem Process.Ok.checkpointAt {m : CheckpointMutex} (h : p.Ok chain startBlock d)
    (he : p.checkpoint = m) : CheckpointOk chain startBlock d m := he ▸ h.checkpoint

theorem Process.Ok.workAt {m : WorkMutex} (h : p.Ok chain startBlock d) (hs : p.work = m) :
    WorkOk d m := hs ▸ h.work

theorem Process.Ok.poolAt {pc : PoolPc} (h : p.Ok chain startBlock d) (hp : p.pool = pc) :
    PoolOk pc := hp ▸ h.pool

theorem Process.Ok.withCheckpoint {m : CheckpointMutex} (h : p.Ok chain startBlock d)
    (hm : CheckpointOk chain startBlock d m) : { p with checkpoint := m }.Ok chain startBlock d :=
  ⟨h.work, hm, h.watchers, h.pool⟩

theorem Process.Ok.withWork {m : WorkMutex} (h : p.Ok chain startBlock d) (hm : WorkOk d m) :
    { p with work := m }.Ok chain startBlock d := ⟨hm, h.checkpoint, h.watchers, h.pool⟩

theorem Process.Ok.withPool {pc : PoolPc} (h : p.Ok chain startBlock d) (hp : PoolOk pc) :
    { p with pool := pc }.Ok chain startBlock d := ⟨h.work, h.checkpoint, h.watchers, hp⟩

theorem CheckpointOk.freed {owner : Option ChainKey} {r : Except Error Unit × Entries}
    (h : CheckpointOk chain startBlock d (.held owner (.ret r))) :
    CheckpointOk chain startBlock d (.free r.2) := h.2

theorem WorkOk.freed {readers : Readers} : WorkOk d (.free readers) := trivial

theorem WorkOk.held {owner : Owner} {c : WorkCall} (h : c.Allowed owner.cause) (readers : Readers) :
    WorkOk d (.held owner c (c.body.run.run readers)) :=
  ⟨WorkCall.body_allowed h readers, WorkCall.body_done _ _ _ _⟩

/-- The calls of the store of unfinished messages leave the checkpoint file alone. -/
theorem diskEnv_entry {d' : Disk} {cause : Option DeliveryResult} {c : FsCall} {a : c.Answer}
    (ha : diskEnv cause d c a d') : d'.entry = d.entry := by
  have hdone : (d.done cause c).entry = d.entry := by
    cases c with
    | removeFile => simp only [Disk.done]; split <;> rfl
    | _ => rfl
  unfold diskEnv at ha
  split at ha
  · rw [ha, hdone]
  · rcases ha with rfl | rfl
    · rfl
    · exact hdone

/-- An answer to a watcher that starts. -/
theorem StartOk.answer {chainKey : ChainKey} {c : SourceCall}
    {k : c.Answer → SourceProg (Except Error (SourceRoute × Nat))} {a : c.Answer}
    (h : StartOk chain startBlock d chainKey (.ask c k))
    (ha : ∀ block, (⟨c, a⟩ : (c : SourceCall) × c.Answer) =
      ⟨.cursor (checkpointKey codec chainKey none), (some block, true)⟩ →
      Covered chain startBlock d chainKey block) :
    StartOk chain startBlock d chainKey (k a) := by
  obtain ⟨said, hs, hk⟩ := h
  refine ⟨_, fun block hm => ?_, hk a _ (heard_iff.mpr rfl)⟩
  rcases List.mem_append.mp hm with hm | hm
  · exact hs block hm
  · exact ha block (List.mem_singleton.mp hm).symm

theorem StartOk.started {chainKey : ChainKey} {source : SourceRoute} {lastSeen : Nat}
    (h : StartOk chain startBlock d chainKey (.ret (.ok (source, lastSeen)))) :
    SourceOk chain startBlock d chainKey source lastSeen := by
  obtain ⟨said, hs, hk⟩ := h
  obtain ⟨hc, hl⟩ := hk source lastSeen rfl
  refine ⟨hc, fun ho log block hp hb h₁ h₂ ha => ?_⟩
  rcases hl ho with hle | ⟨cursor, hle, hm⟩
  · omega
  · exact hs cursor hm log block hp hb h₁ (Nat.le_trans h₂ hle) ha

/-- A cursor that the store shows is that of an entry. -/
theorem EntriesOk.shown {entries : Entries} {chainKey : ChainKey} {key : String} {block : Nat}
    (h : EntriesOk chain startBlock d (entries[·]?))
    (e : (⟨.cursor key, (CheckpointStore.get entries key, CheckpointStore.hasDurableWork entries key)⟩ :
        (c : SourceCall) × c.Answer) =
      ⟨.cursor (checkpointKey codec chainKey none), (some block, true)⟩) :
    Covered chain startBlock d chainKey block := by
  obtain ⟨hc, ha⟩ := Sigma.mk.inj e
  obtain rfl := SourceCall.cursor.inj hc
  obtain ⟨hb, hj⟩ := Prod.mk.inj (eq_of_heq ha)
  simp only [CheckpointStore.get, CheckpointStore.hasDurableWork] at hb hj
  cases he : entries[checkpointKey codec chainKey none]? with
  | none => simp [he] at hb
  | some entry =>
    simp only [he, Option.map_some, Option.some.injEq, Option.any_some] at hb hj
    subst hb
    exact h chainKey entry he hj

end

/-- A step that leaves the disk alone. -/
theorem Host.Ok.memory {d : Disk} {p p' : Process} (h : Host.Ok chain startBlock ⟨d, some p⟩)
    (hp : p.Ok chain startBlock d → p'.Ok chain startBlock d) :
    Host.Ok chain startBlock ⟨d, some p'⟩ :=
  ⟨h.file, fun _ e => by cases e; exact hp (h.process p rfl)⟩

theorem HostStep.ok {s t : Host} (hs : HostStep codec chain startBlock s () t)
    (h : s.Ok chain startBlock) : t.Ok chain startBlock := by
  cases hs with
  | boot hx =>
    refine ⟨h.file, fun _ e => ?_⟩
    cases e
    exact ⟨trivial, fun chainKey e he => h.file chainKey e ((load_entries hx _).symm.trans he),
      fun _ => trivial, trivial⟩
  | crash => exact ⟨h.file, fun _ e => by cases e⟩
  | launch route hr hw => exact h.memory (·.withWatcher (watchOutbox_start _ hr))
  | startAsk a hw hc =>
    exact h.memory fun hp => hp.withWatcher
      (StartOk.answer (hp.watcherAt hw) fun _ e => by cases e; cases hc)
  | readCursor hw he =>
    exact h.memory fun hp => hp.withWatcher
      (StartOk.answer (hp.watcherAt hw) fun _ e => EntriesOk.shown (hp.checkpointAt he) e)
  | started now hw =>
    exact h.memory fun hp => hp.withWatcher (StartOk.started (hp.watcherAt hw))
  | poll hw =>
    refine h.memory fun hp => hp.withWatcher ?_
    have hs := hp.watcherAt hw
    exact ⟨hs, pollOnce_ok hs⟩
  | pollAsk a hw hc ha =>
    refine h.memory fun hp => hp.withWatcher ?_
    obtain ⟨hs, hk⟩ := hp.watcherAt hw
    exact ⟨hk.cursor a hs, hk.answer ha fun message e => by cases e; cases hc⟩
  | @polled _ _ _ _ _ r hw =>
    refine h.memory fun hp => hp.withWatcher ?_
    obtain ⟨hs, -⟩ := hp.watcherAt hw
    cases r <;> exact hs
  | cancelled => exact h.memory (·.withWatcher trivial)
  | @persist d p chainKey source state entries hw he =>
    refine h.memory fun hp => hp.withCheckpoint ?_
    obtain ⟨rfl, hs⟩ := hp.watcherAt hw
    refine persistEntry_ok (hp.checkpointAt he) fun chainKey hk _ => ?_
    cases ho : source.outboxOverride with
    | none => rw [ho] at hk; exact checkpointKey_inj hk ▸ hs ho
    | some address => rw [ho] at hk; exact absurd hk checkpointKey_pinned
  | persistOther worker chainKey block hk he =>
    exact h.memory fun hp => hp.withCheckpoint
      (persistEntry_ok (hp.checkpointAt he) fun _ e _ => absurd e (checkpointKey_other hk))
  | @fileCall d p owner c k a file he ha =>
    have hp := h.process p rfl
    obtain ⟨hc, hf⟩ := (hp.checkpointAt he).call ha h.file
    have hd : d.Keeps { d with checkpoint := file } := fun _ _ => id
    refine ⟨hf.mono hd, fun _ e => ?_⟩
    cases e
    exact (hp.withCheckpoint hc).mono hd
  | persisted hw he =>
    refine h.memory fun hp => ?_
    have hs := hp.watcherAt hw
    exact (hp.withCheckpoint (hp.checkpointAt he).freed).withWatcher hs
  | persistedOther he => exact h.memory fun hp => hp.withCheckpoint (hp.checkpointAt he).freed
  | @record d p chainKey source state message k readers hw hs =>
    exact h.memory fun hp => hp.withWork (@WorkOk.held d _ (.record message) trivial readers)
  | @recorded d p chainKey source state message k r hw hs =>
    refine h.memory fun hp => (hp.withWork .freed).withWatcher ?_
    obtain ⟨hl, hk⟩ := hp.watcherAt hw
    refine ⟨hl, hk.answer trivial fun message' e => ?_⟩
    obtain ⟨hc, ha⟩ := Sigma.mk.inj e
    obtain rfl := SourceCall.record.inj hc
    have hdone : (WorkCall.record message).Done r.1 d := (hp.workAt hs).2
    rwa [eq_of_heq ha] at hdone
  | @fsCall d d' p owner w c k a hs ha =>
    have hp := h.process p rfl
    have hw := hp.workAt hs
    have hd := diskEnv_keeps ha hw.1.1
    refine ⟨?_, fun _ e => ?_⟩
    · rw [show Disk.entry d' = d.entry from diskEnv_entry ha]
      exact h.file.mono hd
    · cases e
      exact (hp.mono hd).withWork ⟨hw.1.2 a, hw.2 a d' ⟨d, .rfl, ha⟩⟩
  | result result hp => exact h.memory (·.withPool (completeFinal_ok result))
  | refill s now clock hp => exact h.memory (·.withPool (refill_ok s now clock))
  | poolAsk hp hs =>
    exact h.memory fun hok => hok.withWork (@WorkOk.held _ (.pool _) _ (hok.poolAt hp).1 _)
  | poolAnswered hp hs =>
    exact h.memory fun hok => (hok.withWork .freed).withPool ((hok.poolAt hp).2 _)
  | poolDone => exact h.memory (·.withPool trivial)

/-- However the tasks interleave, whatever fails, and wherever the process is gone: a message that a
journaled all-Outbox cursor in the file has passed has its record, or had it removed for its final
result. -/
theorem no_source_message_lost (codec : SourceCodec) (chain : SourceChain codec)
    (startBlock : ChainKey → Option Nat) {d : Disk} {t : Host} {l : List Unit}
    (hd : ∀ chainKey e, d.entry (checkpointKey codec chainKey none) = some e → e.durableWork = false)
    (h : Run (HostStep codec chain startBlock) ⟨d, none⟩ l t) {chainKey : ChainKey} {e : Entry}
    (he : t.disk.entry (checkpointKey codec chainKey none) = some e) (hj : e.durableWork = true)
    {log : Log} {block : Nat} (hp : chain.published log) (hb : log.blockNumber = some block)
    (h₁ : origin startBlock chainKey < block) (h₂ : block ≤ e.block)
    (ha : chain.Authorized chainKey block log) :
    ∃ decoded, codec.decodePublished log = .ok decoded ∧ t.disk.Kept chainKey decoded.messageId := by
  have h₀ : Host.Ok chain startBlock ⟨d, none⟩ := by
    refine ⟨fun chainKey e he hj => ?_, fun _ e => by cases e⟩
    rw [hd chainKey e he] at hj
    cases hj
  have ht : t.Ok chain startBlock := h.inv (fun _ _ _ hs => HostStep.ok hs) h₀
  exact ht.file chainKey e he hj log block hp hb h₁ h₂ ha

/-! ## Tasks alone

A task that no other interrupts makes the steps of its program. -/

section
variable {d d' : Disk} {p : Process} {chainKey : ChainKey}

theorem Process.withWatcher_withWatcher (a b : WatcherPc) :
    (p.withWatcher chainKey a).withWatcher chainKey b = p.withWatcher chainKey b := by
  simp only [Process.withWatcher]
  congr
  funext c
  split <;> rfl

theorem Process.withWatcher_watchers (a : WatcherPc) :
    (p.withWatcher chainKey a).watchers chainKey = a := if_pos rfl

/-- What a watcher that starts is answered when the store has `entries`. -/
def startEnv (entries : Entries) : Env SourceCall SourceCall.Answer Unit := fun _ c a _ =>
  match c, a with
  | .cursor key, a => a = (CheckpointStore.get entries key, CheckpointStore.hasDurableWork entries key)
  | c, _ => c.shared = false

theorem start_alone {entries : Entries} {q : SourceProg (Except Error (SourceRoute × Nat))}
    {r : Except Error (SourceRoute × Nat)} {u u' : Unit} (he : p.checkpoint = .free entries)
    (h : Exec (startEnv entries) q u u' r) :
    ∃ l, Run (HostStep codec chain startBlock) ⟨d, some (p.withWatcher chainKey (.starting q))⟩ l
      ⟨d, some (p.withWatcher chainKey (.starting (.ret r)))⟩ := by
  induction h with
  | ret => exact ⟨[], .nil⟩
  | @ask c k _ _ _ a _ ha _ ih =>
    obtain ⟨l, hl⟩ := ih
    have hs : HostStep codec chain startBlock
        ⟨d, some (p.withWatcher chainKey (.starting (.ask c k)))⟩ ()
        ⟨d, some (p.withWatcher chainKey (.starting (k a)))⟩ := by
      rw [← Process.withWatcher_withWatcher (.starting (.ask c k)) (.starting (k a))]
      cases c with
      | cursor key =>
        obtain rfl : a = _ := ha
        exact .readCursor (Process.withWatcher_watchers _) he
      | record => cases ha
      | _ => exact .startAsk a (Process.withWatcher_watchers _) rfl
    exact ⟨_, (Run.nil.snoc hs).append hl⟩

theorem file_alone {owner : Option ChainKey} {file file' : Option CheckpointText}
    {op : Prog (FileCall CheckpointText) FileCall.Answer (Except Error Unit × Entries)}
    {r : Except Error Unit × Entries} (h : Exec (fileEnv false) op file file' r) :
    ∃ l, Run (HostStep codec chain startBlock)
      ⟨{ d with checkpoint := file }, some { p with checkpoint := .held owner op }⟩ l
      ⟨{ d with checkpoint := file' }, some { p with checkpoint := .held owner (.ret r) }⟩ := by
  induction h with
  | ret => exact ⟨[], .nil⟩
  | ask ha _ ih =>
    obtain ⟨l, hl⟩ := ih
    exact ⟨_, (Run.nil.snoc (.fileCall rfl ha)).append hl⟩

theorem work_alone {owner : Owner} {c : WorkCall} {op : Prog FsCall FsCall.Answer (c.Answer × Readers)}
    {r : c.Answer × Readers} (h : Exec (diskEnv owner.cause) op d d' r) :
    ∃ l, Run (HostStep codec chain startBlock) ⟨d, some { p with work := .held owner c op }⟩ l
      ⟨d', some { p with work := .held owner c (.ret r) }⟩ := by
  induction h with
  | ret => exact ⟨[], .nil⟩
  | ask ha _ ih =>
    obtain ⟨l, hl⟩ := ih
    exact ⟨_, (Run.nil.snoc (.fsCall rfl ha)).append hl⟩

theorem record_alone {source : SourceRoute} {state : ScanState} {message : IndexedMessage}
    {k : (SourceCall.record message).Answer → SourceProg (Except Error Unit)} {readers : Readers}
    {r : (WorkCall.record message).Answer × Readers}
    (hw : p.watchers chainKey = .polling source state (.ask (.record message) k))
    (hs : p.work = .free readers)
    (h : Exec (diskEnv none) ((WorkCall.body (.record message)).run.run readers) d d' r) :
    ∃ l, Run (HostStep codec chain startBlock) ⟨d, some p⟩ l ⟨d', some
      ({ p with work := .free r.2 }.withWatcher chainKey (.polling source state (k r.1)))⟩ := by
  obtain ⟨l, hl⟩ := @work_alone _ chain startBlock _ _ p (.watcher chainKey) (.record message) _ _ h
  exact ⟨_, ((Run.nil.snoc (.record hw hs)).append hl).snoc (.recorded hw rfl)⟩

/-- What a poll is answered when it has the store for itself. -/
def pollEnv (chain : SourceChain codec) : Env SourceCall SourceCall.Answer (Disk × Readers × ScanState) :=
  fun (d, readers, state) c a (d', readers', state') =>
    chain.Answers c a ∧ state' = state.set ⟨c, a⟩ ∧
      match c, a with
      | .record message, a =>
        Exec (diskEnv none) ((WorkCall.body (.record message)).run.run readers) d d' (a, readers')
      | c, _ => c.shared = false ∧ d' = d ∧ readers' = readers

theorem poll_alone {source : SourceRoute} {q : SourceProg (Except Error Unit)} {r : Except Error Unit}
    {w w' : Disk × Readers × ScanState} (h : Exec (pollEnv chain) q w w' r) :
    ∃ l, Run (HostStep codec chain startBlock)
      ⟨w.1, some ({ p with work := .free w.2.1 }.withWatcher chainKey (.polling source w.2.2 q))⟩ l
      ⟨w'.1, some ({ p with work := .free w'.2.1 }.withWatcher chainKey
        (.polling source w'.2.2 (.ret r)))⟩ := by
  induction h with
  | ret => exact ⟨[], .nil⟩
  | @ask c k w w₁ _ a _ ha _ ih =>
    obtain ⟨l, hl⟩ := ih
    obtain ⟨d, readers, state⟩ := w
    obtain ⟨d₁, readers₁, state₁⟩ := w₁
    obtain ⟨hc, rfl, ha⟩ := ha
    have hs : ∃ l, Run (HostStep codec chain startBlock)
        ⟨d, some ({ p with work := .free readers }.withWatcher chainKey (.polling source state (.ask c k)))⟩ l
        ⟨d₁, some ({ p with work := .free readers₁ }.withWatcher chainKey
          (.polling source (state.set ⟨c, a⟩) (k a)))⟩ := by
      rw [← Process.withWatcher_withWatcher (.polling source state (.ask c k))
        (.polling source (state.set ⟨c, a⟩) (k a))]
      cases c with
      | cursor => cases ha.1
      | record message =>
        exact record_alone (Process.withWatcher_watchers _) rfl ha
      | _ =>
        obtain ⟨-, rfl, rfl⟩ := ha
        exact ⟨_, Run.nil.snoc (.pollAsk a (Process.withWatcher_watchers _) rfl hc)⟩
    obtain ⟨l', hs⟩ := hs
    exact ⟨_, hs.append hl⟩

end

/-! ## A message that is kept -/

/-- A chain whose one publication is the message 7. -/
def demoChain : SourceChain demoCodec where
  published := fun log => log = demoLog
  topic := fun _ h => by rw [h]; rfl
  discovery := fun _ _ => word 9 ++ word 1
  membership := fun _ _ _ _ => word 1

def demoDisk : Disk := ⟨fun _ _ => none, none, fun _ _ => none⟩

/-- The disk once the message is recorded. -/
def recordedDisk : Disk :=
  { demoDisk with
    records := setAt (fun _ _ => none) 2 7 (some demoMessage)
    removed := setAt (fun _ _ => none) 2 7 none }

/-- The disk once the cursor has passed the message. -/
def keptDisk : Disk :=
  { recordedDisk with
    checkpoint := some (serialize (.insert ∅ (checkpointKey demoCodec 2 none) ⟨1, none, true⟩)) }

/-- A call that succeeds. -/
theorem exec_ok {α : Type} {cause : Option DeliveryResult} {c : FsCall} {d d' : Disk}
    {k : c.Answer → Prog FsCall FsCall.Answer α} {r : α} (a : c.Result)
    (h : Exec (diskEnv cause) (k (.ok a)) (d.done cause c) d' r) :
    Exec (diskEnv cause) (.ask c k) d d' r :=
  .ask (show diskEnv cause d c (.ok a) (d.done cause c) from rfl) h

/-- The readers of the store after a new record. -/
def demoReaders : Readers :=
  (∅ : Readers).modify 2 fun cursor => { cursor with liveRecords := cursor.liveRecords + 1 }

theorem demoRecord : Exec (diskEnv none) ((WorkCall.body (.record demoMessage)).run.run ∅) demoDisk
    recordedDisk (.ok (), demoReaders) :=
  exec_ok () <| exec_ok false <| exec_ok () <| exec_ok () <| exec_ok () <| exec_ok () <|
    exec_ok () (by exact .ret)

theorem start_ask {entries : Entries} {c : SourceCall} {r : Except Error (SourceRoute × Nat)}
    {k : c.Answer → SourceProg (Except Error (SourceRoute × Nat))} (a : c.Answer)
    (ha : startEnv entries () c a ()) (h : Exec (startEnv entries) (k a) () () r) :
    Exec (startEnv entries) (.ask c k) () () r := .ask ha h

theorem demoStart : Exec (startEnv ∅) (watchOutbox demoCodec ⟨2, none, none, 10⟩).run () ()
    (.ok (demoSource, 0)) :=
  start_ask (.ok ()) rfl <| start_ask (.done 42) rfl <| start_ask (none, false) rfl <|
    start_ask (.ok ()) rfl (by exact .ret)

theorem poll_ask {codec : SourceCodec} {chain : SourceChain codec} {c : SourceCall} {d : Disk}
    {readers : Readers} {state : ScanState} {w : Disk × Readers × ScanState} {r : Except Error Unit}
    {k : c.Answer → SourceProg (Except Error Unit)} (a : c.Answer) (hc : c.shared = false)
    (ha : chain.Answers c a) (h : Exec (pollEnv chain) (k a) (d, readers, state.set ⟨c, a⟩) w r) :
    Exec (pollEnv chain) (.ask c k) (d, readers, state) w r := by
  refine .ask (show pollEnv chain (d, readers, state) c a (d, readers, state.set ⟨c, a⟩) from ?_) h
  refine ⟨ha, rfl, ?_⟩
  cases c with
  | record => cases hc
  | _ => exact ⟨hc, rfl, rfl⟩

theorem demoPollAlone : Exec (pollEnv demoChain)
    (pollOnce demoCodec demoSource .finalized true (.new 0) 0).run (demoDisk, ∅, ⟨0, .new 0⟩)
    (recordedDisk, demoReaders, ⟨1, ⟨some 1, 0, false⟩⟩) (.ok ()) := by
  refine poll_ask (.done (some demoHead)) rfl trivial ?_
  refine poll_ask (0 : Nat) rfl trivial ?_
  refine poll_ask () rfl trivial ?_
  refine poll_ask (.done [demoLog]) rfl ?_ ?_
  · rintro log block rfl
    exact fun _ _ _ _ => List.mem_singleton_self _
  refine poll_ask (.done (word 9 ++ word 1)) rfl rfl ?_
  refine poll_ask (.done (word 1)) rfl rfl ?_
  refine .ask (show pollEnv demoChain _ (.record demoMessage) (.ok ()) (recordedDisk, _, _) from
    ⟨trivial, rfl, demoRecord⟩) ?_
  refine poll_ask Sent.sent rfl trivial ?_
  refine poll_ask () rfl trivial ?_
  exact .ret

theorem demoPersist : Exec (fileEnv false)
    (CheckpointStore.setJournaled ∅ (checkpointKey demoCodec 2 none) 1 none) none keptDisk.checkpoint
    (.ok (), .insert ∅ (checkpointKey demoCodec 2 none) ⟨1, none, true⟩) :=
  CheckpointStore.persistEntry_written ∅ _ ⟨1, none, true⟩ none

abbrev DemoStep := HostStep demoCodec demoChain fun _ => none

abbrev demoProcess (readers : Readers) (pc : WatcherPc) : Process :=
  { Process.start ∅ with work := .free readers }.withWatcher 2 pc

/-- The relayer boots, starts the watcher, polls, and persists its cursor. -/
theorem demoRun : ∃ l p, Run DemoStep ⟨demoDisk, none⟩ l ⟨keptDisk, some p⟩ := by
  have hboot : DemoStep ⟨demoDisk, none⟩ () ⟨demoDisk, some (.start ∅)⟩ :=
    .boot CheckpointStore.load_missing
  have hlaunch := (Run.nil.snoc hboot).snoc (.launch ⟨2, none, none, 10⟩ rfl rfl)
  obtain ⟨_, hstart⟩ : ∃ l, Run DemoStep
      ⟨demoDisk, some (demoProcess ∅ (.starting (watchOutbox demoCodec ⟨2, none, none, 10⟩).run))⟩ l
      ⟨demoDisk, some (demoProcess ∅ (.starting (.ret (.ok (demoSource, 0)))))⟩ :=
    start_alone (p := .start ∅) rfl demoStart
  have hready := ((hlaunch.append hstart).snoc
    (.started 0 (Process.withWatcher_watchers _))).snoc (.poll (Process.withWatcher_watchers _))
  obtain ⟨_, hpoll⟩ : ∃ l, Run DemoStep
      ⟨demoDisk, some (demoProcess ∅ (.polling demoSource ⟨0, .new 0⟩
        (pollOnce demoCodec demoSource .finalized true (.new 0) 0).run))⟩ l
      ⟨recordedDisk, some (demoProcess demoReaders (.polling demoSource ⟨1, ⟨some 1, 0, false⟩⟩
        (.ret (.ok ()))))⟩ := poll_alone (p := .start ∅) demoPollAlone
  simp only [Process.withWatcher_withWatcher] at hready
  have hpolled := (hready.append hpoll).snoc (.polled (Process.withWatcher_watchers _))
  simp only [Process.withWatcher_withWatcher] at hpolled
  have hpersist := hpolled.snoc (.persist (Process.withWatcher_watchers _) rfl)
  obtain ⟨_, hfile⟩ := file_alone (d := recordedDisk) (p := demoProcess demoReaders
    (.persisting demoSource ⟨1, ⟨some 1, 0, false⟩⟩)) demoPersist
  exact ⟨_, _, hpersist.append hfile⟩

theorem no_source_message_lost_kept : ∃ l p, Run DemoStep ⟨demoDisk, none⟩ l ⟨keptDisk, some p⟩ ∧
    ∃ decoded, demoCodec.decodePublished demoLog = .ok decoded ∧ keptDisk.Kept 2 decoded.messageId := by
  obtain ⟨l, p, h⟩ := demoRun
  have he : keptDisk.entry (checkpointKey demoCodec 2 none) = some ⟨1, none, true⟩ := by
    simp only [Disk.entry, keptDisk, Option.bind_some, serialize_entry, Map.get_insert, if_true]
  refine ⟨l, p, h, ?_⟩
  have hp : demoChain.published demoLog := rfl
  exact no_source_message_lost demoCodec demoChain (fun _ => none)
    (fun _ _ e => by cases e) h he rfl hp rfl (by decide) (by decide) ⟨9, rfl, rfl⟩

end MessageRelayer

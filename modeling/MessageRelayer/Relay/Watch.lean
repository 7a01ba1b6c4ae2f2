import MessageRelayer.Relay.Stable

/-!
# What the watchers find

The watchers of the routes as steps of their own (`WatchStep`), with the route
that each is configured for. A poll records and sends only what a reported log
of an authorized Outbox publishes (`asks_pollOnce_finds`): each log comes from
an answer of the node, and its Outbox is the pinned one, or the chain says that
it was authorized at the log's block (`Publishes`).
-/

namespace MessageRelayer

open Prog hiding ask
open SourceM

section
variable {codec : SourceCodec} (chain : SourceChain codec) (reported : Log → Prop)

/-- The Outbox of a log may publish for the route. -/
def SourceChain.Trusts (source : SourceRoute) (block : Nat) (log : Log) : Prop :=
  match source.outboxOverride with
  | some pinned => log.address = pinned
  | none => chain.Authorized source.chainKey block log

/-- A reported log publishes the message. -/
def Publishes (source : SourceRoute) (message : IndexedMessage) : Prop :=
  ∃ log block decoded txHash, reported log ∧ log.blockNumber = some block ∧
    chain.Trusts source block log ∧ codec.decodePublished log = .ok decoded ∧
    log.transactionHash = some txHash ∧ message = indexedMessage source log block decoded txHash

/-- The answers of a node whose logs are the reported ones and whose historical reads are those of
the chain. -/
def SourceChain.Tells : (c : SourceCall) → c.Answer → Prop
  | .getLogs .., .done logs => ∀ log ∈ logs, reported log
  | .getReceipt _, .done (some receipt) => ∀ log ∈ receipt.logs, reported log
  | .discoveryAddress chainKey block, .done bytes => bytes = chain.discovery chainKey block
  | .isActiveOutbox discovery chainKey outbox block, .done bytes =>
      bytes = chain.membership discovery chainKey outbox block
  | _, _ => True

/-- Surroundings that answer so. -/
def SourceChain.telling : Env SourceCall SourceCall.Answer Unit := fun _ c a _ =>
  chain.Tells reported c a

end

/-- What a question puts on disk or into the channel satisfies `P`. -/
def SourceCall.Finds (P : IndexedMessage → Prop) : SourceCall → Prop
  | .record message | .send message => P message
  | _ => True

/-! ## Reading -/

section
variable {P : IndexedMessage → Prop} {codec : SourceCodec} {source : SourceRoute}

theorem only_sourceAsk {c : SourceCall} (hc : c.Finds P) :
    Only (SourceCall.Finds P) (ask c).run := ⟨hc, fun _ => trivial⟩

theorem only_orTimeout {α : Type} (late context : Error) (r : Rpc α) :
    Only (SourceCall.Finds P) (orTimeout late context r : SourceM α).run := by cases r <;> trivial

/-- A call under its timeout. -/
theorem only_rpc {α β : Type} {c : SourceCall} {f : c.Answer → SourceM α} {g : α → SourceM β}
    (hc : c.Finds P) (hf : ∀ a, Only (SourceCall.Finds P) (f a).run)
    (hg : ∀ a, Only (SourceCall.Finds P) (g a).run) :
    Only (SourceCall.Finds P) (ask c >>= fun a => f a >>= g).run :=
  (only_sourceAsk hc).run_bind fun a => (hf a).run_bind hg

theorem only_logsOfReceipts (block : Block) (pinned : Option Address) :
    ∀ hashes : List B256, Only (SourceCall.Finds P) (logsOfReceipts codec block pinned hashes).run
  | [] => trivial
  | hash :: hashes => by
    rw [logsOfReceipts]
    refine only_rpc trivial (fun r => only_orTimeout _ _ r) fun receipt => ?_
    refine (only_orMissing _ receipt).run_bind fun receipt => ?_
    refine (only_ensure _ _).run_bind fun _ => (only_ensure _ _).run_bind fun _ => ?_
    exact (only_logsOfReceipts block pinned hashes).run_bind fun _ => trivial

theorem only_messageLogsFromReceipts (number : Nat) (pinned : Option Address) :
    Only (SourceCall.Finds P) (messageLogsFromReceipts codec number pinned).run := by
  rw [messageLogsFromReceipts]
  refine only_rpc trivial (fun r => only_orTimeout _ _ r) fun block => ?_
  refine (only_orMissing _ block).run_bind fun block => ?_
  refine (only_ensure _ _).run_bind fun _ => (only_ensure _ _).run_bind fun _ => ?_
  exact only_logsOfReceipts block pinned _

theorem only_fetchMessageLogs (fromBlock toBlock : Nat) (pinned : Option Address) :
    Only (SourceCall.Finds P) (fetchMessageLogs codec fromBlock toBlock pinned) := by
  rw [fetchMessageLogs]
  refine Only.bind ⟨trivial, fun _ => trivial⟩ fun a => ?_
  cases a with
  | elapsed | done => trivial
  | failed text =>
    dsimp only
    split
    · split
      · trivial
      · refine (only_messageLogsFromReceipts fromBlock pinned).bind fun r => ?_
        cases r <;> trivial
    · trivial

theorem only_fetchRange (fromBlock : Nat) (pinned : Option Address) :
    ∀ (room toBlock : Nat) (hr : toBlock - fromBlock ≤ room),
      Only (SourceCall.Finds P) (fetchRange codec fromBlock pinned room toBlock hr).run := by
  have hor : ∀ (toBlock : Nat) (smaller : fromBlock < toBlock → SourceM (List Log × Nat)),
      (∀ several, Only (SourceCall.Finds P) (smaller several).run) →
      Only (SourceCall.Finds P) (fetchOr codec fromBlock toBlock pinned smaller).run := by
    intro toBlock smaller hs
    rw [fetchOr]
    have hfetch : Only (SourceCall.Finds P) (ExceptT.lift (ε := Error)
        (fetchMessageLogs codec fromBlock toBlock pinned)).run :=
      (only_fetchMessageLogs fromBlock toBlock pinned).bind fun _ => trivial
    refine hfetch.run_bind fun r => ?_
    rcases r with (several | e) | logs
    · exact hs several
    · trivial
    · trivial
  intro room
  induction room with
  | zero => exact fun toBlock hr => hor toBlock _ fun several => by omega
  | succ room ih => exact fun toBlock hr => hor toBlock _ fun several => ih _ _

theorem only_discoveryAt (chainKey : ChainKey) (block : Nat) :
    Only (SourceCall.Finds P) (discoveryAt codec chainKey block).run := by
  rw [discoveryAt]
  refine (only_orThrow _).run_bind fun _ => ?_
  exact only_rpc trivial (fun r => only_orTimeout _ _ r) fun bytes => only_orThrow _

theorem only_authorizedAt (chainKey : ChainKey) (discovery outbox : Address) (block : Nat) :
    Only (SourceCall.Finds P) (authorizedAt codec chainKey discovery outbox block).run := by
  rw [authorizedAt]
  refine (only_orThrow _).run_bind fun _ => ?_
  exact only_rpc trivial (fun r => only_orTimeout _ _ r) fun bytes => only_orThrow _

theorem only_authorize (caches : Caches) (outbox : Address) (block : Nat) :
    Only (SourceCall.Finds P) (authorize codec source caches outbox block).run := by
  unfold authorize
  split
  · exact (only_ensure _ _).run_bind fun _ => trivial
  · refine Only.run_bind ?_ fun r => ?_
    · unfold cachedDiscovery
      split
      · trivial
      · exact (only_discoveryAt _ _).run_bind fun _ => trivial
    · obtain ⟨_ | discovery, caches⟩ := r
      · trivial
      · dsimp only
        unfold cachedMembership
        split
        · trivial
        · exact (only_authorizedAt _ _ _ _).run_bind fun _ => trivial

theorem only_readHeads (policy : FinalityPolicy) :
    Only (SourceCall.Finds P) (readHeads policy).run := by
  cases policy with
  | finalized =>
    refine Only.run_bind ?_ fun _ => trivial
    refine only_rpc trivial (fun r => only_orTimeout _ _ r) fun block => ?_
    exact (only_orMissing _ block).run_bind fun _ => trivial
  | depth depth => exact only_rpc trivial (fun r => only_orTimeout _ _ r) fun _ => trivial

end

/-! ## What the answers say -/

section
variable {codec : SourceCodec} {chain : SourceChain codec} {reported : Log → Prop}
  {source : SourceRoute}

/-- The logs of a result were reported. -/
def AllReported (reported : Log → Prop) (r : Except Error (List Log)) : Prop :=
  ∀ logs, r = .ok logs → ∀ log ∈ logs, reported log

theorem AllReported.error (e : Error) : AllReported reported (.error e) := fun _ h => by cases h

theorem logsOfReceipts_reported (block : Block) (pinned : Option Address) :
    ∀ hashes : List B256, wp (chain.telling reported) (logsOfReceipts codec block pinned hashes).run ()
      fun _ r => AllReported reported r
  | [] => fun logs e => by
    cases e
    simp
  | hash :: hashes => by
    simp only [logsOfReceipts, wp_run_bind, wp_sourceAsk, wp_orTimeout, wp_orMissing, wp_ensure,
      wp_run_pure]
    intro a _ ha
    rcases a with _ | _ | _ | receipt
    · exact .error _
    · exact .error _
    · exact .error _
    · dsimp only
      split
      · split
        · refine wp_mono (logsOfReceipts_reported block pinned hashes) fun _ r hr => ?_
          cases r with
          | error e => exact .error e
          | ok rest =>
            intro logs e log hl
            cases e
            rcases List.mem_append.mp hl with hl | hl
            · exact ha log (List.mem_filter.mp hl).1
            · exact hr rest rfl log hl
        · exact .error _
      · exact .error _

theorem messageLogsFromReceipts_reported (number : Nat) (pinned : Option Address) :
    wp (chain.telling reported) (messageLogsFromReceipts codec number pinned).run ()
      fun _ r => AllReported reported r := by
  simp only [messageLogsFromReceipts, wp_run_bind, wp_sourceAsk, wp_orTimeout, wp_orMissing,
    wp_ensure]
  intro a _ ha
  rcases a with _ | _ | _ | block
  · exact .error _
  · exact .error _
  · exact .error _
  · dsimp only
    split
    · split
      · exact logsOfReceipts_reported block pinned _
      · exact .error _
    · exact .error _

theorem fetchMessageLogs_reported (fromBlock toBlock : Nat) (pinned : Option Address) :
    wp (chain.telling reported) (fetchMessageLogs codec fromBlock toBlock pinned) () fun _ r =>
      ∀ logs, r = .ok logs → ∀ log ∈ logs, reported log := by
  rw [fetchMessageLogs, wp_bind, wp_call]
  intro a _ ha
  cases a with
  | elapsed => exact fun _ e => by cases e
  | done logs =>
    intro logs' e
    cases e
    exact ha
  | failed text =>
    dsimp only
    split
    · split
      · exact fun _ e => by cases e
      · rw [wp_bind]
        refine wp_mono (messageLogsFromReceipts_reported _ _) fun _ r hr => ?_
        cases r with
        | error => exact fun _ e => by cases e
        | ok logs =>
          intro logs' e
          cases e
          exact hr logs rfl
    · exact fun _ e => by cases e

/-- The logs of a range were reported. -/
theorem fetchRange_reported (fromBlock : Nat) (pinned : Option Address) :
    ∀ (room toBlock : Nat) (hr : toBlock - fromBlock ≤ room),
      wp (chain.telling reported) (fetchRange codec fromBlock pinned room toBlock hr).run ()
        fun _ r => ∀ a, r = .ok a → ∀ log ∈ a.1, reported log := by
  have hor : ∀ (toBlock : Nat) (smaller : fromBlock < toBlock → SourceM (List Log × Nat)),
      (∀ several, wp (chain.telling reported) (smaller several).run () fun _ r =>
        ∀ a, r = .ok a → ∀ log ∈ a.1, reported log) →
      wp (chain.telling reported) (fetchOr codec fromBlock toBlock pinned smaller).run () fun _ r =>
        ∀ a, r = .ok a → ∀ log ∈ a.1, reported log := by
    intro toBlock smaller hs
    rw [fetchOr, wp_run_bind, wp_run_lift]
    refine wp_mono (fetchMessageLogs_reported fromBlock toBlock pinned) fun _ r hr => ?_
    rcases r with (several | e) | logs
    · exact hs several
    · exact fun _ e => by cases e
    · intro a e
      cases e
      exact hr logs rfl
  intro room
  induction room with
  | zero => exact fun toBlock hr => hor toBlock _ fun several => by omega
  | succ room ih => exact fun toBlock hr => hor toBlock _ fun several => ih _ _

/-- The reads of a registry are those of the chain. -/
def ReadDiscovery (chain : SourceChain codec) (source : SourceRoute) (block : Nat)
    (discovery : Option Address) : Prop :=
  discoveryOf codec (chain.discovery source.chainKey block) = .ok discovery

theorem discoveryAt_reads (block : Nat) :
    wp (chain.telling reported) (discoveryAt codec source.chainKey block).run () fun _ r =>
      ∀ discovery, r = .ok discovery → ReadDiscovery chain source block discovery := by
  simp only [discoveryAt, wp_run_bind, wp_sourceAsk, wp_orTimeout, wp_orThrow]
  cases hk : registryChainKey source.chainKey with
  | error => exact fun _ e => by cases e
  | ok key =>
    intro a _ ha
    cases a with
    | elapsed => exact fun _ e => by cases e
    | failed => exact fun _ e => by cases e
    | done bytes =>
      obtain rfl : bytes = chain.discovery source.chainKey block := ha
      exact fun discovery e => e

theorem authorizedAt_reads {discovery : Address} (outbox : Address) (block : Nat) :
    wp (chain.telling reported) (authorizedAt codec source.chainKey discovery outbox block).run ()
      fun _ r => ∀ b, r = .ok b →
        membershipOf codec (chain.membership discovery source.chainKey outbox block) = .ok b := by
  simp only [authorizedAt, wp_run_bind, wp_sourceAsk, wp_orTimeout, wp_orThrow]
  cases hk : registryChainKey source.chainKey with
  | error => exact fun _ e => by cases e
  | ok key =>
    intro a _ ha
    cases a with
    | elapsed => exact fun _ e => by cases e
    | failed => exact fun _ e => by cases e
    | done bytes =>
      obtain rfl : bytes = chain.membership discovery key outbox block := ha
      rw [registryChainKey_ok hk]
      exact fun b e => e

/-- The registry of a block has the Outbox. -/
def Listed (chain : SourceChain codec) (source : SourceRoute) (outbox : Address) (block : Nat) :
    Prop :=
  ∃ discovery, ReadDiscovery chain source block (some discovery) ∧
    membershipOf codec (chain.membership discovery source.chainKey outbox block) = .ok true

/-- What is cached is what the chain says. -/
structure Caches.Truthful (chain : SourceChain codec) (source : SourceRoute) (caches : Caches) :
    Prop where
  discoveries : ∀ block discovery, caches.discoveries.lookup block = some discovery →
    ReadDiscovery chain source block discovery
  memberships : ∀ block outbox, caches.memberships.lookup (block, outbox) = some true →
    Listed chain source outbox block

theorem Caches.Truthful.empty : Caches.Truthful chain source ⟨[], []⟩ :=
  ⟨(fun _ _ e => by cases e), (fun _ _ e => by cases e)⟩

theorem cachedDiscovery_truthful {caches : Caches} (hc : caches.Truthful chain source) (block : Nat) :
    wp (chain.telling reported) (cachedDiscovery codec source caches block).run () fun _ r =>
      ∀ a, r = .ok a → ReadDiscovery chain source block a.1 ∧ a.2.Truthful chain source := by
  rw [cachedDiscovery]
  split
  · rename_i discovery hd
    intro a e
    cases e
    exact ⟨hc.discoveries _ _ hd, hc⟩
  · rw [wp_run_bind]
    refine wp_mono (discoveryAt_reads block) fun _ r hr => ?_
    cases r with
    | error => exact fun _ e => by cases e
    | ok discovery =>
      intro a e
      cases e
      have hd := hr discovery rfl
      refine ⟨hd, fun b d e => ?_, hc.memberships⟩
      rw [List.lookup_cons] at e
      split at e
      · rename_i hb
        rw [eq_of_beq hb, ← Option.some.inj e]
        exact hd
      · exact hc.discoveries b d e

theorem cachedMembership_truthful {caches : Caches} (hc : caches.Truthful chain source)
    {discovery : Address} (outbox : Address) {block : Nat}
    (hd : ReadDiscovery chain source block (some discovery)) :
    wp (chain.telling reported) (cachedMembership codec source caches discovery outbox block).run ()
      fun _ r => ∀ a, r = .ok a →
        (a.1 = true → Listed chain source outbox block) ∧ a.2.Truthful chain source := by
  rw [cachedMembership]
  split
  · rename_i b hb
    intro a e
    cases e
    exact ⟨fun ht => hc.memberships _ _ (ht ▸ hb), hc⟩
  · rw [wp_run_bind]
    refine wp_mono (authorizedAt_reads outbox block) fun _ r hr => ?_
    cases r with
    | error => exact fun _ e => by cases e
    | ok authorized =>
      intro a e
      cases e
      have hm := hr authorized rfl
      refine ⟨fun ht => ⟨discovery, hd, ht ▸ hm⟩, hc.discoveries, fun block' outbox' e => ?_⟩
      rw [List.lookup_cons] at e
      split at e
      · rename_i hb
        obtain ⟨rfl, rfl⟩ := Prod.mk.inj (eq_of_beq hb)
        exact ⟨discovery, hd, Option.some.inj e ▸ hm⟩
      · exact hc.memberships _ _ e

/-- An Outbox that passes may publish. -/
theorem authorize_trusts {caches : Caches} (hc : caches.Truthful chain source) (log : Log)
    (block : Nat) : wp (chain.telling reported) (authorize codec source caches log.address block).run ()
      fun _ r => ∀ a, r = .ok a →
        (a.1 = true → chain.Trusts source block log) ∧ a.2.Truthful chain source := by
  cases ho : source.outboxOverride with
  | some pinned =>
    simp only [authorize, SourceChain.Trusts, ho, wp_run_bind, wp_ensure]
    split
    · rename_i e
      intro a ea
      cases ea
      exact ⟨fun _ => e, hc⟩
    · exact fun _ e => by cases e
  | none =>
    simp only [authorize, SourceChain.Trusts, ho, wp_run_bind]
    refine wp_mono (cachedDiscovery_truthful hc block) fun _ r hr => ?_
    rcases r with e | ⟨_ | discovery, caches'⟩
    · exact fun _ e => by cases e
    · intro a e
      cases e
      exact ⟨fun ht => Bool.noConfusion ht, (hr _ rfl).2⟩
    · obtain ⟨hd, hc'⟩ := hr _ rfl
      exact cachedMembership_truthful hc' log.address hd

/-! ## The poll -/

theorem asks_recordAndSend_finds {P : IndexedMessage → Prop} {message : IndexedMessage}
    (hm : P message) : asks (chain.telling reported) (fun _ => SourceCall.Finds P)
      (recordAndSend true message).run () := by
  rw [recordAndSend]
  refine asks_run_bind_all (fun _ => (asks_sourceAsk _ _).mpr hm) (fun r => ?_) ()
  cases r with
  | error => exact fun _ => trivial
  | ok => exact fun _ => asks_send hm

/-- A log that is reported: its message is found only if its Outbox may publish. -/
theorem asks_indexLog_finds {caches : Caches} (hc : caches.Truthful chain source) {log : Log}
    (hl : reported log) (fromBlock toBlock : Nat) :
    asks (chain.telling reported) (fun _ => SourceCall.Finds (Publishes chain reported source))
      (indexLog codec source true fromBlock toBlock caches log).run () := by
  rw [indexLog]
  refine asks_run_bind (asks_orMissing _ _ _) ((wp_orMissing _ _ _ _).mpr ?_)
  cases hb : log.blockNumber with
  | none => trivial
  | some block =>
    refine asks_run_bind (asks_ensure _ _ _) ((wp_ensure _ _ _ _).mpr ?_)
    split
    · refine asks_run_bind ((only_authorize caches log.address block).asks ()) ?_
      refine wp_mono (authorize_trusts hc log block) fun _ r h => ?_
      rcases r with e | ⟨_ | _, caches'⟩
      · trivial
      · trivial
      · simp only [Bool.not_true, Bool.false_eq_true, if_false]
        refine asks_run_bind (asks_orThrow _ _) ((wp_orThrow _ _ _).mpr ?_)
        cases hd : decodeLog codec source log block with
        | error => trivial
        | ok message =>
          obtain ⟨decoded, txHash, hdec, htx, rfl⟩ := decodeLog_ok hd
          have hpub : Publishes chain reported source (indexedMessage source log block decoded txHash) :=
            ⟨log, block, decoded, txHash, hl, hb, (h _ rfl).1 rfl, hdec, htx, rfl⟩
          refine asks_run_bind (asks_recordAndSend_finds hpub) (wp_iff.mpr fun _ r _ => ?_)
          rcases r with _ | _ | _ <;> trivial
    · trivial

theorem indexLog_truthful {caches : Caches} (hc : caches.Truthful chain source) (log : Log)
    (fromBlock toBlock : Nat) :
    wp (chain.telling reported) (indexLog codec source true fromBlock toBlock caches log).run ()
      fun _ r => ∀ caches', r = .ok (some caches') → caches'.Truthful chain source := by
  rw [indexLog, wp_run_bind, wp_orMissing]
  cases log.blockNumber with
  | none => exact fun _ e => by cases e
  | some block =>
    simp only [wp_run_bind, wp_ensure]
    split
    · refine wp_mono (authorize_trusts hc log block) fun _ r h => ?_
      rcases r with e | ⟨_ | _, caches'⟩
      · exact fun _ e => by cases e
      · intro _ e
        cases e
        exact (h _ rfl).2
      · simp only [Bool.not_true, Bool.false_eq_true, if_false, wp_run_bind, wp_orThrow]
        cases decodeLog codec source log block with
        | error => exact fun _ e => by cases e
        | ok message =>
          refine wp_iff.mpr fun _ r _ => ?_
          rcases r with e | _ | _
          · exact fun _ e => by cases e
          · exact fun _ e => by cases e
          · intro _ e
            cases e
            exact (h _ rfl).2
    · exact fun _ e => by cases e

theorem asks_indexLogs_finds (fromBlock toBlock : Nat) : ∀ (logs : List Log) {caches : Caches},
    caches.Truthful chain source → (∀ log ∈ logs, reported log) →
    asks (chain.telling reported) (fun _ => SourceCall.Finds (Publishes chain reported source))
      (indexLogs codec source true fromBlock toBlock caches logs).run ()
  | [], _, _, _ => trivial
  | log :: logs, caches, hc, hl => by
    rw [indexLogs]
    refine asks_run_bind (asks_indexLog_finds hc (hl log List.mem_cons_self) _ _) ?_
    refine wp_mono (indexLog_truthful hc log _ _) fun _ r h => ?_
    rcases r with e | _ | caches'
    · trivial
    · trivial
    · exact asks_indexLogs_finds fromBlock toBlock logs (h _ rfl)
        fun log' hl' => hl log' (List.mem_cons_of_mem _ hl')

/-- A poll finds only what reported logs of authorized Outboxes publish. -/
theorem asks_pollOnce_finds (policy : FinalityPolicy) (finality : FinalityTracker) (lastSeen : Nat) :
    asks (chain.telling reported) (fun _ => SourceCall.Finds (Publishes chain reported source))
      (pollOnce codec source policy true finality lastSeen).run () := by
  have hscan : ∀ confirmed, asks (chain.telling reported)
      (fun _ => SourceCall.Finds (Publishes chain reported source))
      (scanRange codec source true lastSeen confirmed).run () := by
    intro confirmed
    rw [scanRange]
    refine asks_run_bind ((only_fetchRange _ _ _ _ _).asks ()) ?_
    refine wp_mono (fetchRange_reported _ _ _ _ _) fun _ r hr => ?_
    rcases r with e | ⟨logs, toBlock⟩
    · trivial
    · refine asks_run_bind (asks_indexLogs_finds _ _ logs .empty (hr _ rfl)) ?_
      exact wp_iff.mpr fun _ r _ => by rcases r with _ | _ | _ <;> trivial
  rw [pollOnce]
  refine asks_run_bind_all (fun _ => ?_) (fun r _ => ?_) ()
  · rw [pollRange]
    refine asks_run_bind_all (fun _ => (only_readHeads policy).asks ()) (fun heads => ?_) ()
    refine asks_run_bind_all (fun _ => (asks_sourceAsk _ _).mpr trivial) fun now => ?_
    refine asks_run_bind_all (fun _ => asks_orThrow _ _) fun r => ?_
    refine asks_run_bind_all (fun _ => (asks_sourceAsk _ _).mpr trivial) fun _ _ => ?_
    split
    · trivial
    · exact hscan _
  · cases r with
    | none => trivial
    | some toBlock => exact (asks_sourceAsk _ _).mpr trivial

end

/-! ## The steps of the watchers -/

/-- The configured route of each watcher. -/
structure Watched where
  source : ChainKey → SourceRoute
  chainKey : ∀ chainKey, (source chainKey).chainKey = chainKey

/-- A watcher goes on, as in `RelayStep`, with the route that it is configured for and the logs that
the node reports. -/
inductive WatchStep {codec : SourceCodec} (chain : SourceChain codec) (reported : Log → Prop)
    (watched : Watched) : Disk × RelayProcess → RelayEvent → Disk × RelayProcess → Prop where
  | poll {d : Disk} {p : RelayProcess} (chainKey : ChainKey) (policy : FinalityPolicy)
      (finality : FinalityTracker) (lastSeen : Nat) (hq : p.polls chainKey = none) :
      WatchStep chain reported watched (d, p) .internal (d, p.withPoll chainKey
        (some (pollOnce codec (watched.source chainKey) policy true finality lastSeen).run))
  | ask {d : Disk} {p : RelayProcess} {chainKey : ChainKey} {c : SourceCall}
      {k : c.Answer → SourceProg (Except Error Unit)} (a : c.Answer)
      (hq : p.polls chainKey = some (.ask c k)) (hc : c.shared = false)
      (hs : ∀ message, c ≠ .send message) (ha : chain.Answers c a) (ht : chain.Tells reported c a) :
      WatchStep chain reported watched (d, p) .internal (d, p.withPoll chainKey (some (k a)))
  | record {d d' : Disk} {p : RelayProcess} {chainKey : ChainKey} {message : IndexedMessage}
      {k : (SourceCall.record message).Answer → SourceProg (Except Error Unit)}
      {a : (WorkCall.record message).Answer} {readers : Readers}
      (hq : p.polls chainKey = some (.ask (.record message) k))
      (h : storeEnv (trueDisk none) (p.readers, d) (.record message) a (readers, d')) :
      WatchStep chain reported watched (d, p) (.found message)
        (d', { p with readers }.withPoll chainKey (some (k a)))
  | send {d : Disk} {p : RelayProcess} {chainKey : ChainKey} {message : IndexedMessage}
      {k : (SourceCall.send message).Answer → SourceProg (Except Error Unit)}
      (hq : p.polls chainKey = some (.ask (.send message) k)) :
      WatchStep chain reported watched (d, p) .internal
        (d, { p with indexed := p.indexed ++ [message] }.withPoll chainKey (some (k .sent)))
  | unsent {d : Disk} {p : RelayProcess} {chainKey : ChainKey} {message : IndexedMessage}
      {k : (SourceCall.send message).Answer → SourceProg (Except Error Unit)} (a : Sent)
      (hq : p.polls chainKey = some (.ask (.send message) k)) (ha : a ≠ .sent) :
      WatchStep chain reported watched (d, p) .internal (d, p.withPoll chainKey (some (k a)))
  | polled {d : Disk} {p : RelayProcess} {chainKey : ChainKey} {r : Except Error Unit}
      (hq : p.polls chainKey = some (.ret r)) :
      WatchStep chain reported watched (d, p) .internal (d, p.withPoll chainKey none)

section
variable {codec : SourceCodec} {chain : SourceChain codec} {reported : Log → Prop}
  {watched : Watched}

/-- A step of a watcher is one of the relayer, and leaves the pool alone. -/
theorem WatchStep.relay {d d' : Disk} {p p' : RelayProcess} {e : RelayEvent}
    (h : WatchStep chain reported watched (d, p) e (d', p')) (ecrecover : Ecrecover) :
    RelayStep ecrecover codec chain ⟨d, some p⟩ e ⟨d', some p'⟩ ∧ p'.pool = p.pool ∧
      p'.task = p.task := by
  cases h with
  | poll chainKey policy finality lastSeen hq =>
    have hk := watched.chainKey chainKey
    have hidle : p.polls (watched.source chainKey).chainKey = none := by rw [hk]; exact hq
    have hstep : RelayStep ecrecover codec chain ⟨d, some p⟩ .internal _ :=
      .poll (watched.source chainKey) policy finality lastSeen hidle
    rw [hk] at hstep
    exact ⟨hstep, rfl, rfl⟩
  | ask a hq hc hs ha => exact ⟨.ask a hq hc hs ha, rfl, rfl⟩
  | record hq h => exact ⟨.record hq h, rfl, rfl⟩
  | send hq => exact ⟨.send hq, rfl, rfl⟩
  | unsent a hq ha => exact ⟨.unsent a hq ha, rfl, rfl⟩
  | polled hq => exact ⟨.polled hq, rfl, rfl⟩

/-- A reported log of an authorized Outbox publishes the message, on its route. -/
def Genuine (chain : SourceChain codec) (reported : Log → Prop) (watched : Watched)
    (message : IndexedMessage) : Prop :=
  Publishes chain reported (watched.source message.chainKey) message

theorem Publishes.genuine {chainKey : ChainKey} {message : IndexedMessage}
    (h : Publishes chain reported (watched.source chainKey) message) :
    message.chainKey = chainKey ∧ Genuine chain reported watched message := by
  have hk : message.chainKey = chainKey := by
    obtain ⟨log, block, decoded, txHash, -, -, -, -, -, rfl⟩ := h
    exact watched.chainKey chainKey
  exact ⟨hk, by rw [Genuine, hk]; exact h⟩

/-- Every message on disk, in a poll or in the channel is genuine. -/
structure Watchful (chain : SourceChain codec) (reported : Log → Prop) (watched : Watched)
    (d : Disk) (p : RelayProcess) : Prop where
  disk : ∀ chainKey id message, d.records chainKey id = some message →
    Genuine chain reported watched message
  polls : ∀ chainKey q, p.polls chainKey = some q → asks (chain.telling reported)
    (fun _ => SourceCall.Finds (Publishes chain reported (watched.source chainKey))) q ()
  indexed : ∀ message ∈ p.indexed, Genuine chain reported watched message

variable {d d' : Disk} {p p' : RelayProcess} {e : RelayEvent}

theorem Watchful.withPoll (h : Watchful chain reported watched d p) {chainKey : ChainKey}
    {q : Option (SourceProg (Except Error Unit))}
    (hq : ∀ q', q = some q' → asks (chain.telling reported)
      (fun _ => SourceCall.Finds (Publishes chain reported (watched.source chainKey))) q' ()) :
    Watchful chain reported watched d (p.withPoll chainKey q) := by
  refine ⟨h.disk, fun a q' ha => ?_, h.indexed⟩
  simp only [RelayProcess.withPoll] at ha
  split at ha
  · rename_i e
    exact e ▸ hq q' ha
  · exact h.polls a q' ha

/-- What a poll does next, after an answer that the node may give. -/
theorem Watchful.next (h : Watchful chain reported watched d p) {chainKey : ChainKey}
    {c : SourceCall} {k : c.Answer → SourceProg (Except Error Unit)}
    (hq : p.polls chainKey = some (.ask c k)) {a : c.Answer} (ha : chain.Tells reported c a) :
    ∀ q', some (k a) = some q' → asks (chain.telling reported)
      (fun _ => SourceCall.Finds (Publishes chain reported (watched.source chainKey))) q' () := by
  intro q' e
  rw [← Option.some.inj e]
  exact (h.polls chainKey _ hq).2 a () ha

theorem Watchful.finds (h : Watchful chain reported watched d p) {chainKey : ChainKey}
    {c : SourceCall} {k : c.Answer → SourceProg (Except Error Unit)}
    (hq : p.polls chainKey = some (.ask c k)) :
    c.Finds (Publishes chain reported (watched.source chainKey)) := (h.polls chainKey _ hq).1

/-- What a record leaves on disk. -/
theorem Watchful.writes (h : Watchful chain reported watched d p) {message : IndexedMessage}
    (hw : (WorkCall.record message).Writes d d') (hm : Genuine chain reported watched message) :
    ∀ chainKey id m, d'.records chainKey id = some m → Genuine chain reported watched m := by
  intro chainKey id m hr
  rcases record_copies hw hr with hr | ⟨-, -, rfl⟩
  · exact h.disk _ _ _ hr
  · exact hm

/-- The watchers keep to genuine messages. -/
theorem WatchStep.watchful (hs : WatchStep chain reported watched (d, p) e (d', p'))
    (h : Watchful chain reported watched d p) : Watchful chain reported watched d' p' := by
  cases hs with
  | poll chainKey policy finality lastSeen hq =>
    refine h.withPoll fun q' e => ?_
    rw [← Option.some.inj e]
    exact asks_pollOnce_finds policy finality lastSeen
  | ask a hq hc hs ha ht => exact h.withPoll (h.next hq ht)
  | @record _ _ _ chainKey message k a readers hq hx =>
    have hm := (h.finds hq : Publishes chain reported (watched.source chainKey) message).genuine.2
    have hw := storeEnv_writes (storeEnv_trueDisk hx) nofun
    have hd : Watchful chain reported watched d' { p with readers } :=
      ⟨h.writes hw hm, h.polls, h.indexed⟩
    exact hd.withPoll (h.next hq trivial)
  | @send _ _ chainKey message k hq =>
    have hm := (h.finds hq : Publishes chain reported (watched.source chainKey) message).genuine.2
    have hi : Watchful chain reported watched d { p with indexed := p.indexed ++ [message] } := by
      refine ⟨h.disk, h.polls, fun m hmem => ?_⟩
      rcases List.mem_append.mp hmem with hmem | hmem
      · exact h.indexed m hmem
      · rw [List.mem_singleton.mp hmem]
        exact hm
    exact hi.withPoll (h.next hq trivial)
  | unsent a hq => exact h.withPoll (h.next hq trivial)
  | polled hq => exact h.withPoll fun _ e => by cases e

end

end MessageRelayer

import MessageRelayer.Source.Scan

/-!
# What a poll has heard

The answers that a poll of the source chain has heard when it moves its cursor
(`asks_pollOnce`): a log query of the range succeeded, and every log of its
answer was either denied by the authority at its own block, or recorded and
sent (`Scanned`). The statements are about the questions and answers of one
poll (`SourceSaid`), whatever the answers are.
-/

namespace MessageRelayer

open Prog hiding ask
open SourceM

abbrev SourceSaid := Said SourceCall SourceCall.Answer

@[simp] theorem wp_sourceAsk {W : Type} {H : Env SourceCall SourceCall.Answer W} (c : SourceCall)
    (w : W) (Q : W → Except Error c.Answer → Prop) :
    wp (α := no_index (Except Error c.Answer)) H (ExceptT.run (α := no_index c.Answer) (ask c)) w Q ↔
      ∀ a w', H w c a w' → Q w' (.ok a) := by
  rw [ask, wp_run_lift, wp_call]

@[simp] theorem asks_sourceAsk {W : Type} {H : Env SourceCall SourceCall.Answer W}
    {G : W → SourceCall → Prop} (c : SourceCall) (w : W) : asks H G (ask c).run w ↔ G w c :=
  ⟨And.left, fun h => ⟨h, fun _ _ _ => trivial⟩⟩

/-! ## The answers that count -/

section
variable (codec : SourceCodec) (source : SourceRoute) (durable : Bool)

/-- The registry that was selected at a block. -/
def HeardDiscovery (said : SourceSaid) (block : Nat) (discovery : Option Address) : Prop :=
  ∃ bytes, ⟨.discoveryAddress source.chainKey block, Rpc.done bytes⟩ ∈ said ∧
    discoveryOf codec bytes = .ok discovery

/-- Whether an Outbox was a member of the registry selected at a block. -/
def HeardMembership (said : SourceSaid) (outbox : Address) (block : Nat) (authorized : Bool) : Prop :=
  ∃ discovery bytes, HeardDiscovery codec source said block (some discovery) ∧
    ⟨.isActiveOutbox discovery source.chainKey outbox block, Rpc.done bytes⟩ ∈ said ∧
    membershipOf codec bytes = .ok authorized

/-- Whether an Outbox was authorized at a block. -/
def HeardAuthority (said : SourceSaid) (outbox : Address) (block : Nat) (authorized : Bool) : Prop :=
  match source.outboxOverride with
  | some pinned => authorized = true ∧ outbox = pinned
  | none => (authorized = false ∧ HeardDiscovery codec source said block none) ∨
      HeardMembership codec source said outbox block authorized

/-- A log that the poll is done with. -/
inductive Handled (said : SourceSaid) (log : Log) : Prop where
  | denied {block : Nat} (hb : log.blockNumber = some block)
      (ha : HeardAuthority codec source said log.address block false)
  | published {block : Nat} {decoded : Published} {txHash : B256}
      (hb : log.blockNumber = some block)
      (ha : HeardAuthority codec source said log.address block true)
      (hd : codec.decodePublished log = .ok decoded) (ht : log.transactionHash = some txHash)
      (hr : durable = true →
        ⟨.record (indexedMessage source log block decoded txHash), Except.ok ()⟩ ∈ said)
      (hs : ⟨.send (indexedMessage source log block decoded txHash), Sent.sent⟩ ∈ said)

/-- The publications of one block, by the receipts of all its transactions. -/
def HeardReceipts (said : SourceSaid) (number : Nat) (pinned : Option Address) (logs : List Log) :
    Prop :=
  ∃ block : Block, ⟨.getBlock number, Rpc.done (some block)⟩ ∈ said ∧ block.number = number ∧
    block.transactions ≠ [] ∧ ∀ hash ∈ block.transactions, ∃ receipt : Receipt,
      ⟨.getReceipt hash, Rpc.done (some receipt)⟩ ∈ said ∧ receipt.transactionHash = hash ∧
      receipt.blockNumber = some number ∧ receipt.blockHash = some block.hash ∧
      ∀ log ∈ receipt.logs, codec.keeps pinned log = true → log ∈ logs

/-- The logs of a range were answered, at once or for a single block by its receipts. -/
def HeardLogs (said : SourceSaid) (fromBlock toBlock : Nat) (pinned : Option Address)
    (logs : List Log) : Prop :=
  ⟨.getLogs fromBlock toBlock pinned, Rpc.done logs⟩ ∈ said ∨
    (fromBlock = toBlock ∧ HeardReceipts codec said fromBlock pinned logs)

/-- The blocks after `lastSeen` up to `toBlock` are scanned. -/
def Scanned (said : SourceSaid) (lastSeen toBlock : Nat) : Prop :=
  lastSeen < toBlock ∧ ∃ logs,
    HeardLogs codec said (lastSeen + 1) toBlock source.outboxOverride logs ∧
    ∀ log ∈ logs, Handled codec source durable said log

end

variable {codec : SourceCodec} {source : SourceRoute} {durable : Bool} {said said' : SourceSaid}

/-! ## What was heard stays heard -/

theorem HeardDiscovery.mono (hs : said ⊆ said') {block : Nat} {discovery : Option Address}
    (h : HeardDiscovery codec source said block discovery) :
    HeardDiscovery codec source said' block discovery := by
  obtain ⟨bytes, hm, hd⟩ := h
  exact ⟨bytes, hs hm, hd⟩

theorem HeardMembership.mono (hs : said ⊆ said') {outbox : Address} {block : Nat} {b : Bool}
    (h : HeardMembership codec source said outbox block b) :
    HeardMembership codec source said' outbox block b := by
  obtain ⟨discovery, bytes, hd, hm, hb⟩ := h
  exact ⟨discovery, bytes, hd.mono hs, hs hm, hb⟩

theorem HeardAuthority.mono (hs : said ⊆ said') {outbox : Address} {block : Nat} {b : Bool}
    (h : HeardAuthority codec source said outbox block b) :
    HeardAuthority codec source said' outbox block b := by
  unfold HeardAuthority at h ⊢
  revert h
  cases source.outboxOverride with
  | some pinned => exact id
  | none => exact Or.imp (And.imp_right (·.mono hs)) (·.mono hs)

theorem Handled.mono (hs : said ⊆ said') {log : Log} (h : Handled codec source durable said log) :
    Handled codec source durable said' log := by
  cases h with
  | denied hb ha => exact .denied hb (ha.mono hs)
  | published hb ha hd ht hr hm => exact .published hb (ha.mono hs) hd ht (fun e => hs (hr e)) (hs hm)

theorem HeardReceipts.mono (hs : said ⊆ said') {number : Nat} {pinned : Option Address}
    {logs : List Log} (h : HeardReceipts codec said number pinned logs) :
    HeardReceipts codec said' number pinned logs := by
  obtain ⟨block, hb, hn, ht, hr⟩ := h
  refine ⟨block, hs hb, hn, ht, fun hash hh => ?_⟩
  obtain ⟨receipt, hm, h⟩ := hr hash hh
  exact ⟨receipt, hs hm, h⟩

theorem HeardLogs.mono (hs : said ⊆ said') {fromBlock toBlock : Nat} {pinned : Option Address}
    {logs : List Log} (h : HeardLogs codec said fromBlock toBlock pinned logs) :
    HeardLogs codec said' fromBlock toBlock pinned logs :=
  h.imp (hs ·) (And.imp_right (·.mono hs))

theorem Scanned.mono (hs : said ⊆ said') {lastSeen toBlock : Nat}
    (h : Scanned codec source durable said lastSeen toBlock) :
    Scanned codec source durable said' lastSeen toBlock := by
  obtain ⟨hl, logs, hh, hd⟩ := h
  exact ⟨hl, logs, hh.mono hs, fun log hm => (hd log hm).mono hs⟩

/-! ## The log query -/

theorem logsOfReceipts_heard (block : Block) (pinned : Option Address) :
    ∀ (hashes : List B256) (said : SourceSaid), wp heard (logsOfReceipts codec block pinned hashes).run
      said fun said' r => ∀ logs, r = .ok logs → ∀ hash ∈ hashes, ∃ receipt : Receipt,
        ⟨.getReceipt hash, Rpc.done (some receipt)⟩ ∈ said' ∧ receipt.transactionHash = hash ∧
        receipt.blockNumber = some block.number ∧ receipt.blockHash = some block.hash ∧
        ∀ log ∈ receipt.logs, codec.keeps pinned log = true → log ∈ logs
  | [], _ => fun _ _ _ hh => absurd hh List.not_mem_nil
  | hash :: hashes, said => by
    simp only [logsOfReceipts, wp_run_bind, wp_sourceAsk, wp_orTimeout, wp_orMissing, wp_ensure,
      wp_run_pure, heard_iff]
    rintro a _ rfl
    rcases a with _ | _ | _ | receipt
    · exact fun _ e => by cases e
    · exact fun _ e => by cases e
    · exact fun _ e => by cases e
    · dsimp only
      split
      · rename_i hp
        split
        · refine wp_mono (wp_heard (logsOfReceipts_heard block pinned hashes _)) fun said' r hr => ?_
          obtain ⟨hs, hr⟩ := hr
          cases r with
          | error => exact fun _ e => by cases e
          | ok rest =>
            rintro logs e hash' hh
            cases e
            rcases List.mem_cons.mp hh with rfl | hh
            · exact ⟨receipt, hs.subset (by simp), hp.1, hp.2.1, hp.2.2, fun log hl hk =>
                List.mem_append_left _ (List.mem_filter.mpr ⟨hl, hk⟩)⟩
            · obtain ⟨receipt', hm, h₁, h₂, h₃, h₄⟩ := hr rest rfl hash' hh
              exact ⟨receipt', hm, h₁, h₂, h₃, fun log hl hk => List.mem_append_right _ (h₄ log hl hk)⟩
        · exact fun _ e => by cases e
      · exact fun _ e => by cases e

theorem messageLogsFromReceipts_heard (number : Nat) (pinned : Option Address) (said : SourceSaid) :
    wp heard (messageLogsFromReceipts codec number pinned).run said fun said' r =>
      ∀ logs, r = .ok logs → HeardReceipts codec said' number pinned logs := by
  simp only [messageLogsFromReceipts, wp_run_bind, wp_sourceAsk, wp_orTimeout, wp_orMissing,
    wp_ensure, heard_iff]
  rintro a _ rfl
  rcases a with _ | _ | _ | block
  · exact fun _ e => by cases e
  · exact fun _ e => by cases e
  · exact fun _ e => by cases e
  · dsimp only
    split
    · rename_i hn
      split
      · rename_i ht
        refine wp_mono (wp_heard (logsOfReceipts_heard block pinned _ _)) fun said' r hr logs e => ?_
        exact ⟨block, hr.1.subset (by simp), hn, ht, fun hash hh => hn ▸ hr.2 logs e hash hh⟩
      · exact fun _ e => by cases e
    · exact fun _ e => by cases e

theorem fetchMessageLogs_heard (fromBlock toBlock : Nat) (pinned : Option Address)
    (hl : fromBlock ≤ toBlock) (said : SourceSaid) :
    wp heard (fetchMessageLogs codec fromBlock toBlock pinned) said fun said' r =>
      ∀ logs, r = .ok logs → HeardLogs codec said' fromBlock toBlock pinned logs := by
  rw [fetchMessageLogs, wp_bind, wp_call]
  rintro a _ ha
  rw [heard_iff.mp ha]
  cases a with
  | elapsed => exact fun _ e => by cases e
  | done logs => exact fun _ e => by cases e; exact .inl (by simp)
  | failed text =>
    dsimp only
    split
    · split
      · exact fun _ e => by cases e
      · rename_i hs
        rw [wp_bind]
        refine wp_mono (messageLogsFromReceipts_heard _ _ _) fun said' r hr => ?_
        cases r with
        | error => exact fun _ e => by cases e
        | ok logs => exact fun _ e => by cases e; exact .inr ⟨by omega, hr logs rfl⟩
    · exact fun _ e => by cases e

theorem fetchOr_heard {fromBlock toBlock : Nat} {pinned : Option Address}
    {smaller : fromBlock < toBlock → SourceM (List Log × Nat)} {Q : SourceSaid → List Log × Nat → Prop}
    (hl : fromBlock ≤ toBlock)
    (hq : ∀ said' logs, HeardLogs codec said' fromBlock toBlock pinned logs → Q said' (logs, toBlock))
    (hs : ∀ several said', wp heard (smaller several).run said' fun said' r => ∀ a, r = .ok a → Q said' a)
    (said : SourceSaid) : wp heard (fetchOr codec fromBlock toBlock pinned smaller).run said
      fun said' r => ∀ a, r = .ok a → Q said' a := by
  rw [fetchOr, wp_run_bind, wp_run_lift]
  refine wp_mono (fetchMessageLogs_heard _ _ _ hl _) fun said' r hr => ?_
  rcases r with (several | e) | logs
  · exact hs several said'
  · exact fun _ e => by cases e
  · exact fun _ e => by cases e; exact hq _ _ (hr logs rfl)

/-- The range that `fetch_message_logs` answers for in the end starts at its first block and is not
empty. -/
theorem fetchRange_heard (fromBlock : Nat) (pinned : Option Address) :
    ∀ (room toBlock : Nat) (hr : toBlock - fromBlock ≤ room) (said : SourceSaid), fromBlock ≤ toBlock →
      wp heard (fetchRange codec fromBlock pinned room toBlock hr).run said fun said' r =>
        ∀ a, r = .ok a → HeardLogs codec said' fromBlock a.2 pinned a.1 ∧ fromBlock ≤ a.2 ∧
          a.2 ≤ toBlock
  | 0, toBlock, hr, said, hl => fetchOr_heard hl (fun _ _ h => ⟨h, hl, Nat.le_refl _⟩)
      (fun several => absurd several (by omega)) said
  | room + 1, toBlock, hr, said, hl => by
    refine fetchOr_heard hl (fun _ _ h => ⟨h, hl, Nat.le_refl _⟩) (fun several said' => ?_) said
    refine wp_mono (fetchRange_heard fromBlock pinned room _ _ _ (by omega)) fun said' r h a e => ?_
    obtain ⟨hl, h₁, h₂⟩ := h a e
    exact ⟨hl, h₁, by omega⟩

/-! ## Authority -/

theorem discoveryAt_heard (block : Nat) (said : SourceSaid) :
    wp heard (discoveryAt codec source.chainKey block).run said fun said' r =>
      ∀ discovery, r = .ok discovery → HeardDiscovery codec source said' block discovery := by
  simp only [discoveryAt, wp_run_bind, wp_sourceAsk, wp_orTimeout, wp_orThrow, heard_iff]
  cases registryChainKey source.chainKey with
  | error => exact fun _ e => by cases e
  | ok =>
    rintro a _ rfl
    cases a with
    | elapsed => exact fun _ e => by cases e
    | failed => exact fun _ e => by cases e
    | done bytes => exact fun discovery e => ⟨bytes, by simp, e⟩

theorem registryChainKey_ok {chainKey key : ChainKey} (h : registryChainKey chainKey = .ok key) :
    key = chainKey := by
  rw [registryChainKey] at h
  split at h
  · cases h; rfl
  · cases h

theorem authorizedAt_heard {discovery : Address} (outbox : Address) {block : Nat} {said : SourceSaid}
    (h : HeardDiscovery codec source said block (some discovery)) :
    wp heard (authorizedAt codec source.chainKey discovery outbox block).run said fun said' r =>
      ∀ b, r = .ok b → HeardMembership codec source said' outbox block b := by
  simp only [authorizedAt, wp_run_bind, wp_sourceAsk, wp_orTimeout, wp_orThrow, heard_iff]
  cases hk : registryChainKey source.chainKey with
  | error => exact fun _ e => by cases e
  | ok key =>
    rintro a _ rfl
    cases a with
    | elapsed => exact fun _ e => by cases e
    | failed => exact fun _ e => by cases e
    | done bytes => exact fun b e => ⟨discovery, bytes, h.mono (List.subset_append_left _ _), by
        simp [registryChainKey_ok hk], e⟩

/-- What is cached was heard. -/
structure Caches.Heard (codec : SourceCodec) (source : SourceRoute) (said : SourceSaid)
    (caches : Caches) : Prop where
  discoveries : ∀ block discovery, caches.discoveries.lookup block = some discovery →
    HeardDiscovery codec source said block discovery
  memberships : ∀ block outbox b, caches.memberships.lookup (block, outbox) = some b →
    HeardMembership codec source said outbox block b

theorem Caches.Heard.empty : Caches.Heard codec source said ⟨[], []⟩ :=
  ⟨(fun _ _ e => by cases e), (fun _ _ _ e => by cases e)⟩

theorem Caches.Heard.mono {caches : Caches} (hs : said ⊆ said')
    (h : caches.Heard codec source said) : caches.Heard codec source said' :=
  ⟨fun _ _ e => (h.discoveries _ _ e).mono hs, fun _ _ _ e => (h.memberships _ _ _ e).mono hs⟩

theorem cachedDiscovery_heard {caches : Caches} (hc : caches.Heard codec source said) (block : Nat) :
    wp heard (cachedDiscovery codec source caches block).run said fun said' r =>
      ∀ a, r = .ok a → HeardDiscovery codec source said' block a.1 ∧ a.2.Heard codec source said' := by
  rw [cachedDiscovery]
  split
  · rename_i discovery hd
    exact fun a e => by cases e; exact ⟨hc.discoveries _ _ hd, hc⟩
  · rw [wp_run_bind]
    refine wp_mono (wp_heard (discoveryAt_heard block said)) fun said' r hr => ?_
    cases r with
    | error => exact fun _ e => by cases e
    | ok discovery =>
      rintro a e
      cases e
      have hd := hr.2 discovery rfl
      refine ⟨hd, fun b d e => ?_, (hc.mono hr.1.subset).memberships⟩
      rw [List.lookup_cons] at e
      split at e
      · rename_i hb
        cases e; rw [eq_of_beq hb]; exact hd
      · exact (hc.mono hr.1.subset).discoveries b d e

theorem cachedMembership_heard {caches : Caches} (hc : caches.Heard codec source said)
    {discovery : Address} (outbox : Address) {block : Nat}
    (hd : HeardDiscovery codec source said block (some discovery)) :
    wp heard (cachedMembership codec source caches discovery outbox block).run said fun said' r =>
      ∀ a, r = .ok a → HeardMembership codec source said' outbox block a.1 ∧
        a.2.Heard codec source said' := by
  rw [cachedMembership]
  split
  · rename_i b hb
    exact fun a e => by cases e; exact ⟨hc.memberships _ _ _ hb, hc⟩
  · rw [wp_run_bind]
    refine wp_mono (wp_heard (authorizedAt_heard outbox hd)) fun said' r hr => ?_
    cases r with
    | error => exact fun _ e => by cases e
    | ok authorized =>
      rintro a e
      cases e
      have hm := hr.2 authorized rfl
      refine ⟨hm, (hc.mono hr.1.subset).discoveries, fun block' outbox' b e => ?_⟩
      rw [List.lookup_cons] at e
      split at e
      · rename_i hb
        obtain ⟨rfl, rfl⟩ := Prod.mk.inj (eq_of_beq hb)
        cases e; exact hm
      · exact (hc.mono hr.1.subset).memberships _ _ b e

theorem authorize_heard {caches : Caches} (hc : caches.Heard codec source said) (outbox : Address)
    (block : Nat) : wp heard (authorize codec source caches outbox block).run said fun said' r =>
      ∀ a, r = .ok a → HeardAuthority codec source said' outbox block a.1 ∧
        a.2.Heard codec source said' := by
  cases ho : source.outboxOverride with
  | some pinned =>
    simp only [authorize, HeardAuthority, ho, wp_run_bind, wp_ensure]
    split
    · rename_i e
      exact fun a ea => by cases ea; exact ⟨⟨rfl, e⟩, hc⟩
    · exact fun _ e => by cases e
  | none =>
    simp only [authorize, HeardAuthority, ho, wp_run_bind]
    refine wp_mono (cachedDiscovery_heard hc block) fun said' r hr => ?_
    rcases r with e | ⟨_ | discovery, caches'⟩
    · exact fun _ e => by cases e
    · exact fun a ea => by cases ea; exact ⟨.inl ⟨rfl, (hr _ rfl).1⟩, (hr _ rfl).2⟩
    · obtain ⟨hd, hc'⟩ := hr _ rfl
      refine wp_mono (cachedMembership_heard hc' outbox hd) fun said' r hr a e => ?_
      exact ⟨.inr (hr a e).1, (hr a e).2⟩

/-! ## The logs of the range -/

theorem send_heard (message : IndexedMessage) (said : SourceSaid) :
    wp heard (send message).run said fun said' r => r = .ok true → ⟨.send message, Sent.sent⟩ ∈ said' := by
  simp only [send, wp_run_bind, wp_sourceAsk, heard_iff]
  rintro a _ rfl
  cases a with
  | sent => exact fun _ => by simp
  | cancelled => exact fun e => by cases e
  | closed cancelled => cases cancelled <;> exact fun e => by cases e

theorem recordAndSend_heard (message : IndexedMessage) (said : SourceSaid) :
    wp heard (recordAndSend durable message).run said fun said' r => r = .ok true →
      (durable = true → ⟨.record message, Except.ok ()⟩ ∈ said') ∧
        ⟨.send message, Sent.sent⟩ ∈ said' := by
  rw [recordAndSend]
  cases durable with
  | false => exact wp_mono (send_heard message said) fun _ _ h e => ⟨(fun e => by cases e), h e⟩
  | true =>
    simp only [if_true, wp_run_bind, wp_sourceAsk, wp_orThrow, heard_iff]
    rintro a _ rfl
    cases a with
    | error => exact fun e => by cases e
    | ok => exact wp_mono (wp_heard (send_heard message _)) fun _ _ h e =>
        ⟨fun _ => h.1.subset (by simp), h.2 e⟩

theorem decodeLog_ok {log : Log} {block : Nat} {message : IndexedMessage}
    (h : decodeLog codec source log block = .ok message) :
    ∃ decoded txHash, codec.decodePublished log = .ok decoded ∧ log.transactionHash = some txHash ∧
      message = indexedMessage source log block decoded txHash := by
  rw [decodeLog] at h
  split at h
  · cases h
  · rename_i decoded hd
    split at h
    · cases h
    · rename_i txHash ht
      cases h; exact ⟨decoded, txHash, hd, ht, rfl⟩

theorem indexLog_heard (fromBlock toBlock : Nat) {caches : Caches}
    (hc : caches.Heard codec source said) (log : Log) :
    wp heard (indexLog codec source durable fromBlock toBlock caches log).run said fun said' r =>
      ∀ caches', r = .ok (some caches') →
        Handled codec source durable said' log ∧ caches'.Heard codec source said' := by
  rw [indexLog, wp_run_bind, wp_orMissing]
  cases hb : log.blockNumber with
  | none => exact fun _ e => by cases e
  | some block =>
    simp only [wp_run_bind, wp_ensure]
    split
    · refine wp_mono (authorize_heard hc log.address block) fun said₁ r hr => ?_
      rcases r with e | ⟨_ | _, caches'⟩
      · exact fun _ e => by cases e
      · exact fun _ e => by cases e; exact ⟨.denied hb (hr _ rfl).1, (hr _ rfl).2⟩
      · obtain ⟨ha, hc'⟩ := hr _ rfl
        simp only [Bool.not_true, Bool.false_eq_true, if_false, wp_run_bind, wp_orThrow]
        cases hm : decodeLog codec source log block with
        | error => exact fun _ e => by cases e
        | ok message =>
          obtain ⟨decoded, txHash, hd, ht, rfl⟩ := decodeLog_ok hm
          refine wp_mono (wp_heard (recordAndSend_heard _ _)) fun said₃ r hr => ?_
          rcases r with e | _ | _
          · exact fun _ e => by cases e
          · exact fun _ e => by cases e
          · rintro _ e
            cases e
            obtain ⟨hrec, hsent⟩ := hr.2 rfl
            exact ⟨.published hb (ha.mono hr.1.subset) hd ht hrec hsent, hc'.mono hr.1.subset⟩
    · exact fun _ e => by cases e

theorem indexLogs_heard (fromBlock toBlock : Nat) : ∀ (logs : List Log) {caches : Caches}
    {said : SourceSaid}, caches.Heard codec source said →
    wp heard (indexLogs codec source durable fromBlock toBlock caches logs).run said fun said' r =>
      r = .ok true → ∀ log ∈ logs, Handled codec source durable said' log
  | [], _, _, _ => fun _ _ hl => absurd hl List.not_mem_nil
  | log :: logs, caches, said, hc => by
    rw [indexLogs, wp_run_bind]
    refine wp_mono (indexLog_heard fromBlock toBlock hc log) fun said₁ r h₁ => ?_
    rcases r with e | _ | caches'
    · exact fun e => by cases e
    · exact fun e => by cases e
    · obtain ⟨hh, hc'⟩ := h₁ _ rfl
      refine wp_mono (wp_heard (indexLogs_heard fromBlock toBlock logs hc')) fun said₂ r h₂ e => ?_
      intro log' hl
      rcases List.mem_cons.mp hl with rfl | hl
      · exact hh.mono h₂.1.subset
      · exact h₂.2 e log' hl

/-! ## The poll -/

/-- The range that a poll has finished is not empty, ends at or before the block it was given, and
is scanned. -/
theorem scanRange_heard {lastSeen confirmed : Nat} (hl : lastSeen < confirmed)
    (hc : confirmed ≤ u64Max) (said : SourceSaid) :
    wp heard (scanRange codec source durable lastSeen confirmed).run said fun said' r =>
      ∀ toBlock, r = .ok (some toBlock) →
        Scanned codec source durable said' lastSeen toBlock ∧ toBlock ≤ confirmed := by
  rw [scanRange, wp_run_bind]
  have hb : lastSeen + 1 ≤ min confirmed (satAdd64 lastSeen maxBlocksPerScan) := by
    unfold satAdd64 maxBlocksPerScan
    omega
  refine wp_mono (fetchRange_heard _ _ _ _ _ said hb) fun said₁ r hr => ?_
  rcases r with e | ⟨logs, toBlock⟩
  · exact fun _ e => by cases e
  · obtain ⟨hh, h₁, h₂⟩ := hr _ rfl
    dsimp only at hh h₁ h₂ ⊢
    rw [wp_run_bind]
    refine wp_mono (wp_heard (indexLogs_heard _ _ logs .empty)) fun said₂ r hr => ?_
    rcases r with e | _ | _
    · exact fun _ e => by cases e
    · exact fun _ e => by cases e
    · rintro _ e
      cases e
      exact ⟨⟨h₁, logs, hh.mono hr.1.subset, hr.2 rfl⟩, by omega⟩

end MessageRelayer

import MessageRelayer.Lib.Runs
import MessageRelayer.Source.Heard

/-!
# The cursor of the source scan

What a poll asks, at the moment it asks it (`asks_pollOnce`): the head first,
the log queries over ranges that shrink, and the move of the cursor last, when
the range is scanned, its messages were all sent, and the head that was
accepted is not behind it (`Guard`). Over any sequence of polls, dropped
anywhere, the cursor and the accepted heads only advance
(`source_scan_cursor`).
-/

namespace MessageRelayer

open Prog hiding ask
open SourceM

/-! ## Questions that neither move nor narrow anything -/

/-- The questions that read the authority, the receipts and the clock, or record a message. -/
def SourceCall.plain : SourceCall → Bool
  | finalizedHead | setFinality _ | getLogs .. | send _ | setLastSeen _ => false
  | connect | chainId | cursor _ | prepareRoute .. | blockNumber | now | getBlock _ | getReceipt _
  | discoveryAddress .. | isActiveOutbox .. | record _ => true

variable {codec : SourceCodec} {source : SourceRoute} {durable : Bool}

section
variable {W : Type} {H : Env SourceCall SourceCall.Answer W} {G : W → SourceCall → Prop}
  (hG : ∀ w c, c.plain = true → G w c)
include hG

theorem asks_logsOfReceipts (block : Block) (pinned : Option Address) :
    ∀ (hashes : List B256) (w : W), asks H G (logsOfReceipts codec block pinned hashes).run w
  | [], _ => trivial
  | hash :: hashes, w => by
    rw [logsOfReceipts]
    refine asks_run_bind_all (fun w => (asks_sourceAsk _ w).mpr (hG w _ rfl)) (fun _ => ?_) w
    refine asks_run_bind_all (fun w => asks_orTimeout _ _ _ w) (fun _ => ?_)
    refine asks_run_bind_all (fun w => asks_orMissing _ _ w) (fun _ => ?_)
    refine asks_run_bind_all (fun w => asks_ensure _ _ w) (fun _ => ?_)
    refine asks_run_bind_all (fun w => asks_ensure _ _ w) (fun _ => ?_)
    exact asks_run_bind_all (asks_logsOfReceipts block pinned hashes) (fun _ w => asks_run_pure _ w)

theorem asks_messageLogsFromReceipts (number : Nat) (pinned : Option Address) (w : W) :
    asks H G (messageLogsFromReceipts codec number pinned).run w := by
  rw [messageLogsFromReceipts]
  refine asks_run_bind_all (fun w => (asks_sourceAsk _ w).mpr (hG w _ rfl)) (fun _ => ?_) w
  refine asks_run_bind_all (fun w => asks_orTimeout _ _ _ w) (fun _ => ?_)
  refine asks_run_bind_all (fun w => asks_orMissing _ _ w) (fun _ => ?_)
  refine asks_run_bind_all (fun w => asks_ensure _ _ w) (fun _ => ?_)
  exact asks_run_bind_all (fun w => asks_ensure _ _ w) (fun _ => asks_logsOfReceipts hG _ _ _)

theorem asks_discoveryAt (chainKey : ChainKey) (block : Nat) (w : W) :
    asks H G (discoveryAt codec chainKey block).run w := by
  rw [discoveryAt]
  refine asks_run_bind_all (fun w => asks_orThrow _ w) (fun _ => ?_) w
  refine asks_run_bind_all (fun w => (asks_sourceAsk _ w).mpr (hG w _ rfl)) (fun _ => ?_)
  exact asks_run_bind_all (fun w => asks_orTimeout _ _ _ w) (fun _ w => asks_orThrow _ w)

theorem asks_authorizedAt (chainKey : ChainKey) (discovery outbox : Address) (block : Nat) (w : W) :
    asks H G (authorizedAt codec chainKey discovery outbox block).run w := by
  rw [authorizedAt]
  refine asks_run_bind_all (fun w => asks_orThrow _ w) (fun _ => ?_) w
  refine asks_run_bind_all (fun w => (asks_sourceAsk _ w).mpr (hG w _ rfl)) (fun _ => ?_)
  exact asks_run_bind_all (fun w => asks_orTimeout _ _ _ w) (fun _ w => asks_orThrow _ w)

theorem asks_authorize (caches : Caches) (outbox : Address) (block : Nat) (w : W) :
    asks H G (authorize codec source caches outbox block).run w := by
  rw [authorize]
  split
  · exact asks_run_bind_all (fun w => asks_ensure _ _ w) (fun _ w => asks_run_pure _ w) w
  · refine asks_run_bind_all (fun w => ?_) (fun r w => ?_) w
    · rw [cachedDiscovery]
      split
      · trivial
      · exact asks_run_bind_all (asks_discoveryAt hG _ _) (fun _ w => asks_run_pure _ w) w
    · obtain ⟨_ | discovery, caches⟩ := r
      · trivial
      · dsimp only
        rw [cachedMembership]
        split
        · trivial
        · exact asks_run_bind_all (asks_authorizedAt hG _ _ _ _) (fun _ w => asks_run_pure _ w) w

theorem asks_fetchMessageLogs {fromBlock toBlock : Nat} {pinned : Option Address} {w : W}
    (hl : G w (.getLogs fromBlock toBlock pinned)) :
    asks H G (fetchMessageLogs codec fromBlock toBlock pinned) w := by
  rw [fetchMessageLogs]
  refine asks_bind ((asks_call _ _).mpr hl) (wp_iff.mpr fun w' a _ => ?_)
  cases a with
  | elapsed | done => trivial
  | failed text =>
    dsimp only
    split
    · split
      · trivial
      · refine asks_bind_all (asks_messageLogsFromReceipts hG _ _) (fun r w => ?_) w'
        cases r <;> trivial
    · trivial

omit hG in
/-- A range is too large by the answer to its query. -/
theorem fetchMessageLogs_tooLarge (fromBlock toBlock : Nat) (pinned : Option Address) (w : W) :
    wp H (fetchMessageLogs codec fromBlock toBlock pinned) w fun w' r =>
      ∀ several, r = .error (.logRangeTooLarge several) →
        ∃ a, H w (.getLogs fromBlock toBlock pinned) a w' := by
  rw [fetchMessageLogs, wp_bind, wp_call]
  intro a w' ha
  cases a with
  | elapsed | done => exact fun _ e => by cases e
  | failed text =>
    dsimp only
    split
    · split
      · exact fun _ _ => ⟨_, ha⟩
      · rw [wp_bind]
        refine wp_iff.mpr fun w' r _ => ?_
        cases r <;> exact fun _ e => by cases e
    · exact fun _ e => by cases e

/-- The queries of the halving, where `I` holds of the range when it is asked for. -/
theorem asks_fetchRange {I : W → Nat → Prop} {fromBlock : Nat} {pinned : Option Address}
    (hL : ∀ w t, fromBlock ≤ t → I w t → G w (.getLogs fromBlock t pinned))
    (hI : ∀ w t a w' t', I w t → t' < t → H w (.getLogs fromBlock t pinned) a w' → I w' t') :
    ∀ (room toBlock : Nat) (hr : toBlock - fromBlock ≤ room) (w : W), fromBlock ≤ toBlock →
      I w toBlock → asks H G (fetchRange codec fromBlock pinned room toBlock hr).run w := by
  have hor : ∀ (toBlock : Nat) (smaller : fromBlock < toBlock → SourceM (List Log × Nat)) (w : W),
      fromBlock ≤ toBlock → I w toBlock →
      (∀ several a w', H w (.getLogs fromBlock toBlock pinned) a w' →
        asks H G (smaller several).run w') →
      asks H G (fetchOr codec fromBlock toBlock pinned smaller).run w := by
    intro toBlock smaller w hl hi hs
    rw [fetchOr]
    refine asks_run_bind ((asks_run_lift _ _).mpr (asks_fetchMessageLogs hG (hL w _ hl hi))) ?_
    rw [wp_run_lift]
    refine wp_mono (fetchMessageLogs_tooLarge fromBlock toBlock pinned w) fun w' r hr => ?_
    rcases r with (several | e) | logs
    · obtain ⟨a, ha⟩ := hr several rfl
      exact hs several a w' ha
    · trivial
    · trivial
  intro room
  induction room with
  | zero => exact fun toBlock hr w hl hi => hor toBlock _ w hl hi fun several => by omega
  | succ room ih =>
    exact fun toBlock hr w hl hi => hor toBlock _ w hl hi fun several a w' ha =>
      ih _ _ w' (by omega) (hI w _ a w' _ hi (by omega) ha)

omit hG in
theorem asks_send {message : IndexedMessage} {w : W} (h : G w (.send message)) :
    asks H G (send message).run w := by
  rw [send]
  refine asks_run_bind ((asks_sourceAsk _ _).mpr h) (wp_iff.mpr fun w' r _ => ?_)
  rcases r with _ | _ | _ | _ | _ <;> trivial

theorem asks_recordAndSend {message : IndexedMessage} {w : W} (hs : ∀ w', (w' = w ∨
    ∃ a, H w (.record message) a w') → G w' (.send message)) :
    asks H G (recordAndSend durable message).run w := by
  rw [recordAndSend]
  cases durable with
  | false => exact asks_send (hs w (.inl rfl))
  | true =>
    refine asks_run_bind ((asks_sourceAsk _ _).mpr (hG w _ rfl)) ?_
    rw [wp_sourceAsk]
    intro a w' ha
    cases a with
    | error => trivial
    | ok => exact asks_send (hs w' (.inr ⟨_, ha⟩))

end

/-! ## What a poll asks, and when -/

/-- Every message that was sent reached the pool. -/
def AllSent (said : SourceSaid) : Prop := ∀ message a, ⟨.send message, a⟩ ∈ said → a = Sent.sent

/-- Every log query so far went beyond `toBlock`. -/
def Beyond (said : SourceSaid) (toBlock : Nat) : Prop :=
  ∀ fromBlock t pinned a, ⟨.getLogs fromBlock t pinned, a⟩ ∈ said → toBlock < t

/-- The poll began with the answer that `head` is finalized, which is no earlier than the head that
the tracker had. -/
def Accepted (finality : FinalityTracker) (said : SourceSaid) (head : Nat) : Prop :=
  ∃ (block : Block) (rest : SourceSaid), said = ⟨.finalizedHead, Rpc.done (some block)⟩ :: rest ∧
    block.number = head ∧ ∀ previous ∈ finality.lastFinalized, previous ≤ head

/-- What a poll has heard when it asks a question, other than its last. -/
def Guard (source : SourceRoute) (finality : FinalityTracker) (lastSeen : Nat) (said : SourceSaid) :
    SourceCall → Prop
  | .finalizedHead => said = []
  | .setFinality tracker => ∃ head, tracker.lastFinalized = some head ∧ Accepted finality said head ∧
      ∀ t, ⟨.setFinality t, ()⟩ ∉ said
  | .getLogs fromBlock toBlock pinned => fromBlock = lastSeen + 1 ∧ fromBlock ≤ toBlock ∧
      toBlock ≤ lastSeen + maxBlocksPerScan ∧ pinned = source.outboxOverride ∧ Beyond said toBlock
  | .send _ => AllSent said
  | .setLastSeen _ => False
  | .connect | .chainId | .cursor _ | .prepareRoute .. | .blockNumber | .now | .getBlock _
  | .getReceipt _ | .discoveryAddress .. | .isActiveOutbox .. | .record _ => True

/-- What a poll has heard when it moves the cursor. -/
structure Finished (codec : SourceCodec) (source : SourceRoute) (durable : Bool)
    (finality : FinalityTracker) (lastSeen : Nat) (said : SourceSaid) (toBlock : Nat) : Prop where
  scanned : Scanned codec source durable said lastSeen toBlock
  sent : AllSent said
  head : ∃ head tracker, ⟨.setFinality tracker, ()⟩ ∈ said ∧ tracker.lastFinalized = some head ∧
    toBlock ≤ head

variable {finality : FinalityTracker} {lastSeen : Nat} {said said' : SourceSaid}

theorem guard_plain (said : SourceSaid) (c : SourceCall) (hc : c.plain = true) :
    Guard source finality lastSeen said c := by
  cases c <;> trivial

theorem AllSent.of_asked (h : AllSent said)
    (hs : ∀ x ∈ said', x ∈ said ∨ ∀ message, x.1 ≠ SourceCall.send message) : AllSent said' :=
  fun message a ha => (hs _ ha).elim (h message a) fun hn => absurd rfl (hn message)

theorem plain_ne_send {c : SourceCall} (h : c.plain = true) (message : IndexedMessage) :
    c ≠ .send message := fun e => by rw [e] at h; cases h

theorem authorize_sent (h : AllSent said) (caches : Caches) (outbox : Address) (block : Nat) :
    wp heard (authorize codec source caches outbox block).run said fun said' _ => AllSent said' :=
  wp_mono (wp_asked (asks_authorize (fun _ _ hc => plain_ne_send hc) caches outbox block said))
    fun _ _ hs => h.of_asked hs

theorem fetchRange_sent (h : AllSent said) (fromBlock : Nat) (pinned : Option Address)
    (room toBlock : Nat) (hr : toBlock - fromBlock ≤ room) (hl : fromBlock ≤ toBlock) :
    wp heard (fetchRange codec fromBlock pinned room toBlock hr).run said
      fun said' _ => AllSent said' :=
  wp_mono (wp_asked (asks_fetchRange (I := fun _ _ => True) (fun _ _ hc => plain_ne_send hc)
    (fun _ _ _ _ _ e => by cases e) (fun _ _ _ _ _ _ _ _ => trivial) room toBlock hr said hl trivial))
    fun _ _ hs => h.of_asked hs

theorem send_sent (h : AllSent said) (message : IndexedMessage) :
    wp heard (send message).run said fun said' r => r = .ok true → AllSent said' := by
  simp only [send, wp_run_bind, wp_sourceAsk, heard_iff]
  rintro a _ rfl
  cases a with
  | sent =>
    refine fun _ m a ha => (List.mem_append.mp ha).elim (h m a) fun ha => ?_
    cases List.mem_singleton.mp ha; rfl
  | cancelled => exact fun e => by cases e
  | closed cancelled => cases cancelled <;> exact fun e => by cases e

theorem AllSent.recorded (h : AllSent said) (message : IndexedMessage) (a : Except Error Unit) :
    AllSent (said ++ [⟨.record message, a⟩]) :=
  h.of_asked fun _ hx => (List.mem_append.mp hx).imp_right fun hx => by
    cases List.mem_singleton.mp hx; exact fun _ e => by cases e

theorem recordAndSend_sent (h : AllSent said) (message : IndexedMessage) :
    wp heard (recordAndSend durable message).run said fun said' r => r = .ok true → AllSent said' := by
  rw [recordAndSend]
  cases durable with
  | false => exact send_sent h message
  | true =>
    simp only [if_true, wp_run_bind, wp_sourceAsk, wp_orThrow, heard_iff]
    rintro a _ rfl
    cases a with
    | error => exact fun e => by cases e
    | ok => exact send_sent (h.recorded message _) message

theorem indexLog_sent (h : AllSent said) (fromBlock toBlock : Nat) (caches : Caches) (log : Log) :
    wp heard (indexLog codec source durable fromBlock toBlock caches log).run said
      fun said' r => ∀ caches', r = .ok (some caches') → AllSent said' := by
  rw [indexLog, wp_run_bind, wp_orMissing]
  cases log.blockNumber with
  | none => exact fun _ e => by cases e
  | some block =>
    simp only [wp_run_bind, wp_ensure]
    split
    · refine wp_mono (authorize_sent h caches log.address block) fun said₁ r h => ?_
      rcases r with e | ⟨_ | _, caches'⟩
      · exact fun _ e => by cases e
      · exact fun _ _ => h
      · simp only [Bool.not_true, Bool.false_eq_true, if_false, wp_run_bind, wp_orThrow]
        cases decodeLog codec source log block with
        | error => exact fun _ e => by cases e
        | ok message =>
          refine wp_mono (recordAndSend_sent h message) fun said₂ r h => ?_
          rcases r with e | _ | _
          · exact fun _ e => by cases e
          · exact fun _ e => by cases e
          · exact fun _ _ => h rfl
    · exact fun _ e => by cases e

theorem asks_indexLog (h : AllSent said) (fromBlock toBlock : Nat) (caches : Caches) (log : Log) :
    asks heard (Guard source finality lastSeen)
      (indexLog codec source durable fromBlock toBlock caches log).run said := by
  rw [indexLog]
  refine asks_run_bind (asks_orMissing _ _ _) ((wp_orMissing _ _ _ _).mpr ?_)
  cases log.blockNumber with
  | none => trivial
  | some block =>
    refine asks_run_bind (asks_ensure _ _ _) ((wp_ensure _ _ _ _).mpr ?_)
    split
    · refine asks_run_bind (asks_authorize guard_plain _ _ _ _) ?_
      refine wp_mono (authorize_sent h caches log.address block) fun said₁ r h => ?_
      rcases r with e | ⟨_ | _, caches'⟩
      · trivial
      · trivial
      · simp only [Bool.not_true, Bool.false_eq_true, if_false]
        refine asks_run_bind (asks_orThrow _ _) ((wp_orThrow _ _ _).mpr ?_)
        cases decodeLog codec source log block with
        | error => trivial
        | ok message =>
          refine asks_run_bind (asks_recordAndSend guard_plain fun said' hs => ?_)
            (wp_iff.mpr fun _ r _ => by rcases r with _ | _ | _ <;> trivial)
          rcases hs with rfl | ⟨a, rfl⟩
          · exact h
          · exact h.recorded message a
    · trivial

theorem indexLogs_sent (fromBlock toBlock : Nat) : ∀ (logs : List Log) (caches : Caches)
    (said : SourceSaid), AllSent said →
    wp heard (indexLogs codec source durable fromBlock toBlock caches logs).run said
      fun said' r => r = .ok true → AllSent said'
  | [], _, _, h => fun _ => h
  | log :: logs, caches, said, h => by
    rw [indexLogs, wp_run_bind]
    refine wp_mono (indexLog_sent h _ _ _ _) fun said₁ r h => ?_
    rcases r with e | _ | caches'
    · exact fun e => by cases e
    · exact fun e => by cases e
    · exact indexLogs_sent fromBlock toBlock logs caches' said₁ (h _ rfl)

theorem asks_indexLogs (fromBlock toBlock : Nat) : ∀ (logs : List Log) (caches : Caches)
    (said : SourceSaid), AllSent said →
    asks heard (Guard source finality lastSeen)
      (indexLogs codec source durable fromBlock toBlock caches logs).run said
  | [], _, _, _ => trivial
  | log :: logs, caches, said, h => by
    rw [indexLogs]
    refine asks_run_bind (asks_indexLog h _ _ _ _) (wp_mono (indexLog_sent h _ _ _ _) fun said₁ r h => ?_)
    rcases r with e | _ | caches'
    · trivial
    · trivial
    · exact asks_indexLogs fromBlock toBlock logs caches' said₁ (h _ rfl)

theorem window {lastSeen confirmed : Nat} (hl : lastSeen < confirmed) (hc : confirmed ≤ u64Max) :
    lastSeen + 1 ≤ min confirmed (satAdd64 lastSeen maxBlocksPerScan) ∧
      min confirmed (satAdd64 lastSeen maxBlocksPerScan) ≤ lastSeen + maxBlocksPerScan := by
  unfold satAdd64 maxBlocksPerScan
  omega

theorem scanRange_sent {confirmed : Nat} (hl : lastSeen < confirmed) (hc : confirmed ≤ u64Max)
    (h : AllSent said) : wp heard (scanRange codec source durable lastSeen confirmed).run said
      fun said' r => ∀ toBlock, r = .ok (some toBlock) → AllSent said' := by
  rw [scanRange, wp_run_bind]
  refine wp_mono (fetchRange_sent h _ _ _ _ _ (window hl hc).1) fun said₁ r h => ?_
  rcases r with e | ⟨logs, toBlock⟩
  · exact fun _ e => by cases e
  · dsimp only
    rw [wp_run_bind]
    refine wp_mono (indexLogs_sent _ _ logs _ said₁ h) fun said₂ r h => ?_
    rcases r with e | _ | _
    · exact fun _ e => by cases e
    · exact fun _ e => by cases e
    · exact fun _ _ => h rfl

theorem asks_scanRange {confirmed : Nat} (hl : lastSeen < confirmed) (hc : confirmed ≤ u64Max)
    (h : AllSent said) (hq : ∀ fromBlock t pinned a, ⟨.getLogs fromBlock t pinned, a⟩ ∉ said) :
    asks heard (Guard source finality lastSeen)
      (scanRange codec source durable lastSeen confirmed).run said := by
  rw [scanRange]
  refine asks_run_bind (asks_fetchRange (I := fun said t => t ≤ lastSeen + maxBlocksPerScan ∧
      Beyond said t) guard_plain (fun said t hl hi => ⟨rfl, hl, hi.1, rfl, hi.2⟩)
    (fun said t a said' t' hi ht ha => ⟨by omega, ?_⟩) _ _ _ _ (window hl hc).1
    ⟨(window hl hc).2, fun f t p a hm => absurd hm (hq f t p a)⟩) ?_
  · rw [heard_iff.mp ha]
    intro f t₁ p a₁ hm
    rcases List.mem_append.mp hm with hm | hm
    · exact Nat.lt_trans ht (hi.2 f t₁ p a₁ hm)
    · cases List.mem_singleton.mp hm; exact ht
  · refine wp_mono (fetchRange_sent h _ _ _ _ _ (window hl hc).1) fun said₁ r h => ?_
    rcases r with e | ⟨logs, toBlock⟩
    · trivial
    · refine asks_run_bind (asks_indexLogs _ _ logs _ said₁ h) (wp_iff.mpr fun _ r _ => ?_)
      cases r <;> trivial

/-! ## The whole poll -/

theorem asks_readHeads : asks heard (Guard source finality lastSeen)
    (readHeads .finalized).run [] := by
  rw [readHeads]
  refine asks_run_bind ?_ (wp_iff.mpr fun _ r _ => by cases r <;> trivial)
  rw [readFinalizedHead]
  refine asks_run_bind ((asks_sourceAsk _ _).mpr rfl) ((wp_sourceAsk _ _ _).mpr fun a said _ => ?_)
  rcases a with _ | _ | _ | block <;> trivial

/-- What is heard before the range is scanned: the poll accepted a head. -/
theorem readHeads_accepted : wp heard (readHeads .finalized).run [] fun said r => ∀ heads, r = .ok heads →
    ∃ block : Block, said = [⟨.finalizedHead, Rpc.done (some block)⟩] ∧
      heads = (some block.number, 0) := by
  simp only [readHeads, readFinalizedHead, wp_run_bind, wp_sourceAsk, wp_orTimeout, wp_orMissing,
    wp_run_pure, heard_iff]
  rintro a _ rfl
  rcases a with _ | _ | _ | block
  · exact fun _ e => by cases e
  · exact fun _ e => by cases e
  · exact fun _ e => by cases e
  · exact fun _ e => by cases e; exact ⟨block, rfl, rfl⟩

/-- The rest of a poll, once it has accepted a head. -/
theorem pollRange_guarded :
    asks heard (Guard source finality lastSeen)
      (pollRange codec source .finalized durable finality lastSeen).run [] ∧
    wp heard (pollRange codec source .finalized durable finality lastSeen).run []
      fun said r => ∀ toBlock, r = .ok (some toBlock) →
        Finished codec source durable finality lastSeen said toBlock := by
  have hh := readHeads_accepted
  constructor
  · rw [pollRange]
    refine asks_run_bind asks_readHeads (wp_mono hh fun said r h => ?_)
    cases r with
    | error => trivial
    | ok heads =>
      obtain ⟨block, rfl, rfl⟩ := h _ rfl
      refine asks_run_bind ((asks_sourceAsk _ _).mpr trivial) ((wp_sourceAsk _ _ _).mpr ?_)
      rintro now said ha
      rw [heard_iff.mp ha]
      refine asks_run_bind (asks_orThrow _ _) ((wp_orThrow _ _ _).mpr ?_)
      cases hp : pickToBlock (some block.number) 0 .finalized finality now with
      | error => trivial
      | ok p =>
        obtain ⟨confirmed, tracker⟩ := p
        obtain ⟨he, ht, hle⟩ := pickToBlock_finalized hp
        cases he
        refine asks_run_bind ((asks_sourceAsk _ _).mpr
          ⟨block.number, ht, ⟨block, _, rfl, rfl, hle⟩, fun t ht => by simp at ht⟩) ?_
        rw [wp_sourceAsk]
        intro a said ha
        rw [heard_iff.mp ha]
        dsimp only
        split
        · trivial
        · rename_i hl
          refine asks_scanRange (Nat.lt_of_not_le hl) block.inRange (fun m a hm => by simp at hm)
            (fun f t p a hm => by simp at hm)
  · rw [pollRange, wp_run_bind]
    refine wp_mono hh fun said r h => ?_
    cases r with
    | error => exact fun _ e => by cases e
    | ok heads =>
      obtain ⟨block, rfl, rfl⟩ := h _ rfl
      simp only [wp_run_bind, wp_sourceAsk, wp_orThrow, heard_iff]
      rintro now _ rfl
      cases hp : pickToBlock (some block.number) 0 .finalized finality now with
      | error => exact fun _ e => by cases e
      | ok p =>
        obtain ⟨confirmed, tracker⟩ := p
        obtain ⟨he, ht, hle⟩ := pickToBlock_finalized hp
        cases he
        rintro a _ rfl
        split
        · exact fun _ e => by cases e
        · rename_i hl
          have hl := Nat.lt_of_not_le hl
          refine wp_mono (wp_heard (wp_and (scanRange_heard hl block.inRange _)
            (scanRange_sent hl block.inRange (fun m a hm => by simp at hm)))) fun said' r hr toBlock e => ?_
          obtain ⟨⟨rest, rfl⟩, hs, ha⟩ := hr
          obtain ⟨hs, hb⟩ := hs toBlock e
          exact ⟨hs, ha toBlock e, block.number, tracker, by simp, ht, hb⟩

/-- The last question of a poll moves the cursor over a range that the poll has finished. -/
theorem asks_pollOnce : asks heard (fun said c => ∀ toBlock, c = .setLastSeen toBlock →
      Finished codec source durable finality lastSeen said toBlock)
    (pollOnce codec source .finalized durable finality lastSeen).run [] := by
  rw [pollOnce]
  refine asks_run_bind (asks_mono pollRange_guarded.1 fun said c hg b e => ?_)
    (wp_mono pollRange_guarded.2 fun said r h => ?_)
  · rw [e] at hg; exact hg.elim
  · rcases r with e | _ | toBlock
    · trivial
    · trivial
    · exact (asks_sourceAsk _ _).mpr fun b e => by cases e; exact h toBlock rfl

/-- A poll has moved the cursor by its last question, or not at all. -/
theorem pollOnce_cases {said : SourceSaid}
    (h : Cut heard (pollOnce codec source .finalized durable finality lastSeen).run [] said) :
    Cut heard (pollRange codec source .finalized durable finality lastSeen).run [] said ∨
    ∃ said₀ toBlock, said = said₀ ++ [⟨.setLastSeen toBlock, ()⟩] ∧
      Cut heard (pollRange codec source .finalized durable finality lastSeen).run [] said₀ ∧
      Finished codec source durable finality lastSeen said₀ toBlock ∧
      Exec heard (pollOnce codec source .finalized durable finality lastSeen).run [] said (.ok ()) := by
  rw [pollOnce, ExceptT.run_bind] at h ⊢
  rcases h.of_bind with h | ⟨said₀, r, hx, h⟩
  · exact .inl h
  · rcases r with e | _ | toBlock
    · cases h; exact .inl hx.cut
    · cases h; exact .inl hx.cut
    · cases h with
      | here => exact .inl hx.cut
      | ask ha h =>
        cases h
        rw [heard_iff.mp ha]
        exact .inr ⟨said₀, toBlock, rfl, hx.cut, hx.post pollRange_guarded.2 toBlock rfl,
          hx.bind (.ask rfl .ret)⟩

theorem pollRange_unmoved {said : SourceSaid}
    (h : Cut heard (pollRange codec source .finalized durable finality lastSeen).run [] said) (b : Nat) :
    ⟨.setLastSeen b, ()⟩ ∉ said := by
  intro hm
  obtain ⟨new, rfl, hg⟩ := h.guarded pollRange_guarded.1
  obtain ⟨l, r, e⟩ := List.append_of_mem hm
  exact hg l _ r e

theorem pollOnce_moved {said : SourceSaid} {r : Except Error Unit} {b : Nat}
    (h : Exec heard (pollOnce codec source .finalized durable finality lastSeen).run [] said r)
    (hm : ⟨.setLastSeen b, ()⟩ ∈ said) : r = .ok () := by
  rw [pollOnce, ExceptT.run_bind] at h
  obtain ⟨said₀, r₀, hx, h⟩ := h.of_bind
  rcases r₀ with e | _ | toBlock
  · cases h; exact absurd hm (pollRange_unmoved hx.cut b)
  · cases h; rfl
  · cases h with
    | ask _ h => cases h; rfl

/-! ## A run of polls -/

/-- What a watcher keeps between polls. -/
structure ScanState where
  lastSeen : Nat
  finality : FinalityTracker

/-- What an answered question does to it. -/
def ScanState.set (s : ScanState) : ((c : SourceCall) × c.Answer) → ScanState
  | ⟨.setLastSeen lastSeen, _⟩ => { s with lastSeen }
  | ⟨.setFinality finality, _⟩ => { s with finality }
  | _ => s

def ScanState.after (s : ScanState) (said : SourceSaid) : ScanState := said.foldl ScanState.set s

/-- A poll as it went: what it heard, and its result unless it was dropped. -/
structure Poll where
  said : SourceSaid
  result : Option (Except Error Unit)

/-- A poll under the finalized policy, complete or dropped before its end. -/
inductive PollStep (codec : SourceCodec) (source : SourceRoute) (durable : Bool) :
    ScanState → Poll → ScanState → Prop where
  | returned {s : ScanState} {said : SourceSaid} {r : Except Error Unit}
      (h : Exec heard (pollOnce codec source .finalized durable s.finality s.lastSeen).run [] said r) :
      PollStep codec source durable s ⟨said, some r⟩ (s.after said)
  | dropped {s : ScanState} {said : SourceSaid}
      (h : Cut heard (pollOnce codec source .finalized durable s.finality s.lastSeen).run [] said)
      (hn : ∀ r, ¬Exec heard (pollOnce codec source .finalized durable s.finality s.lastSeen).run []
        said r) :
      PollStep codec source durable s ⟨said, none⟩ (s.after said)

namespace ScanState

@[simp] theorem after_append (s : ScanState) (said said' : SourceSaid) :
    s.after (said ++ said') = (s.after said).after said' := List.foldl_append

theorem after_lastSeen : ∀ {said : SourceSaid} (s : ScanState),
    (∀ b, ⟨.setLastSeen b, ()⟩ ∉ said) → (s.after said).lastSeen = s.lastSeen
  | [], _, _ => rfl
  | ⟨c, a⟩ :: said, s, h => by
    refine (after_lastSeen (s.set ⟨c, a⟩) fun b hb => h b (List.mem_cons_of_mem _ hb)).trans ?_
    cases c <;> first | rfl | exact absurd List.mem_cons_self (h _)

theorem after_finality : ∀ {said : SourceSaid} (s : ScanState),
    (∀ t, ⟨.setFinality t, ()⟩ ∉ said) → (s.after said).finality = s.finality
  | [], _, _ => rfl
  | ⟨c, a⟩ :: said, s, h => by
    refine (after_finality (s.set ⟨c, a⟩) fun b hb => h b (List.mem_cons_of_mem _ hb)).trans ?_
    cases c <;> first | rfl | exact absurd List.mem_cons_self (h _)

end ScanState

/-- The head that a poll gives to the tracker. -/
def headOf : ((c : SourceCall) × c.Answer) → Option Nat
  | ⟨.setFinality tracker, _⟩ => tracker.lastFinalized
  | _ => none

/-- The heads that a poll accepted. -/
def headsOf (said : SourceSaid) : List Nat := said.filterMap headOf

def Poll.heads (p : Poll) : List Nat := headsOf p.said

theorem headsOf_none {said : SourceSaid} (h : ∀ t, ⟨.setFinality t, ()⟩ ∉ said) : headsOf said = [] := by
  refine List.filterMap_eq_nil_iff.mpr fun x hx => ?_
  obtain ⟨c, a⟩ := x
  cases c <;> first | rfl | exact absurd hx (h _)

/-- The last block of a queried range. -/
def queryOf : ((c : SourceCall) × c.Answer) → Option Nat
  | ⟨.getLogs _ toBlock _, _⟩ => some toBlock
  | _ => none

def Poll.queried (p : Poll) : List Nat := p.said.filterMap queryOf

theorem queryOf_eq {x : (c : SourceCall) × c.Answer} {toBlock : Nat} (h : queryOf x = some toBlock) :
    ∃ fromBlock pinned a, x = ⟨.getLogs fromBlock toBlock pinned, a⟩ := by
  obtain ⟨c, a⟩ := x
  cases c <;> cases h
  exact ⟨_, _, a, rfl⟩

/-! ## What is said of a poll before its last question -/

section
variable (h : Cut heard (pollRange codec source .finalized durable finality lastSeen).run [] said)
include h

theorem pollRange_guard (l : SourceSaid) (x : (c : SourceCall) × c.Answer) (r : SourceSaid)
    (e : said = l ++ x :: r) : Guard source finality lastSeen l x.1 := by
  obtain ⟨new, rfl, hg⟩ := h.guarded pollRange_guarded.1
  exact hg l x r e

/-- A poll accepts one head at most. -/
theorem pollRange_heads : (∀ t, ⟨.setFinality t, ()⟩ ∉ said) ∨
    ∃ l r tracker head, said = l ++ ⟨.setFinality tracker, ()⟩ :: r ∧
      tracker.lastFinalized = some head ∧ Accepted finality said head ∧
      (∀ t, ⟨.setFinality t, ()⟩ ∉ l) ∧ ∀ t, ⟨.setFinality t, ()⟩ ∉ r := by
  by_cases hf : ∀ t, ⟨.setFinality t, ()⟩ ∉ said
  · exact .inl hf
  · obtain ⟨tracker, hm⟩ := not_forall_not.mp hf
    obtain ⟨l, r, e⟩ := List.append_of_mem hm
    obtain ⟨head, ht, ⟨block, rest, hl, hb, hp⟩, hn⟩ := pollRange_guard h l _ r e
    refine .inr ⟨l, r, tracker, head, e, ht, ⟨block, rest ++ ⟨.setFinality tracker, ()⟩ :: r, ?_, hb, hp⟩,
      hn, fun t hr => ?_⟩
    · rw [e, hl]; rfl
    · obtain ⟨l', r', e'⟩ := List.append_of_mem hr
      obtain ⟨-, -, -, hn'⟩ := pollRange_guard h (l ++ ⟨.setFinality tracker, ()⟩ :: l') _ r'
        (by rw [e, e', List.append_assoc, List.cons_append])
      exact hn' tracker (by simp)

end

/-- The heads that a poll accepted, and the tracker after it. -/
theorem pollRange_tracker {s : ScanState}
    (h : Cut heard (pollRange codec source .finalized durable s.finality lastSeen).run [] said) :
    (headsOf said = [] ∧ (s.after said).finality = s.finality) ∨
    ∃ head, headsOf said = [head] ∧ (s.after said).finality.lastFinalized = some head ∧
      Accepted s.finality said head := by
  rcases pollRange_heads h with hn | ⟨l, r, tracker, head, rfl, ht, ha, hl, hr⟩
  · exact .inl ⟨headsOf_none hn, s.after_finality hn⟩
  · refine .inr ⟨head, ?_, ?_, ha⟩
    · have hx : headOf ⟨.setFinality tracker, ()⟩ = some head := ht
      rw [headsOf, List.filterMap_append, List.filterMap_cons_some hx]
      exact congrArg₂ (· ++ head :: ·) (headsOf_none hl) (headsOf_none hr)
    · rw [ScanState.after_append]
      exact (congrArg FinalityTracker.lastFinalized
        (((s.after l).set ⟨.setFinality tracker, ()⟩).after_finality hr)).trans ht

theorem pollRange_queries
    (h : Cut heard (pollRange codec source .finalized durable finality lastSeen).run [] said) :
    (∀ fromBlock toBlock pinned a, ⟨.getLogs fromBlock toBlock pinned, a⟩ ∈ said →
      fromBlock = lastSeen + 1 ∧ fromBlock ≤ toBlock ∧ toBlock ≤ lastSeen + maxBlocksPerScan) ∧
    (said.filterMap queryOf).Pairwise (· > ·) := by
  refine ⟨fun f t p a hm => ?_, ?_⟩
  · obtain ⟨l, r, e⟩ := List.append_of_mem hm
    obtain ⟨h₁, h₂, h₃, -⟩ := pollRange_guard h l _ r e
    exact ⟨h₁, h₂, h₃⟩
  · rw [List.pairwise_filterMap, List.pairwise_iff_getElem]
    intro i j hi hj hij t ht t' ht'
    obtain ⟨f, p, a, e⟩ := queryOf_eq ht
    obtain ⟨f', p', a', e'⟩ := queryOf_eq ht'
    obtain ⟨-, -, -, -, hb⟩ := e' ▸ pollRange_guard h (said.take j) said[j] (said.drop (j + 1))
      (by rw [← List.drop_eq_getElem_cons hj, List.take_append_drop])
    exact hb f t p a (e ▸ List.mem_take_iff_getElem.mpr ⟨i, by omega, rfl⟩)

/-- What a poll did to the cursor, and on what grounds. -/
structure Poll.Sound (codec : SourceCodec) (source : SourceRoute) (durable : Bool)
    (s : ScanState) (p : Poll) (t : ScanState) : Prop where
  /-- A poll accepts no head that is unavailable or behind the last one. -/
  accepted : ∀ head ∈ p.heads, Accepted s.finality p.said head
  /-- The queried ranges start after the cursor and are not empty, and each is smaller than the
  one before. -/
  queries : ∀ fromBlock toBlock pinned a, ⟨.getLogs fromBlock toBlock pinned, a⟩ ∈ p.said →
    fromBlock = s.lastSeen + 1 ∧ fromBlock ≤ toBlock ∧ toBlock ≤ s.lastSeen + maxBlocksPerScan
  halving : p.queried.Pairwise (· > ·)
  /-- The cursor stays where it was unless the poll ends well, with every message sent. -/
  unmoved : p.result ≠ some (.ok ()) ∨ ¬AllSent p.said ∨ p.heads = [] → t.lastSeen = s.lastSeen
  /-- The cursor moves up to a head that the poll accepted, over blocks that it has scanned. -/
  moved : t.lastSeen ≠ s.lastSeen → (∃ head ∈ p.heads, t.lastSeen ≤ head) ∧
    Scanned codec source durable p.said s.lastSeen t.lastSeen

theorem PollStep.cut {s t : ScanState} {p : Poll} (h : PollStep codec source durable s p t) :
    Cut heard (pollOnce codec source .finalized durable s.finality s.lastSeen).run [] p.said ∧
    t = s.after p.said ∧ ((∃ r, Exec heard (pollOnce codec source .finalized durable s.finality
      s.lastSeen).run [] p.said r) → ∃ r, p.result = some r ∧
      Exec heard (pollOnce codec source .finalized durable s.finality s.lastSeen).run [] p.said r) := by
  cases h with
  | returned hx => exact ⟨hx.cut, rfl, fun _ => ⟨_, rfl, hx⟩⟩
  | dropped hc hn => exact ⟨hc, rfl, fun ⟨r, hx⟩ => absurd hx (hn r)⟩

theorem PollStep.sound {s t : ScanState} {p : Poll} (h : PollStep codec source durable s p t) :
    p.Sound codec source durable s t := by
  obtain ⟨hc, rfl, hr⟩ := h.cut
  have hheads : ∀ said, Cut heard (pollRange codec source .finalized durable s.finality s.lastSeen).run
      [] said → ∀ head ∈ headsOf said, Accepted s.finality said head := by
    intro said hc head hh
    rcases pollRange_tracker hc with ⟨e, -⟩ | ⟨head', e, -, ha⟩ <;> rw [e] at hh
    · exact absurd hh List.not_mem_nil
    · rw [List.mem_singleton.mp hh]; exact ha
  rcases pollOnce_cases hc with hc | ⟨said, toBlock, e, hc, hf, hx⟩
  · have hs : (s.after p.said).lastSeen = s.lastSeen := s.after_lastSeen (pollRange_unmoved hc)
    exact ⟨hheads _ hc, (pollRange_queries hc).1, (pollRange_queries hc).2, fun _ => hs,
      fun hn => absurd hs hn⟩
  · have hm : ⟨.setLastSeen toBlock, ()⟩ ∈ p.said := by rw [e]; simp
    obtain ⟨r, hp, hx⟩ := hr ⟨_, hx⟩
    obtain rfl := pollOnce_moved hx hm
    have hh : p.heads = headsOf said := by
      rw [Poll.heads, e, headsOf, List.filterMap_append]; exact List.append_nil _
    have hq : p.queried = said.filterMap queryOf := by
      rw [Poll.queried, e, List.filterMap_append]; exact List.append_nil _
    have hsub : said ⊆ p.said := e ▸ List.subset_append_left _ _
    have ht : (s.after p.said).lastSeen = toBlock := by rw [e, ScanState.after_append]; rfl
    obtain ⟨head, tracker, hf₁, hf₂, hf₃⟩ := hf.head
    have hhead : head ∈ p.heads := hh ▸ List.mem_filterMap.mpr ⟨_, hf₁, hf₂⟩
    refine ⟨fun head ha => ?_, fun f t pn a hm => ?_, hq ▸ (pollRange_queries hc).2, fun hn => ?_,
      fun _ => ⟨⟨head, hhead, ht ▸ hf₃⟩, ht ▸ hf.scanned.mono hsub⟩⟩
    · obtain ⟨block, rest, hl, h₂, h₃⟩ := hheads _ hc head (hh ▸ ha)
      exact ⟨block, rest ++ [⟨.setLastSeen toBlock, ()⟩], by rw [e, hl]; rfl, h₂, h₃⟩
    · rw [e] at hm
      rcases List.mem_append.mp hm with hm | hm
      · exact (pollRange_queries hc).1 f t pn a hm
      · cases List.mem_singleton.mp hm
    · rcases hn with hn | hn | hn
      · exact absurd hp hn
      · refine absurd (fun m a hm => ?_) hn
        rw [e] at hm
        rcases List.mem_append.mp hm with hm | hm
        · exact hf.sent m a hm
        · cases List.mem_singleton.mp hm
      · rw [hn] at hhead; exact absurd hhead List.not_mem_nil

/-- The tracker after a poll, and the heads that it accepted since the tracker was `finality`. -/
theorem PollStep.heads {s t : ScanState} {p : Poll} (h : PollStep codec source durable s p t) :
    (p.heads = [] ∧ t.finality = s.finality) ∨ ∃ head, p.heads = [head] ∧
      t.finality.lastFinalized = some head ∧ ∀ previous ∈ s.finality.lastFinalized, previous ≤ head := by
  have hs := h.sound
  obtain ⟨hc, rfl, -⟩ := h.cut
  have hp : ∃ said, Cut heard (pollRange codec source .finalized durable s.finality s.lastSeen).run []
      said ∧ p.heads = headsOf said ∧ (s.after p.said).finality = (s.after said).finality := by
    rcases pollOnce_cases hc with hc | ⟨said, toBlock, e, hc, -⟩
    · exact ⟨_, hc, rfl, rfl⟩
    · refine ⟨said, hc, ?_, ?_⟩
      · rw [Poll.heads, e, headsOf, List.filterMap_append]; exact List.append_nil _
      · rw [e, ScanState.after_append]; rfl
  obtain ⟨said, hc, hh, hf⟩ := hp
  rw [hh, hf]
  rcases pollRange_tracker hc with h | ⟨head, e, ht, -, -, -, -, hle⟩
  · exact .inl h
  · exact .inr ⟨head, e, ht, hle⟩

/-- The heads accepted so far are in order, and the tracker has the last of them. -/
def Ordered (ps : List Poll) (s : ScanState) : Prop :=
  (ps.flatMap Poll.heads).Pairwise (· ≤ ·) ∧
    ∀ head ∈ ps.flatMap Poll.heads, ∃ last, s.finality.lastFinalized = some last ∧ head ≤ last

theorem PollStep.ordered {ps : List Poll} {s t : ScanState} {p : Poll}
    (h : PollStep codec source durable s p t) (ho : Ordered ps s) : Ordered (ps ++ [p]) t := by
  rw [Ordered, List.flatMap_append, List.flatMap_singleton]
  rcases h.heads with ⟨hp, ht⟩ | ⟨head, hp, ht, hle⟩ <;> rw [hp]
  · rw [List.append_nil, ht]; exact ho
  · have hall : ∀ a ∈ ps.flatMap Poll.heads, a ≤ head := fun a ha => by
      obtain ⟨last, hl, hal⟩ := ho.2 a ha
      exact Nat.le_trans hal (hle last hl)
    refine ⟨List.pairwise_append.mpr ⟨ho.1, List.pairwise_singleton _ _, fun a ha b hb => ?_⟩,
      fun a ha => ⟨head, ht, ?_⟩⟩
    · rw [List.mem_singleton.mp hb]; exact hall a ha
    · rcases List.mem_append.mp ha with ha | ha
      · exact hall a ha
      · exact Nat.le_of_eq (List.mem_singleton.mp ha)

/-- Whatever the node answers and whatever fails, in any sequence of polls, each complete or dropped
anywhere: the cursor never goes back, the accepted heads do not either, and every move of the
cursor is sound. -/
theorem source_scan_cursor (codec : SourceCodec) (source : SourceRoute) (durable : Bool)
    {s₀ s t : ScanState} {ps : List Poll} {p : Poll}
    (h : Run (PollStep codec source durable) s₀ ps s) (hp : PollStep codec source durable s p t) :
    s₀.lastSeen ≤ s.lastSeen ∧ s.lastSeen ≤ t.lastSeen ∧
      ((ps ++ [p]).flatMap Poll.heads).Pairwise (· ≤ ·) ∧ p.Sound codec source durable s t := by
  have hle : ∀ s p t, PollStep codec source durable s p t → s.lastSeen ≤ t.lastSeen := by
    intro s p t hp
    by_cases e : t.lastSeen = s.lastSeen
    · omega
    · exact Nat.le_of_lt (hp.sound.moved e).2.1
  refine ⟨h.rel (R := fun s t => s.lastSeen ≤ t.lastSeen) (fun _ => Nat.le_refl _)
    (fun _ _ _ => Nat.le_trans) hle, hle s p t hp, ?_, hp.sound⟩
  exact (hp.ordered (h.hist (fun _ _ _ _ hp ho => hp.ordered ho)
    ⟨List.Pairwise.nil, fun _ ha => absurd ha List.not_mem_nil⟩)).1

/-! ## A poll that moves the cursor -/

/-- A codec to which every log publishes the message 7. -/
def demoCodec : SourceCodec where
  publishedTopic := 1
  decodePublished := fun _ => .ok ⟨7, 0, 1, []⟩
  decodeDiscovery := fun _ => .ok (9, true)
  decodeActive := fun _ => .ok true
  displayAddress := fun _ => "0x0000000000000000000000000000000000000005"

def demoSource : SourceRoute := ⟨2, 2, 42, none⟩

def demoLog : Log := ⟨5, [1], [], some 1, some 11, some 12, false⟩

def demoMessage : IndexedMessage := indexedMessage demoSource demoLog 1 ⟨7, 0, 1, []⟩ 12

def demoHead : Block := ⟨1, 11, [12], by decide⟩

/-- What a poll hears that finds the log in block 1. -/
def demoSaid : SourceSaid :=
  [⟨.finalizedHead, Rpc.done (some demoHead)⟩, ⟨.now, (0 : Nat)⟩,
    ⟨.setFinality ⟨some 1, 0, false⟩, ()⟩, ⟨.getLogs 1 1 none, Rpc.done [demoLog]⟩,
    ⟨.discoveryAddress 2 1, Rpc.done (word 9 ++ word 1)⟩,
    ⟨.isActiveOutbox 9 2 5 1, Rpc.done (word 1)⟩,
    ⟨.record demoMessage, Except.ok ()⟩, ⟨.send demoMessage, Sent.sent⟩, ⟨.setLastSeen 1, ()⟩]

theorem demoPoll : Exec heard (pollOnce demoCodec demoSource .finalized true (.new 0) 0).run []
    demoSaid (.ok ()) :=
  .ask (a := Rpc.done (some demoHead)) rfl <| .ask (a := (0 : Nat)) rfl <| .ask (a := ()) rfl <|
    .ask (a := Rpc.done [demoLog]) rfl <| .ask (a := Rpc.done (word 9 ++ word 1)) rfl <|
    .ask (a := Rpc.done (word 1)) rfl <| .ask (a := Except.ok ()) rfl <| .ask (a := Sent.sent) rfl <|
    .ask (a := ()) rfl (by exact .ret)

theorem source_scan_cursor_move :
    0 ≤ 0 ∧ 0 ≤ 1 ∧ [1].Pairwise (· ≤ ·) ∧
      Poll.Sound demoCodec demoSource true ⟨0, .new 0⟩ ⟨demoSaid, some (.ok ())⟩
        ⟨1, ⟨some 1, 0, false⟩⟩ :=
  source_scan_cursor demoCodec demoSource true .nil
    (PollStep.returned (s := ⟨0, .new 0⟩) demoPoll)

end MessageRelayer

import MessageRelayer.Relay.Steps
import MessageRelayer.Source.NoLoss

/-!
# Unfinished messages keep their contents

A record is written whenever a log is found, whatever is on disk, while the
pool keeps the content that it saw first. While every log that is found has the
content of all the copies of its message (`Relay.Agrees`), the copies agree in
every state (`Settled`), the record of a message stays as it is until the
message is completed, and what the pool has of it is that record, before and
after a refill, a crash and a restart (`record_stable`). Two logs of one message
id with different contents leave a pool that has the first and a disk that has
the second (`record_replaced`).
-/

namespace MessageRelayer

open Prog hiding ask
open SourceM

/-! ## Copies -/

/-- The content of a message, wherever it is held. -/
abbrev Copies := ChainKey → B256 → IndexedMessage → Prop

/-- The pool has the message under the id, on the route. -/
def State.Carries (s : State) : Copies := fun chainKey id message =>
  ∃ (route : RouteState) (slot : MessageSlot), s.byRoute[chainKey]? = some route ∧
    route.byMessage[id]? = some slot ∧ slot.indexed = message

inductive Relay.Copy (s : Relay) (chainKey : ChainKey) (id : B256) (message : IndexedMessage) :
    Prop where
  | disk (h : s.disk.records chainKey id = some message)
  /-- A watcher is about to send it. -/
  | sending {p : RelayProcess} {a : ChainKey}
      {k : (SourceCall.send message).Answer → SourceProg (Except Error Unit)}
      (hp : s.process = some p) (hq : p.polls a = some (.ask (.send message) k))
      (hm : message.chainKey = chainKey ∧ message.messageId = id)
  | indexed {p : RelayProcess} (hp : s.process = some p) (hi : message ∈ p.indexed)
      (hm : message.chainKey = chainKey ∧ message.messageId = id)
  | slot {p : RelayProcess} (hp : s.process = some p) (hs : p.pool.Carries chainKey id message)

/-- A log that is found has the content of every copy of its message. -/
def Relay.Agrees (s : Relay) : RelayEvent → Prop
  | .found message => ∀ message', s.Copy message.chainKey message.messageId message' →
      message' = message
  | .internal | .completing .. => True

/-- A step that finds no log of other content than a copy of its message. -/
def AgreeingStep (ecrecover : Ecrecover) (codec : SourceCodec) (chain : SourceChain codec)
    (s : Relay) (e : RelayEvent) (t : Relay) : Prop :=
  RelayStep ecrecover codec chain s e t ∧ s.Agrees e

/-! ## What a poll sends -/

/-- Whether the last call of a poll recorded a message, and which. -/
def lastRecorded : Env SourceCall SourceCall.Answer (Option IndexedMessage) := fun _ c a last =>
  last = match c, a with
    | .record message, .ok _ => some message
    | _, _ => none

/-- A message that is sent was just recorded. -/
def SendsRecorded (last : Option IndexedMessage) (c : SourceCall) : Prop :=
  ∀ message, c = .send message → last = some message

section
variable {codec : SourceCodec} {source : SourceRoute}

theorem sendsRecorded_plain (last : Option IndexedMessage) (c : SourceCall) (hc : c.plain = true) :
    SendsRecorded last c := by
  rintro message rfl
  cases hc

theorem asks_recordAndSend_last (message : IndexedMessage) (last : Option IndexedMessage) :
    asks lastRecorded SendsRecorded (recordAndSend true message).run last := by
  rw [recordAndSend]
  refine asks_run_bind ((asks_sourceAsk _ _).mpr (sendsRecorded_plain _ _ rfl)) ?_
  rw [wp_sourceAsk]
  intro a last' ha
  cases a with
  | error => trivial
  | ok => exact asks_send fun message' e => by cases e; exact ha

theorem asks_indexLogs_last (fromBlock toBlock : Nat) (logs : List Log) :
    ∀ (caches : Caches) (last : Option IndexedMessage), asks lastRecorded SendsRecorded
      (indexLogs codec source true fromBlock toBlock caches logs).run last := by
  have hone : ∀ (log : Log) (caches : Caches) (last : Option IndexedMessage),
      asks lastRecorded SendsRecorded
        (indexLog codec source true fromBlock toBlock caches log).run last := by
    intro log caches
    rw [indexLog]
    refine asks_run_bind_all (fun last => asks_orMissing _ _ last) fun block => ?_
    refine asks_run_bind_all (fun last => asks_ensure _ _ last) fun _ => ?_
    refine asks_run_bind_all (asks_authorize sendsRecorded_plain _ _ _) fun r => ?_
    obtain ⟨_ | _, caches⟩ := r
    · exact fun last => trivial
    · refine asks_run_bind_all (fun last => asks_orThrow _ last) fun message => ?_
      refine asks_run_bind_all (asks_recordAndSend_last message) fun b last => ?_
      cases b <;> trivial
  induction logs with
  | nil => exact fun _ _ => trivial
  | cons log logs ih =>
    intro caches
    rw [indexLogs]
    refine asks_run_bind_all (hone log caches) fun r => ?_
    cases r with
    | none => exact fun _ => trivial
    | some caches => exact ih caches

theorem asks_fetchRange_last (fromBlock : Nat) (pinned : Option Address) (room : Nat) :
    ∀ (toBlock : Nat) (hr : toBlock - fromBlock ≤ room) (last : Option IndexedMessage),
      asks lastRecorded SendsRecorded
        (fetchRange codec fromBlock pinned room toBlock hr).run last := by
  have hor : ∀ (toBlock : Nat) (smaller : fromBlock < toBlock → SourceM (List Log × Nat)),
      (∀ several last, asks lastRecorded SendsRecorded (smaller several).run last) →
      ∀ last, asks lastRecorded SendsRecorded
        (fetchOr codec fromBlock toBlock pinned smaller).run last := by
    intro toBlock smaller hs
    rw [fetchOr]
    refine asks_run_bind_all (fun last => (asks_run_lift _ _).mpr
      (asks_fetchMessageLogs sendsRecorded_plain fun _ h => by cases h)) fun r => ?_
    rcases r with (several | e) | logs
    · exact hs several
    · exact fun _ => trivial
    · exact fun _ => trivial
  induction room with
  | zero => exact fun toBlock hr => hor toBlock _ fun several => by omega
  | succ room ih => exact fun toBlock hr => hor toBlock _ fun several => ih _ _

/-- A poll sends what it has just recorded. -/
theorem asks_pollOnce_last (policy : FinalityPolicy) (finality : FinalityTracker) (lastSeen : Nat)
    (last : Option IndexedMessage) : asks lastRecorded SendsRecorded
      (pollOnce codec source policy true finality lastSeen).run last := by
  have hheads : ∀ last, asks lastRecorded SendsRecorded (readHeads policy).run last := by
    cases policy with
    | finalized =>
      refine asks_run_bind_all ?_ fun _ _ => trivial
      refine asks_run_bind_all (fun last => (asks_sourceAsk _ last).mpr (fun _ h => by cases h)) fun r => ?_
      refine asks_run_bind_all (fun last => asks_orTimeout _ _ _ last) fun r => ?_
      exact asks_run_bind_all (fun last => asks_orMissing _ _ last) fun _ _ => trivial
    | depth depth =>
      refine asks_run_bind_all (fun last => (asks_sourceAsk _ last).mpr (fun _ h => by cases h)) fun r => ?_
      exact asks_run_bind_all (fun last => asks_orTimeout _ _ _ last) fun _ _ => trivial
  have hscan : ∀ confirmed last, asks lastRecorded SendsRecorded
      (scanRange codec source true lastSeen confirmed).run last := by
    intro confirmed
    rw [scanRange]
    refine asks_run_bind_all (asks_fetchRange_last _ _ _ _ _) fun r => ?_
    exact asks_run_bind_all (asks_indexLogs_last _ _ _ _) fun b last => by cases b <;> trivial
  rw [pollOnce]
  refine asks_run_bind_all (fun last => ?_) (fun r last => ?_) last
  · rw [pollRange]
    refine asks_run_bind_all hheads (fun heads => ?_) last
    refine asks_run_bind_all (fun last => (asks_sourceAsk _ last).mpr (fun _ h => by cases h)) fun now => ?_
    refine asks_run_bind_all (fun last => asks_orThrow _ last) fun r => ?_
    refine asks_run_bind_all (fun last => (asks_sourceAsk _ last).mpr (fun _ h => by cases h)) fun _ last => ?_
    split
    · trivial
    · exact hscan _ last
  · cases r with
    | none => trivial
    | some toBlock => exact (asks_sourceAsk _ last).mpr (fun _ h => by cases h)

end

/-! ## What the pool carries -/

/-- A route whose slots are all among the copies. -/
def RouteState.Within (copies : Copies) (chainKey : ChainKey) (route : RouteState) : Prop :=
  ∀ (id : B256) (slot : MessageSlot), route.byMessage[id]? = some slot →
    copies chainKey id slot.indexed

theorem State.within_iff {s : State} {copies : Copies} : s.Every (RouteState.Within copies) ↔
    ∀ chainKey id message, s.Carries chainKey id message → copies chainKey id message := by
  constructor
  · rintro h chainKey id message ⟨route, slot, hr, hs, rfl⟩
    exact h chainKey route hr id slot hs
  · exact fun h chainKey route hr id slot hs => h chainKey id _ ⟨route, slot, hr, hs, rfl⟩

theorem RouteState.Within.held {copies : Copies} {chainKey : ChainKey} {route route' : RouteState}
    (h : route.Within copies chainKey) (hh : route.SlotsHeld route') :
    route'.Within copies chainKey := by
  intro id slot' hs
  obtain ⟨slot, hg, hh⟩ := hh id slot' hs
  rw [hh.indexed]
  exact h id slot hg

/-- What the pool carries after an operation it carried before, or the operation admitted it. -/
theorem PoolStep.carries {ecrecover : Ecrecover} {s t : State} {op : PoolOp}
    {jobs : List DeliveryJob} (h : PoolStep ecrecover s (op, jobs) t) {chainKey : ChainKey} {id : B256}
    {message : IndexedMessage} (hm : t.Carries chainKey id message) :
    s.Carries chainKey id message ∨ message.chainKey = chainKey ∧ message.messageId = id ∧
      ∃ insertedAt, op.Admits message insertedAt := by
  let copies : Copies := fun chainKey id message => s.Carries chainKey id message ∨
    message.chainKey = chainKey ∧ message.messageId = id ∧ ∃ insertedAt, op.Admits message insertedAt
  have hs : s.Every (RouteState.Within copies) := State.within_iff.mpr fun _ _ _ => .inl
  refine State.within_iff.mp (PoolStep.every h (fun chainKey route route' hr hw => ?_) hs)
    chainKey id message hm
  intro id slot' hs
  rcases hr.slots hs with ⟨slot, hg, hp⟩ | ⟨indexed, insertedAt, -, hc, hi, ha, hslot⟩
  · rw [hp.indexed]
    exact hw id slot hg
  · rw [hslot.indexed]
    exact .inr ⟨hc, hi, insertedAt, ha⟩

/-! ## What a refill loads -/

/-- The store under a refill, among the copies in the pool and on disk: no copy is lost, and what is
read is among them. -/
def copiesEnv : Env WorkCall WorkCall.Answer Copies := fun copies c a copies' =>
  (∀ chainKey id message, copies chainKey id message → copies' chainKey id message) ∧
    match c, a with
    | .pending chainKey _ _, .ok ms =>
      ∀ m ∈ ms, m.chainKey = chainKey ∧ copies' chainKey m.messageId m
    | _, _ => True

/-- A refill records copies, and completes nothing. -/
def Reaffirms (copies : Copies) : WorkCall → Prop
  | .record message => copies message.chainKey message.messageId message
  | .pending .. => True
  | .complete .. => False

/-- A refill under way keeps to the copies. -/
structure Refilling (copies : Copies) (q : WorkProg (State × Except Error (List DeliveryJob))) :
    Prop where
  asks : asks copiesEnv Reaffirms q copies
  loads : wp copiesEnv q copies fun copies' r =>
    r.1.Every (RouteState.Within copies') ∧ r.1.Every RouteState.Keyed

theorem RouteState.Within.mono {copies copies' : Copies} {chainKey : ChainKey} {route : RouteState}
    (h : route.Within copies chainKey)
    (hc : ∀ chainKey id message, copies chainKey id message → copies' chainKey id message) :
    route.Within copies' chainKey := fun id slot hs => hc _ _ _ (h id slot hs)

theorem State.Every.within_mono {copies copies' : Copies} {s : State}
    (h : s.Every (RouteState.Within copies))
    (hc : ∀ chainKey id message, copies chainKey id message → copies' chainKey id message) :
    s.Every (RouteState.Within copies') := fun chainKey route hr => (h chainKey route hr).mono hc

theorem Refilling.mono {copies copies' : Copies}
    {q : WorkProg (State × Except Error (List DeliveryJob))} (h : Refilling copies q)
    (hc : ∀ chainKey id message, copies chainKey id message → copies' chainKey id message) :
    Refilling copies' q := by
  have hgrow : ∀ (copies copies₁ : Copies) (c : WorkCall) (a : c.Answer) (copies₂ : Copies),
      (∀ chainKey id message, copies chainKey id message → copies₁ chainKey id message) →
      copiesEnv copies₁ c a copies₂ → copiesEnv copies c a copies₂ :=
    fun _ _ c a _ hc ha => ⟨fun _ _ _ hm => ha.1 _ _ _ (hc _ _ _ hm), ha.2⟩
  refine ⟨asks_grow hgrow (fun copies copies' c hc hr => ?_) hc h.asks,
    wp_grow hgrow (fun _ _ _ hc hr => ⟨hr.1.within_mono hc, hr.2⟩) hc h.loads⟩
  cases c with
  | record => exact hc _ _ _ hr
  | pending => trivial
  | complete => exact hr.elim

theorem State.noteEach_within {copies : Copies} (clock : B256 → Instant × Instant) (ms : List IndexedMessage)
    (hm : ∀ m ∈ ms, copies m.chainKey m.messageId m) : ∀ s : State,
      s.Every (RouteState.Within copies) →
      (s.noteEach clock ms).1.Every (RouteState.Within copies) := by
  induction ms with
  | nil => exact fun _ h => h
  | cons m ms ih =>
    intro s h
    refine ih (fun m' hm' => hm m' (List.mem_cons_of_mem _ hm')) _ (h.onRoute _ _ _ ?_)
    intro route hw id slot' hs
    rcases RouteState.noteIndexed_slots _ _ _ _ _ hs with ⟨slot, hg, hh⟩ | ⟨-, rfl, ha⟩
    · rw [hh.indexed]
      exact hw id slot hg
    · rw [ha.indexed]
      exact hm m List.mem_cons_self

/-- Slots are recorded with what they have. -/
theorem RouteState.reaffirm_refilling {chainKey : ChainKey} {route : RouteState}
    (hk : route.Keyed chainKey) (ids : List B256) : ∀ copies : Copies,
      route.Within copies chainKey →
      asks copiesEnv Reaffirms (route.reaffirm ids) copies ∧
        wp copiesEnv (route.reaffirm ids) copies fun copies' _ => ∀ chainKey id message,
          copies chainKey id message → copies' chainKey id message := by
  induction ids with
  | nil => exact fun _ _ => ⟨trivial, fun _ _ _ => id⟩
  | cons id ids ih =>
    intro copies h
    unfold reaffirm
    split
    · exact ih copies h
    · rename_i slot hs
      have hrest : ∀ (a : Except Error Unit) (copies' : Copies),
          copiesEnv copies (.record slot.indexed) a copies' → _ := fun a copies' ha =>
        ih copies' (h.mono ha.1)
      obtain ⟨hc, hi⟩ := hk id slot hs
      have hr : Reaffirms copies (.record slot.indexed) := by
        show copies slot.indexed.chainKey slot.indexed.messageId slot.indexed
        rw [hc, hi]
        exact h id slot hs
      refine ⟨asks_bind ⟨hr, fun _ _ _ => trivial⟩ ?_, ?_⟩
      · rw [wp_workRecord]
        intro a copies' ha
        cases a with
        | error => trivial
        | ok => exact (hrest _ _ ha).1
      · rw [wp_bind, wp_workRecord]
        intro a copies' ha
        cases a with
        | error => exact ha.1
        | ok => exact wp_mono (hrest _ _ ha).2 fun _ _ hg _ _ _ hm => hg _ _ _ (ha.1 _ _ _ hm)

theorem State.refillRoute_within {s : State} {copies : Copies} (hk : s.Every RouteState.Keyed)
    (h : s.Every (RouteState.Within copies)) (now : Instant) (clock : B256 → Instant × Instant)
    (chainKey : ChainKey) :
    asks copiesEnv Reaffirms (s.refillRoute now clock chainKey) copies ∧
      wp copiesEnv (s.refillRoute now clock chainKey) copies fun copies' r =>
        r.1.Every (RouteState.Within copies') := by
  unfold State.refillRoute
  split
  · exact ⟨trivial, h⟩
  · rename_i route hr
    have hroute := fun {copies' : Copies} hc ids =>
      RouteState.reaffirm_refilling (hk chainKey route hr) ids copies' ((h chainKey route hr).mono hc)
    constructor
    · refine asks_bind ⟨trivial, fun _ _ _ => trivial⟩ ?_
      rw [wp_workPending]
      intro a copies₁ ha
      cases a with
      | error => trivial
      | ok pending =>
        refine asks_bind (hroute ha.1 _).1 (wp_iff.mpr fun _ r _ => ?_)
        cases r <;> trivial
    · rw [wp_bind, wp_workPending]
      intro a copies₁ ha
      cases a with
      | error => exact h.within_mono ha.1
      | ok pending =>
        dsimp only
        rw [wp_bind]
        refine wp_mono (hroute ha.1 _).2 fun copies₂ r hg => ?_
        have h₂ : s.Every (RouteState.Within copies₂) :=
          h.within_mono fun chainKey id message hm => hg _ _ _ (ha.1 _ _ _ hm)
        cases r with
        | error => exact h₂
        | ok =>
          refine State.noteEach_within clock pending (fun m hm => ?_) _
            (h₂.onRoute _ _ _ fun route hw => hw.held (RouteState.rotate_held _ route))
          obtain ⟨e, hm⟩ := ha.2 m hm
          rw [e]
          exact hg _ _ _ hm

/-- A refill keeps to the copies in the pool and on disk. -/
theorem State.refillRoutes_refilling (now : Instant) (clock : B256 → Instant × Instant)
    (chainKeys : List ChainKey) : ∀ (s : State) (copies : Copies), s.Every RouteState.Keyed →
      s.Every (RouteState.Within copies) → Refilling copies (s.refillRoutes now clock chainKeys) := by
  induction chainKeys with
  | nil => exact fun s copies hk h => ⟨trivial, h, hk⟩
  | cons chainKey chainKeys ih =>
    intro s copies hk h
    obtain ⟨hasks, hloads⟩ := State.refillRoute_within hk h now clock chainKey
    have hkeyed : wp copiesEnv (s.refillRoute now clock chainKey) copies fun _ r =>
        r.1.Every RouteState.Keyed := hk.refillRoute copiesEnv
      (fun _ _ _ (hr : RouteTrans (fun _ _ => .error "") _ _ _ _) hk => hr.keyed hk) chainKey copies
    have hone := wp_and hloads hkeyed
    constructor
    · refine asks_bind hasks (wp_mono hone fun copies' r h' => ?_)
      obtain ⟨s', _ | jobs⟩ := r
      · trivial
      · exact asks_bind (ih s' copies' h'.2 h'.1).asks (wp_iff.mpr fun _ _ _ => trivial)
    · rw [State.refillRoutes, wp_bind]
      refine wp_mono hone fun copies' r h' => ?_
      obtain ⟨s', _ | jobs⟩ := r
      · exact h'
      · dsimp only
        rw [wp_bind]
        exact wp_mono (ih s' copies' h'.2 h'.1).loads fun _ _ h => h

/-! ## The invariant -/

/-- The copies in the pool and on disk. -/
def RelayProcess.Kept (p : RelayProcess) (d : Disk) : Copies := fun chainKey id message =>
  d.records chainKey id = some message ∨ p.pool.Carries chainKey id message

/-- What a process keeps, besides its copies. -/
structure RelayProcess.Ok (p : RelayProcess) (d : Disk) : Prop where
  keyed : p.pool.Every RouteState.Keyed
  polls : ∀ (chainKey : ChainKey) (q : SourceProg (Except Error Unit)), p.polls chainKey = some q →
    ∃ last, asks lastRecorded SendsRecorded q last
  refilling : ∀ q, p.task = .refilling q → Refilling (p.Kept d) q

/-- All copies of a message have the same content. -/
structure Settled (s : Relay) : Prop where
  agree : ∀ chainKey id message message', s.Copy chainKey id message →
    s.Copy chainKey id message' → message = message'
  process : ∀ p, s.process = some p → p.Ok s.disk

section
variable {s t : Relay} {d d' : Disk} {p : RelayProcess}

theorem RelayProcess.Kept.copy {chainKey : ChainKey} {id : B256} {message : IndexedMessage}
    (h : p.Kept d chainKey id message) : Relay.Copy ⟨d, some p⟩ chainKey id message :=
  h.elim (fun hd => .disk hd) fun hs => .slot rfl hs

/-- Where nothing new is copied, and the process keeps the rest. -/
theorem Settled.of_copies (h : Settled s)
    (hc : ∀ chainKey id message, t.Copy chainKey id message → s.Copy chainKey id message)
    (hp : ∀ p, t.process = some p → p.Ok t.disk) : Settled t :=
  ⟨fun _ _ _ _ hm hm' => h.agree _ _ _ _ (hc _ _ _ hm) (hc _ _ _ hm'), hp⟩

/-- Where one message is new, with the content of its copies. -/
theorem Settled.of_found {message : IndexedMessage} (h : Settled s)
    (hn : ∀ message', s.Copy message.chainKey message.messageId message' → message' = message)
    (hc : ∀ chainKey id m, t.Copy chainKey id m → s.Copy chainKey id m ∨
      chainKey = message.chainKey ∧ id = message.messageId ∧ m = message)
    (hp : ∀ p, t.process = some p → p.Ok t.disk) : Settled t := by
  refine ⟨fun chainKey id m m' hm hm' => ?_, hp⟩
  rcases hc _ _ _ hm with hm | ⟨rfl, rfl, rfl⟩
  · rcases hc _ _ _ hm' with hm' | ⟨rfl, rfl, rfl⟩
    · exact h.agree _ _ _ _ hm hm'
    · exact hn m hm
  · rcases hc _ _ _ hm' with hm' | ⟨-, -, rfl⟩
    · exact (hn m' hm').symm
    · rfl

/-- Only the disk has copies when the process is gone. -/
theorem Relay.Copy.gone {chainKey : ChainKey} {id : B256} {message : IndexedMessage}
    (h : Relay.Copy ⟨d, none⟩ chainKey id message) : d.records chainKey id = some message := by
  cases h with
  | disk h => exact h
  | sending hp | indexed hp | slot hp => cases hp

/-! ## A new poll -/

@[simp] theorem RelayProcess.withPoll_pool (chainKey : ChainKey)
    (q : Option (SourceProg (Except Error Unit))) : (p.withPoll chainKey q).pool = p.pool := rfl

@[simp] theorem RelayProcess.withPoll_indexed (chainKey : ChainKey)
    (q : Option (SourceProg (Except Error Unit))) :
    (p.withPoll chainKey q).indexed = p.indexed := rfl

theorem RelayProcess.Ok.withPoll (h : p.Ok d) {chainKey : ChainKey}
    {q : Option (SourceProg (Except Error Unit))}
    (hq : ∀ q', q = some q' → ∃ last, asks lastRecorded SendsRecorded q' last) :
    (p.withPoll chainKey q).Ok d := by
  refine ⟨h.keyed, fun c q' hq' => ?_, h.refilling⟩
  simp only [RelayProcess.withPoll] at hq'
  split at hq'
  · exact hq q' hq'
  · exact h.polls c q' hq'

/-- The copies once a poll went on: those from before, but for one that it is about to send. -/
theorem Relay.Copy.of_withPoll {chainKey a : ChainKey} {q : Option (SourceProg (Except Error Unit))}
    {id : B256} {message : IndexedMessage}
    (h : Relay.Copy ⟨d, some (p.withPoll a q)⟩ chainKey id message) :
    Relay.Copy ⟨d, some p⟩ chainKey id message ∨
      (∃ k, q = some (.ask (.send message) k)) ∧ message.chainKey = chainKey ∧
        message.messageId = id := by
  cases h with
  | disk h => exact .inl (.disk h)
  | sending hp hq hm =>
    cases hp
    simp only [RelayProcess.withPoll] at hq
    split at hq
    · exact .inr ⟨⟨_, hq⟩, hm⟩
    · exact .inl (.sending rfl hq hm)
  | indexed hp hi hm =>
    cases hp
    exact .inl (.indexed rfl hi hm)
  | slot hp hs =>
    cases hp
    exact .inl (.slot rfl hs)

/-- A poll that has not recorded anything last sends nothing. -/
theorem not_sending {q : SourceProg (Except Error Unit)} {message : IndexedMessage}
    {k : (SourceCall.send message).Answer → SourceProg (Except Error Unit)}
    (h : asks lastRecorded SendsRecorded q none) : q ≠ .ask (.send message) k := by
  rintro rfl
  have hs := h.1 message rfl
  cases hs

/-- A poll went on that has not recorded anything last. -/
theorem Settled.withPoll {chainKey : ChainKey} {q : Option (SourceProg (Except Error Unit))}
    (h : Settled ⟨d, some p⟩) (hq : ∀ q', q = some q' → asks lastRecorded SendsRecorded q' none) :
    Settled ⟨d, some (p.withPoll chainKey q)⟩ := by
  refine h.of_copies (fun chainKey id message hc => ?_) fun p' hp => ?_
  · rcases hc.of_withPoll with hc | ⟨⟨k, rfl⟩, -⟩
    · exact hc
    · exact absurd rfl (not_sending (hq _ rfl))
  · cases hp
    exact (h.process p rfl).withPoll fun q' e => ⟨none, hq q' e⟩

/-- After another answer than that of a record, a poll has recorded nothing last. -/
theorem RelayProcess.Ok.answered (h : p.Ok d) {chainKey : ChainKey} {c : SourceCall}
    {k : c.Answer → SourceProg (Except Error Unit)} (hq : p.polls chainKey = some (.ask c k))
    (a : c.Answer) (hc : ∀ message, c ≠ .record message) : asks lastRecorded SendsRecorded (k a) none := by
  obtain ⟨last, hs⟩ := h.polls chainKey _ hq
  refine hs.2 a none ?_
  cases c with
  | record message => exact absurd rfl (hc message)
  | _ => rfl

/-! ## A step of the pool -/

/-- The pool went on, and carries only copies. -/
theorem Settled.pool {p' : RelayProcess} (h : Settled ⟨d, some p⟩)
    (hd : ∀ chainKey id message, d'.records chainKey id = some message →
      Relay.Copy ⟨d, some p⟩ chainKey id message)
    (hq : p'.polls = p.polls) (hi : p'.indexed ⊆ p.indexed)
    (hc : ∀ chainKey id message, p'.pool.Carries chainKey id message →
      Relay.Copy ⟨d, some p⟩ chainKey id message)
    (hk : p'.pool.Every RouteState.Keyed)
    (ht : ∀ q, p'.task = .refilling q → Refilling (p'.Kept d') q) : Settled ⟨d', some p'⟩ := by
  refine h.of_copies (fun chainKey id message hm => ?_) fun p₁ hp => ?_
  · cases hm with
    | disk h => exact hd _ _ _ h
    | sending hp hs hm =>
      cases hp
      exact .sending rfl (hq ▸ hs) hm
    | indexed hp hm' hm =>
      cases hp
      exact .indexed rfl (hi hm') hm
    | slot hp hs =>
      cases hp
      exact hc _ _ _ hs
  · cases hp
    exact ⟨hk, hq ▸ (h.process p rfl).polls, ht⟩

/-- An operation of the pool that admits only what comes from the channel. -/
theorem Settled.operation (h : Settled ⟨d, some p⟩) (ecrecover : Ecrecover) (op : PoolOp)
    {p' : RelayProcess} (ho : ∀ now clock, op ≠ .refill now clock)
    (ha : ∀ message insertedAt, op.Admits message insertedAt → message ∈ p.indexed)
    (hd : ∀ chainKey id message, d'.records chainKey id = some message →
      d.records chainKey id = some message)
    (hq : p'.polls = p.polls) (hi : p'.indexed ⊆ p.indexed)
    (hp : p'.pool = (op.apply ecrecover p.pool).1) (ht : p'.task = .idle) :
    Settled ⟨d', some p'⟩ := by
  have hstep : PoolStep ecrecover p.pool (op, (op.apply ecrecover p.pool).2) p'.pool :=
    hp ▸ .apply ho
  refine h.pool (fun _ _ _ hr => .disk (hd _ _ _ hr)) hq hi (fun chainKey id message hm => ?_)
    (hstep.keyed (h.process p rfl).keyed) fun q e => ?_
  · rcases hstep.carries hm with hm | ⟨hc, hi, insertedAt, ha'⟩
    · exact .slot rfl hm
    · exact .indexed rfl (ha _ _ ha') ⟨hc, hi⟩
  · rw [ht] at e
    cases e

/-- What a call of a refill leaves on disk are copies. -/
theorem Reaffirms.writes {c : WorkCall} (hr : Reaffirms (p.Kept d) c) (hw : c.Writes d d')
    {chainKey : ChainKey} {id : B256} :
    d'.records chainKey id = d.records chainKey id ∨ ∃ message,
      d'.records chainKey id = some message ∧ Relay.Copy ⟨d, some p⟩ chainKey id message := by
  rcases hw chainKey id with e | ⟨message, rfl, rfl, rfl, e⟩
  · exact .inl e
  · exact .inr ⟨message, e, hr.copy⟩

theorem Reaffirms.incomplete {copies : Copies} {c : WorkCall} (h : Reaffirms copies c)
    (chainKey : ChainKey) (id : B256) : c ≠ .complete chainKey id := by
  rintro rfl
  exact h

/-- A call of a refill. -/
theorem Settled.refillAsk {c : WorkCall} {a : c.Answer} {readers : Readers}
    {k : c.Answer → WorkProg (State × Except Error (List DeliveryJob))}
    (h : Settled ⟨d, some p⟩) (ht : p.task = .refilling (.ask c k))
    (hs : storeEnv (trueDisk none) (p.readers, d) c a (readers, d')) :
    Settled ⟨d', some { p with readers, task := .refilling (k a) }⟩ := by
  have hq := (h.process p rfl).refilling _ ht
  have hw : c.Writes d d' := storeEnv_writes (storeEnv_trueDisk hs) hq.asks.1.incomplete
  -- a record that a refill writes is the one that was there
  have hgrow : ∀ chainKey id message, d.records chainKey id = some message →
      d'.records chainKey id = some message := by
    intro chainKey id message hm
    rcases hq.asks.1.writes hw with e | ⟨message', e, hc⟩
    · rw [e, hm]
    · rw [e, h.agree chainKey id message message' (.disk hm) hc]
  have hkept : ∀ chainKey id message, p.Kept d chainKey id message →
      p.Kept d' chainKey id message := fun _ _ _ hm => hm.imp_left (hgrow _ _ _)
  have henv : copiesEnv (p.Kept d) c a (p.Kept d') := by
    refine ⟨hkept, ?_⟩
    cases c with
    | record | complete => trivial
    | pending chainKey loaded limit =>
      cases a with
      | error => trivial
      | ok ms =>
        exact fun m hm => ⟨(storeEnv_pending hs).route m hm, .inl (hgrow _ _ _ (storeEnv_shows hs m hm))⟩
  refine h.pool (fun chainKey id message hm => ?_) rfl (fun _ hm => hm) (fun _ _ _ hm => .slot rfl hm)
    (h.process p rfl).keyed fun q e => ?_
  · rcases hq.asks.1.writes hw with e | ⟨message', e, hc⟩
    · exact .disk (e ▸ hm)
    · rw [e, Option.some.injEq] at hm
      exact hm ▸ hc
  · cases e
    exact ⟨hq.asks.2 a _ henv, hq.loads a _ henv⟩

/-! ## A step of a watcher -/

/-- The record of a message with the content of its copies. -/
theorem record_grows {message : IndexedMessage}
    (hn : ∀ message', Relay.Copy ⟨d, some p⟩ message.chainKey message.messageId message' →
      message' = message) (hw : (WorkCall.record message).Writes d d') {chainKey : ChainKey}
    {id : B256} {m : IndexedMessage} (hm : d.records chainKey id = some m) :
    d'.records chainKey id = some m := by
  rcases hw chainKey id with e | ⟨message', e, rfl, rfl, hd⟩
  · rw [e, hm]
  · cases e
    rw [hd, hn m (.disk hm)]

theorem record_copies {message : IndexedMessage} (hw : (WorkCall.record message).Writes d d')
    {chainKey : ChainKey} {id : B256} {m : IndexedMessage} (hm : d'.records chainKey id = some m) :
    d.records chainKey id = some m ∨
      chainKey = message.chainKey ∧ id = message.messageId ∧ m = message := by
  rcases hw chainKey id with e | ⟨message', e, hc, hi, hd⟩
  · exact .inl (e ▸ hm)
  · cases e
    rw [hd, Option.some.injEq] at hm
    exact .inr ⟨hc, hi, hm.symm⟩

/-- A watcher recorded the message of a log. -/
theorem Settled.record {chainKey : ChainKey} {message : IndexedMessage}
    {k : (SourceCall.record message).Answer → SourceProg (Except Error Unit)}
    {a : (WorkCall.record message).Answer} {readers : Readers} (h : Settled ⟨d, some p⟩)
    (hn : ∀ message', Relay.Copy ⟨d, some p⟩ message.chainKey message.messageId message' →
      message' = message) (hq : p.polls chainKey = some (.ask (.record message) k))
    (hw : (WorkCall.record message).Writes d d') :
    Settled ⟨d', some ({ p with readers }.withPoll chainKey (some (k a)))⟩ := by
  have hok := h.process p rfl
  obtain ⟨last, hs⟩ := hok.polls chainKey _ hq
  -- what the poll sends next is the message, and only if it is recorded
  have hsends : ∃ last', asks lastRecorded SendsRecorded (k a) last' ∧
      ∀ m, last' = some m → m = message := by
    cases a with
    | error => exact ⟨none, hs.2 _ _ rfl, fun m e => by cases e⟩
    | ok => exact ⟨some message, hs.2 _ _ rfl, fun m e => (Option.some.inj e).symm⟩
  obtain ⟨last', hk, hlast⟩ := hsends
  refine h.of_found hn (fun chainKey' id m hm => ?_) fun p' hp => ?_
  · rcases hm.of_withPoll with hm | ⟨⟨k', e⟩, hkey⟩
    · cases hm with
      | disk hd => exact (record_copies hw hd).imp_left fun hd => .disk hd
      | sending hp hs hm =>
        cases hp
        exact .inl (.sending rfl hs hm)
      | indexed hp hi hm =>
        cases hp
        exact .inl (.indexed rfl hi hm)
      | slot hp hs =>
        cases hp
        exact .inl (.slot rfl hs)
    · rw [Option.some.inj e] at hk
      obtain rfl := hlast m (hk.1 m rfl)
      exact .inr ⟨hkey.1.symm, hkey.2.symm, rfl⟩
  · cases hp
    have hok' : RelayProcess.Ok { p with readers } d' := ⟨hok.keyed, hok.polls, fun q e =>
      (hok.refilling q e).mono fun _ _ _ hm => hm.imp_left (record_grows hn hw)⟩
    exact hok'.withPoll fun q' e => ⟨last', Option.some.inj e ▸ hk⟩

/-- A message went into the channel. -/
theorem Settled.send {chainKey : ChainKey} {message : IndexedMessage}
    {k : (SourceCall.send message).Answer → SourceProg (Except Error Unit)}
    (h : Settled ⟨d, some p⟩) (hq : p.polls chainKey = some (.ask (.send message) k)) :
    Settled ⟨d, some ({ p with indexed := p.indexed ++ [message] }.withPoll chainKey
      (some (k .sent)))⟩ := by
  have hok := h.process p rfl
  have hk := hok.answered hq .sent nofun
  refine h.of_copies (fun chainKey' id m hm => ?_) fun p' hp => ?_
  · rcases hm.of_withPoll with hm | ⟨⟨k', e⟩, -⟩
    · cases hm with
      | disk hd => exact .disk hd
      | sending hp hs hm =>
        cases hp
        exact .sending rfl hs hm
      | indexed hp hi hm =>
        cases hp
        rcases List.mem_append.mp hi with hi | hi
        · exact .indexed rfl hi hm
        · rw [List.mem_singleton.mp hi] at hm ⊢
          exact .sending rfl hq hm
      | slot hp hs =>
        cases hp
        exact .slot rfl hs
    · exact absurd (Option.some.inj e) (not_sending hk)
  · cases hp
    have hok' : RelayProcess.Ok { p with indexed := p.indexed ++ [message] } d :=
      ⟨hok.keyed, hok.polls, hok.refilling⟩
    exact hok'.withPoll fun q' e => ⟨none, Option.some.inj e ▸ hk⟩

end

/-! ## Runs -/

section
variable {ecrecover : Ecrecover} {codec : SourceCodec} {chain : SourceChain codec} {s t : Relay}
  {e : RelayEvent}

theorem Settled.start (d : Disk) : Settled ⟨d, none⟩ := by
  refine ⟨fun chainKey id m m' hm hm' => ?_, fun p hp => by cases hp⟩
  have hd := hm.gone.symm.trans hm'.gone
  exact Option.some.inj hd

theorem new_carries {routes : List RouteAttestors} {cache : VoteCacheConfig} {chainKey : ChainKey}
    {id : B256} {message : IndexedMessage} :
    ¬ (State.new routes cache).Carries chainKey id message := by
  have hnone : (State.new routes cache).Every (RouteState.Within fun _ _ _ => False) :=
    State.new_every routes cache fun _ id slot hs => by simp at hs
  exact State.within_iff.mp hnone chainKey id message

theorem Settled.boot {d : Disk} (h : Settled ⟨d, none⟩) (routes : List RouteAttestors)
    (cache : VoteCacheConfig) : Settled ⟨d, some (.start routes cache)⟩ := by
  refine h.of_copies (fun chainKey id message hm => ?_) fun p hp => ?_
  · cases hm with
    | disk hd => exact .disk hd
    | sending hp hs hm =>
      cases hp
      cases hs
    | indexed hp hi hm =>
      cases hp
      exact absurd hi List.not_mem_nil
    | slot hp hs =>
      cases hp
      exact absurd hs new_carries
  · cases hp
    exact ⟨State.new_keyed routes cache, (fun _ _ e => by cases e), (fun _ e => by cases e)⟩

theorem AgreeingStep.settled (hs : AgreeingStep ecrecover codec chain s e t) (h : Settled s) :
    Settled t := by
  obtain ⟨hs, ha⟩ := hs
  cases hs with
  | boot routes cache => exact h.boot routes cache
  | crash => exact h.of_copies (fun _ _ _ hm => .disk hm.gone) (fun _ e => by cases e)
  | poll source policy finality lastSeen hq =>
    exact h.withPoll fun q' e => Option.some.inj e ▸ asks_pollOnce_last _ _ _ _
  | ask a hq hc hs =>
    have hk := (h.process _ rfl).answered hq a fun message e => by
      subst e
      cases hc
    exact h.withPoll fun q' e => Option.some.inj e ▸ hk
  | record hq hx => exact h.record ha hq (storeEnv_writes (storeEnv_trueDisk hx) nofun)
  | recordCut hq hx =>
    have hw := WorkCall.cut_writes (c := .record _) (cut_trueDisk hx) nofun
    refine h.of_found ha (fun _ _ _ hm => ?_) (fun _ e => by cases e)
    exact (record_copies hw hm.gone).imp_left fun hd => .disk hd
  | send hq => exact h.send hq
  | unsent a hq =>
    have hk := (h.process _ rfl).answered hq a nofun
    exact h.withPoll fun q' e => Option.some.inj e ▸ hk
  | polled => exact h.withPoll fun q' e => by cases e
  | index insertedAt now ht hi =>
    refine h.operation ecrecover (.noteIndexed _ insertedAt now) nofun (fun m at' hm => ?_)
      (fun _ _ _ hd => hd) rfl (hi ▸ List.subset_cons_self _ _) rfl ht
    cases hm
    exact hi ▸ List.mem_cons_self
  | full ht hi =>
    exact h.pool (fun _ _ _ hd => .disk hd) rfl (hi ▸ List.subset_cons_self _ _)
      (fun _ _ _ hm => .slot rfl hm) (h.process _ rfl).keyed fun q e => by rw [ht] at e; cases e
  | operate op ht ho =>
    refine h.operation ecrecover op (fun now clock e => ?_) (fun m at' hm => ?_) (fun _ _ _ hd => hd)
      rfl (fun _ hm => hm) rfl ht
    · rw [e] at ho
      cases ho
    · cases hm <;> cases ho
  | complete result ht =>
    exact h.pool (fun _ _ _ hd => .disk hd) rfl (fun _ hm => hm) (fun _ _ _ hm => .slot rfl hm)
      (h.process _ rfl).keyed fun q e => by cases e
  | @completed d d' p result readers now later wall ht hx =>
    refine h.operation ecrecover (.noteDeliveryResult result now later wall) nofun
      (fun m at' hm => by cases hm) (fun chainKey id m hd => ?_) rfl (fun _ hm => hm) rfl rfl
    rcases complete_removes (Exec.cut (storeEnv_trueDisk hx)) chainKey id with e | ⟨-, -, e⟩
    · exact e ▸ hd
    · rw [e] at hd
      cases hd
  | completeCut ht hx =>
    refine h.of_copies (fun chainKey id m hm => ?_) (fun _ e => by cases e)
    rcases complete_removes (cut_trueDisk hx) chainKey id with e | ⟨-, -, e⟩
    · exact .disk (e ▸ hm.gone)
    · rw [hm.gone] at e
      cases e
  | @refill d p now clock ht =>
    refine h.pool (fun _ _ _ hd => .disk hd) rfl (fun _ hm => hm) (fun _ _ _ hm => .slot rfl hm)
      (h.process _ rfl).keyed fun q e => ?_
    cases e
    exact State.refillRoutes_refilling now clock _ _ _ (h.process _ rfl).keyed
      (State.within_iff.mpr fun _ _ _ hm => .inr hm)
  | refillAsk ht hx => exact h.refillAsk ht hx
  | @refillCut d d' p c k ht hx =>
    have hq := (h.process _ rfl).refilling _ ht
    have hw : c.Writes d d' :=
      WorkCall.cut_writes (cut_trueDisk hx) hq.asks.1.incomplete
    refine h.of_copies (fun chainKey id m hm => ?_) (fun _ e => by cases e)
    rcases hq.asks.1.writes hw with e | ⟨message, e, hc⟩
    · exact .disk (e ▸ hm.gone)
    · rw [hm.gone, Option.some.injEq] at e
      exact e ▸ hc
  | refilled ht =>
    have hq := ((h.process _ rfl).refilling _ ht).loads
    exact h.pool (fun _ _ _ hd => .disk hd) rfl (fun _ hm => hm)
      (fun chainKey id m hm => (State.within_iff.mp hq.1 chainKey id m hm).copy) hq.2
      fun q e => by cases e

/-- A step leaves the record of a message as it is, unless it completes the message. -/
theorem AgreeingStep.record_kept (hs : AgreeingStep ecrecover codec chain s e t) (h : Settled s)
    {chainKey : ChainKey} {id : B256} {m : IndexedMessage}
    (hm : s.disk.records chainKey id = some m) (hc : e ≠ .completing chainKey id) :
    t.disk.records chainKey id = some m := by
  obtain ⟨hs, ha⟩ := hs
  cases hs with
  | record hq hx => exact record_grows ha (storeEnv_writes (storeEnv_trueDisk hx) nofun) hm
  | recordCut hq hx =>
    exact record_grows ha (WorkCall.cut_writes (c := .record _) (cut_trueDisk hx) nofun) hm
  | completed now later wall ht hx =>
    rcases complete_removes (Exec.cut (storeEnv_trueDisk hx)) chainKey id with e | ⟨e₁, e₂, -⟩
    · exact e.trans hm
    · exact absurd (e₁ ▸ e₂ ▸ rfl) hc
  | completeCut ht hx =>
    rcases complete_removes (cut_trueDisk hx) chainKey id with e | ⟨e₁, e₂, -⟩
    · exact e.trans hm
    · exact absurd (e₁ ▸ e₂ ▸ rfl) hc
  | @refillAsk d d' p c k a readers ht hx =>
    have hq := ((h.process _ rfl).refilling _ ht).asks.1
    rcases hq.writes (storeEnv_writes (storeEnv_trueDisk hx) hq.incomplete) with e | ⟨m', e, hc⟩
    · exact e.trans hm
    · exact h.agree _ _ _ _ (.disk hm) hc ▸ e
  | @refillCut d d' p c k ht hx =>
    have hq := ((h.process _ rfl).refilling _ ht).asks.1
    rcases hq.writes (WorkCall.cut_writes (cut_trueDisk hx) hq.incomplete) with e | ⟨m', e, hc⟩
    · exact e.trans hm
    · exact h.agree _ _ _ _ (.disk hm) hc ▸ e
  | _ => exact hm

/-- While every log that is found has the content of the copies of its message, a record stays as it
is until its message is completed, over crashes and restarts; and what the pool has of the message
is that record. -/
theorem record_stable {d : Disk} {l l' : List RelayEvent}
    (hr : Run (AgreeingStep ecrecover codec chain) ⟨d, none⟩ l s)
    (hr' : Run (AgreeingStep ecrecover codec chain) s l' t) {chainKey : ChainKey} {id : B256}
    {m : IndexedMessage} (hm : s.disk.records chainKey id = some m)
    (hc : RelayEvent.completing chainKey id ∉ l') :
    t.disk.records chainKey id = some m ∧
      ∀ p, t.process = some p → ∀ m', p.pool.Carries chainKey id m' → m' = m := by
  have hs : Settled s := hr.inv (fun _ _ _ => AgreeingStep.settled) (.start d)
  obtain ⟨ht, hkept⟩ : Settled t ∧ (RelayEvent.completing chainKey id ∉ l' →
      t.disk.records chainKey id = some m) := by
    refine hr'.hist (I := fun l' t => Settled t ∧ (RelayEvent.completing chainKey id ∉ l' →
      t.disk.records chainKey id = some m)) (fun l s e t he h => ⟨he.settled h.1, fun hn => ?_⟩)
      ⟨hs, fun _ => hm⟩
    simp only [List.mem_append, List.mem_singleton, not_or] at hn
    exact he.record_kept h.1 (h.2 hn.1) (Ne.symm hn.2)
  have hrecord := hkept hc
  exact ⟨hrecord, fun p hp m' hm' => ht.agree chainKey id m' m (.slot hp hm') (.disk hrecord)⟩

end

/-! ## Two logs of one message -/

/-- A codec to which every log publishes its data, as the message 7. -/
def twoLogCodec : SourceCodec :=
  { demoCodec with decodePublished := fun log => .ok ⟨7, 0, 1, log.data⟩ }

def firstLog : Log := ⟨5, [1], [1], some 1, some 11, some 12, false⟩
def secondLog : Log := ⟨5, [1], [2], some 1, some 11, some 13, false⟩

/-- A chain whose publications are both logs, of an Outbox that is authorized. -/
def twoLogChain : SourceChain twoLogCodec where
  published := fun log => log = firstLog ∨ log = secondLog
  topic := fun _ h => by rcases h with rfl | rfl <;> rfl
  discovery := fun _ _ => word 9 ++ word 1
  membership := fun _ _ _ _ => word 1

def firstMessage : IndexedMessage := indexedMessage demoSource firstLog 1 ⟨7, 0, 1, [1]⟩ 12
def secondMessage : IndexedMessage := indexedMessage demoSource secondLog 1 ⟨7, 0, 1, [2]⟩ 13

abbrev TwoLogStep := AgreeingStep (fun _ _ => .ok 9) twoLogCodec twoLogChain

/-- Files that take every write; `existed` tells whether the record did. -/
def plainFiles (existed : Bool) (d : Disk) (c : FsCall) : c.Answer × Disk :=
  (match c with
    | .tryExists .. => .ok existed
    | .readDir _ => .ok []
    | .read .. => .error .notFound
    | .createDir _ | .createDirAll _ | .writeTmp .. | .rename .. | .syncDir _ | .removeFile .. =>
      .ok (), d.done none c)

theorem trueDisk_plainFiles (existed : Bool) (d : Disk) (c : FsCall) :
    trueDisk none d c (plainFiles existed d c).1 (plainFiles existed d c).2 := by
  cases c with
  | read => exact ⟨.inl rfl, trivial⟩
  | _ => exact ⟨rfl, trivial⟩

/-- The cursors and the disk after a record that these files took. -/
def recordedStore (existed : Bool) (w : Readers × Disk) (message : IndexedMessage) : Readers × Disk :=
  let r := ((WorkCall.body (.record message)).run.run w.1).run (plainFiles existed) w.2
  (r.2.2, r.1)

theorem storeEnv_recordedStore (existed : Bool) (w : Readers × Disk) (message : IndexedMessage) :
    storeEnv (trueDisk none) w (.record message) (.ok ()) (recordedStore existed w message) := by
  cases existed <;>
    exact exec_run (trueDisk_plainFiles _) ((WorkCall.body (.record message)).run.run w.1) w.2

def firstStore : Readers × Disk := recordedStore false (∅, demoDisk) firstMessage

section
variable {d : Disk} {p : RelayProcess} {chainKey : ChainKey}

theorem RelayProcess.withPoll_withPoll (q q' : Option (SourceProg (Except Error Unit))) :
    (p.withPoll chainKey q).withPoll chainKey q' = p.withPoll chainKey q' := by
  simp only [RelayProcess.withPoll]
  congr
  funext c
  split <;> rfl

theorem RelayProcess.withPoll_polls (q : Option (SourceProg (Except Error Unit))) :
    (p.withPoll chainKey q).polls chainKey = q := if_pos rfl

variable {l : List RelayEvent}

/-- A poll goes on. -/
theorem Run.twoLog_ask {c : SourceCall} {k : c.Answer → SourceProg (Except Error Unit)}
    (h : Run TwoLogStep ⟨demoDisk, none⟩ l ⟨d, some (p.withPoll chainKey (some (.ask c k)))⟩)
    (a : c.Answer) (hc : c.shared = false) (hs : ∀ message, c ≠ .send message)
    (ha : twoLogChain.Answers c a) : Run TwoLogStep ⟨demoDisk, none⟩ (l ++ [.internal])
      ⟨d, some (p.withPoll chainKey (some (k a)))⟩ := by
  refine h.snoc ⟨?_, trivial⟩
  rw [← RelayProcess.withPoll_withPoll (some (.ask c k)) (some (k a))]
  exact .ask a (RelayProcess.withPoll_polls _) hc hs ha

theorem twoLog_record {message : IndexedMessage} {readers : Readers} {d' : Disk}
    {k : (SourceCall.record message).Answer → SourceProg (Except Error Unit)}
    (h : storeEnv (trueDisk none) (p.readers, d) (.record message) (.ok ()) (readers, d')) :
    RelayStep (fun _ _ => .ok 9) twoLogCodec twoLogChain
      ⟨d, some (p.withPoll chainKey (some (.ask (.record message) k)))⟩ (.found message)
      ⟨d', some ({ p with readers }.withPoll chainKey (some (k (.ok ()))))⟩ := by
  rw [← RelayProcess.withPoll_withPoll (some (.ask (.record message) k)) (some (k (.ok ())))]
  exact .record (RelayProcess.withPoll_polls _) h

theorem Run.twoLog_send {message : IndexedMessage}
    {k : (SourceCall.send message).Answer → SourceProg (Except Error Unit)}
    (h : Run TwoLogStep ⟨demoDisk, none⟩ l
      ⟨d, some (p.withPoll chainKey (some (.ask (.send message) k)))⟩) :
    Run TwoLogStep ⟨demoDisk, none⟩ (l ++ [.internal])
      ⟨d, some ({ p with indexed := p.indexed ++ [message] }.withPoll chainKey
        (some (k .sent)))⟩ := by
  refine h.snoc ⟨?_, trivial⟩
  rw [← RelayProcess.withPoll_withPoll (some (.ask (.send message) k)) (some (k .sent))]
  exact .send (RelayProcess.withPoll_polls _)

end

/-- Nothing has a copy of a message when the first log is found. -/
theorem twoLog_fresh {k : (SourceCall.record firstMessage).Answer → SourceProg (Except Error Unit)}
    {message : IndexedMessage} : ¬ Relay.Copy ⟨demoDisk, some ((RelayProcess.start [sampleRoute]
      sampleCache).withPoll 2 (some (.ask (.record firstMessage) k)))⟩ 2 7 message := by
  intro h
  rcases h.of_withPoll with h | ⟨⟨k', e⟩, -⟩
  · cases h with
    | disk hd => cases hd
    | sending hp hq hm =>
      cases hp
      cases hq
    | indexed hp hi hm =>
      cases hp
      exact absurd hi List.not_mem_nil
    | slot hp hs =>
      cases hp
      exact new_carries hs
  · cases e

/-- The process once the first message is sent, in a poll with `q` left. -/
def sentFirst (q : SourceProg (Except Error Unit)) : RelayProcess :=
  { RelayProcess.start [sampleRoute] sampleCache with
    readers := firstStore.1, indexed := [firstMessage] }.withPoll 2 (some q)

/-- The relayer has found the first log and has the second one next. -/
theorem twoLog_first : ∃ l k, Run TwoLogStep ⟨demoDisk, none⟩ l
    ⟨firstStore.2, some (sentFirst (.ask (.record secondMessage) k))⟩ := by
  have hboot : Run TwoLogStep ⟨demoDisk, none⟩ [.internal]
      ⟨demoDisk, some (.start [sampleRoute] sampleCache)⟩ := .single ⟨.boot _ _, trivial⟩
  have hpoll := hboot.snoc ⟨.poll demoSource .finalized (.new 0) 0 rfl, trivial⟩
  have hhead := Run.twoLog_ask hpoll (.done (some demoHead)) rfl (fun _ e => by cases e) trivial
  have hnow := Run.twoLog_ask hhead (0 : Nat) rfl (fun _ e => by cases e) trivial
  have hset := Run.twoLog_ask hnow () rfl (fun _ e => by cases e) trivial
  have hlogs := Run.twoLog_ask hset (.done [firstLog, secondLog]) rfl (fun _ e => by cases e) (by
    rintro log block (rfl | rfl) _ _ _ _ <;> simp)
  have hdiscovery := Run.twoLog_ask hlogs (.done (word 9 ++ word 1)) rfl (fun _ e => by cases e) rfl
  have hmember := Run.twoLog_ask hdiscovery (.done (word 1)) rfl (fun _ e => by cases e) rfl
  have hrecord := hmember.snoc ⟨twoLog_record (storeEnv_recordedStore false _ firstMessage),
    fun m' hm => absurd hm twoLog_fresh⟩
  exact ⟨_, _, Run.twoLog_send hrecord⟩

/-- The pool with the first message. -/
def firstPool : State :=
  (PoolOp.apply (fun _ _ => .ok 9) (.new [sampleRoute] sampleCache) (.noteIndexed firstMessage 1 1)).1

/-- The process once the pool has it. -/
def indexedFirst (q : SourceProg (Except Error Unit)) : RelayProcess :=
  { RelayProcess.start [sampleRoute] sampleCache with
    readers := firstStore.1, pool := firstPool }.withPoll 2 (some q)

theorem twoLog_index (q : SourceProg (Except Error Unit)) :
    TwoLogStep ⟨firstStore.2, some (sentFirst q)⟩ .internal
      ⟨firstStore.2, some (indexedFirst q)⟩ := by
  have hroom : (sentFirst q).pool.canIndex firstMessage = true := by
    show (State.new [sampleRoute] sampleCache).canIndex firstMessage = true
    decide
  exact ⟨@RelayStep.index _ _ _ firstStore.2 (sentFirst q) firstMessage [] 1 1 rfl rfl hroom, trivial⟩

theorem record_stable_indexed : ∃ l s t, Run TwoLogStep ⟨demoDisk, none⟩ l s ∧
    Run TwoLogStep s [.internal] t ∧ s.disk.records 2 7 = some firstMessage ∧
    t.disk.records 2 7 = some firstMessage ∧
      ∀ p, t.process = some p → ∀ m', p.pool.Carries 2 7 m' → m' = firstMessage := by
  obtain ⟨l, k, hr⟩ := twoLog_first
  have hindex := Run.single (twoLog_index (.ask (.record secondMessage) k))
  have hfirst : firstStore.2.records 2 7 = some firstMessage := rfl
  exact ⟨l, _, _, hr, hindex, hfirst, record_stable hr hindex hfirst (by simp)⟩

/-- The second log of a message replaces its record, while the pool keeps the first. -/
theorem record_replaced : ∃ l s t,
    Run (RelayStep (fun _ _ => .ok 9) twoLogCodec twoLogChain) ⟨demoDisk, none⟩ l s ∧
    RelayStep (fun _ _ => .ok 9) twoLogCodec twoLogChain s (.found secondMessage) t ∧
    s.disk.records 2 7 = some firstMessage ∧ t.disk.records 2 7 = some secondMessage ∧
    firstMessage ≠ secondMessage ∧ ∃ p, t.process = some p ∧ p.pool.Carries 2 7 firstMessage := by
  obtain ⟨l, k, hr⟩ := twoLog_first
  have hindexed := (hr.snoc (twoLog_index _)).mono fun _ _ _ h => h.1
  have hcarries : (firstPool.byRoute[2]?.bind (·.byMessage[(7 : B256)]?)).map (·.indexed) =
      some firstMessage := by decide
  obtain ⟨slot, hs, hm⟩ := Option.map_eq_some_iff.mp hcarries
  obtain ⟨route, hr', hs⟩ := Option.bind_eq_some_iff.mp hs
  exact ⟨_, _, _, hindexed, twoLog_record (storeEnv_recordedStore true firstStore secondMessage),
    rfl, rfl, by decide, _, rfl, route, slot, hr', hs, hm⟩

end MessageRelayer

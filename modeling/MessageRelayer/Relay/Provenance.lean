import MessageRelayer.Relay.Fleet

/-!
# Where broadcasts come from

What the relayer hands to a node, from the logs of the sources on, over every
interleaving of its tasks, crashes and restarts. Everything that the relayer
holds is about published messages (`FleetOk`): the records, the channel, the
slots of the pool, the jobs. So a `deliverMessage` is always of a message that
an authorized Outbox published, with the votes of a quorum
(`delivery_provenance`), and a record goes only once a job found the delivery
or a final reason (`removal_evidenced`).
-/

namespace MessageRelayer

open Prog hiding ask

section
variable (config : FleetConfig) {codec : SourceCodec} (chain : SourceChain codec)
  (reported : Log → Prop) (watched : Watched)

/-! ## The invariant -/

/-- The published messages, each under its route and its id. -/
def GenuineCopy : Copies := fun chainKey id message =>
  Genuine chain reported watched message ∧ message.chainKey = chainKey ∧ message.messageId = id

/-- A job of the route, of a published message and with a quorum of a supplied set. -/
structure JobFor (chainKey : ChainKey) (job : DeliveryJob) : Prop where
  chainKey : job.chainKey = chainKey
  admissible : job.Admissible config.ecrecover (GenuineCopy chain reported watched) config.sets

/-- A worker within a job: what it asks from here on is checked, and what it returns is sound. -/
structure RunOk (chainKey : ChainKey) (run : JobRun) (rest : JobRest) : Prop where
  job : JobFor config chain reported watched chainKey run.job
  asks : asks heard (SendChecked config.inbox (config.routes chainKey) run.job config.delivery
    run.funding) rest run.said
  returns : wp heard rest run.said
    (JobOk config.inbox (config.routes chainKey) run.job run.funding run.memory)

/-- A refill under way: it writes published messages, and leads to a pool and jobs of such. -/
structure RefillOk (q : WorkProg (State × Except Error (List DeliveryJob))) : Prop where
  asks : asks copiesEnv Reaffirms q (GenuineCopy chain reported watched)
  loads : wp copiesEnv q (GenuineCopy chain reported watched) fun copies r =>
    PoolAdmits config.ecrecover copies config.sets r.1 ∧
      ∀ job ∈ r.2.toOption.getD [], job.Admissible config.ecrecover copies config.sets

/-- A job ended with the result, soundly. -/
def Evidenced (l : List FleetEvent) (result : DeliveryResult) : Prop :=
  ∃ run memory, .finished run result.outcome memory ∈ l ∧ run.job.chainKey = result.chainKey ∧
    run.job.messageId = result.messageId ∧
    JobOk config.inbox (config.routes result.chainKey) run.job run.funding run.memory run.said
      (result.outcome, memory)

/-- What holds of a process after the events `l`. -/
structure FleetProcess.Ok (l : List FleetEvent) (d : Disk) (p : FleetProcess) : Prop where
  watchful : Watchful chain reported watched d p.relay
  pool : PoolAdmits config.ecrecover (GenuineCopy chain reported watched) config.sets p.relay.pool
  refilling : ∀ q, p.relay.task = .refilling q → RefillOk config chain reported watched q
  completing : ∀ result, p.relay.task = .completing result →
    result.outcome.final = true ∧ Evidenced config l result
  results : ∀ result ∈ p.results, Evidenced config l result
  lanes : ∀ chainKey, ∀ job ∈ p.lanes chainKey, JobFor config chain reported watched chainKey job
  workers : ∀ chainKey run rest, p.workers chainKey = some (run, rest) →
    RunOk config chain reported watched chainKey run rest

/-- Every record is of a published message. -/
def GenuineDisk (d : Disk) : Prop :=
  ∀ chainKey id message, d.records chainKey id = some message → Genuine chain reported watched message

structure FleetOk (l : List FleetEvent) (s : Fleet) : Prop where
  disk : GenuineDisk chain reported watched s.disk
  process : ∀ p, s.process = some p → p.Ok config chain reported watched l s.disk

end

section
variable {config : FleetConfig} {codec : SourceCodec} {chain : SourceChain codec}
  {reported : Log → Prop} {watched : Watched} {l : List FleetEvent} {d d' : Disk}
  {p : FleetProcess}

theorem Genuine.copy {message : IndexedMessage} (h : Genuine chain reported watched message) :
    GenuineCopy chain reported watched message.chainKey message.messageId message := ⟨h, rfl, rfl⟩

theorem Evidenced.grow (l' : List FleetEvent) {result : DeliveryResult}
    (h : Evidenced config l result) : Evidenced config (l ++ l') result := by
  obtain ⟨run, memory, hl, h⟩ := h
  exact ⟨run, memory, List.mem_append_left l' hl, h⟩

/-- The polls and the channel are as they were. -/
theorem Watchful.moved {p p' : RelayProcess} (h : Watchful chain reported watched d p)
    (hd : GenuineDisk chain reported watched d') (hq : p'.polls = p.polls)
    (hi : p'.indexed = p.indexed) :
    Watchful chain reported watched d' p' := ⟨hd, hq ▸ h.polls, hi ▸ h.indexed⟩

namespace FleetProcess.Ok

variable (h : p.Ok config chain reported watched l d)
include h

/-- A process as it was, after more events. -/
theorem grow (l' : List FleetEvent) : p.Ok config chain reported watched (l ++ l') d where
  watchful := h.watchful
  pool := h.pool
  refilling := h.refilling
  completing result ht := (h.completing result ht).imp_right (·.grow l')
  results result hr := (h.results result hr).grow l'
  lanes := h.lanes
  workers := h.workers

/-- The relayer's part went on, and the pool with its task is in order. -/
theorem withRelay {relay : RelayProcess} (hw : Watchful chain reported watched d' relay)
    (hp : PoolAdmits config.ecrecover (GenuineCopy chain reported watched) config.sets relay.pool)
    (hr : ∀ q, relay.task = .refilling q → RefillOk config chain reported watched q)
    (hc : ∀ result, relay.task = .completing result →
      result.outcome.final = true ∧ Evidenced config l result) :
    ({ p with relay } : FleetProcess).Ok config chain reported watched l d' :=
  ⟨hw, hp, hr, hc, h.results, h.lanes, h.workers⟩

/-- The worker of a route went on. -/
theorem withWorker {chainKey : ChainKey} {worker : Option (JobRun × JobRest)}
    (hw : ∀ w, worker = some w → RunOk config chain reported watched chainKey w.1 w.2) :
    ∀ c run rest, (p.withWorker chainKey worker).workers c = some (run, rest) →
      RunOk config chain reported watched c run rest := by
  intro c run rest e
  simp only [FleetProcess.withWorker] at e
  split at e
  · rename_i hc
    exact hc ▸ hw _ e
  · exact h.workers c run rest e

/-- Jobs that an operation of the pool returned are handed over. -/
theorem handOver {relay : RelayProcess} {jobs handed : List DeliveryJob}
    (hj : ∀ job ∈ jobs, job.Admissible config.ecrecover (GenuineCopy chain reported watched)
      config.sets) (hh : handed.Subperm jobs) :
    ∀ chainKey, ∀ job ∈ (p.hand relay handed).lanes chainKey,
      JobFor config chain reported watched chainKey job := by
  intro chainKey job hm
  rcases List.mem_append.mp hm with hm | hm
  · exact h.lanes chainKey job hm
  · obtain ⟨hm, hk⟩ := List.mem_filter.mp hm
    exact ⟨of_decide_eq_true hk, hj job (hh.subset hm)⟩

end FleetProcess.Ok

/-! ## The store -/

/-- What a refill's call leaves on disk. -/
theorem GenuineDisk.reaffirm (h : GenuineDisk chain reported watched d) {c : WorkCall}
    (hc : Reaffirms (GenuineCopy chain reported watched) c) (hw : c.Writes d d') :
    GenuineDisk chain reported watched d' := by
  intro chainKey id message hr
  rcases hw chainKey id with e | ⟨message', rfl, -, -, e⟩
  · exact h _ _ _ (e ▸ hr)
  · rw [e, Option.some.injEq] at hr
    exact hr ▸ hc.1

theorem GenuineDisk.record (h : GenuineDisk chain reported watched d) {message : IndexedMessage}
    (hm : Genuine chain reported watched message) (hw : (WorkCall.record message).Writes d d') :
    GenuineDisk chain reported watched d' := h.reaffirm (c := .record message) hm.copy hw

/-- A completion only removes. -/
theorem GenuineDisk.complete (h : GenuineDisk chain reported watched d) {result : DeliveryResult}
    {readers : Readers} (hx : Cut (diskEnv (some result))
      ((WorkCall.body (.complete result.chainKey result.messageId)).run.run readers) d d') :
    GenuineDisk chain reported watched d' := by
  intro chainKey id message hr
  rcases complete_removes hx chainKey id with e | ⟨-, -, e⟩
  · exact h _ _ _ (e ▸ hr)
  · rw [e] at hr
    cases hr

/-- A call of a refill reads published messages. -/
theorem RefillOk.answered {c : WorkCall} {a : c.Answer} {readers readers' : Readers}
    {k : c.Answer → WorkProg (State × Except Error (List DeliveryJob))}
    (hq : RefillOk config chain reported watched (.ask c k))
    (hd : GenuineDisk chain reported watched d)
    (hx : storeEnv (trueDisk none) (readers, d) c a (readers', d')) :
    RefillOk config chain reported watched (k a) := by
  have henv : copiesEnv (GenuineCopy chain reported watched) c a
      (GenuineCopy chain reported watched) := by
    refine ⟨fun _ _ _ hm => hm, ?_⟩
    cases c with
    | record | complete => trivial
    | pending chainKey loaded limit =>
      cases a with
      | error => trivial
      | ok ms =>
        intro m hm
        have hk := (storeEnv_pending hx).route m hm
        exact ⟨hk, hd _ _ _ (storeEnv_shows hx m hm), hk, rfl⟩
  exact ⟨hq.asks.2 a _ henv, hq.loads a _ henv⟩

/-! ## Steps -/

variable {s t : Fleet} {e : FleetEvent}

theorem FleetOk.start (hd : GenuineDisk chain reported watched d) :
    FleetOk config chain reported watched [] ⟨d, none⟩ := ⟨hd, fun p hp => by cases hp⟩

/-- The process goes on, and the disk stays genuine. -/
theorem FleetProcess.Ok.fleet (hp : p.Ok config chain reported watched l d) :
    FleetOk config chain reported watched l ⟨d, some p⟩ :=
  ⟨hp.watchful.disk, fun p' e => by cases e; exact hp⟩

/-- A step within an idle pool, which hands over what an operation returns. -/
theorem FleetProcess.Ok.operation (h : p.Ok config chain reported watched l d)
    {indexed : List IndexedMessage} {handed : List DeliveryJob} (op : PoolOp)
    (ht : p.relay.task = .idle) (hop : ∀ now clock, op ≠ .refill now clock)
    (hs : op.Supplied config.sets) (hi : indexed ⊆ p.relay.indexed)
    (ha : ∀ message insertedAt, op.Admits message insertedAt → message ∈ p.relay.indexed)
    (hh : handed.Subperm (op.apply config.ecrecover p.relay.pool).2) :
    (p.hand { p.relay with
      indexed, pool := (op.apply config.ecrecover p.relay.pool).1 } handed).Ok config chain reported
        watched l d := by
  obtain ⟨hpool, hjobs⟩ := h.pool.operation op hop hs fun message insertedAt had =>
    (h.watchful.indexed message (ha message insertedAt had)).copy
  refine ⟨⟨h.watchful.disk, h.watchful.polls, fun m hm => h.watchful.indexed m (hi hm)⟩, hpool,
    fun q e => ?_, fun r e => ?_, h.results, h.handOver hjobs hh, h.workers⟩
  · rw [FleetProcess.hand] at e
    cases ht.symm.trans e
  · cases ht.symm.trans e

/-- What is on disk when the process is gone. -/
theorem FleetProcess.Ok.gone (h : p.Ok config chain reported watched l d) {e : RelayEvent}
    (hx : RelayStep config.ecrecover codec chain ⟨d, some p.relay⟩ e ⟨d', none⟩) :
    GenuineDisk chain reported watched d' := by
  have hd : GenuineDisk chain reported watched d := h.watchful.disk
  cases hx with
  | crash => exact hd
  | @recordCut _ _ _ chainKey message k hq hx =>
    have hm : Publishes chain reported (watched.source chainKey) message := h.watchful.finds hq
    exact hd.record hm.genuine.2 (WorkCall.cut_writes (c := .record message) (cut_trueDisk hx) nofun)
  | completeCut ht hx => exact hd.complete (cut_trueDisk hx)
  | refillCut ht hx =>
    have hr := (h.refilling _ ht).asks.1
    exact hd.reaffirm hr (WorkCall.cut_writes (cut_trueDisk hx) hr.incomplete)

theorem FleetStep.ok (hs : FleetStep config chain reported watched s e t)
    (h : FleetOk config chain reported watched l s) :
    FleetOk config chain reported watched (l ++ [e]) t := by
  cases hs with
  | boot routes cache hr =>
    refine ⟨h.disk, fun p hp => ?_⟩
    cases hp
    exact ⟨⟨h.disk, (fun _ _ e => by cases e), fun _ hm => absurd hm List.not_mem_nil⟩, .new hr cache,
      (fun _ e => by cases e), (fun _ e => by cases e), (fun _ hm => absurd hm List.not_mem_nil),
      (fun _ _ hm => absurd hm List.not_mem_nil), fun _ _ _ e => by cases e⟩
  | @gone d d' p e hx => exact ⟨(h.process p rfl).gone hx, fun _ e => by cases e⟩
  | @watch d d' p relay e hx =>
    have hp := (h.process p rfl).grow [.relay e]
    obtain ⟨-, hpool, htask⟩ := hx.relay config.ecrecover
    exact (hp.withRelay (hx.watchful hp.watchful) (hpool ▸ hp.pool) (htask ▸ hp.refilling)
      (htask ▸ hp.completing)).fleet
  | @index d p message indexed handed insertedAt now ht hi hc hh =>
    have hp := (h.process p rfl).grow [.relay .internal]
    refine (hp.operation (.noteIndexed message insertedAt now) ht nofun trivial
      (hi ▸ List.subset_cons_self _ _) (fun m at' hm => ?_) hh).fleet
    cases hm
    exact hi ▸ List.mem_cons_self
  | @full d p message indexed ht hi hc =>
    have hp := (h.process p rfl).grow [.relay .internal]
    have hw : Watchful chain reported watched d { p.relay with indexed } :=
      ⟨hp.watchful.disk, hp.watchful.polls, fun m hm =>
        hp.watchful.indexed m (hi ▸ List.mem_cons_of_mem _ hm)⟩
    exact (hp.withRelay hw hp.pool hp.refilling hp.completing).fleet
  | @operate d p handed op ht ho hs hh =>
    have hp := (h.process p rfl).grow [.relay .internal]
    refine (hp.operation op ht (fun now clock e => ?_) hs (List.Subset.refl _)
      (fun m at' hm => ?_) hh).fleet
    · rw [e] at ho
      cases ho
    · cases hm <;> cases ho
  | @noted d p result results now later wall ht hr hf =>
    have hp := (h.process p rfl).grow [.relay .internal]
    have hpool := (hp.pool.operation (.noteDeliveryResult result now later wall) nofun trivial
      fun m at' hm => by cases hm).1
    exact FleetProcess.Ok.fleet ⟨hp.watchful.moved h.disk rfl rfl, hpool, hp.refilling, hp.completing,
      fun r hm => hp.results r (hr ▸ List.mem_cons_of_mem _ hm), hp.lanes, hp.workers⟩
  | @complete d p result results ht hr hf =>
    have hp := (h.process p rfl).grow [.relay .internal]
    refine FleetProcess.Ok.fleet ⟨hp.watchful.moved h.disk rfl rfl, hp.pool, (fun q e => by cases e),
      fun r e => ?_, fun r hm => hp.results r (hr ▸ List.mem_cons_of_mem _ hm), hp.lanes, hp.workers⟩
    cases e
    exact ⟨hf, hp.results result (hr ▸ List.mem_cons_self)⟩
  | @completed d d' p result readers now later wall ht hx =>
    have hp := (h.process p rfl).grow [.relay (.completing result.chainKey result.messageId)]
    have hpool := (hp.pool.operation (.noteDeliveryResult result now later wall) nofun trivial
      fun m at' hm => by cases hm).1
    have hd : GenuineDisk chain reported watched d' :=
      GenuineDisk.complete h.disk (Exec.cut (storeEnv_trueDisk hx))
    exact FleetProcess.Ok.fleet ⟨hp.watchful.moved hd rfl rfl, hpool, (fun q e => by cases e),
      (fun r e => by cases e), hp.results, hp.lanes, hp.workers⟩
  | @refill d p now clock ht =>
    have hp := (h.process p rfl).grow [.relay .internal]
    refine FleetProcess.Ok.fleet ⟨hp.watchful.moved h.disk rfl rfl, hp.pool, fun q e => ?_,
      (fun r e => by cases e), hp.results, hp.lanes, hp.workers⟩
    cases e
    exact ⟨(State.refillRoutes_refilling now clock _ _ _ hp.pool.keyed hp.pool.within).asks,
      hp.pool.refill now clock⟩
  | @refillAsk d d' p c k a readers ht hx =>
    have hp := (h.process p rfl).grow [.relay .internal]
    have hq := hp.refilling _ ht
    have hd : GenuineDisk chain reported watched d' :=
      GenuineDisk.reaffirm h.disk hq.asks.1 (storeEnv_writes (storeEnv_trueDisk hx) hq.asks.1.incomplete)
    refine FleetProcess.Ok.fleet ⟨hp.watchful.moved hd rfl rfl, hp.pool, fun q e => ?_,
      (fun r e => by cases e), hp.results, hp.lanes, hp.workers⟩
    cases e
    exact hq.answered h.disk hx
  | @refilled d p pool jobs handed ht hh =>
    have hp := (h.process p rfl).grow [.relay .internal]
    obtain ⟨hpool, hjobs⟩ := (hp.refilling _ ht).loads
    exact FleetProcess.Ok.fleet ⟨hp.watchful.moved h.disk rfl rfl, hpool, (fun q e => by cases e),
      (fun r e => by cases e), hp.results, hp.handOver hjobs hh, hp.workers⟩
  | @take d p chainKey job queue funding topUp hw hl =>
    have hp := (h.process p rfl).grow [.taken job]
    have hjob := hp.lanes chainKey job (hl ▸ List.mem_cons_self)
    refine FleetProcess.Ok.fleet ⟨hp.watchful, hp.pool, hp.refilling, hp.completing, hp.results,
      fun c job' hm => ?_, hp.withWorker fun w e => ?_⟩
    · dsimp only at hm
      split at hm
      · rename_i e
        exact hp.lanes c job' (e ▸ hl ▸ List.mem_cons_of_mem _ hm)
      · exact hp.lanes c job' hm
    · cases e
      exact ⟨hjob, handleJob_checked, handleJob_ok⟩
  | @answer d p chainKey run c k a hw =>
    have hp := (h.process p rfl).grow [.asked run.job c]
    have hrun := hp.workers chainKey _ _ hw
    refine FleetProcess.Ok.fleet ⟨hp.watchful, hp.pool, hp.refilling, hp.completing, hp.results,
      hp.lanes, hp.withWorker fun w e => ?_⟩
    cases e
    exact ⟨hrun.job, hrun.asks.2 a _ rfl, hrun.returns a _ rfl⟩
  | @finish d p chainKey run outcome memory hw =>
    have hp := (h.process p rfl).grow [.finished run outcome memory]
    have hrun := hp.workers chainKey _ _ hw
    refine FleetProcess.Ok.fleet ⟨hp.watchful, hp.pool, hp.refilling, hp.completing,
      fun r hm => ?_, hp.lanes, hp.withWorker fun w e => by cases e⟩
    rcases List.mem_append.mp hm with hm | hm
    · exact hp.results r hm
    · rw [List.mem_singleton.mp hm]
      refine ⟨run, memory, by simp, rfl, rfl, ?_⟩
      rw [hrun.job.chainKey]
      exact hrun.returns

/-! ## Runs -/

theorem FleetOk.run (hd : GenuineDisk chain reported watched d)
    (hr : Run (FleetStep config chain reported watched) ⟨d, none⟩ l s) :
    FleetOk config chain reported watched l s :=
  hr.hist (I := FleetOk config chain reported watched) (fun _ _ _ _ hs h => hs.ok h) (.start hd)

/-- In every run, a `deliverMessage` that a worker broadcasts has the content of a message that an
authorized Outbox published in a reported log, and the votes of a quorum of a supplied set: canonical
signatures over the message's id, of at least `threshold` distinct attestors. Its value is within the
route's cap. -/
theorem delivery_provenance (hd : GenuineDisk chain reported watched d)
    (hr : Run (FleetStep config chain reported watched) ⟨d, none⟩ l s) {job : DeliveryJob}
    {tx : DeliverTx}
    (hs : FleetStep config chain reported watched s (.asked job (.sendDeliver tx)) t) :
    (∃ message, Genuine chain reported watched message ∧ message.chainKey = job.chainKey ∧
      tx.messageId = message.messageId ∧ tx.outbox = message.outbox ∧
      tx.emitter = message.emitter ∧ tx.sequence = message.sequence ∧
      tx.payload = message.payload) ∧
    (∃ (set : RouteAttestors) (votes : List (Address × RawSignature)), config.sets set ∧
      set.chainKey = job.chainKey ∧ 0 < set.threshold ∧
      tx.votes = encodeVotes (votes.map (·.2)) ∧ set.threshold ≤ votes.length ∧
      (votes.map (·.1)).Nodup ∧ ∀ v ∈ votes, v.1 ∈ set.attestors ∧ Canonical v.2 ∧
        config.ecrecover tx.messageId v.2 = .ok v.1) ∧
    tx.value ≤ (config.routes job.chainKey).maxNativeCoinValueWei := by
  have hok := FleetOk.run hd hr
  cases hs with
  | @answer d p chainKey run _ k a hw =>
    have hrun := (hok.process p rfl).workers chainKey _ _ hw
    have hk : run.job.chainKey = chainKey := hrun.job.chainKey
    have hc : DeliverChecked config.inbox (config.routes chainKey) run.job config.delivery
        run.funding tx run.said := hrun.asks.1
    obtain ⟨id, message, ⟨hg, hm, -⟩, hof⟩ := hrun.job.admissible.content
    obtain ⟨set, hset, hkey, hpos, votes, hv, hlen, hnodup, hall⟩ :=
      hrun.job.admissible.quorate hc.votes
    rw [hc.terms, hk]
    rw [hk] at hm hkey
    exact ⟨⟨message, hg, hm, hof.messageId, hof.outbox, hof.emitter, hof.sequence, hof.payload⟩,
      ⟨set, votes, hset, hkey, hpos, hv, hlen, hnodup, hall⟩, hc.capped.value⟩

/-- What removes a record is the completion of a final result of its message. -/
theorem FleetStep.removes (hs : FleetStep config chain reported watched s e t)
    (h : FleetOk config chain reported watched l s) {chainKey : ChainKey} {id : B256}
    {message : IndexedMessage} (hm : s.disk.records chainKey id = some message)
    (hn : t.disk.records chainKey id = none) :
    ∃ p result, s.process = some p ∧ p.relay.task = .completing result ∧
      result.chainKey = chainKey ∧ result.messageId = id := by
  -- a write does not remove, and a completion removes its own record only
  have hwrites : ∀ {c : WorkCall} {d d' : Disk}, c.Writes d d' →
      d.records chainKey id = some message → d'.records chainKey id ≠ none := by
    intro c d d' hw hd hd'
    rcases hw chainKey id with e | ⟨message', -, -, -, e⟩
    · cases (e.symm.trans hd').symm.trans hd
    · cases e.symm.trans hd'
  have hcompletes : ∀ {d d' : Disk} {p : FleetProcess} {result : DeliveryResult},
      Cut (diskEnv (some result)) ((WorkCall.body (.complete result.chainKey
        result.messageId)).run.run p.relay.readers) d d' → p.relay.task = .completing result →
      d.records chainKey id = some message → d'.records chainKey id = none →
      ∃ p' result', some p = some p' ∧ p'.relay.task = .completing result' ∧
        result'.chainKey = chainKey ∧ result'.messageId = id := by
    intro d d' p result hx ht hd hd'
    rcases complete_removes hx chainKey id with e | ⟨hk, hi, -⟩
    · cases (e.symm.trans hd').symm.trans hd
    · exact ⟨p, result, rfl, ht, hk.symm, hi.symm⟩
  cases hs with
  | @gone d d' p e hx =>
    have hp := h.process p rfl
    cases hx with
    | crash => cases hn.symm.trans hm
    | @recordCut _ _ _ _ message' =>
      rename_i hx
      exact absurd hn (hwrites (WorkCall.cut_writes (c := .record message') (cut_trueDisk hx) nofun) hm)
    | completeCut ht hx => exact hcompletes (cut_trueDisk hx) ht hm hn
    | refillCut ht hx =>
      have hr := (hp.refilling _ ht).asks.1
      exact absurd hn (hwrites (WorkCall.cut_writes (cut_trueDisk hx) hr.incomplete) hm)
  | watch hx =>
    cases hx with
    | record hq hx => exact absurd hn (hwrites (storeEnv_writes (storeEnv_trueDisk hx) nofun) hm)
    | poll | ask | send | unsent | polled => cases hn.symm.trans hm
  | completed now later wall ht hx =>
    exact hcompletes (Exec.cut (storeEnv_trueDisk hx)) ht hm hn
  | @refillAsk d d' p c k a readers ht hx =>
    have hr := ((h.process p rfl).refilling _ ht).asks.1
    exact absurd hn (hwrites (storeEnv_writes (storeEnv_trueDisk hx) hr.incomplete) hm)
  | boot | index | full | operate | noted | complete | refill | refilled | take | answer | finish =>
    cases hn.symm.trans hm

/-- In every run, the record of a message goes only once a job of the message ended with evidence of
the delivery, or with a reason to end the work without one. -/
theorem removal_evidenced (hd : GenuineDisk chain reported watched d)
    (hr : Run (FleetStep config chain reported watched) ⟨d, none⟩ l s)
    (hs : FleetStep config chain reported watched s e t) {chainKey : ChainKey} {id : B256}
    {message : IndexedMessage} (hm : s.disk.records chainKey id = some message)
    (hn : t.disk.records chainKey id = none) :
    ∃ run outcome memory, .finished run outcome memory ∈ l ∧ run.job.chainKey = chainKey ∧
      run.job.messageId = id ∧
      (outcome = .delivered ∧ DeliveredOk config.inbox (config.routes chainKey) id run.said ∨
        outcome = .terminal ∧ TerminalOk config.inbox (config.routes chainKey) run.job run.funding
          run.memory run.said memory) := by
  have hok := FleetOk.run hd hr
  obtain ⟨p, result, hp, ht, rfl, rfl⟩ := hs.removes hok hm hn
  obtain ⟨hf, run, memory, hl, hk, hi, hj⟩ := (hok.process p hp).completing result ht
  refine ⟨run, result.outcome, memory, hl, hk, hi, ?_⟩
  rw [← hi]
  cases ho : result.outcome with
  | delivered => exact .inl ⟨rfl, hj.1 ho⟩
  | terminal => exact .inr ⟨rfl, hj.2 ho⟩
  | retryable | awaitingVotes | awaitingExecution =>
    rw [ho] at hf
    cases hf

end

/-! ## A delivery and a removal -/

/-- The vote of 9 for the first message, and the job that it completes. -/
def firstVote : MessageVote := { sampleVote with messageId := 7 }

def firstJob : DeliveryJob where
  chainKey := 2
  messageId := 7
  emitter := 0
  outbox := 5
  sequence := 1
  payload := [1]
  votesCalldata := encodeVotes [firstVote.signature]
  signerCount := 1
  indexedAt := 1
  reconcileOnly := false

def votedPool : State := (PoolOp.apply (fun _ _ => .ok 9) firstPool (.noteVote firstVote 2)).1

theorem firstPool_votes :
    (PoolOp.apply (fun _ _ => .ok 9) firstPool (.noteVote firstVote 2)).2 = [firstJob] := by
  decide +kernel

section
variable {inbox : InboxCodec} {l : List FleetEvent} {d : Disk} {p : FleetProcess}
  {chainKey : ChainKey}

/-- The process with a poll. -/
def FleetProcess.polling (p : FleetProcess) (q : SourceProg (Except Error Unit)) : FleetProcess :=
  { p with relay := p.relay.withPoll 2 (some q) }

theorem Run.demo_ask {c : SourceCall} {k : c.Answer → SourceProg (Except Error Unit)}
    (h : Run (DemoFleetStep inbox) ⟨demoDisk, none⟩ l ⟨d, some (p.polling (.ask c k))⟩)
    (a : c.Answer) (hc : c.shared = false) (hs : ∀ message, c ≠ .send message)
    (ha : twoLogChain.Answers c a) (ht : twoLogChain.Tells twoLogReported c a) :
    Run (DemoFleetStep inbox) ⟨demoDisk, none⟩ (l ++ [.relay .internal]) ⟨d, some (p.polling (k a))⟩ := by
  refine h.snoc ?_
  rw [FleetProcess.polling, FleetProcess.polling,
    ← RelayProcess.withPoll_withPoll (some (.ask c k)) (some (k a))]
  exact .watch (.ask a (RelayProcess.withPoll_polls _) hc hs ha ht)

theorem Run.demo_record {d' : Disk} {readers : Readers} {message : IndexedMessage}
    {k : (SourceCall.record message).Answer → SourceProg (Except Error Unit)}
    (h : Run (DemoFleetStep inbox) ⟨demoDisk, none⟩ l
      ⟨d, some (p.polling (.ask (.record message) k))⟩)
    (hx : storeEnv (trueDisk none) (p.relay.readers, d) (.record message) (.ok ()) (readers, d')) :
    Run (DemoFleetStep inbox) ⟨demoDisk, none⟩ (l ++ [.relay (.found message)])
      ⟨d', some ({ p with relay := { p.relay with readers } }.polling (k (.ok ())))⟩ := by
  refine h.snoc ?_
  rw [FleetProcess.polling, FleetProcess.polling,
    ← RelayProcess.withPoll_withPoll (some (.ask (.record message) k)) (some (k (.ok ())))]
  exact .watch (.record (RelayProcess.withPoll_polls _) hx)

theorem Run.demo_send {message : IndexedMessage}
    {k : (SourceCall.send message).Answer → SourceProg (Except Error Unit)}
    (h : Run (DemoFleetStep inbox) ⟨demoDisk, none⟩ l
      ⟨d, some (p.polling (.ask (.send message) k))⟩) :
    Run (DemoFleetStep inbox) ⟨demoDisk, none⟩ (l ++ [.relay .internal])
      ⟨d, some ({ p with relay := { p.relay with
        indexed := p.relay.indexed ++ [message] } }.polling (k .sent))⟩ := by
  refine h.snoc ?_
  rw [FleetProcess.polling, FleetProcess.polling,
    ← RelayProcess.withPoll_withPoll (some (.ask (.send message) k)) (some (k .sent))]
  exact .watch (.send (RelayProcess.withPoll_polls _))

/-- What the process is once the pool has voted on the first message. -/
def votedRelay (q : SourceProg (Except Error Unit)) : RelayProcess :=
  { RelayProcess.start [sampleRoute] sampleCache with
    readers := firstStore.1, pool := votedPool }.withPoll 2 (some q)

/-- The process with the first job before the worker. -/
def votedFleet (q : SourceProg (Except Error Unit)) : FleetProcess :=
  (FleetProcess.start [sampleRoute] sampleCache).hand (votedRelay q) [firstJob]

theorem demo_voted (inbox : InboxCodec) : ∃ l q, Run (DemoFleetStep inbox) ⟨demoDisk, none⟩ l
    ⟨firstStore.2, some (votedFleet q)⟩ := by
  have hboot : Run (DemoFleetStep inbox) ⟨demoDisk, none⟩ [.relay .internal]
      ⟨demoDisk, some (.start [sampleRoute] sampleCache)⟩ :=
    .single (.boot _ _ fun _ hr => List.mem_singleton.mp hr)
  have hpoll := hboot.snoc (.watch (.poll 2 .finalized (.new 0) 0 rfl))
  have hhead := Run.demo_ask hpoll (.done (some demoHead)) rfl (fun _ e => by cases e) trivial trivial
  have hnow := Run.demo_ask hhead (0 : Nat) rfl (fun _ e => by cases e) trivial trivial
  have hset := Run.demo_ask hnow () rfl (fun _ e => by cases e) trivial trivial
  have hlogs := Run.demo_ask hset (.done [firstLog, secondLog]) rfl (fun _ e => by cases e) (by
    rintro log block (rfl | rfl) _ _ _ _ <;> simp) (by
    intro log hm
    rcases List.mem_cons.mp hm with rfl | hm
    · exact .inl rfl
    · exact .inr (List.mem_singleton.mp hm))
  have hdiscovery := Run.demo_ask hlogs (.done (word 9 ++ word 1)) rfl (fun _ e => by cases e) rfl rfl
  have hmember := Run.demo_ask hdiscovery (.done (word 1)) rfl (fun _ e => by cases e) rfl rfl
  have hrecord := Run.demo_record hmember (storeEnv_recordedStore false _ firstMessage)
  have hsend := Run.demo_send hrecord
  have hroom : (State.new [sampleRoute] sampleCache).canIndex firstMessage = true := by decide
  have hindex := hsend.snoc (.index 1 1 rfl rfl hroom List.nil_subperm)
  have hvote := hindex.snoc (.operate (.noteVote firstVote 2) rfl rfl trivial
    (firstPool_votes ▸ List.Subperm.refl [firstJob]))
  exact ⟨_, _, hvote⟩

/-- The worker takes the job. -/
theorem demo_take (inbox : InboxCodec) (q : SourceProg (Except Error Unit)) :
    DemoFleetStep inbox ⟨d, some (votedFleet q)⟩ (.taken firstJob)
      ⟨d, some { (votedFleet q).withWorker 2 (some (⟨firstJob, .unknown, ∅, []⟩,
        (handleJob inbox true demoRoute firstJob ⟨true, 3⟩ .unknown false).run ∅)) with
        lanes := fun c => if c = 2 then [] else (votedFleet q).lanes c }⟩ :=
  .take .unknown false rfl rfl

end

theorem delivery_provenance_sent : ∃ message : IndexedMessage,
    Genuine twoLogChain twoLogReported demoWatched message ∧ message.messageId = 7 ∧
      message.payload = [1] := by
  obtain ⟨l, q, hr⟩ := demo_voted demoInbox
  have htake := hr.snoc (demo_take demoInbox q)
  have hsimulated := htake.snoc (.answer (Reply.done true) (rfl : FleetProcess.workers _ 2 = _))
  have hcalled := hsimulated.snoc (.answer (Reply.done true) (rfl : FleetProcess.workers _ 2 = _))
  obtain ⟨⟨message, hg, -, hi, -, -, -, hp⟩, -⟩ := delivery_provenance
    (fun _ _ _ hd => by cases hd) hcalled
    (.answer (Broadcast.sent 9) (rfl : FleetProcess.workers _ 2 = _))
  exact ⟨message, hg, hi.symm, hp.symm⟩

/-- An Inbox whose envelopes ask for more value than the route allows. -/
def demoCostly : InboxCodec := { demoInbox with decodeEnvelope := fun _ => some (1, 100000) }

def demoTerminal : DeliveryResult := ⟨2, 7, .terminal⟩

theorem removal_evidenced_capped : ∃ (l : List FleetEvent) (run : JobRun)
    (outcome : DeliveryResultKind) (memory : Memory), .finished run outcome memory ∈ l ∧
    run.job.chainKey = 2 ∧ run.job.messageId = 7 ∧
      (outcome = .delivered ∧ DeliveredOk demoCostly demoRoute 7 run.said ∨
        outcome = .terminal ∧ TerminalOk demoCostly demoRoute run.job run.funding run.memory
          run.said memory) := by
  obtain ⟨l, q, hr⟩ := demo_voted demoCostly
  have htake := hr.snoc (demo_take demoCostly q)
  have hfinish := htake.snoc (.finish (rfl : FleetProcess.workers _ 2 = some (_, .ret (.terminal, ∅))))
  have hcomplete := hfinish.snoc (.complete rfl (rfl : FleetProcess.results _ = [demoTerminal]) rfl)
  have hfirst : firstStore.2.records 2 7 = some firstMessage := rfl
  -- the process is gone right after the record
  have hcut : Cut (trueDisk (some demoTerminal)) ((WorkCall.body (.complete 2 7)).run.run
      firstStore.1) firstStore.2 (firstStore.2.done (some demoTerminal) (.removeFile 2 7)) :=
    .ask (a := .ok ()) ⟨rfl, trivial⟩ .here
  have hgone := removal_evidenced (fun _ _ _ hd => by cases hd) hcomplete
    (.gone (.completeCut rfl hcut)) hfirst rfl
  exact ⟨_, hgone⟩

end MessageRelayer

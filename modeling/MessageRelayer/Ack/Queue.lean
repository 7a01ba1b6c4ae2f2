import MessageRelayer.Ack.Release
import MessageRelayer.Ack.Worker

/-!
# What the acknowledgment worker does

What discovery does to the queue (`Admitted`, `discoverDelivered_spec`): it
takes nothing from it, every transaction that it tracks has all its events of
the answer, and the cursor stays below those that did not fit. What a batch of
attempts does to it (`processPending_spec`): a transaction leaves it only after
an attempt that releases it.
-/

namespace MessageRelayer.Ack

open Prog hiding ask

/-! ## Deliveries -/

/-- The log is a delivery event of the transaction. -/
def DeliveryOf (codec : DeliveryCodec) (log : Log) (tx : B256) (event : DeliveryEvent) : Prop :=
  log.transactionHash = some tx ∧ ∃ kind, event.executed = (kind == .executed) ∧
    decodeDeliveryLog codec log = .ok (some (kind, event.messageId))

/-- The deliveries of an answer are its delivery events, from the range. -/
theorem decodeLogs_ok {codec : DeliveryCodec} {inbox : Address} {fromBlock toBlock : Nat}
    {logs : List Log} {deliveries : List Delivery}
    (h : decodeLogs codec inbox fromBlock toBlock logs = .ok deliveries) :
    (∀ log ∈ logs, ∀ tx event, DeliveryOf codec log tx event →
      ∃ d ∈ deliveries, d.txHash = tx ∧ d.event = event) ∧
    ∀ d ∈ deliveries, fromBlock ≤ d.block ∧ d.block ≤ toBlock ∧ ∃ log ∈ logs,
      log.blockNumber = some d.block ∧ DeliveryOf codec log d.txHash d.event := by
  induction logs generalizing deliveries with
  | nil =>
    cases h
    exact ⟨fun log hl => absurd hl List.not_mem_nil, fun d hd => absurd hd List.not_mem_nil⟩
  | cons log logs ih =>
    rw [decodeLogs] at h
    split at h
    · cases h
    split at h
    · cases h
    · cases h
    rename_i txHash block htx hblock
    split at h
    · cases h
    rename_i hrange
    obtain ⟨hfirst, hlast⟩ : fromBlock ≤ block ∧ block ≤ toBlock := by omega
    split at h
    · cases h
    · rename_i hdecode
      obtain ⟨hall, hfrom⟩ := ih h
      refine ⟨fun l hl tx event hd => ?_, fun d hd => ?_⟩
      · rcases List.mem_cons.mp hl with rfl | hl
        · obtain ⟨-, kind, -, hk⟩ := hd
          rw [hdecode] at hk
          cases hk
        · exact hall l hl tx event hd
      · obtain ⟨h₁, h₂, l, hl, hd⟩ := hfrom d hd
        exact ⟨h₁, h₂, l, List.mem_cons_of_mem _ hl, hd⟩
    · rename_i kind messageId hdecode
      cases hrest : decodeLogs codec inbox fromBlock toBlock logs with
      | error e =>
        rw [hrest] at h
        cases h
      | ok rest =>
        rw [hrest] at h
        cases h
        obtain ⟨hall, hfrom⟩ := ih hrest
        refine ⟨fun l hl tx event hd => ?_, fun d hd => ?_⟩
        · rcases List.mem_cons.mp hl with rfl | hl
          · obtain ⟨ht, kind', he, hk⟩ := hd
            rw [hdecode] at hk
            rw [htx] at ht
            cases hk
            cases ht
            exact ⟨_, List.mem_cons_self .., rfl, by rw [← he]⟩
          · obtain ⟨d, hm, hd⟩ := hall l hl tx event hd
            exact ⟨d, List.mem_cons_of_mem _ hm, hd⟩
        · rcases List.mem_cons.mp hd with rfl | hd
          · exact ⟨hfirst, hlast, log, List.mem_cons_self .., hblock, htx, kind, rfl, hdecode⟩
          · obtain ⟨h₁, h₂, l, hl, hd⟩ := hfrom d hd
            exact ⟨h₁, h₂, l, List.mem_cons_of_mem _ hl, hd⟩

/-! ## Admission -/

/-- What deliveries do to the queue: `first` and `first'` are the lowest blocks of those that did not
fit, before and after. -/
structure Admitted (done : BoundedSeen) (deliveries : List Delivery)
    (p p' : PendingTxs DeliveryEvent) (first first' : Option Nat) : Prop where
  kept : ∀ (tx : B256) (e₀ : PendingTx DeliveryEvent), p.seen[tx]? = some e₀ →
    ∃ e : PendingTx DeliveryEvent, p'.seen[tx]? = some e ∧ e.block = e₀.block ∧ e₀.metadata ⊆ e.metadata
  entry : ∀ (tx : B256) (e : PendingTx DeliveryEvent), p'.seen[tx]? = some e →
    (∃ e₀ : PendingTx DeliveryEvent, p.seen[tx]? = some e₀ ∧ e.block = e₀.block) ∨
      done.contains tx = false ∧ ∃ d ∈ deliveries, d.txHash = tx ∧ e.block = d.block
  full : p.isFull = true → ∀ tx : B256, p.seen[tx]? = none → p'.seen[tx]? = none
  found : ∀ d ∈ deliveries, done.contains d.txHash = true ∨
    (∃ e : PendingTx DeliveryEvent, p'.seen[d.txHash]? = some e ∧ d.event ∈ e.metadata) ∨
      p'.seen[d.txHash]? = none ∧ ∃ b, first' = some b ∧ b ≤ d.block
  lower : ∀ b, first = some b → ∃ b', first' = some b' ∧ b' ≤ b
  unadmitted : ∀ b, first' = some b → first = some b ∨ ∃ d ∈ deliveries, d.block = b

section
variable {done : BoundedSeen} {deliveries : List Delivery} {d : Delivery}
  {p p' q : PendingTxs DeliveryEvent} {first first₁ first' : Option Nat}

theorem Admitted.nil : Admitted done [] p p first first where
  kept _ e he := ⟨e, he, rfl, List.Subset.refl _⟩
  entry _ e he := .inl ⟨e, he, rfl⟩
  full _ _ ht := ht
  found _ hd := absurd hd List.not_mem_nil
  lower b hb := ⟨b, hb, Nat.le_refl _⟩
  unadmitted _ hb := .inl hb

/-- One delivery more, before the others. -/
theorem Admitted.cons (h : Admitted done deliveries q p' first₁ first')
    (hkept : ∀ (tx : B256) (e₀ : PendingTx DeliveryEvent), p.seen[tx]? = some e₀ →
      ∃ e : PendingTx DeliveryEvent, q.seen[tx]? = some e ∧ e.block = e₀.block ∧ e₀.metadata ⊆ e.metadata)
    (hentry : ∀ (tx : B256) (e : PendingTx DeliveryEvent), q.seen[tx]? = some e →
      (∃ e₀ : PendingTx DeliveryEvent, p.seen[tx]? = some e₀ ∧ e.block = e₀.block) ∨
        done.contains tx = false ∧ d.txHash = tx ∧ e.block = d.block)
    (hfull : p.isFull = true → q.isFull = true ∧ ∀ tx : B256, p.seen[tx]? = none → q.seen[tx]? = none)
    (hfound : done.contains d.txHash = true ∨
      (∃ e : PendingTx DeliveryEvent, q.seen[d.txHash]? = some e ∧ d.event ∈ e.metadata) ∨
        q.isFull = true ∧ q.seen[d.txHash]? = none ∧ ∃ b, first₁ = some b ∧ b ≤ d.block)
    (hlower : ∀ b, first = some b → ∃ b', first₁ = some b' ∧ b' ≤ b)
    (hunadmitted : ∀ b, first₁ = some b → first = some b ∨ d.block = b) :
    Admitted done (d :: deliveries) p p' first first' where
  kept tx e₀ he₀ := by
    obtain ⟨e₁, he₁, hb₁, hs₁⟩ := hkept tx e₀ he₀
    obtain ⟨e, he, hb, hs⟩ := h.kept tx e₁ he₁
    exact ⟨e, he, hb.trans hb₁, List.Subset.trans hs₁ hs⟩
  entry tx e he := by
    rcases h.entry tx e he with ⟨e₁, he₁, hb₁⟩ | ⟨hd, d', hm, ht, hb⟩
    · rcases hentry tx e₁ he₁ with ⟨e₀, he₀, hb₀⟩ | ⟨hd, ht, hb₀⟩
      · exact .inl ⟨e₀, he₀, hb₁.trans hb₀⟩
      · exact .inr ⟨hd, d, List.mem_cons_self .., ht, hb₁.trans hb₀⟩
    · exact .inr ⟨hd, d', List.mem_cons_of_mem _ hm, ht, hb⟩
  full hp tx ht := by
    obtain ⟨hq, hn⟩ := hfull hp
    exact h.full hq tx (hn tx ht)
  found d' hm := by
    rcases List.mem_cons.mp hm with rfl | hm
    · rcases hfound with hd | ⟨e₁, he₁, hi⟩ | ⟨hq, hn, b, hb, hle⟩
      · exact .inl hd
      · obtain ⟨e, he, -, hs⟩ := h.kept _ e₁ he₁
        exact .inr (.inl ⟨e, he, hs hi⟩)
      · obtain ⟨b', hb', hle'⟩ := h.lower b hb
        exact .inr (.inr ⟨h.full hq _ hn, b', hb', Nat.le_trans hle' hle⟩)
    · exact h.found d' hm
  lower b hb := by
    obtain ⟨b₁, hb₁, hle₁⟩ := hlower b hb
    obtain ⟨b', hb', hle⟩ := h.lower b₁ hb₁
    exact ⟨b', hb', Nat.le_trans hle hle₁⟩
  unadmitted b hb := by
    rcases h.unadmitted b hb with hb | ⟨d', hm, hb⟩
    · exact (hunadmitted b hb).imp_right fun hb => ⟨d, List.mem_cons_self .., hb⟩
    · exact .inr ⟨d', List.mem_cons_of_mem _ hm, hb⟩

/-- A delivery that leaves the queue as it is. -/
theorem Admitted.skip (h : Admitted done deliveries p p' first₁ first')
    (hfound : done.contains d.txHash = true ∨
      p.isFull = true ∧ p.seen[d.txHash]? = none ∧ ∃ b, first₁ = some b ∧ b ≤ d.block)
    (hlower : ∀ b, first = some b → ∃ b', first₁ = some b' ∧ b' ≤ b)
    (hunadmitted : ∀ b, first₁ = some b → first = some b ∨ d.block = b) :
    Admitted done (d :: deliveries) p p' first first' :=
  h.cons (fun _ e he => ⟨e, he, rfl, List.Subset.refl _⟩) (fun _ e he => .inl ⟨e, he, rfl⟩)
    (fun hp => ⟨hp, fun _ ht => ht⟩) (hfound.imp_right .inr) hlower hunadmitted

/-- Another event of a transaction that is tracked. -/
theorem Admitted.noteMeta (h : Admitted done deliveries (p.noteMeta d.txHash d.event) p' first first')
    (ht : p.contains d.txHash = true) : Admitted done (d :: deliveries) p p' first first' := by
  refine h.cons (fun tx e₀ he₀ => ?_) (fun tx e he => ?_) (fun hp => ⟨?_, fun tx hn => ?_⟩) ?_
    (fun b hb => ⟨b, hb, Nat.le_refl _⟩) fun b hb => .inl hb
  · obtain ⟨e, he, hb, hs, -⟩ := PendingTxs.get_noteMeta d.txHash d.event he₀
    exact ⟨e, he, hb, hs⟩
  · obtain ⟨e₀, he₀, hb, -⟩ := PendingTxs.of_get_noteMeta he
    exact .inl ⟨e₀, he₀, hb⟩
  · rw [PendingTxs.noteMeta, PendingTxs.isFull_onEntry]
    exact hp
  · rw [PendingTxs.noteMeta, PendingTxs.get_onEntry, hn]
    simp
  · obtain ⟨e₀, he₀⟩ := PendingTxs.contains_iff.mp ht
    obtain ⟨e, he, -, -, hi⟩ := PendingTxs.get_noteMeta d.txHash d.event he₀
    exact .inr (.inl ⟨e, he, hi rfl⟩)

/-- A transaction that is newly tracked: there is room for it, so none leaves. -/
theorem Admitted.insert {now : Instant} {o : Option B256}
    (h : Admitted done deliveries q p' first first') (hd : done.contains d.txHash = false)
    (hn : p.contains d.txHash = false) (hroom : p.isFull = false)
    (hi : p.Inserted d.txHash ⟨now, d.block, now, 0, [d.event]⟩ q o) :
    Admitted done (d :: deliveries) p p' first first' := by
  obtain rfl : o = none := by
    cases o with
    | none => rfl
    | some tx => simp [hi.full rfl] at hroom
  have hget : ∀ tx : B256, q.seen[tx]? =
      (p.seen.insert d.txHash ⟨now, d.block, now, 0, [d.event]⟩)[tx]? := fun tx => by
    rw [hi.get, if_neg (by simp)]
  refine h.cons (fun tx e₀ he₀ => ?_) (fun tx e he => ?_) (fun hp => ?_) (.inr (.inl ?_))
    (fun b hb => ⟨b, hb, Nat.le_refl _⟩) fun b hb => .inl hb
  · have hne : tx ≠ d.txHash := by
      rintro rfl
      rw [PendingTxs.contains_iff.mpr ⟨e₀, he₀⟩] at hn
      cases hn
    refine ⟨e₀, ?_, rfl, List.Subset.refl _⟩
    rw [hget, Map.get_insert, if_neg hne]
    exact he₀
  · rw [hget, Map.get_insert] at he
    split at he
    · rename_i ht
      obtain rfl := Option.some.inj he
      exact .inr ⟨ht ▸ hd, ht.symm, rfl⟩
    · exact .inl ⟨e, he, rfl⟩
  · rw [hroom] at hp
    cases hp
  · rw [hget, Map.get_insert_self]
    exact ⟨_, rfl, List.mem_singleton_self _⟩

end

theorem admitAll_spec {W : Type} {H : Env AckCall AckCall.Answer W} (done : BoundedSeen)
    (deliveries : List Delivery) (p : PendingTxs DeliveryEvent) (first : Option Nat) (w : W) :
    wp H (admitAll done deliveries p first) w fun _ r => Admitted done deliveries p r.1 first r.2 := by
  induction deliveries generalizing p first w with
  | nil => exact .nil
  | cons d deliveries ih =>
    rw [admitAll]
    split
    · rename_i hd
      exact wp_mono (ih p first w) fun _ _ h =>
        h.skip (.inl hd) (fun b hb => ⟨b, hb, Nat.le_refl _⟩) fun b hb => .inl hb
    rename_i hd
    split
    · rename_i hp
      exact wp_mono (ih _ first w) fun _ _ h => h.noteMeta hp
    rename_i hp
    split
    · rename_i hfull
      have hn : p.seen[d.txHash]? = none := by
        by_contra hne
        exact hp (PendingTxs.contains_iff.mpr (Option.ne_none_iff_exists'.mp hne))
      refine wp_mono (ih p _ w) fun _ _ h =>
        h.skip (.inr ⟨hfull, hn, _, rfl, ?_⟩) (fun b hb => ⟨_, rfl, ?_⟩) fun b hb => ?_
      · cases first with
        | none => exact Nat.le_refl _
        | some b => exact Nat.min_le_right _ _
      · rw [hb]
        exact Nat.min_le_left _ _
      · rw [← Option.some.inj hb]
        cases first with
        | none => exact .inr rfl
        | some b₀ =>
          dsimp only [Option.elim]
          rcases Nat.le_total b₀ d.block with hle | hle
          · exact .inl (by rw [Nat.min_eq_left hle])
          · exact .inr (by rw [Nat.min_eq_right hle])
    · rename_i hroom
      rw [wp_bind, wp_call]
      intro now w₁ _
      rw [wp_bind]
      refine wp_mono (PendingTxs.insert_spec (by simpa using hp) now _ _ w₁) fun w₂ r hi => ?_
      exact wp_mono (ih r.1 first w₂) fun _ _ h =>
        h.insert (by simpa using hd) (by simpa using hp) (by simpa using hroom) hi

/-! ## Discovery -/

/-- A scan of the worker: the head that it read, the range and the answer. -/
structure DeliveryScan where
  tip : Nat
  fromBlock : Nat
  toBlock : Nat
  logs : List Log

/-- The scan that a discovery made, if it came to one. -/
def scanOf : AckSaid → Option DeliveryScan
  | ⟨.getBlockNumber, .ok tip⟩ :: ⟨.getLogs _ fromBlock toBlock, .ok logs⟩ :: _ =>
    some ⟨tip.val, fromBlock, toBlock, logs⟩
  | _ => none

/-- A scan of blocks after the last one seen, and what it does to the queue: none leaves it, and the
new cursor is below what neither fitted nor is finished. -/
structure Discovered (codec : DeliveryCodec) (route : AckRoute) (blockOf : B256 → Nat)
    (w w' : AckWorker) (scan : DeliveryScan) : Prop where
  fromBlock : scan.fromBlock = w.lastSeen + 1
  le : w.lastSeen ≤ w'.lastSeen
  head : w'.lastSeen ≤ scan.tip - route.confirmationDepth
  done : w'.done = w.done
  kept : ∀ (tx : B256) (e₀ : PendingTx DeliveryEvent), w.pending.seen[tx]? = some e₀ →
    ∃ e : PendingTx DeliveryEvent, w'.pending.seen[tx]? = some e ∧ e.block = e₀.block ∧
      e₀.metadata ⊆ e.metadata
  entry : ∀ (tx : B256) (e : PendingTx DeliveryEvent), w'.pending.seen[tx]? = some e →
    (∃ e₀ : PendingTx DeliveryEvent, w.pending.seen[tx]? = some e₀ ∧ e.block = e₀.block) ∨
      w.done.contains tx = false ∧ w.lastSeen < e.block ∧ e.block = blockOf tx
  found : ∀ log ∈ scan.logs, ∀ tx event, DeliveryOf codec log tx event →
    w.done.contains tx = true ∨
      (∃ e : PendingTx DeliveryEvent, w'.pending.seen[tx]? = some e ∧ event ∈ e.metadata) ∨
        w'.pending.seen[tx]? = none ∧ w'.lastSeen < blockOf tx

section
variable {codec : DeliveryCodec} {settle : SettleCodec} {route : AckRoute} {sourceChainId : Nat}
  {blockOf : B256 → Nat}

@[simp] theorem wp_ackAsk {W : Type} {H : Env AckCall AckCall.Answer W} (c : AckCall) (w : W)
    (Q : W → Except Error c.Answer → Prop) :
    wp (α := no_index (Except Error c.Answer)) H
      (ExceptT.run (α := no_index c.Answer) (AckM.ask c)) w Q ↔
      ∀ a w', H w c a w' → Q w' (.ok a) := by
  rw [AckM.ask, wp_run_lift, wp_call]

/-- What was said stays said. -/
theorem ackEnv_keeps {α : Type} (p : AckProg α) (said : AckSaid) :
    wp (ackEnv settle route sourceChainId blockOf) p said fun said' _ => said <+: said' := by
  refine wp_inv (I := fun s => said <+: s) (fun s c a s' ha hs => ?_) (List.prefix_refl _)
  rw [ha.1]
  exact hs.trans (List.prefix_append _ _)

/-- What is admitted of a decoded answer. -/
theorem Admitted.discovered {w : AckWorker} {tip toBlock : Nat} {logs : List Log}
    {deliveries : List Delivery} {pending : PendingTxs DeliveryEvent} {first : Option Nat}
    (hle : w.lastSeen ≤ toBlock) (htip : toBlock ≤ tip - route.confirmationDepth)
    (hlogs : ∀ log ∈ logs, ∀ tx b, log.transactionHash = some tx → log.blockNumber = some b →
      blockOf tx = b)
    (hd : decodeLogs codec route.inboxAddress (w.lastSeen + 1) toBlock logs = .ok deliveries)
    (h : Admitted w.done deliveries w.pending pending none first) :
    Discovered codec route blockOf w { w with lastSeen := first.elim toBlock (· - 1), pending }
      ⟨tip, w.lastSeen + 1, toBlock, logs⟩ := by
  obtain ⟨hall, hfrom⟩ := decodeLogs_ok hd
  have hblock : ∀ d ∈ deliveries, w.lastSeen < d.block ∧ d.block ≤ toBlock ∧ blockOf d.txHash = d.block :=
    fun d hm => by
      obtain ⟨h₁, h₂, log, hl, hb, ht, -⟩ := hfrom d hm
      exact ⟨h₁, h₂, hlogs log hl _ _ ht hb⟩
  -- the lowest block of those that did not fit is in the range
  have hfirst : ∀ b, first = some b → w.lastSeen < b ∧ b ≤ toBlock := fun b hb => by
    rcases h.unadmitted b hb with hb | ⟨d, hm, rfl⟩
    · cases hb
    · exact ⟨(hblock d hm).1, (hblock d hm).2.1⟩
  have hrange : w.lastSeen ≤ first.elim toBlock (· - 1) ∧ first.elim toBlock (· - 1) ≤ toBlock := by
    cases first with
    | none => exact ⟨hle, Nat.le_refl _⟩
    | some b =>
      obtain ⟨h₁, h₂⟩ := hfirst b rfl
      simp only [Option.elim]
      omega
  refine ⟨rfl, hrange.1, Nat.le_trans hrange.2 htip, rfl, h.kept, fun tx e he => ?_,
    fun log hm tx event hev => ?_⟩
  · refine (h.entry tx e he).imp_right fun ⟨hd, d, hm, ht, hb⟩ => ?_
    obtain ⟨h₁, -, h₃⟩ := hblock d hm
    rw [hb, ← ht]
    exact ⟨ht ▸ hd, h₁, h₃.symm⟩
  · obtain ⟨d, hd, rfl, rfl⟩ := hall log hm tx event hev
    refine (h.found d hd).imp_right (Or.imp_right fun ⟨hn, b, hb, hle⟩ => ⟨hn, ?_⟩)
    obtain ⟨h₁, -⟩ := hfirst b hb
    rw [(hblock d hd).2.2, hb]
    simp only [Option.elim]
    omega

/-- Discovery scans and moves its cursor, or it leaves the worker as it is. -/
theorem discoverDelivered_spec (w : AckWorker) :
    wp (ackEnv settle route sourceChainId blockOf) (discoverDelivered codec route w).run [] fun said r =>
      ∀ w', r = .ok w' → match scanOf said with
        | none => w' = w
        | some scan => Discovered codec route blockOf w w' scan := by
  simp only [discoverDelivered, wp_run_bind, wp_ackAsk, wp_orThrow]
  rintro (e | tip) said ⟨rfl, -⟩
  · exact fun w' h => by cases h
  simp only [Except.mapError]
  split
  · rintro w' h
    cases h
    rfl
  rename_i hlt
  simp only [wp_run_bind, wp_ackAsk, wp_orThrow]
  rintro (e | logs) said ⟨rfl, hlogs⟩
  · exact fun w' h => by cases h
  simp only
  cases hd : decodeLogs codec route.inboxAddress (w.lastSeen + 1)
    (min (tip.val - route.confirmationDepth) (satAdd64 w.lastSeen maxBlocksPerScan)) logs with
  | error e => exact fun w' h => by cases h
  | ok deliveries =>
    simp only [wp_run_lift]
    refine wp_mono (wp_and (ackEnv_keeps _ _) (admitAll_spec w.done deliveries w.pending none _))
      fun said r hr => ?_
    obtain ⟨hp, ha⟩ := hr
    rintro w' h
    cases h
    obtain ⟨rest, rfl⟩ := hp
    have htip : tip.val ≤ u64Max := tip.property
    refine ha.discovered ?_ (Nat.min_le_left _ _) hlogs hd
    simp only [satAdd64]
    omega

end

/-! ## Attempts -/

section
variable {route : AckRoute} {w w' : AckWorker} {now : Instant} {finished : List B256}

/-- The attempt releases its transaction. -/
def AckAttempt.Releases (a : AckAttempt) : Prop := ∃ o, a.outcome = .ok o ∧ o.releases = true

/-- What attempts do to the worker. -/
structure SettledBy (w w' : AckWorker) (attempts : List AckAttempt) (finished : List B256) : Prop where
  lastSeen : w'.lastSeen = w.lastSeen
  queue : w.pending.Settled w'.pending w.done w'.done finished
  released : ∀ tx ∈ finished, ∃ a ∈ attempts, a.txHash = tx ∧ a.Releases

theorem settle_spec {a : AckAttempt} {done : Option B256}
    (h : w.settle route now a = some (w', done)) : SettledBy w w' [a] done.toList := by
  have hfinish : a.Releases → SettledBy w (w.finish a.txHash) [a] [a.txHash] := fun hr =>
    ⟨rfl, .finish w.pending w.done a.txHash, fun tx ht =>
      ⟨a, List.mem_singleton_self _, (List.mem_singleton.mp ht).symm, hr⟩⟩
  have hretry : ∀ f : PendingTx DeliveryEvent → PendingTx DeliveryEvent,
      (∀ e, (f e).firstSeen = e.firstSeen ∧ (f e).block = e.block ∧ (f e).metadata = e.metadata) →
        SettledBy w { w with pending := w.pending.onEntry a.txHash f } [a] [] := fun f hf =>
    ⟨rfl, .retry w.pending w.done a.txHash hf, fun tx ht => absurd ht List.not_mem_nil⟩
  rw [AckWorker.settle] at h
  split at h
  · rename_i ho
    cases h
    exact hfinish ⟨_, ho, rfl⟩
  · rename_i ho
    cases h
    exact hfinish ⟨_, ho, rfl⟩
  · obtain ⟨retryIn, -, hr⟩ := Option.bind_eq_some_iff.mp h
    cases hr
    exact hretry _ fun e => ⟨rfl, rfl, rfl⟩
  · cases h
    exact hretry _ fun e => ⟨rfl, rfl, rfl⟩
  · cases h
    exact hretry _ fun e => ⟨rfl, rfl, rfl⟩

theorem settleAll_spec {attempts : List AckAttempt}
    (h : w.settleAll route now attempts = some (w', finished)) : SettledBy w w' attempts finished := by
  induction attempts generalizing w finished with
  | nil =>
    cases h
    exact ⟨rfl, .refl _ _, fun tx ht => absurd ht List.not_mem_nil⟩
  | cons a attempts ih =>
    rw [AckWorker.settleAll] at h
    obtain ⟨⟨w₁, first⟩, h₁, h⟩ := Option.bind_eq_some_iff.mp h
    obtain ⟨⟨w₂, more⟩, h₂, h⟩ := Option.bind_eq_some_iff.mp h
    cases h
    have hs := settle_spec h₁
    have hm := ih h₂
    refine ⟨hm.lastSeen.trans hs.lastSeen, hs.queue.append hm.queue, fun tx ht => ?_⟩
    rcases List.mem_append.mp ht with ht | ht
    · obtain ⟨b, hb, hr⟩ := hs.released tx ht
      obtain rfl := List.mem_singleton.mp hb
      exact ⟨b, List.mem_cons_self .., hr⟩
    · obtain ⟨b, hb, hr⟩ := hm.released tx ht
      exact ⟨b, List.mem_cons_of_mem _ hb, hr⟩

end

section
variable {settle : SettleCodec} {route : AckRoute} {sourceChainId : Nat} {blockOf : B256 → Nat}

/-- An attempt at the transaction with its events, which releases it. -/
def Released (settle : SettleCodec) (route : AckRoute) (sourceChainId : Nat) (outboxes : FinSet Address)
    (said : AckSaid) (tx : B256) (messages : List DeliveryEvent) : Prop :=
  ∃ batch answer a, ⟨.attempts outboxes batch, answer⟩ ∈ said ∧ a ∈ answer ∧ a.txHash = tx ∧
    a.messages = messages ∧ a.Releases ∧ Exec heard
      (acknowledgeTx settle route sourceChainId outboxes messages tx).run [] a.said a.outcome

/-- What one pass over the queue does. -/
structure Processed (settle : SettleCodec) (route : AckRoute) (sourceChainId : Nat)
    (outboxes : FinSet Address) (w w' : AckWorker) (said : AckSaid) (finished : List B256) : Prop where
  lastSeen : w'.lastSeen = w.lastSeen
  queue : w.pending.Settled w'.pending w.done w'.done finished
  released : ∀ tx ∈ finished, ∃ e : PendingTx DeliveryEvent, w.pending.seen[tx]? = some e ∧
    Released settle route sourceChainId outboxes said tx e.metadata

theorem processPending_spec (outboxes : FinSet Address) (w : AckWorker) :
    wp (ackEnv settle route sourceChainId blockOf) (processPending route outboxes w) [] fun said r =>
      ∀ w' finished, r = some (w', finished) →
        Processed settle route sourceChainId outboxes w w' said finished := by
  simp only [processPending, wp_bind, wp_call]
  rintro now said ⟨rfl, -⟩ order said ⟨rfl, -⟩
  split
  · rintro w' finished h
    cases h
    exact ⟨rfl, .refl _ _, fun tx ht => absurd ht List.not_mem_nil⟩
  simp only [wp_bind, wp_call]
  rintro attempts said ⟨rfl, hperm, hruns⟩ now' said ⟨rfl, -⟩ w' finished h
  have hs := settleAll_spec h
  refine ⟨hs.lastSeen, hs.queue, fun tx ht => ?_⟩
  obtain ⟨a, ha, rfl, hr⟩ := hs.released tx ht
  obtain ⟨e, he, hm⟩ := PendingTxs.mem_ready (hperm.subset (List.mem_map.mpr ⟨a, ha, rfl⟩))
  refine ⟨e, he, _, attempts, a, ?_, ha, rfl, hm.symm, hr, ?_⟩
  · exact List.mem_append_left _ (List.mem_append_right _ (List.mem_singleton_self _))
  · rw [hm]
    exact hruns a ha

end

end MessageRelayer.Ack

import Mathlib.Data.Nat.Size
import MessageRelayer.Ack.History

/-!
# The pieces of a settlement history

What a read of a range of blocks has, on a node that tells the truth of the
blocks it answers for (`Truthful`): all Outboxes that the blocks of the piece
name, be they from the logs of the range or from the receipts of one dense
block (`readRange_covers`). Whatever the node answers, a piece that a scan finds
was read, starts, or ends, where it was asked to (`scan_piece`,
`scanBackwards_piece`), and is found after logarithmically many queries
(`scan_halves`, `scanBackwards_halves`).
-/

namespace MessageRelayer.Ack

open Prog hiding ask
open HistoryM

/-! ## The chain -/

/-- The blocks of the destination chain that are final: their transactions, with their logs. -/
structure HistoryChain where
  transactions : Nat → List B256
  logs : Nat → B256 → List HistoryLog

section
variable (codec : HistoryCodec) (chain : HistoryChain)

/-- The log is one that the filter of the history asks for. -/
def HistoryLog.Matches (log : HistoryLog) (inbox : Address) : Prop :=
  log.address = inbox ∧ log.topics.head? = some codec.signatureHash

/-- The block has an event of the Inbox that names the Outbox. -/
def Names (inbox : Address) (number : Nat) (outbox : Address) : Prop :=
  ∃ tx ∈ chain.transactions number, ∃ log ∈ chain.logs number tx, log.Matches codec inbox ∧
    ∃ event, codec.decodeLog log.topics log.data = .ok event ∧ event.outbox = outbox

/-- The Outboxes that the blocks of a range name. -/
def Covers (inbox : Address) (low high : Nat) (outboxes : FinSet Address) : Prop :=
  ∀ n, low ≤ n → n ≤ high → ∀ outbox, Names codec chain inbox n outbox → outbox ≠ 0 →
    outbox ∈ outboxes

/-- A node may fail, limit its answers, leave out receipts and add anything; but a log query that
succeeds has the logs of its range, and a receipt all logs of its transaction. -/
def Truthful (c : HistoryCall) (a : c.Answer) : Prop :=
  match c, a with
  | .getLogs inbox fromBlock toBlock, .ok logs =>
    ∀ n, fromBlock ≤ n → n ≤ toBlock → ∀ tx ∈ chain.transactions n, ∀ log ∈ chain.logs n tx,
      log.Matches codec inbox → log ∈ logs
  | .getBlock number, .ok (some block) =>
    block.number = number → block.hash ≠ 0 → block.transactions = chain.transactions number
  | .getBlockReceipts number, .ok (some receipts) =>
    ∀ receipt ∈ receipts, receipt.transactionHash ∈ chain.transactions number →
      ∀ log ∈ chain.logs number receipt.transactionHash, log ∈ receipt.logs
  | _, _ => True

end

section
variable {codec : HistoryCodec} {chain : HistoryChain} {inbox : Address}

theorem Covers.mono {low high : Nat} {s t : FinSet Address} (h : Covers codec chain inbox low high s)
    (hst : ∀ a ∈ s, a ∈ t) : Covers codec chain inbox low high t :=
  fun n hl hh outbox hn h0 => hst _ (h n hl hh outbox hn h0)

/-- Two adjacent ranges. -/
theorem Covers.append {low mid high : Nat} {s : FinSet Address}
    (h : Covers codec chain inbox low mid s) (h' : Covers codec chain inbox (mid + 1) high s) :
    Covers codec chain inbox low high s := by
  intro n hl hh
  by_cases hm : n ≤ mid
  · exact h n hl hm
  · exact h' n (by omega) hh

/-! ## What is in the logs -/

/-- A computation that succeeds in two steps. -/
theorem of_bind_ok {ε α β : Type} {x : Except ε α} {f : α → Except ε β} {b : β}
    (h : x >>= f = .ok b) : ∃ a, x = .ok a ∧ f a = .ok b := by
  cases x with
  | error => cases h
  | ok a => exact ⟨a, rfl, h⟩

theorem receiptLogs_ok {receipt : HistoryReceipt} {logs found : List HistoryLog}
    (h : receiptLogs codec inbox receipt logs = .ok found) :
    ∀ log ∈ logs, log.Matches codec inbox → log ∈ found := by
  induction logs generalizing found with
  | nil => exact fun log hm => absurd hm List.not_mem_nil
  | cons a logs ih =>
    rw [receiptLogs] at h
    split at h
    · cases h
    · obtain ⟨rest, hr, h⟩ := of_bind_ok h
      intro log hm hmatch
      split at h
      · cases h
        rcases List.mem_cons.mp hm with rfl | hm
        · exact List.mem_cons_self ..
        · exact List.mem_cons_of_mem _ (ih hr log hm hmatch)
      · rename_i hn
        cases h
        rcases List.mem_cons.mp hm with rfl | hm
        · exact absurd hmatch hn
        · exact ih hr log hm hmatch

/-- What is known of the receipts of a block that were taken. -/
structure Taken (codec : HistoryCodec) (inbox : Address) (block : Block)
    (receipts : List HistoryReceipt) (seen : FinSet B256) (found : List HistoryLog) : Prop where
  expected : ∀ receipt ∈ receipts, receipt.transactionHash ∈ block.transactions
  unseen : ∀ receipt ∈ receipts, receipt.transactionHash ∉ seen
  nodup : (receipts.map (·.transactionHash)).Nodup
  found : ∀ receipt ∈ receipts, ∀ log ∈ receipt.logs, log.Matches codec inbox → log ∈ found

theorem receiptsLogs_ok {block : Block} {number : Nat} {receipts : List HistoryReceipt}
    {seen : FinSet B256} {found : List HistoryLog}
    (h : receiptsLogs codec inbox block number receipts seen = .ok found) :
    Taken codec inbox block receipts seen found := by
  induction receipts generalizing seen found with
  | nil => exact ⟨nofun, nofun, List.nodup_nil, nofun⟩
  | cons a receipts ih =>
    rw [receiptsLogs] at h
    split at h
    · cases h
    · rename_i hc
      simp only [not_or, not_not] at hc
      obtain ⟨-, -, hexp, hseen⟩ := hc
      obtain ⟨logs, hl, h⟩ := of_bind_ok h
      obtain ⟨rest, hr, h⟩ := of_bind_ok h
      cases h
      have ht := ih hr
      have hown : a.transactionHash ∈ block.transactions := by
        obtain ⟨index, -, hi⟩ := Option.bind_eq_some_iff.mp hexp
        exact List.mem_of_getElem? hi
      refine ⟨?_, ?_, ?_, ?_⟩
      · exact List.forall_mem_cons.mpr ⟨hown, ht.expected⟩
      · refine List.forall_mem_cons.mpr ⟨hseen, fun r hm hs => ?_⟩
        exact ht.unseen r hm (FinSet.mem_insert.mpr (.inr hs))
      · rw [List.map_cons, List.nodup_cons]
        refine ⟨fun hm => ?_, ht.nodup⟩
        obtain ⟨r, hm, he⟩ := List.mem_map.mp hm
        exact ht.unseen r hm (FinSet.mem_insert.mpr (.inl he))
      · refine List.forall_mem_cons.mpr ⟨fun log hm hmatch => ?_, fun r hm log hl hmatch => ?_⟩
        · exact List.mem_append_left _ (receiptLogs_ok hl log hm hmatch)
        · exact List.mem_append_right _ (ht.found r hm log hl hmatch)

/-- As many receipts as transactions, each of another one: every transaction has its receipt. -/
theorem Taken.all {block : Block} {receipts : List HistoryReceipt} {seen : FinSet B256}
    {found : List HistoryLog} (h : Taken codec inbox block receipts seen found)
    (hlen : receipts.length = block.transactions.length) :
    ∀ tx ∈ block.transactions, ∃ receipt ∈ receipts, receipt.transactionHash = tx := by
  have hsub : (receipts.map (·.transactionHash)).Subperm block.transactions := by
    refine h.nodup.subperm fun tx hm => ?_
    obtain ⟨r, hr, rfl⟩ := List.mem_map.mp hm
    exact h.expected r hr
  have hperm := hsub.perm_of_length_le (by rw [List.length_map]; exact Nat.le_of_eq hlen.symm)
  intro tx hm
  exact List.mem_map.mp (hperm.mem_iff.mpr hm)

theorem namedOutboxes_ok {fromBlock toBlock : Nat} {logs : List HistoryLog}
    {addresses named : FinSet Address}
    (h : namedOutboxes codec inbox fromBlock toBlock logs addresses = .ok named) :
    (∀ a ∈ addresses, a ∈ named) ∧ ∀ log ∈ logs, ∀ event,
      codec.decodeLog log.topics log.data = .ok event → event.outbox ≠ 0 → event.outbox ∈ named := by
  induction logs generalizing addresses with
  | nil =>
    cases h
    exact ⟨fun _ h => h, nofun⟩
  | cons a logs ih =>
    rw [namedOutboxes] at h
    split at h
    · cases h
    split at h
    · cases h
    split at h
    · cases h
    · rename_i event hd
      obtain ⟨hkeep, hlogs⟩ := ih h
      refine ⟨fun x hx => hkeep x ?_, List.forall_mem_cons.mpr ⟨fun event' he h0 => ?_, hlogs⟩⟩
      · split
        · exact FinSet.mem_insert.mpr (.inr hx)
        · exact hx
      · obtain rfl : event = event' := Except.ok.inj (hd.symm.trans he)
        refine hkeep _ ?_
        rw [if_pos h0]
        exact FinSet.mem_insert.mpr (.inl rfl)

end

/-! ## A read of a range -/

section
variable {W : Type} {H : Env HistoryCall HistoryCall.Answer W}

@[simp] theorem wp_historyAsk (c : HistoryCall) (w : W) (Q : W → Except Error c.Answer → Prop) :
    wp (α := no_index (Except Error c.Answer)) H
        (ExceptT.run (α := no_index c.Answer) (ask c)) w Q ↔
      ∀ a w', H w c a w' → Q w' (.ok a) := wp_run_lift H (call c) w Q

@[simp] theorem wp_orContext {α : Type} (context : Error) (answer : Except String α) (w : W)
    (Q : W → Except Error α → Prop) : wp H (orContext context answer).run w Q ↔
      match answer with
      | .ok a => Q w (.ok a)
      | .error e => Q w (.error (context ++ [e])) := by
  rw [orContext, wp_orThrow]
  cases answer <;> exact Iff.rfl

end

section
variable {codec : HistoryCodec} {chain : HistoryChain} {inbox : Address} {W : Type}
  {H : Env HistoryCall HistoryCall.Answer W} (ht : ∀ w c a w', H w c a w' → Truthful codec chain c a)
include ht

/-- The receipts of a dense block have all its logs. -/
theorem blockLogs_found (number : Nat) (w : W) :
    wp H (blockLogs codec inbox number).run w fun _ r => ∀ found, r = .ok found →
      ∀ tx ∈ chain.transactions number, ∀ log ∈ chain.logs number tx, log.Matches codec inbox →
        log ∈ found := by
  simp only [blockLogs, wp_run_bind, wp_historyAsk, wp_orContext, wp_orMissing, wp_ensure,
    wp_orThrow]
  rintro (e | _ | block) w₁ h₁
  · exact fun _ h => by cases h
  · exact fun _ h => by cases h
  dsimp only
  split
  · rename_i hb
    rintro (e | _ | receipts) w₂ h₂
    · exact fun _ h => by cases h
    · exact fun _ h => by cases h
    dsimp only
    split
    · rename_i hlen
      intro found hf tx htx log hlog hmatch
      have htaken := receiptsLogs_ok hf
      have hblock : block.transactions = chain.transactions number := ht _ _ _ _ h₁ hb.1 hb.2.1
      rw [← hblock] at htx
      obtain ⟨receipt, hr, rfl⟩ := htaken.all hlen tx htx
      rw [hblock] at htx
      exact htaken.found receipt hr log (ht _ _ _ _ h₂ receipt hr htx log hlog) hmatch
    · exact fun _ h => by cases h
  · exact fun _ h => by cases h

theorem readRange_covers (fromBlock toBlock : Nat) (w : W) :
    wp H (readRange codec inbox fromBlock toBlock).run w fun _ r => ∀ addresses, r = .ok addresses →
      Covers codec chain inbox fromBlock toBlock addresses := by
  have hnamed : ∀ (logs : List HistoryLog),
      (∀ n, fromBlock ≤ n → n ≤ toBlock → ∀ tx ∈ chain.transactions n,
        ∀ log ∈ chain.logs n tx, log.Matches codec inbox → log ∈ logs) →
      ∀ addresses, namedOutboxes codec inbox fromBlock toBlock logs ∅ = .ok addresses →
        Covers codec chain inbox fromBlock toBlock addresses := by
    intro logs hlogs addresses ha n hl hh outbox hn h0
    obtain ⟨tx, htx, log, hlog, hmatch, event, hd, rfl⟩ := hn
    exact (namedOutboxes_ok ha).2 log (hlogs n hl hh tx htx log hlog hmatch) event hd h0
  simp only [readRange, wp_run_bind, wp_historyAsk]
  rintro (e | logs) w₁ h₁
  · dsimp only
    split
    · rename_i he
      rw [wp_run_bind]
      refine wp_mono (blockLogs_found ht fromBlock w₁) fun w₂ r hr => ?_
      cases r with
      | error => exact fun _ h => by cases h
      | ok found =>
        simp only [wp_orThrow]
        refine hnamed found fun n hl hh tx htx log hlog hmatch => ?_
        obtain rfl : n = fromBlock := by omega
        exact hr found rfl tx htx log hlog hmatch
    · exact fun _ h => by cases h
  · simp only [wp_run_bind, wp_run_pure, wp_orThrow]
    exact hnamed logs (ht _ _ _ _ h₁)

end

/-! ## Pieces -/

section
variable {codec : HistoryCodec} {inbox : Address} {W : Type}
  {H : Env HistoryCall HistoryCall.Answer W} {P : Nat → Nat → FinSet Address → Prop}
  (hP : ∀ fromBlock toBlock w, wp H (readRange codec inbox fromBlock toBlock).run w fun _ r =>
    ∀ addresses, r = .ok addresses → P fromBlock toBlock addresses)
include hP

/-- A piece starts where it was asked to and ends within the range, and it was read. -/
theorem scan_piece (fromBlock toBlock : Nat) (h : fromBlock ≤ toBlock) (w : W) :
    wp H (scan codec inbox fromBlock toBlock).run w fun _ r => ∀ stop addresses,
      r = .ok (stop, addresses) → fromBlock ≤ stop ∧ stop ≤ toBlock ∧ P fromBlock stop addresses := by
  rw [scan]
  simp only [wp_run_bind, wp_run_lift]
  refine wp_mono (hP fromBlock toBlock w) fun w₁ r hr => ?_
  cases r with
  | ok addresses =>
    rintro stop found he
    cases he
    exact ⟨h, Nat.le_refl _, hr _ rfl⟩
  | error e =>
    dsimp only
    split
    · rename_i hlt
      refine wp_mono (scan_piece fromBlock (fromBlock + (toBlock - fromBlock) / 2) (by omega) w₁)
        fun w₂ r hr stop addresses he => ?_
      obtain ⟨h₁, h₂, hp⟩ := hr stop addresses he
      exact ⟨h₁, by omega, hp⟩
    · exact fun _ _ h => by cases h
termination_by toBlock - fromBlock

/-- The same from the upper end. -/
theorem scanBackwards_piece (fromBlock toBlock : Nat) (h : fromBlock ≤ toBlock) (w : W) :
    wp H (scanBackwards codec inbox fromBlock toBlock).run w fun _ r => ∀ start addresses,
      r = .ok (start, addresses) → fromBlock ≤ start ∧ start ≤ toBlock ∧ P start toBlock addresses := by
  rw [scanBackwards]
  simp only [wp_run_bind, wp_run_lift]
  refine wp_mono (hP fromBlock toBlock w) fun w₁ r hr => ?_
  cases r with
  | ok addresses =>
    rintro start found he
    cases he
    exact ⟨Nat.le_refl _, h, hr _ rfl⟩
  | error e =>
    dsimp only
    split
    · rename_i hlt
      refine wp_mono (scanBackwards_piece (fromBlock + (toBlock - fromBlock + 1) / 2) toBlock
        (by omega) w₁) fun w₂ r hr start addresses he => ?_
      obtain ⟨h₁, h₂, hp⟩ := hr start addresses he
      exact ⟨by omega, h₂, hp⟩
    · exact fun _ _ h => by cases h
termination_by toBlock - fromBlock

end

/-! ## How many queries a piece takes -/

/-- Surroundings that answer anything, and count the log queries. -/
def queries : Env HistoryCall HistoryCall.Answer Nat := fun n c _ n' =>
  match c with
  | .getLogs .. => n' = n + 1
  | _ => n' = n

section
variable {codec : HistoryCodec} {inbox : Address}

theorem blockLogs_queries (number n : Nat) :
    wp queries (blockLogs codec inbox number).run n fun n' _ => n' = n := by
  simp only [blockLogs, wp_run_bind, wp_historyAsk, wp_orContext, wp_orMissing, wp_ensure,
    wp_orThrow]
  rintro (e | _ | block) _ rfl
  · rfl
  · rfl
  dsimp only
  split
  · rintro (e | _ | receipts) _ rfl
    · rfl
    · rfl
    dsimp only
    split <;> rfl
  · rfl

theorem readRange_queries (fromBlock toBlock n : Nat) :
    wp queries (readRange codec inbox fromBlock toBlock).run n fun n' _ => n' = n + 1 := by
  simp only [readRange, wp_run_bind, wp_historyAsk]
  rintro (e | logs) _ rfl
  · dsimp only
    split
    · rw [wp_run_bind]
      refine wp_mono (blockLogs_queries fromBlock (n + 1)) fun n' r hr => ?_
      cases r with
      | error => exact hr
      | ok => simpa using hr
    · rfl
  · simp

theorem size_half {n : Nat} (h : 0 < n) : (n / 2).size + 1 ≤ n.size := by
  have hpos := Nat.size_pos.mpr h
  have hlt := Nat.lt_size_self n
  have hpow : 2 ^ n.size = 2 * 2 ^ (n.size - 1) := by
    rw [← Nat.pow_succ']
    congr 1
    omega
  have hhalf : (n / 2).size ≤ n.size - 1 := Nat.size_le.mpr (by omega)
  omega

/-- Every failure halves what is left of the range. -/
theorem scan_halves (fromBlock toBlock n : Nat) :
    wp queries (scan codec inbox fromBlock toBlock).run n fun n' _ =>
      n' ≤ n + (toBlock - fromBlock).size + 1 := by
  rw [scan]
  simp only [wp_run_bind, wp_run_lift]
  refine wp_mono (readRange_queries fromBlock toBlock n) fun n₁ r hr => ?_
  subst hr
  cases r with
  | ok => simp
  | error e =>
    dsimp only
    split
    · rename_i hlt
      refine wp_mono (scan_halves fromBlock (fromBlock + (toBlock - fromBlock) / 2) (n + 1))
        fun n₂ r hr => ?_
      have hs := size_half (show 0 < toBlock - fromBlock by omega)
      rw [Nat.add_sub_cancel_left] at hr
      omega
    · simp
termination_by toBlock - fromBlock

theorem scanBackwards_halves (fromBlock toBlock n : Nat) :
    wp queries (scanBackwards codec inbox fromBlock toBlock).run n fun n' _ =>
      n' ≤ n + (toBlock - fromBlock).size + 1 := by
  rw [scanBackwards]
  simp only [wp_run_bind, wp_run_lift]
  refine wp_mono (readRange_queries fromBlock toBlock n) fun n₁ r hr => ?_
  subst hr
  cases r with
  | ok => simp
  | error e =>
    dsimp only
    split
    · rename_i hlt
      refine wp_mono (scanBackwards_halves (fromBlock + (toBlock - fromBlock + 1) / 2) toBlock (n + 1))
        fun n₂ r hr => ?_
      have hs := size_half (show 0 < toBlock - fromBlock by omega)
      have he : toBlock - (fromBlock + (toBlock - fromBlock + 1) / 2) = (toBlock - fromBlock) / 2 := by
        omega
      rw [he] at hr
      omega
    · simp
termination_by toBlock - fromBlock

end

end MessageRelayer.Ack

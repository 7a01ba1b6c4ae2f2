import MessageRelayer.Ack.Pieces
import MessageRelayer.Checkpoint.Agree

/-!
# The coverage of a settlement history

Runs of a settlement history and its file (`RouteStep`): it is loaded, seeded
and refreshed, whatever fails, and the process may be gone anywhere. The range
that was scanned is one interval, and every Outbox that its blocks name is
known (`HistoryOk`); both only grow, and what is in memory is what the file says
(`route_history`). Without a file they grow as long as the process lives
(`route_history_forgotten`).
-/

namespace MessageRelayer.Ack

open Prog hiding ask
open HistoryM

/-! ## The surroundings -/

section
variable (codec : HistoryCodec) (chain : HistoryChain)

/-- A node that tells the truth, and a file whose rename is atomic. -/
def historyEnv : Env HistoryCall HistoryCall.Answer (Option HistoryText) := fun file c a file' =>
  Truthful codec chain c a ∧
    match c, a with
    | .file c, a => fileEnv true file c a file'
    | _, _ => file' = file

/-- What is known of a history. -/
structure HistoryOk (inbox : Address) (sourceChainId : Nat) (s : History) : Prop where
  ofInbox : s.inbox = inbox
  ofSource : s.sourceChainId = sourceChainId
  ordered : ∀ low high, s.scanned = some (low, high) → low ≤ high
  covered : ∀ low high, s.scanned = some (low, high) → Covers codec chain inbox low high s.outboxes

end

/-- The interval and the Outboxes only grow. -/
structure Grows (s t : History) : Prop where
  scanned : ∀ low high, s.scanned = some (low, high) →
    ∃ low' high', t.scanned = some (low', high') ∧ low' ≤ low ∧ high ≤ high'
  outboxes : ∀ a ∈ s.outboxes, a ∈ t.outboxes

/-- The history that a file holds. -/
def onDisk (inbox : Address) (sourceChainId : Nat) : Option HistoryText → Option History
  | none => some (.unread inbox sourceChainId)
  | some (.json s) => some s
  | some (.malformed _) => none

theorem Grows.refl (s : History) : Grows s s :=
  ⟨fun low high h => ⟨low, high, h, Nat.le_refl _, Nat.le_refl _⟩, fun _ h => h⟩

theorem Grows.trans {s t u : History} (h : Grows s t) (h' : Grows t u) : Grows s u := by
  refine ⟨fun low high hs => ?_, fun a ha => h'.outboxes a (h.outboxes a ha)⟩
  obtain ⟨low₁, high₁, ht, hl₁, hh₁⟩ := h.scanned low high hs
  obtain ⟨low₂, high₂, hu, hl₂, hh₂⟩ := h'.scanned low₁ high₁ ht
  exact ⟨low₂, high₂, hu, by omega, by omega⟩

/-- Hints do not touch the interval. -/
theorem Grows.hint {s : History} {outboxes : FinSet Address} (h : ∀ a ∈ s.outboxes, a ∈ outboxes) :
    Grows s { s with outboxes } :=
  ⟨(Grows.refl s).scanned, h⟩

section
variable {codec : HistoryCodec} {chain : HistoryChain} {inbox : Address} {sourceChainId : Nat}
  {s : History}

theorem HistoryOk.unread (inbox : Address) (sourceChainId : Nat) :
    HistoryOk codec chain inbox sourceChainId (.unread inbox sourceChainId) :=
  ⟨rfl, rfl, nofun, nofun⟩

theorem HistoryOk.hint (h : HistoryOk codec chain inbox sourceChainId s) {outboxes : FinSet Address}
    (ho : ∀ a ∈ s.outboxes, a ∈ outboxes) :
    HistoryOk codec chain inbox sourceChainId { s with outboxes } :=
  ⟨h.ofInbox, h.ofSource, h.ordered, fun low high hs => (h.covered low high hs).mono ho⟩

/-- A piece that is adjacent to the interval above it. -/
theorem HistoryOk.forward (h : HistoryOk codec chain inbox sourceChainId s) {low high stop : Nat}
    (hs : s.scanned = some (low, high)) (hstop : high < stop) {addresses : FinSet Address}
    (hc : Covers codec chain inbox (high + 1) stop addresses) :
    HistoryOk codec chain inbox sourceChainId
      { s with scanned := some (low, stop), outboxes := s.outboxes ∪ addresses } := by
  refine ⟨h.ofInbox, h.ofSource, fun l u e => ?_, fun l u e => ?_⟩
  · cases e
    have hl := h.ordered low high hs
    omega
  · cases e
    refine Covers.append ((h.covered low high hs).mono fun a ha => ?_) (hc.mono fun a ha => ?_)
    · exact FinSet.mem_union.mpr (.inl ha)
    · exact FinSet.mem_union.mpr (.inr ha)

/-- A piece that is adjacent to the interval below it. -/
theorem HistoryOk.backward (h : HistoryOk codec chain inbox sourceChainId s) {low high start : Nat}
    (hs : s.scanned = some (low, high)) (hlow : 0 < low) (hstart : start ≤ low - 1)
    {addresses : FinSet Address} (hc : Covers codec chain inbox start (low - 1) addresses) :
    HistoryOk codec chain inbox sourceChainId
      { s with scanned := some (start, high), outboxes := s.outboxes ∪ addresses } := by
  refine ⟨h.ofInbox, h.ofSource, fun l u e => ?_, fun l u e => ?_⟩
  · cases e
    have hl := h.ordered low high hs
    omega
  · cases e
    refine Covers.append (hc.mono fun a ha => ?_) ?_
    · exact FinSet.mem_union.mpr (.inr ha)
    · rw [Nat.sub_add_cancel hlow]
      exact (h.covered low high hs).mono fun a ha => FinSet.mem_union.mpr (.inl ha)

/-- The first piece. -/
theorem HistoryOk.begin (h : HistoryOk codec chain inbox sourceChainId s) {start stop : Nat}
    (hle : start ≤ stop) {addresses : FinSet Address}
    (hc : Covers codec chain inbox start stop addresses) :
    HistoryOk codec chain inbox sourceChainId
      { s with scanned := some (start, stop), outboxes := s.outboxes ∪ addresses } := by
  refine ⟨h.ofInbox, h.ofSource, fun l u e => ?_, fun l u e => ?_⟩
  · cases e
    exact hle
  · cases e
    exact hc.mono fun a ha => FinSet.mem_union.mpr (.inr ha)

end

/-! ## What an operation leaves -/

/-- A process whose history is sound, and is what its file holds. -/
structure Held (codec : HistoryCodec) (chain : HistoryChain) (path : Option String) (inbox : Address)
    (sourceChainId : Nat) (file : Option HistoryText) (h : RouteHistory) : Prop where
  atPath : h.path = path
  sound : HistoryOk codec chain inbox sourceChainId h.state
  disk : path.isSome → onDisk inbox sourceChainId file = some h.state

/-- What an operation leaves: the history has grown, and `F` is known of its result. -/
structure Left (codec : HistoryCodec) (chain : HistoryChain) (path : Option String) (inbox : Address)
    (sourceChainId : Nat) (h : RouteHistory) (F : Except Error Unit × RouteHistory → Prop)
    (file : Option HistoryText) (r : Except Error Unit × RouteHistory) : Prop where
  held : Held codec chain path inbox sourceChainId file r.2
  grows : Grows h.state r.2.state
  known : F r

/-- The next history was committed, or nothing was. -/
def Committed (h : RouteHistory) (next : History) (r : Except Error Unit × RouteHistory) : Prop :=
  r = (.ok (), { h with state := next }) ∨ ∃ e, r = (.error e, h)

/-- A hint: it does not touch the interval, and a failed one nothing. -/
def Hinted (h : RouteHistory) (r : Except Error Unit × RouteHistory) : Prop :=
  r.2.state.scanned = h.state.scanned ∧ (r.1 ≠ .ok () → r.2 = h)

/-- One more piece was committed above the interval. -/
def Forwarded (h h' : RouteHistory) : Prop :=
  ∃ low high stop addresses, h.state.scanned = some (low, high) ∧ high < stop ∧
    h' = { h with state := { h.state with scanned := some (low, stop),
                                          outboxes := h.state.outboxes ∪ addresses } }

/-- A refresh that failed left the history as it was, or as the piece above the interval left it. -/
def Refreshed (h : RouteHistory) (r : Except Error Unit × RouteHistory) : Prop :=
  r.1 ≠ .ok () → r.2 = h ∨ Forwarded h r.2

/-- What an operation writes into its file is a sound history that has grown. -/
def Writes (codec : HistoryCodec) (chain : HistoryChain) (inbox : Address) (sourceChainId : Nat)
    (s : History) (_ : Option HistoryText) : HistoryCall → Prop
  | .file (.rename (.json t)) => HistoryOk codec chain inbox sourceChainId t ∧ Grows s t
  | .file (.rename (.malformed _)) | .file .remove => False
  | _ => True

/-- The questions that leave the file alone. -/
def HistoryCall.reads : HistoryCall → Bool
  | file _ => false
  | _ => true

section
variable {codec : HistoryCodec} {chain : HistoryChain} {path : Option String} {inbox : Address}
  {sourceChainId : Nat} {file : Option HistoryText} {h : RouteHistory}
  {F F' : Except Error Unit × RouteHistory → Prop} {s : History}

/-- An operation of a process, by what it leaves and what it writes on the way. -/
def Extends (codec : HistoryCodec) (chain : HistoryChain) (path : Option String) (inbox : Address)
    (sourceChainId : Nat) (file : Option HistoryText) (h : RouteHistory)
    (F : Except Error Unit × RouteHistory → Prop) (p : HistoryProg (Except Error Unit × RouteHistory)) : Prop :=
  wp (historyEnv codec chain) p file (Left codec chain path inbox sourceChainId h F) ∧
    asks (historyEnv codec chain) (Writes codec chain inbox sourceChainId h.state) p file

theorem historyEnv_reads {c : HistoryCall} {a : c.Answer} {file' : Option HistoryText}
    (hc : c.reads = true) (ha : historyEnv codec chain file c a file') : file' = file := by
  cases c with
  | file => cases hc
  | _ => exact ha.2

theorem historyEnv_file {c : FileCall HistoryText} {a : c.Answer} {file' : Option HistoryText}
    (ha : Env.pull (historyEnv codec chain) HistoryCall.file (fun _ a => a) file c a file') :
    fileEnv true file c a file' := by
  obtain ⟨_, ha, rfl⟩ := ha
  exact ha.2

/-- An operation that reads first. -/
theorem Extends.read {α : Type} {q : HistoryProg α}
    {f : α → HistoryProg (Except Error Unit × RouteHistory)} (hq : Only (fun c => c.reads = true) q)
    {Q : α → Prop} (hQ : wp (historyEnv codec chain) q file fun _ a => Q a)
    (hf : ∀ a, Q a → Extends codec chain path inbox sourceChainId file h F (f a)) :
    Extends codec chain path inbox sourceChainId file h F (q >>= f) := by
  have hsame : wp (historyEnv codec chain) q file fun file' a => Q a ∧ file' = file :=
    wp_iff.mpr fun file' a hx => ⟨hx.post hQ,
      hx.only (I := (· = file)) (fun _ c _ _ hc ha e => (historyEnv_reads hc ha).trans e) hq rfl⟩
  refine ⟨?_, asks_bind ?_ ?_⟩
  · rw [wp_bind]
    refine wp_mono hsame fun file' a ha => ?_
    obtain ⟨ha, rfl⟩ := ha
    exact (hf a ha).1
  · refine asks_mono (hq.asks file) fun _ c hc => ?_
    cases c with
    | file => cases hc
    | _ => trivial
  · refine wp_mono hsame fun file' a ha => ?_
    obtain ⟨ha, rfl⟩ := ha
    exact (hf a ha).2

/-- An operation that is over. -/
theorem Extends.done (hh : Held codec chain path inbox sourceChainId file h)
    {r : Except Error Unit} (hr : F (r, h)) :
    Extends codec chain path inbox sourceChainId file h F (pure (r, h)) :=
  ⟨⟨hh, .refl _, hr⟩, trivial⟩

theorem persist_spec (next : History) (file : Option HistoryText) :
    wp (historyEnv codec chain) (RouteHistory.persist next).run file fun file' r =>
      match r with
      | .ok () => file' = some (.json next)
      | .error _ => file' = file := by
  rw [RouteHistory.persist, wp_run_bind]
  simp only [wp_historyAsk]
  rintro (e | _) file₁ ⟨-, rfl⟩
  · simp only [wp_run_bind, wp_orContext]
  simp only [wp_run_bind, wp_orContext, wp_run_mk, wp_embed]
  refine wp_iff.mpr fun file' r hx => ?_
  have hx' : Exec (fileEnv true) (writeAtomic (HistoryText.json next)).run file₁ file' r :=
    hx.map (f := id) fun _ _ _ _ => historyEnv_file
  exact hx'.post (writeAtomic_spec _ _)

theorem asks_persist {next : History} (hn : HistoryOk codec chain inbox sourceChainId next)
    (hg : Grows s next) : asks (historyEnv codec chain)
      (Writes codec chain inbox sourceChainId s) (RouteHistory.persist next).run file := by
  rw [RouteHistory.persist]
  refine asks_run_bind ⟨trivial, fun _ _ _ => trivial⟩ (wp_iff.mpr fun file₁ r _ => ?_)
  cases r with
  | error => trivial
  | ok answer =>
    refine asks_run_bind (asks_orThrow _ _) (wp_iff.mpr fun file₂ r _ => ?_)
    cases r with
    | error => trivial
    | ok =>
      refine asks_embed (asks_writeAtomic (fun _ c hc => ?_) _)
      rcases hc with hc | rfl
      · cases c with
        | rename contents => exact absurd (hc none) nofun
        | remove => exact absurd (hc (some (.json next))) nofun
        | _ => trivial
      · exact ⟨hn, hg⟩

theorem Writes.mono {s t : History} (hst : Grows s t) {c : HistoryCall}
    (h : Writes codec chain inbox sourceChainId t file c) :
    Writes codec chain inbox sourceChainId s file c := by
  cases c with
  | file c =>
    cases c with
    | rename text =>
      cases text with
      | json => exact ⟨h.1, hst.trans h.2⟩
      | malformed => exact h
    | _ => exact h
  | _ => trivial

/-- An operation that goes on with what another one left. -/
theorem Extends.bind {p : HistoryProg (Except Error Unit × RouteHistory)}
    {f : Except Error Unit × RouteHistory → HistoryProg (Except Error Unit × RouteHistory)}
    (hp : Extends codec chain path inbox sourceChainId file h F p)
    (hf : ∀ file' r, Left codec chain path inbox sourceChainId h F file' r →
      Extends codec chain path inbox sourceChainId file' r.2 F' (f r)) :
    Extends codec chain path inbox sourceChainId file h F' (p >>= f) := by
  refine ⟨?_, asks_bind hp.2 ?_⟩
  · rw [wp_bind]
    refine wp_mono hp.1 fun file₁ r hr => ?_
    refine wp_mono (hf file₁ r hr).1 fun file₂ r' hr' => ?_
    exact ⟨hr'.held, hr.grows.trans hr'.grows, hr'.known⟩
  · exact wp_mono hp.1 fun file₁ r hr => asks_mono (hf file₁ r hr).2 fun _ _ => .mono hr.grows

theorem Extends.mono {p : HistoryProg (Except Error Unit × RouteHistory)}
    (hp : Extends codec chain path inbox sourceChainId file h F p) (hF : ∀ r, F r → F' r) :
    Extends codec chain path inbox sourceChainId file h F' p :=
  ⟨wp_mono hp.1 fun _ r hr => ⟨hr.held, hr.grows, hF r hr.known⟩, hp.2⟩

/-- A history that is sound and has grown is committed, or nothing is. -/
theorem commit_extends (hh : Held codec chain path inbox sourceChainId file h) {next : History}
    (hn : HistoryOk codec chain inbox sourceChainId next) (hg : Grows h.state next) :
    Extends codec chain path inbox sourceChainId file h (Committed h next) (h.commit next) := by
  have hpath := hh.atPath
  rw [RouteHistory.commit]
  split
  · rename_i hp
    rw [hpath] at hp
    refine ⟨?_, asks_bind (asks_persist hn hg) (wp_iff.mpr fun _ r _ => ?_)⟩
    · rw [wp_bind]
      refine wp_mono (persist_spec next file) fun file' r hr => ?_
      cases r with
      | ok =>
        refine ⟨⟨hpath, hn, fun _ => ?_⟩, hg, .inl rfl⟩
        rw [show file' = _ from hr]
        rfl
      | error e =>
        obtain rfl : file = file' := hr.symm
        exact ⟨hh, .refl _, .inr ⟨e, rfl⟩⟩
    · cases r <;> trivial
  · rename_i hp
    rw [hpath] at hp
    exact ⟨⟨⟨hpath, hn, fun hs => absurd hs hp⟩, hg, .inl rfl⟩, trivial⟩

/-! ## The operations -/

/-- A commit of a hint, whose flag is set once it succeeded. -/
theorem hint_extends (hh : Held codec chain path inbox sourceChainId file h) {outboxes : FinSet Address}
    (ho : ∀ a ∈ h.state.outboxes, a ∈ outboxes) (flag : RouteHistory → RouteHistory)
    (hflag : ∀ h, (flag h).path = h.path ∧ (flag h).state = h.state) :
    Extends codec chain path inbox sourceChainId file h (Hinted h) (do
      let (r, h) ← h.commit { h.state with outboxes }
      match r with
      | .error e => pure (.error e, h)
      | .ok () => pure (.ok (), flag h)) := by
  refine (commit_extends hh (hh.sound.hint ho) (.hint ho)).bind fun file' r hr => ?_
  rcases hr.known with rfl | ⟨e, rfl⟩
  · obtain ⟨hpath, hstate⟩ := hflag { h with state := { h.state with outboxes } }
    have hheld := hr.held
    refine ⟨⟨⟨hpath.trans hheld.atPath, ?_, ?_⟩, ?_, ?_⟩, trivial⟩
    · rw [hstate]
      exact hheld.sound
    · rw [hstate]
      exact hheld.disk
    · rw [hstate]
      exact .refl _
    · exact ⟨by rw [hstate], fun h => absurd rfl h⟩
  · exact .done hr.held ⟨rfl, fun _ => rfl⟩

theorem seed_extends (hh : Held codec chain path inbox sourceChainId file h) :
    Extends codec chain path inbox sourceChainId file h (Hinted h) h.seed := by
  rw [RouteHistory.seed]
  split
  · exact .done hh ⟨rfl, fun _ => rfl⟩
  · refine .read (Q := fun _ => True) ⟨rfl, fun _ => trivial⟩ (wp_true _ _ _) fun a _ => ?_
    cases a with
    | elapsed => exact .done hh ⟨rfl, fun _ => rfl⟩
    | failed => exact .done hh ⟨rfl, fun _ => rfl⟩
    | done supported =>
      exact hint_extends hh (fun a ha => FinSet.mem_extend.mpr (.inl ha))
        (fun h => { h with inboxSeeded := true }) fun _ => ⟨rfl, rfl⟩

theorem seedValidator_extends (hh : Held codec chain path inbox sourceChainId file h)
    (authority : Address) :
    Extends codec chain path inbox sourceChainId file h (Hinted h) (h.seedValidator authority) := by
  rw [RouteHistory.seedValidator]
  split
  · exact .done hh ⟨rfl, fun _ => rfl⟩
  · refine .read (Q := fun _ => True) ⟨rfl, fun _ => trivial⟩ (wp_true _ _ _) fun a _ => ?_
    cases a with
    | elapsed => exact .done hh ⟨rfl, fun _ => rfl⟩
    | failed => exact .done hh ⟨rfl, fun _ => rfl⟩
    | done outbox =>
      dsimp only
      split
      · exact hint_extends hh (fun a ha => FinSet.mem_insert.mpr (.inr ha))
          (fun h => { h with validatorSeeded := true }) fun _ => ⟨rfl, rfl⟩
      · refine ⟨⟨⟨hh.atPath, hh.sound, hh.disk⟩, .refl _, rfl, fun h => absurd rfl h⟩, trivial⟩

end

section
variable (codec : HistoryCodec) (inbox : Address)

theorem only_ask {c : HistoryCall} (hc : c.reads = true) :
    Only (fun c => c.reads = true) (ask c).run := ⟨hc, fun _ => trivial⟩

theorem blockLogs_reads (number : Nat) :
    Only (fun c => c.reads = true) (blockLogs codec inbox number).run := by
  refine (only_ask rfl).run_bind fun answer => (only_orThrow _).run_bind fun block => ?_
  refine (only_orMissing _ _).run_bind fun block => (only_ensure _ _).run_bind fun _ => ?_
  refine (only_ask rfl).run_bind fun answer => (only_orThrow _).run_bind fun receipts => ?_
  refine (only_orMissing _ _).run_bind fun receipts => (only_ensure _ _).run_bind fun _ => ?_
  exact only_orThrow _

theorem readRange_reads (fromBlock toBlock : Nat) :
    Only (fun c => c.reads = true) (readRange codec inbox fromBlock toBlock).run := by
  refine (only_ask rfl).run_bind fun answer => ?_
  cases answer with
  | ok logs => exact only_orThrow _
  | error e =>
    dsimp only
    split
    · exact (blockLogs_reads codec inbox _).run_bind fun logs => only_orThrow _
    · trivial

theorem scan_reads (fromBlock toBlock : Nat) :
    Only (fun c => c.reads = true) (scan codec inbox fromBlock toBlock).run := by
  rw [scan]
  refine Only.run_bind (Only.bind (readRange_reads codec inbox _ _) fun _ => trivial) fun r => ?_
  cases r with
  | ok => trivial
  | error e =>
    dsimp only
    split
    · exact scan_reads _ _
    · trivial
termination_by toBlock - fromBlock

theorem scanBackwards_reads (fromBlock toBlock : Nat) :
    Only (fun c => c.reads = true) (scanBackwards codec inbox fromBlock toBlock).run := by
  rw [scanBackwards]
  refine Only.run_bind (Only.bind (readRange_reads codec inbox _ _) fun _ => trivial) fun r => ?_
  cases r with
  | ok => trivial
  | error e =>
    dsimp only
    split
    · exact scanBackwards_reads _ _
    · trivial
termination_by toBlock - fromBlock

end

section
variable {codec : HistoryCodec} {chain : HistoryChain} {path : Option String} {inbox : Address}
  {sourceChainId : Nat} {file : Option HistoryText} {h : RouteHistory}

theorem historyEnv_truthful (file : Option HistoryText) (c : HistoryCall) (a : c.Answer)
    (file' : Option HistoryText) (h : historyEnv codec chain file c a file') :
    Truthful codec chain c a := h.1

/-- An operation that scans upwards first. -/
theorem Extends.scan {F : Except Error Unit × RouteHistory → Prop} {fromBlock toBlock : Nat}
    (hle : fromBlock ≤ toBlock)
    {f : Except Error (Nat × FinSet Address) → HistoryProg (Except Error Unit × RouteHistory)}
    (hf : ∀ r, (∀ stop addresses, r = .ok (stop, addresses) → fromBlock ≤ stop ∧ stop ≤ toBlock ∧
        Covers codec chain inbox fromBlock stop addresses) →
      Extends codec chain path inbox sourceChainId file h F (f r)) :
    Extends codec chain path inbox sourceChainId file h F
      ((Ack.scan codec inbox fromBlock toBlock).run >>= f) := by
  refine .read (scan_reads codec inbox fromBlock toBlock) ?_ hf
  exact scan_piece (fun a b w => readRange_covers historyEnv_truthful a b w) fromBlock toBlock hle file

/-- An operation that scans downwards first. -/
theorem Extends.scanBackwards {F : Except Error Unit × RouteHistory → Prop} {fromBlock toBlock : Nat}
    (hle : fromBlock ≤ toBlock)
    {f : Except Error (Nat × FinSet Address) → HistoryProg (Except Error Unit × RouteHistory)}
    (hf : ∀ r, (∀ start addresses, r = .ok (start, addresses) → start ≤ toBlock ∧
        Covers codec chain inbox start toBlock addresses) →
      Extends codec chain path inbox sourceChainId file h F (f r)) :
    Extends codec chain path inbox sourceChainId file h F
      ((Ack.scanBackwards codec inbox fromBlock toBlock).run >>= f) := by
  refine .read (scanBackwards_reads codec inbox fromBlock toBlock) ?_ hf
  exact wp_mono (scanBackwards_piece (fun a b w => readRange_covers historyEnv_truthful a b w) fromBlock
    toBlock hle file) fun _ r hr start addresses he => (hr start addresses he).2

theorem forward_extends (hh : Held codec chain path inbox sourceChainId file h) {low high confirmed : Nat}
    (hs : h.state.scanned = some (low, high)) (hc : confirmed ≤ u64Max) :
    Extends codec chain path inbox sourceChainId file h
      (fun r => (r.2 = h ∨ Forwarded h r.2) ∧ ∃ high', r.2.state.scanned = some (low, high'))
      (h.forward codec low high confirmed) := by
  have hstay : ∃ high', h.state.scanned = some (low, high') := ⟨high, hs⟩
  rw [RouteHistory.forward]
  split
  · rename_i hlt
    have hle : high + 1 ≤ min confirmed (satAdd64 high historyScanBlocks) := by
      simp only [satAdd64, historyScanBlocks]
      omega
    rw [hh.sound.ofInbox]
    refine .scan hle fun r hr => ?_
    cases r with
    | error e => exact .done hh ⟨.inl rfl, hstay⟩
    | ok piece =>
      obtain ⟨stop, addresses⟩ := piece
      obtain ⟨hl, -, hcov⟩ := hr stop addresses rfl
      refine (commit_extends hh (hh.sound.forward hs hl hcov) ⟨fun l u e => ?_, fun a ha => ?_⟩).mono
        fun r hr => ?_
      · rw [hs] at e
        cases e
        exact ⟨low, stop, rfl, Nat.le_refl _, by omega⟩
      · exact FinSet.mem_union.mpr (.inl ha)
      · rcases hr with rfl | ⟨e, rfl⟩
        · exact ⟨.inr ⟨low, high, stop, addresses, hs, hl, rfl⟩, stop, rfl⟩
        · exact ⟨.inl rfl, hstay⟩
  · exact .done hh ⟨.inl rfl, hstay⟩

theorem backward_extends (hh : Held codec chain path inbox sourceChainId file h) {low high : Nat}
    (hs : h.state.scanned = some (low, high)) :
    Extends codec chain path inbox sourceChainId file h (fun r => r.1 ≠ .ok () → r.2 = h)
      (h.backward codec low high) := by
  rw [RouteHistory.backward]
  split
  · rename_i hlow
    have hle : low - historyScanBlocks ≤ low - 1 := by
      simp only [historyScanBlocks]
      omega
    rw [hh.sound.ofInbox]
    refine .scanBackwards hle fun r hr => ?_
    cases r with
    | error e => exact .done hh fun _ => rfl
    | ok piece =>
      obtain ⟨start, addresses⟩ := piece
      obtain ⟨hstart, hcov⟩ := hr start addresses rfl
      refine (commit_extends hh (hh.sound.backward hs hlow hstart hcov)
        ⟨fun l u e => ?_, fun a ha => ?_⟩).mono fun r hr => ?_
      · rw [hs] at e
        cases e
        exact ⟨start, high, rfl, by omega, Nat.le_refl _⟩
      · exact FinSet.mem_union.mpr (.inl ha)
      · rcases hr with rfl | ⟨e, rfl⟩
        · exact fun h => absurd rfl h
        · exact fun _ => rfl
  · exact .done hh fun _ => rfl

theorem begin_extends (hh : Held codec chain path inbox sourceChainId file h) (confirmed : Nat)
    (hs : h.state.scanned = none) :
    Extends codec chain path inbox sourceChainId file h (fun r => r.1 ≠ .ok () → r.2 = h)
      (h.begin codec confirmed) := by
  have hle : confirmed - (historyScanBlocks - 1) ≤ confirmed := Nat.sub_le _ _
  rw [RouteHistory.begin, hh.sound.ofInbox]
  refine .scanBackwards hle fun r hr => ?_
  cases r with
  | error e => exact .done hh fun _ => rfl
  | ok piece =>
    obtain ⟨start, addresses⟩ := piece
    obtain ⟨hstart, hcov⟩ := hr start addresses rfl
    refine (commit_extends hh (hh.sound.begin hstart hcov) ⟨fun l u e => ?_, fun a ha => ?_⟩).mono
      fun r hr => ?_
    · rw [hs] at e
      cases e
    · exact FinSet.mem_union.mpr (.inl ha)
    · rcases hr with rfl | ⟨e, rfl⟩
      · exact fun h => absurd rfl h
      · exact fun _ => rfl

theorem refresh_extends (hh : Held codec chain path inbox sourceChainId file h)
    (confirmationDepth : Nat) :
    Extends codec chain path inbox sourceChainId file h (Refreshed h)
      (h.refresh codec confirmationDepth) := by
  rw [RouteHistory.refresh]
  refine .read (Q := fun _ => True) ⟨rfl, fun _ => trivial⟩ (wp_true _ _ _) fun a _ => ?_
  cases a with
  | error e => exact .done hh fun _ => .inl rfl
  | ok tip =>
    have hc : tip.val - confirmationDepth ≤ u64Max := Nat.le_trans (Nat.sub_le _ _) tip.property
    dsimp only
    split
    · rename_i hs
      exact (begin_extends hh _ hs).mono fun r hr hf => .inl (hr hf)
    · rename_i low high hs
      refine (forward_extends hh hs hc).bind fun file' r hr => ?_
      obtain ⟨r, h'⟩ := r
      obtain ⟨hforward, high', hs'⟩ := hr.known
      cases r with
      | error e => exact .done hr.held fun _ => hforward
      | ok =>
        dsimp only at hs' ⊢
        rw [hs']
        refine (backward_extends hr.held hs').mono fun r hr hf => ?_
        rw [hr hf]
        exact hforward

end

/-! ## Runs -/

inductive HistoryOp where
  | seed
  | seedValidator (authority : Address)
  | refresh (confirmationDepth : Nat)

namespace HistoryOp

def prog (codec : HistoryCodec) (h : RouteHistory) :
    HistoryOp → HistoryProg (Except Error Unit × RouteHistory)
  | seed => h.seed
  | seedValidator authority => h.seedValidator authority
  | refresh confirmationDepth => h.refresh codec confirmationDepth

/-- What is known of the result of an operation. -/
def Known (h : RouteHistory) (r : Except Error Unit × RouteHistory) : HistoryOp → Prop
  | seed | seedValidator _ => Hinted h r
  | refresh _ => Refreshed h r

end HistoryOp

structure RouteHost where
  file : Option HistoryText
  /-- The process, where there is one. -/
  running : Option RouteHistory

inductive RouteEvent where
  | loaded
  | ran (op : HistoryOp) (before : RouteHistory) (r : Except Error Unit) (after : RouteHistory)
  | gone

inductive RouteStep (codec : HistoryCodec) (chain : HistoryChain) (path : Option String)
    (inbox : Address) (sourceChainId : Nat) : RouteHost → RouteEvent → RouteHost → Prop where
  | load {s : RouteHost} {file' : Option HistoryText} {r : Except Error RouteHistory}
      (hr : s.running = none)
      (hx : Exec (historyEnv codec chain) (RouteHistory.load path inbox sourceChainId).run s.file
        file' r) :
      RouteStep codec chain path inbox sourceChainId s .loaded ⟨file', r.toOption⟩
  | run {s : RouteHost} {h h' : RouteHistory} {op : HistoryOp} {file' : Option HistoryText}
      {r : Except Error Unit} (hr : s.running = some h)
      (hx : Exec (historyEnv codec chain) (op.prog codec h) s.file file' (r, h')) :
      RouteStep codec chain path inbox sourceChainId s (.ran op h r h') ⟨file', some h'⟩
  /-- The process is gone, maybe in the middle of an operation. -/
  | gone {s : RouteHost} {h : RouteHistory} {op : HistoryOp} {file' : Option HistoryText}
      (hr : s.running = some h) (hx : Cut (historyEnv codec chain) (op.prog codec h) s.file file') :
      RouteStep codec chain path inbox sourceChainId s .gone ⟨file', none⟩

/-- Neither a file nor a process. -/
def RouteHost.fresh : RouteHost := ⟨none, none⟩

/-- What holds between two steps. -/
structure HostOk (codec : HistoryCodec) (chain : HistoryChain) (path : Option String)
    (inbox : Address) (sourceChainId : Nat) (s : RouteHost) : Prop where
  file : path.isSome → ∃ d, onDisk inbox sourceChainId s.file = some d ∧
    HistoryOk codec chain inbox sourceChainId d
  running : ∀ h, s.running = some h → Held codec chain path inbox sourceChainId s.file h

section
variable {codec : HistoryCodec} {chain : HistoryChain} {path : Option String} {inbox : Address}
  {sourceChainId : Nat} {s t : RouteHost} {e : RouteEvent} {l : List RouteEvent}

theorem HostOk.init : HostOk codec chain path inbox sourceChainId .fresh :=
  ⟨fun _ => ⟨_, rfl, .unread inbox sourceChainId⟩, nofun⟩

theorem op_extends {file : Option HistoryText} {h : RouteHistory}
    (hh : Held codec chain path inbox sourceChainId file h) (op : HistoryOp) :
    Extends codec chain path inbox sourceChainId file h (fun r => op.Known h r) (op.prog codec h) := by
  cases op with
  | seed => exact seed_extends hh
  | seedValidator authority => exact seedValidator_extends hh authority
  | refresh depth => exact refresh_extends hh depth

/-- What is loaded is what the file holds. -/
theorem load_held (hs : HostOk codec chain path inbox sourceChainId s) :
    wp (historyEnv codec chain) (RouteHistory.load path inbox sourceChainId).run s.file
      fun file' r => file' = s.file ∧
        ∀ h, r = .ok h → Held codec chain path inbox sourceChainId file' h := by
  cases path with
  | none =>
    refine ⟨rfl, fun h he => ?_⟩
    cases he
    exact ⟨rfl, .unread _ _, fun h => by cases h⟩
  | some p =>
    obtain ⟨d, hd, hsound⟩ := hs.file rfl
    simp only [RouteHistory.load, wp_run_bind, wp_historyAsk]
    rintro a file' ⟨-, ha⟩
    rcases a with (_ | e) | e | state
    · obtain ⟨hf, rfl⟩ : s.file = none ∧ file' = s.file := ha
      refine ⟨rfl, fun h he => ?_⟩
      cases he
      exact ⟨rfl, .unread _ _, fun _ => by rw [hf]; rfl⟩
    · exact ⟨ha, fun _ h => by cases h⟩
    · exact ⟨ha.2, fun _ h => by cases h⟩
    · obtain ⟨hf, rfl⟩ : s.file = some (.json state) ∧ file' = s.file := ha
      rw [hf] at hd
      cases hd
      dsimp only
      split
      · exact ⟨rfl, fun _ h => by cases h⟩
      · split
        · exact ⟨rfl, fun _ h => by cases h⟩
        · refine ⟨rfl, fun h he => ?_⟩
          cases he
          exact ⟨rfl, hsound, fun _ => by rw [hf]; rfl⟩

/-- Where an operation is cut, the file holds a sound history that has grown. -/
theorem cut_sound {h : RouteHistory} {op : HistoryOp} {file' : Option HistoryText}
    (hs : HostOk codec chain path inbox sourceChainId s) (hr : s.running = some h)
    (hx : Cut (historyEnv codec chain) (op.prog codec h) s.file file') (hp : path.isSome) :
    ∃ d, onDisk inbox sourceChainId file' = some d ∧ HistoryOk codec chain inbox sourceChainId d ∧
      Grows h.state d := by
  have hh := hs.running h hr
  refine hx.asked (I := fun f => ∃ d, onDisk inbox sourceChainId f = some d ∧
    HistoryOk codec chain inbox sourceChainId d ∧ Grows h.state d) (fun f c a f' hw ha hf => ?_)
    (op_extends hh op).2 ⟨h.state, hh.disk hp, hh.sound, .refl _⟩
  cases c with
  | file c =>
    have ha := ha.2
    cases c with
    | rename text =>
      cases text with
      | malformed => exact hw.elim
      | json next =>
        cases a with
        | ok =>
          rw [show f' = some (.json next) from ha]
          exact ⟨next, rfl, hw⟩
        | error =>
          rcases ha with rfl | ⟨hexact, -⟩
          · exact hf
          · cases hexact
    | remove => exact hw.elim
    | read =>
      have hsame : f' = f := by rcases a with (_ | _) | _ <;> first | exact ha | exact ha.2
      rwa [hsame]
    | createDirAll | writeTmp | syncDir =>
      have hsame : f' = f := by
        cases a with
        | ok => exact ha
        | error => exact ha.elim id And.right
      rwa [hsame]
  | _ =>
    rw [show f' = f from ha.2]
    exact hf

theorem of_toOption {ε α : Type} {r : Except ε α} {a : α} (h : r.toOption = some a) : r = .ok a := by
  cases r with
  | error => cases h
  | ok => exact congrArg Except.ok (Option.some.inj h)

theorem HostOk.step (hs : HostOk codec chain path inbox sourceChainId s)
    (ht : RouteStep codec chain path inbox sourceChainId s e t) :
    HostOk codec chain path inbox sourceChainId t := by
  cases ht with
  | load hr hx =>
    obtain ⟨rfl, hheld⟩ := hx.post (load_held hs)
    exact ⟨hs.file, fun h he => hheld h (of_toOption he)⟩
  | run hr hx =>
    have hh := (hx.post (op_extends (hs.running _ hr) _).1).held
    exact ⟨fun hp => ⟨_, hh.disk hp, hh.sound⟩, fun h he => by cases he; exact hh⟩
  | gone hr hx =>
    refine ⟨fun hp => ?_, nofun⟩
    obtain ⟨d, hd, hsound, -⟩ := cut_sound hs hr hx hp
    exact ⟨d, hd, hsound⟩

/-- With a file, what it holds grows. -/
theorem HostOk.grows (hs : HostOk codec chain path inbox sourceChainId s)
    (ht : RouteStep codec chain path inbox sourceChainId s e t) (hp : path.isSome) {d : History}
    (hd : onDisk inbox sourceChainId s.file = some d) :
    ∃ d', onDisk inbox sourceChainId t.file = some d' ∧ Grows d d' := by
  have hrunning : ∀ h, s.running = some h → h.state = d := fun h hr =>
    Option.some.inj (((hs.running h hr).disk hp).symm.trans hd)
  cases ht with
  | load hr hx =>
    obtain ⟨rfl, -⟩ := hx.post (load_held hs)
    exact ⟨d, hd, .refl d⟩
  | run hr hx =>
    have hleft := hx.post (op_extends (hs.running _ hr) _).1
    exact ⟨_, hleft.held.disk hp, hrunning _ hr ▸ hleft.grows⟩
  | gone hr hx =>
    obtain ⟨d', hd', -, hg⟩ := cut_sound hs hr hx hp
    exact ⟨d', hd', hrunning _ hr ▸ hg⟩

theorem HostOk.run (hs : HostOk codec chain path inbox sourceChainId s)
    (h : Run (RouteStep codec chain path inbox sourceChainId) s l t) :
    HostOk codec chain path inbox sourceChainId t :=
  h.inv (fun _ _ _ ha hs => hs.step ha) hs

/-- Over any run with a file, and over any run of one process, the history grows. -/
theorem run_grows (hs : HostOk codec chain path inbox sourceChainId s)
    (h : Run (RouteStep codec chain path inbox sourceChainId) s l t)
    (hp : path.isSome ∨ .gone ∉ l) {h₁ h₂ : RouteHistory} (h₁s : s.running = some h₁)
    (h₂t : t.running = some h₂) : Grows h₁.state h₂.state := by
  rcases hp with hp | hg
  · have hd := (hs.running h₁ h₁s).disk hp
    have hinv := h.inv (I := fun t => HostOk codec chain path inbox sourceChainId t ∧
      ∃ d', onDisk inbox sourceChainId t.file = some d' ∧ Grows h₁.state d') (fun s e t ha hi => by
        obtain ⟨hok, d', hd', hgrows⟩ := hi
        obtain ⟨d'', hd'', hgrows'⟩ := hok.grows ha hp hd'
        exact ⟨hok.step ha, d'', hd'', hgrows.trans hgrows'⟩) ⟨hs, _, hd, .refl _⟩
    obtain ⟨hok, d', hd', hgrows⟩ := hinv
    obtain rfl := Option.some.inj (((hok.running h₂ h₂t).disk hp).symm.trans hd')
    exact hgrows
  · have hinv := h.hist (I := fun l t => .gone ∉ l →
      HostOk codec chain path inbox sourceChainId t ∧
        ∃ h', t.running = some h' ∧ Grows h₁.state h'.state) (fun l s e t ha hi hg => by
        rw [List.mem_append, not_or] at hg
        obtain ⟨hok, h', hr', hgrows⟩ := hi hg.1
        refine ⟨hok.step ha, ?_⟩
        cases ha with
        | load hr hx =>
          rw [hr'] at hr
          cases hr
        | run hr hx =>
          obtain rfl := Option.some.inj (hr'.symm.trans hr)
          exact ⟨_, rfl, hgrows.trans (hx.post (op_extends (hok.running _ hr) _).1).grows⟩
        | gone => exact absurd (List.mem_singleton.mpr rfl) hg.2) fun _ => ⟨hs, h₁, h₁s, .refl _⟩
    obtain ⟨-, h', hr', hgrows⟩ := hinv hg
    obtain rfl := Option.some.inj (h₂t.symm.trans hr')
    exact hgrows

/-- What is known of the operations of a run. -/
theorem run_known (h : Run (RouteStep codec chain path inbox sourceChainId) .fresh l s) :
    ∀ op h r h', .ran op h r h' ∈ l → op.Known h (r, h') := by
  have hinv := h.hist (I := fun l t => HostOk codec chain path inbox sourceChainId t ∧
    ∀ op h r h', .ran op h r h' ∈ l → op.Known h (r, h')) (fun l s e t ha hi => by
      refine ⟨hi.1.step ha, fun op h r h' hm => ?_⟩
      rcases List.mem_append.mp hm with hm | hm
      · exact hi.2 op h r h' hm
      · obtain rfl := List.mem_singleton.mp hm
        cases ha with
        | run hr hx => exact (hx.post (op_extends (hi.1.running _ hr) _).1).known)
    ⟨.init, fun _ _ _ _ hm => absurd hm List.not_mem_nil⟩
  exact hinv.2

/-- In every run, whatever of the node and the disk fails. The interval is one and every Outbox that
its blocks name is known, and what is in memory is what the file says; both grow, over restarts where
there is a file; a hint does not touch the interval, and what failed committed nothing, or only the
piece above the interval; and a piece is found adjacent, after logarithmically many queries. -/
theorem route_history (h : Run (RouteStep codec chain path inbox sourceChainId) .fresh l s) :
    (∀ h, s.running = some h →
      (∀ low high, h.state.scanned = some (low, high) →
        low ≤ high ∧ Covers codec chain inbox low high h.state.outboxes) ∧
      (path.isSome → onDisk inbox sourceChainId s.file = some h.state)) ∧
    (∀ l' t, Run (RouteStep codec chain path inbox sourceChainId) s l' t →
      path.isSome ∨ .gone ∉ l' → ∀ h h', s.running = some h → t.running = some h' →
        Grows h.state h'.state) ∧
    (∀ op h r h', .ran op h r h' ∈ l → op.Known h (r, h')) ∧
    ∀ fromBlock toBlock, fromBlock ≤ toBlock → ∀ n r,
      (Exec queries (scan codec inbox fromBlock toBlock).run 0 n r →
        n ≤ (toBlock - fromBlock).size + 1 ∧
        ∀ stop addresses, r = .ok (stop, addresses) → fromBlock ≤ stop ∧ stop ≤ toBlock) ∧
      (Exec queries (scanBackwards codec inbox fromBlock toBlock).run 0 n r →
        n ≤ (toBlock - fromBlock).size + 1 ∧
        ∀ start addresses, r = .ok (start, addresses) → fromBlock ≤ start ∧ start ≤ toBlock) := by
  have hok := HostOk.init.run h
  have hread : ∀ fromBlock toBlock n, wp queries (readRange codec inbox fromBlock toBlock).run n
      fun _ r => ∀ addresses, r = .ok addresses → True := fun _ _ _ => wp_iff.mpr fun _ _ _ _ _ => trivial
  refine ⟨fun h hr => ?_, fun l' t hrun hp h h' hr hr' => run_grows hok hrun hp hr hr', run_known h,
    fun fromBlock toBlock hle n r => ⟨fun hx => ⟨?_, ?_⟩, fun hx => ⟨?_, ?_⟩⟩⟩
  · have hh := hok.running h hr
    exact ⟨fun low high hs => ⟨hh.sound.ordered low high hs, hh.sound.covered low high hs⟩, hh.disk⟩
  · have hn := hx.post (scan_halves fromBlock toBlock 0)
    omega
  · exact fun stop addresses he => (hx.post (scan_piece hread fromBlock toBlock hle 0) stop addresses he).imp
      id And.left
  · have hn := hx.post (scanBackwards_halves fromBlock toBlock 0)
    omega
  · exact fun start addresses he =>
      (hx.post (scanBackwards_piece hread fromBlock toBlock hle 0) start addresses he).imp id And.left

end

/-! ## A history without a file -/

def demoSupport : HistoryCodec := ⟨1, fun _ _ => .ok ⟨5, false⟩⟩

/-- An Outbox was removed in block 3. -/
def demoRemoval : HistoryLog := ⟨6, [1], [], some 3, some 8, some 9, some 0, some 0, false⟩

def demoBlocks : HistoryChain where
  transactions n := if n = 3 then [9] else []
  logs _ _ := [demoRemoval]

def demoLoaded : RouteHistory := .of none (.unread 6 42)

/-- The blocks up to 10 were scanned. -/
def demoScanned : RouteHistory :=
  { demoLoaded with state := { demoLoaded.state with scanned := some (0, 10),
                                                     outboxes := ∅ ∪ (∅ : FinSet Address).insert 5 } }

theorem demoLoaded_step : RouteStep demoSupport demoBlocks none 6 42 .fresh .loaded
    ⟨none, some demoLoaded⟩ := .load (r := .ok demoLoaded) rfl .ret

theorem demoScanned_run : Run (RouteStep demoSupport demoBlocks none 6 42) .fresh
    [.loaded, .ran (.refresh 0) demoLoaded (.ok ()) demoScanned] ⟨none, some demoScanned⟩ := by
  have hlogs : historyEnv demoSupport demoBlocks none (.getLogs 6 0 10) (.ok [demoRemoval]) none :=
    ⟨fun _ _ _ _ _ log hlog _ => hlog, rfl⟩
  have hscan : Exec (historyEnv demoSupport demoBlocks) (scanBackwards demoSupport 6 0 10).run none none
      (.ok (0, (∅ : FinSet Address).insert 5)) := by
    rw [scanBackwards]
    exact .ask hlogs .ret
  have hbegin : Exec (historyEnv demoSupport demoBlocks) (demoLoaded.begin demoSupport 10) none none
      (.ok (), demoScanned) := hscan.bind .ret
  have htip : historyEnv demoSupport demoBlocks none .blockNumber (.ok ⟨10, by decide⟩) none :=
    ⟨trivial, rfl⟩
  have hx : Exec (historyEnv demoSupport demoBlocks)
      ((HistoryOp.refresh 0).prog demoSupport demoLoaded) none none (.ok (), demoScanned) :=
    .ask htip hbegin
  exact .snoc (.single demoLoaded_step) (.run rfl hx)

theorem route_history_scanned : (5 : Address) ∈ demoScanned.state.outboxes := by
  have hknown := ((route_history demoScanned_run).1 demoScanned rfl).1 0 10 rfl
  refine hknown.2 3 (by decide) (by decide) 5 ⟨9, by decide, demoRemoval, ?_, ?_⟩ (by decide)
  · exact List.mem_singleton.mpr rfl
  · exact ⟨⟨rfl, rfl⟩, ⟨5, false⟩, rfl, rfl⟩

/-- Without a file, the next process knows nothing. -/
theorem route_history_forgotten : ¬ ∀ (codec : HistoryCodec) (chain : HistoryChain)
    (path : Option String) (inbox : Address) (sourceChainId : Nat) (l l' : List RouteEvent)
    (s t : RouteHost), Run (RouteStep codec chain path inbox sourceChainId) .fresh l s →
      Run (RouteStep codec chain path inbox sourceChainId) s l' t →
        ∀ h h', s.running = some h → t.running = some h' → Grows h.state h'.state := by
  intro h
  have hcut : Cut (historyEnv demoSupport demoBlocks) (HistoryOp.seed.prog demoSupport demoScanned)
      none none := .here
  have hgone : RouteStep demoSupport demoBlocks none 6 42 ⟨none, some demoScanned⟩ .gone .fresh :=
    .gone rfl hcut
  have hgrows := h _ _ _ _ _ _ _ _ _ demoScanned_run (.snoc (.single hgone) demoLoaded_step)
    demoScanned demoLoaded rfl rfl
  obtain ⟨_, _, hs, -⟩ := hgrows.scanned 0 10 rfl
  cases hs

end MessageRelayer.Ack

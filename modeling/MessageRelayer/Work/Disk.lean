import MessageRelayer.Checkpoint
import MessageRelayer.Delivery.Job
import MessageRelayer.Work.Facts

/-!
# The records on disk

The records of unfinished messages as the calls of the store leave them
(`diskEnv`): a call that succeeded took effect, one that failed may have. A
message is kept (`Disk.Kept`) while its record is on disk, and after its record
was removed for a final result. Every call that an operation of the store
makes keeps all that was kept (`WorkCall.body_allowed`), and a message is kept
once `record` has succeeded (`WorkCall.body_done`), whatever happens in
between.
-/

namespace MessageRelayer

open Prog

/-! ## The disk -/

/-- The files of the relayer. -/
structure Disk where
  records : ChainKey → B256 → Option IndexedMessage
  checkpoint : Option CheckpointText
  /-- Not a file: the result for which a record was removed last. -/
  removed : ChainKey → B256 → Option DeliveryResult

def setAt {α : Type} (f : ChainKey → B256 → α) (chainKey : ChainKey) (id : B256) (a : α) :
    ChainKey → B256 → α :=
  fun c i => if c = chainKey ∧ i = id then a else f c i

/-- The disk after a call that did what it is for; `cause` is the result that it is made for. -/
def Disk.done (d : Disk) (cause : Option DeliveryResult) : FsCall → Disk
  | .rename chainKey id message =>
    { d with
      records := setAt d.records chainKey id (some message)
      removed := setAt d.removed chainKey id none }
  | .removeFile chainKey id =>
    if (d.records chainKey id).isSome then
      { d with
        records := setAt d.records chainKey id none
        removed := setAt d.removed chainKey id cause }
    else d
  | .createDir _ | .createDirAll _ | .tryExists .. | .writeTmp .. | .syncDir _ | .readDir _
  | .read .. => d

/-- The file system: a call that succeeded took effect, and one that failed may have. -/
def diskEnv (cause : Option DeliveryResult) : Env FsCall FsCall.Answer Disk := fun d c a d' =>
  match a with
  | .ok _ => d' = d.done cause c
  | .error _ => d' = d ∨ d' = d.done cause c

/-- A message with a record, or whose record was removed for a final result of its own. -/
def Disk.Kept (d : Disk) (chainKey : ChainKey) (id : B256) : Prop :=
  (∃ message, d.records chainKey id = some message ∧ message.chainKey = chainKey ∧
    message.messageId = id) ∨
  ∃ result, d.removed chainKey id = some result ∧ result.chainKey = chainKey ∧
    result.messageId = id ∧ result.outcome.final = true

/-- What was kept is kept. -/
def Disk.Keeps (d d' : Disk) : Prop := ∀ chainKey id, d.Kept chainKey id → d'.Kept chainKey id

theorem Disk.Keeps.rfl {d : Disk} : d.Keeps d := fun _ _ => id

theorem Disk.Keeps.trans {d d' d'' : Disk} (h : d.Keeps d') (h' : d'.Keeps d'') : d.Keeps d'' :=
  fun chainKey id hk => h' chainKey id (h chainKey id hk)

/-- The calls that keep what was kept: records are written under their own names, and removed for
final results of their messages. -/
def FsCall.Allowed (cause : Option DeliveryResult) : FsCall → Prop
  | .rename chainKey id message => message.chainKey = chainKey ∧ message.messageId = id
  | .removeFile chainKey id => ∃ result, cause = some result ∧ result.chainKey = chainKey ∧
      result.messageId = id ∧ result.outcome.final = true
  | .createDir _ | .createDirAll _ | .tryExists .. | .writeTmp .. | .syncDir _ | .readDir _
  | .read .. => True

theorem Disk.kept_rename (d : Disk) (cause : Option DeliveryResult) (message : IndexedMessage) :
    (d.done cause (.rename message.chainKey message.messageId message)).Kept message.chainKey
      message.messageId :=
  .inl ⟨message, by simp [Disk.done, setAt], rfl, rfl⟩

theorem Disk.keeps_done {d : Disk} {cause : Option DeliveryResult} {c : FsCall}
    (h : c.Allowed cause) : d.Keeps (d.done cause c) := by
  intro chainKey id hk
  cases c with
  | rename chainKey' id' message =>
    by_cases e : chainKey = chainKey' ∧ id = id'
    · obtain ⟨rfl, rfl⟩ := e
      obtain ⟨rfl, rfl⟩ := h
      exact d.kept_rename cause message
    · simpa [Disk.Kept, Disk.done, setAt, e] using hk
  | removeFile chainKey' id' =>
    simp only [Disk.done]
    split
    · by_cases e : chainKey = chainKey' ∧ id = id'
      · obtain ⟨rfl, rfl⟩ := e
        obtain ⟨result, rfl, hr⟩ := h
        exact .inr ⟨result, by simp [setAt], hr⟩
      · simpa [Disk.Kept, setAt, e] using hk
    · exact hk
  | _ => exact hk

theorem diskEnv_keeps {cause : Option DeliveryResult} {d d' : Disk} {c : FsCall} {a : c.Answer}
    (ha : diskEnv cause d c a d') (h : c.Allowed cause) : d.Keeps d' := by
  unfold diskEnv at ha
  split at ha
  · rw [ha]; exact Disk.keeps_done h
  · rcases ha with rfl | rfl
    · exact .rfl
    · exact Disk.keeps_done h

/-! ## The calls of the operations -/

namespace WorkM

variable {σ τ α β : Type} {P : FsCall → Prop}

/-- Every call that an operation makes satisfies `P`. -/
def Only (P : FsCall → Prop) (m : WorkM σ α) : Prop := ∀ s, Prog.Only P (m.run.run s)

theorem only_pure (a : α) : Only P (pure a : WorkM σ α) := fun _ => trivial

theorem only_throw (e : Error) : Only P (throw e : WorkM σ α) := fun _ => trivial

theorem only_bind {m : WorkM σ α} {f : α → WorkM σ β} (hm : Only P m) (hf : ∀ a, Only P (f a)) :
    Only P (m >>= f) := by
  intro s
  rw [ExceptT.run_bind, StateT.run_bind]
  refine (hm s).bind fun r => ?_
  obtain ⟨_ | a, s'⟩ := r
  · trivial
  · exact hf a s'

theorem only_fs {c : FsCall} (h : P c) : Only P (fs c : WorkM σ c.Answer) :=
  fun _ => ⟨h, fun _ => trivial⟩

theorem only_io {c : FsCall} (context : Error) (h : P c) : Only P (io context c : WorkM σ c.Result) :=
  only_bind (only_fs h) fun a => by cases a <;> exact fun _ => trivial

theorem only_peek : Only P (peek : WorkM σ σ) := fun _ => trivial

theorem only_update (f : σ → σ) : Only P (update f) := fun _ => trivial

theorem only_zoom {part : τ} {put : σ → τ → σ} {m : WorkM τ α} (h : Only P m) :
    Only P (zoom part put m) := fun _ => (h part).bind fun _ => trivial

end WorkM

open WorkM

namespace WorkStore

variable {P : FsCall → Prop}

theorem record_only {message : IndexedMessage} (hr : P (.rename message.chainKey message.messageId message))
    (h : ∀ c, (∀ chainKey id m, c ≠ .rename chainKey id m) → (∀ chainKey id, c ≠ .removeFile chainKey id) →
      P c) : Only P (record message) := by
  have hp : ∀ {c : FsCall}, (∀ chainKey id m, c ≠ .rename chainKey id m) →
      (∀ chainKey id, c ≠ .removeFile chainKey id) → P c := fun h₁ h₂ => h _ h₁ h₂
  refine only_bind (only_io _ (hp nofun nofun)) fun _ => ?_
  refine only_bind (only_io _ (hp nofun nofun)) fun existed => ?_
  refine only_bind (only_io _ (hp nofun nofun)) fun _ => ?_
  refine only_bind (only_io _ (hp nofun nofun)) fun _ => ?_
  refine only_bind (only_io _ hr) fun _ => ?_
  refine only_bind (only_fs (hp nofun nofun)) fun _ => ?_
  have hl := only_io (σ := Readers) (P := P) ["syncing pending-message directory"]
    (c := .syncDir message.chainKey) (hp nofun nofun)
  cases existed with
  | true => exact hl
  | false => exact only_bind (only_update _) fun _ => hl

theorem complete_only {chainKey : ChainKey} {id : B256} (hr : P (.removeFile chainKey id))
    (hs : P (.syncDir chainKey)) : Only P (complete chainKey id) := by
  refine only_bind (only_fs hr) fun a => ?_
  rcases a with (_ | e) | _
  · exact only_pure _
  · exact only_throw _
  · exact only_bind (only_update _) fun _ => only_io _ hs

/-- `pending` only reads. -/
theorem pending_only {chainKey : ChainKey} (hd : P (.readDir chainKey)) (hr : ∀ id, P (.read chainKey id))
    (loaded : List B256) (limit : Nat) : Only P (pending chainKey loaded limit) := by
  have hturn : ∀ start wrapped, Only P (turn chainKey start wrapped) := by
    intro start wrapped
    have hend : ∀ b : Bool, Only P (do
        if !(← peek).window.isEmpty then return .go
        update fun cursor : RouteCursor => { cursor with after := none }
        return if b then .stop else .wrap : WorkM RouteCursor Turn) := fun b =>
      only_bind only_peek fun cursor => by
        split
        · exact only_pure _
        · exact only_bind (only_update _) fun _ => only_pure _
    refine only_bind only_peek fun cursor => ?_
    split
    · exact only_pure _
    · refine only_bind only_peek fun cursor => ?_
      split
      · exact only_bind (only_update _) fun _ => only_pure _
      · exact only_bind (only_bind (only_io _ hd) fun _ => only_update _) fun _ => hend _
  have htake : ∀ start wrapped, Only P (takeNext start wrapped) := by
    intro start wrapped
    refine only_bind only_peek fun cursor => ?_
    split
    · exact only_pure _
    · split
      · exact only_pure _
      · exact only_bind (only_update _) fun _ => only_pure _
  have hexamine : ∀ loaded id, Only P (examine chainKey loaded id) := by
    intro loaded id
    rw [examine]
    split
    · exact only_pure _
    · refine only_bind (only_fs (hr id)) fun a => ?_
      rcases a with (_ | e) | message
      · exact only_pure _
      · exact only_throw _
      · dsimp only
        split
        · exact only_pure _
        · exact only_throw _
  have hloop : ∀ start fuel walk, Only P (pendingLoop chainKey limit start fuel walk) := by
    intro start fuel
    induction fuel with
    | zero => exact fun walk => only_pure _
    | succ fuel ih =>
      intro walk
      rw [pendingLoop]
      split
      · exact only_pure _
      · refine only_bind (hturn _ _) fun t => ?_
        cases t with
        | stop => exact only_pure _
        | wrap => exact ih _
        | go =>
          refine only_bind (htake _ _) fun next => ?_
          cases next with
          | none => exact only_pure _
          | some id =>
            refine only_bind (hexamine _ id) fun found => ?_
            cases found with
            | none => exact ih _
            | some message =>
              dsimp only
              split
              · exact only_pure _
              · exact ih _
  rw [pending]
  split
  · exact only_pure _
  · refine only_bind only_peek fun readers => ?_
    split
    · exact only_zoom (hloop _ _ _)
    · refine only_bind (only_fs hd) fun a => ?_
      rcases a with (_ | e) | ids
      · exact only_pure _
      · exact only_throw _
      · exact only_zoom (hloop _ _ _)

end WorkStore

/-- The calls on the store that keep what was kept, made for the result `cause`. -/
def WorkCall.Allowed (cause : Option DeliveryResult) : WorkCall → Prop
  | .complete chainKey id => ∃ result, cause = some result ∧ result.chainKey = chainKey ∧
      result.messageId = id ∧ result.outcome.final = true
  | .record _ | .pending .. => True

theorem WorkCall.body_allowed {cause : Option DeliveryResult} {c : WorkCall} (h : c.Allowed cause) :
    Only (FsCall.Allowed cause) c.body := by
  cases c with
  | record message =>
    refine WorkStore.record_only ⟨rfl, rfl⟩ fun c h₁ h₂ => ?_
    cases c with
    | rename => exact absurd rfl (h₁ _ _ _)
    | removeFile => exact absurd rfl (h₂ _ _)
    | _ => trivial
  | complete chainKey id => exact WorkStore.complete_only h trivial
  | pending chainKey loaded limit => exact WorkStore.pending_only trivial (fun _ => trivial) _ _

/-! ## What the operations have done -/

/-- The disk under a running operation, while other tasks keep what was kept. -/
def sharedDisk (cause : Option DeliveryResult) : Env FsCall FsCall.Answer Disk := fun d c a d' =>
  ∃ d₁, d.Keeps d₁ ∧ diskEnv cause d₁ c a d'

/-- What other tasks do in between does not change what an operation will have done. -/
theorem wp_sharedDisk {α : Type} {cause : Option DeliveryResult} {p : Prog FsCall FsCall.Answer α}
    {d d' : Disk} {Q : Disk → α → Prop} (hd : d.Keeps d')
    (hQ : ∀ d d' a, d.Keeps d' → Q d a → Q d' a) (h : wp (sharedDisk cause) p d Q) :
    wp (sharedDisk cause) p d' Q := by
  refine wp_grow (fun d₀ d₁ c a d₂ hk ha => ?_) hQ hd h
  obtain ⟨d₃, h₃, ha⟩ := ha
  exact ⟨d₃, hk.trans h₃, ha⟩

/-- The answer of the store holds: a message whose record was acknowledged is kept. -/
def WorkCall.Done (c : WorkCall) (a : c.Answer) (d : Disk) : Prop :=
  match c, a with
  | .record message, .ok () => d.Kept message.chainKey message.messageId
  | _, _ => True

theorem WorkCall.Done.mono {c : WorkCall} {a : c.Answer} {d d' : Disk} (hd : d.Keeps d')
    (h : c.Done a d) : c.Done a d' := by
  cases c with
  | record message =>
    cases a with
    | ok => exact hd _ _ h
    | error => trivial
  | _ => trivial

theorem sharedDisk_keeps {cause : Option DeliveryResult} {d d' : Disk} {c : FsCall} {a : c.Answer}
    (ha : sharedDisk cause d c a d') (h : c.Allowed cause) : d.Keeps d' := by
  obtain ⟨d₁, h₁, ha⟩ := ha
  exact h₁.trans (diskEnv_keeps ha h)

/-- The last call of `record` finds the message kept. -/
theorem record_synced {cause : Option DeliveryResult} {message : IndexedMessage} {d : Disk}
    (readers : Readers) (hk : d.Kept message.chainKey message.messageId) :
    post (sharedDisk cause)
      (io ["syncing pending-message directory"] (.syncDir message.chainKey) : WorkM Readers Unit)
      readers d fun d' r _ => (WorkCall.record message).Done r d' := by
  rw [post_io]
  intro a d' ha
  have hd := sharedDisk_keeps ha trivial
  cases a with
  | ok => exact hd _ _ hk
  | error => trivial

/-- An acknowledged message is kept, from the moment its record has its name. -/
theorem record_done (cause : Option DeliveryResult) (message : IndexedMessage) (readers : Readers)
    (d : Disk) : post (sharedDisk cause) (WorkStore.record message) readers d
      fun d' r _ => (WorkCall.record message).Done r d' := by
  unfold WorkStore.record
  simp only [post_bind, post_io, post_fs]
  rintro (e | _) - -
  · trivial
  rintro (e | existed) - -
  · trivial
  rintro (e | _) - -
  · trivial
  rintro (e | _) - -
  · trivial
  rintro (e | _) d₅ ⟨d, -, hd⟩
  · trivial
  rw [show d₅ = _ from hd]
  intro _ d₆ ha
  have hk := sharedDisk_keeps ha trivial _ _ (d.kept_rename cause message)
  cases existed with
  | true => exact record_synced readers hk
  | false =>
    exact (post_bind _ _ _ _ _ _).mpr ((post_update _ _ _ _ _).mpr (record_synced _ hk))

theorem WorkCall.body_done (cause : Option DeliveryResult) (c : WorkCall) (readers : Readers) (d : Disk) :
    wp (sharedDisk cause) (c.body.run.run readers) d fun d' r => c.Done r.1 d' := by
  cases c with
  | complete | pending => exact wp_iff.mpr fun _ _ _ => trivial
  | record message => exact record_done cause message readers d

/-! ## The records that the operations write -/

/-- The record that a call leaves at a place: the one that was there, or its own. -/
def WorkCall.Writes (c : WorkCall) (d d' : Disk) : Prop :=
  ∀ (chainKey : ChainKey) (id : B256), d'.records chainKey id = d.records chainKey id ∨
    ∃ message, c = .record message ∧ chainKey = message.chainKey ∧ id = message.messageId ∧
      d'.records chainKey id = some message

/-- The calls on the files that write what a call on the store writes. -/
def FsCall.PartOf (c : WorkCall) : FsCall → Prop
  | .rename chainKey id message => c = .record message ∧ chainKey = message.chainKey ∧
      id = message.messageId
  | .removeFile .. => False
  | .createDir _ | .createDirAll _ | .tryExists .. | .writeTmp .. | .syncDir _ | .readDir _
  | .read .. => True

theorem WorkCall.body_partOf {c : WorkCall} (hc : ∀ chainKey id, c ≠ .complete chainKey id) :
    Only (FsCall.PartOf c) c.body := by
  cases c with
  | record message =>
    refine WorkStore.record_only ⟨rfl, rfl, rfl⟩ fun c h₁ h₂ => ?_
    cases c with
    | rename => exact absurd rfl (h₁ _ _ _)
    | removeFile => exact absurd rfl (h₂ _ _)
    | _ => trivial
  | complete => exact absurd rfl (hc _ _)
  | pending => exact WorkStore.pending_only trivial (fun _ => trivial) _ _

theorem Disk.writes_done {c : WorkCall} {d₀ d : Disk} {cause : Option DeliveryResult} {call : FsCall}
    (hp : call.PartOf c) (h : c.Writes d₀ d) : c.Writes d₀ (d.done cause call) := by
  cases call with
  | rename chainKey' id' message =>
    intro chainKey id
    obtain ⟨hc, rfl, rfl⟩ := hp
    by_cases e : chainKey = message.chainKey ∧ id = message.messageId
    · obtain ⟨rfl, rfl⟩ := e
      exact .inr ⟨message, hc, rfl, rfl, by simp [Disk.done, setAt]⟩
    · have hs := h chainKey id
      simpa [Disk.done, setAt, e] using hs
  | removeFile => exact hp.elim
  | _ => exact h

/-- What a call on the store leaves of the records wherever it is cut, if it does not complete a
message. -/
theorem WorkCall.cut_writes {cause : Option DeliveryResult} {c : WorkCall} {readers : Readers}
    {d d' : Disk} (h : Cut (diskEnv cause) (c.body.run.run readers) d d')
    (hc : ∀ chainKey id, c ≠ .complete chainKey id) : c.Writes d d' := by
  refine h.asked (fun d call a d' hp ha hw => ?_)
    (Prog.Only.asks (WorkCall.body_partOf hc readers) d) (fun _ _ => .inl rfl)
  unfold diskEnv at ha
  split at ha
  · rw [ha]
    exact Disk.writes_done hp hw
  · rcases ha with rfl | rfl
    · exact hw
    · exact Disk.writes_done hp hw

theorem storeEnv_writes {cause : Option DeliveryResult} {w w' : Readers × Disk} {c : WorkCall}
    {a : c.Answer} (h : storeEnv (diskEnv cause) w c a w')
    (hc : ∀ chainKey id, c ≠ .complete chainKey id) : c.Writes w.2 w'.2 :=
  WorkCall.cut_writes (Exec.cut h) hc

/-- What a completion leaves of the records wherever it is cut: it may have removed its own. -/
theorem complete_removes {cause : Option DeliveryResult} {chainKey : ChainKey} {id : B256}
    {readers : Readers} {d d' : Disk}
    (h : Cut (diskEnv cause) ((WorkCall.body (.complete chainKey id)).run.run readers) d d')
    (chainKey' : ChainKey) (id' : B256) : d'.records chainKey' id' = d.records chainKey' id' ∨
      chainKey' = chainKey ∧ id' = id ∧ d'.records chainKey' id' = none := by
  have hdone : ∀ (d₁ : Disk) (c : FsCall), c = .removeFile chainKey id ∨ c = .syncDir chainKey →
      (d₁.records chainKey' id' = d.records chainKey' id' ∨
        chainKey' = chainKey ∧ id' = id ∧ d₁.records chainKey' id' = none) →
      ((d₁.done cause c).records chainKey' id' = d.records chainKey' id' ∨
        chainKey' = chainKey ∧ id' = id ∧ (d₁.done cause c).records chainKey' id' = none) := by
    rintro d₁ c (rfl | rfl) hd
    · simp only [Disk.done]
      split
      · by_cases e : chainKey' = chainKey ∧ id' = id
        · exact .inr ⟨e.1, e.2, by simp [setAt, e]⟩
        · simpa [setAt, e] using hd
      · exact hd
    · exact hd
  have hcalls : Only (fun c => c = .removeFile chainKey id ∨ c = .syncDir chainKey)
      (WorkStore.complete chainKey id) := WorkStore.complete_only (.inl rfl) (.inr rfl)
  refine h.asked (I := fun d₁ => d₁.records chainKey' id' = d.records chainKey' id' ∨
    chainKey' = chainKey ∧ id' = id ∧ d₁.records chainKey' id' = none)
    (fun d₁ c a d₂ hc ha hd => ?_) (Prog.Only.asks (hcalls readers) d) (.inl rfl)
  unfold diskEnv at ha
  split at ha
  · rw [ha]
    exact hdone d₁ c hc hd
  · rcases ha with rfl | rfl
    · exact hd
    · exact hdone d₁ c hc hd

/-- A message that was recorded is on disk. -/
theorem storeEnv_recorded {cause : Option DeliveryResult} {w w' : Readers × Disk}
    {message : IndexedMessage} (h : storeEnv (diskEnv cause) w (.record message) (.ok ()) w') :
    w'.2.records message.chainKey message.messageId = some message := by
  have hpost : post (diskEnv cause) (WorkStore.record message) w.1 w.2 fun d' r _ =>
      r = .ok () → d'.records message.chainKey message.messageId = some message := by
    have hsync : ∀ {d d' : Disk} {a : (FsCall.syncDir message.chainKey).Answer},
        diskEnv cause d (.syncDir message.chainKey) a d' → d' = d := by
      intro d d' a ha
      cases a with
      | ok => exact ha
      | error => exact ha.elim (fun h => h) fun h => h
    unfold WorkStore.record
    simp only [post_bind, post_io, post_fs]
    rintro (e | _) - -
    · exact fun h => by cases h
    rintro (e | existed) - -
    · exact fun h => by cases h
    rintro (e | _) - -
    · exact fun h => by cases h
    rintro (e | _) - -
    · exact fun h => by cases h
    rintro (e | _) d hd
    · exact fun h => by cases h
    have hrecords : d.records message.chainKey message.messageId = some message := by
      rw [show d = _ from hd]
      simp [Disk.done, setAt]
    intro _ d₁ h₁
    rw [hsync h₁]
    have hlast : ∀ readers : Readers, post (diskEnv cause)
        (io ["syncing pending-message directory"] (.syncDir message.chainKey) : WorkM Readers Unit)
        readers d fun d' r _ => r = .ok () →
          d'.records message.chainKey message.messageId = some message := by
      intro readers
      rw [post_io]
      intro a d₂ h₂
      rw [hsync h₂]
      cases a <;> exact fun _ => hrecords
    cases existed with
    | true => exact hlast _
    | false => exact (post_bind _ _ _ _ _ _).mpr ((post_update _ _ _ _ _).mpr (hlast _))
  exact h.post hpost rfl

/-! ## The records that are read -/

/-- What is read of a record is the record. -/
def FsCall.Shows (records : ChainKey → B256 → Option IndexedMessage) : (c : FsCall) → c.Answer → Prop
  | .read chainKey id, .ok message => records chainKey id = some message
  | _, _ => True

/-- The file system, where what is read of a record is the record. -/
def trueDisk (cause : Option DeliveryResult) : Env FsCall FsCall.Answer Disk := fun d c a d' =>
  diskEnv cause d c a d' ∧ c.Shows d.records a

/-- Records that nobody writes, read. -/
def readRecords (records : ChainKey → B256 → Option IndexedMessage) : Env FsCall FsCall.Answer Unit :=
  fun _ c a _ => c.Shows records a

theorem storeEnv_trueDisk {cause : Option DeliveryResult} {w w' : Readers × Disk} {c : WorkCall}
    {a : c.Answer} (h : storeEnv (trueDisk cause) w c a w') : storeEnv (diskEnv cause) w c a w' :=
  Exec.map (f := id) (fun _ _ _ _ ha => ha.1) h

theorem cut_trueDisk {α : Type} {cause : Option DeliveryResult} {p : Prog FsCall FsCall.Answer α}
    {d d' : Disk} (h : Cut (trueDisk cause) p d d') : Cut (diskEnv cause) p d d' :=
  Cut.map (f := id) (fun _ _ _ _ ha => ha.1) h

/-- The messages of `pending` are the records under their ids. -/
theorem WorkStore.pending_shows (records : ChainKey → B256 → Option IndexedMessage)
    (chainKey : ChainKey) (loaded : List B256) (limit : Nat) (readers : Readers) :
    post (readRecords records) (pending chainKey loaded limit) readers () fun _ r _ =>
      ∀ ms, r = .ok ms → ∀ m ∈ ms, records chainKey m.messageId = some m := by
  have hnil : ∀ m ∈ ([] : List IndexedMessage), records chainKey m.messageId = some m :=
    fun _ hm => absurd hm List.not_mem_nil
  have hexamine : ∀ (loaded : List B256) (id : B256) (cursor : RouteCursor) (w : Unit),
      post (readRecords records) (examine chainKey loaded id) cursor w fun _ r _ =>
        ∀ m, r = .ok (some m) → records chainKey m.messageId = some m := by
    intro loaded id cursor w
    rw [examine]
    split
    · exact fun m e => by cases e
    · rw [post_bind, post_fs]
      intro a w' ha
      cases a with
      | error e => cases e <;> exact fun m e => by cases e
      | ok m' =>
        dsimp only
        split
        · rename_i hm
          rintro m e
          cases e
          rw [hm.2]
          exact ha
        · exact fun m e => by cases e
  refine pending_rule _ hnil (fun hl cursor w => ?_) readers ()
  refine pendingLoop_rule _ (I := fun walk => ∀ m ∈ walk.messages, records chainKey m.messageId = some m)
    (F := fun _ _ m => records chainKey m.messageId = some m) hexamine (fun _ h => h)
    (fun _ _ _ h => h) (fun walk id m h hm => ?_) _ _ _ cursor w hnil
  have hadded : ∀ m' ∈ walk.messages ++ [m], records chainKey m'.messageId = some m' := by
    intro m' hm'
    rcases List.mem_append.mp hm' with hm' | hm'
    · exact h m' hm'
    · rw [List.mem_singleton.mp hm']
      exact hm
  exact ⟨hadded, fun _ => hadded⟩

theorem storeEnv_shows {cause : Option DeliveryResult} {w w' : Readers × Disk} {chainKey : ChainKey}
    {loaded : List B256} {limit : Nat} {ms : List IndexedMessage}
    (h : storeEnv (trueDisk cause) w (.pending chainKey loaded limit) (.ok ms) w') :
    ∀ m ∈ ms, w.2.records chainKey m.messageId = some m := by
  have hreads : Prog.Only (FsCall.PartOf (.pending chainKey loaded limit))
      ((WorkStore.pending chainKey loaded limit).run.run w.1) :=
    WorkCall.body_partOf (c := .pending chainKey loaded limit) nofun w.1
  have hstep : ∀ (d : Disk) (c : FsCall) (a : c.Answer) (d' : Disk) (v : Unit),
      c.PartOf (.pending chainKey loaded limit) → trueDisk cause d c a d' →
      d.records = w.2.records →
      ∃ v', readRecords w.2.records v c a v' ∧ d'.records = w.2.records := by
    intro d c a d' v hc ha hd
    refine ⟨(), show c.Shows w.2.records a from hd ▸ ha.2, ?_⟩
    have hw : (WorkCall.pending chainKey loaded limit).Writes d (d.done cause c) :=
      Disk.writes_done hc fun _ _ => .inl rfl
    have hsame : (d.done cause c).records = d.records := by
      funext k id
      rcases hw k id with e | ⟨m, e, -⟩
      · exact e
      · cases e
    have hd' := ha.1
    unfold diskEnv at hd'
    split at hd'
    · rw [hd', hsame, hd]
    · rcases hd' with rfl | rfl
      · exact hd
      · rw [hsame, hd]
  obtain ⟨_, hx, -⟩ := Exec.sim hstep h hreads (v := ()) rfl
  exact hx.post (WorkStore.pending_shows w.2.records chainKey loaded limit w.1) ms rfl

end MessageRelayer

import MessageRelayer.Lib.Runs
import MessageRelayer.Work.Disk

/-!
# The store is a map of messages

What the store is for: it keeps the unfinished messages of each route under
their ids (`Backlog`). A call that returns has done what it says; one that
fails, or in which the process dies, has done it or has done nothing
(`BacklogStep`). Every run of the store on its files is such a run, however
often the file system refuses a call and wherever the process dies
(`store_refines`); so what was recorded is there until its completion is
called for (`recorded_stays`).
-/

namespace MessageRelayer

open Prog WorkM

/-! ## What the store is for -/

/-- The unfinished messages of each route, by their ids. -/
abbrev Backlog := ChainKey → B256 → Option IndexedMessage

/-- What a call makes of the backlog. -/
def WorkCall.effect : WorkCall → Backlog → Backlog
  | record message, b => setAt b message.chainKey message.messageId (some message)
  | complete chainKey id, b => setAt b chainKey id none
  | pending .., b => b

/-- What happens to the store: a call returns, or the process dies in it, or between calls. -/
inductive StoreEvent where
  | returned (c : WorkCall) (a : c.Answer)
  | died (c : WorkCall)
  | reopened

/-- What a call may return: for `pending`, distinct unfinished messages that the caller does not have,
not more than it asked for. -/
def WorkCall.Returns (b : Backlog) : (c : WorkCall) → c.Answer → Prop
  | pending chainKey loaded limit, .ok ms =>
    WorkStore.Offers chainKey loaded limit ms ∧ ∀ m ∈ ms, b chainKey m.messageId = some m
  | _, _ => True

inductive BacklogStep : Backlog → StoreEvent → Backlog → Prop where
  | returned {b : Backlog} {c : WorkCall} {x : c.Result} (h : c.Returns b (.ok x)) :
      BacklogStep b (.returned c (.ok x)) (c.effect b)
  | failed {b b' : Backlog} (c : WorkCall) (e : Error) (h : b' = b ∨ b' = c.effect b) :
      BacklogStep b (.returned c (.error e)) b'
  | died {b b' : Backlog} (c : WorkCall) (h : b' = b ∨ b' = c.effect b) : BacklogStep b (.died c) b'
  | reopened (b : Backlog) : BacklogStep b .reopened b

theorem setAt_self {α : Type} {f : ChainKey → B256 → α} {chainKey : ChainKey} {id : B256} {a : α}
    (h : f chainKey id = a) : setAt f chainKey id a = f := by
  funext k i
  by_cases hk : k = chainKey ∧ i = id
  · obtain ⟨rfl, rfl⟩ := hk
    simp [setAt, h]
  · simp [setAt, hk]

/-- Where at most one place has changed. -/
theorem eq_or_setAt {α : Type} {f g : ChainKey → B256 → α} {chainKey : ChainKey} {id : B256} {a : α}
    (h : ∀ k i, g k i = f k i ∨ k = chainKey ∧ i = id ∧ g k i = a) :
    g = f ∨ g = setAt f chainKey id a := by
  rcases h chainKey id with hsame | ⟨-, -, hnew⟩
  · left
    funext k i
    rcases h k i with he | ⟨rfl, rfl, -⟩
    · exact he
    · exact hsame
  · right
    funext k i
    rcases h k i with he | ⟨rfl, rfl, he⟩
    · by_cases hk : k = chainKey ∧ i = id
      · obtain ⟨rfl, rfl⟩ := hk
        simp [setAt, hnew]
      · simp [setAt, hk, he]
    · simp [setAt, he]

/-! ## The store on its files -/

/-- Only a record that is not there is not found. -/
def FsCall.Finds (records : Backlog) : (c : FsCall) → c.Answer → Prop
  | .removeFile chainKey id, .error .notFound => records chainKey id = none
  | _, _ => True

/-- The file system, which tells the truth of the records. -/
def exactDisk (cause : Option DeliveryResult) : Env FsCall FsCall.Answer Disk := fun d c a d' =>
  trueDisk cause d c a d' ∧ c.Finds d.records a

/-- The store, with its cursors in memory. A call is made for a result, or for none. -/
inductive StoreRun : Readers × Disk → StoreEvent → Readers × Disk → Prop where
  | returned {w w' : Readers × Disk} {c : WorkCall} {a : c.Answer} (cause : Option DeliveryResult)
      (h : storeEnv (exactDisk cause) w c a w') : StoreRun w (.returned c a) w'
  | died {w : Readers × Disk} {d : Disk} {c : WorkCall} (cause : Option DeliveryResult)
      (h : Cut (exactDisk cause) (c.body.run.run w.1) w.2 d) : StoreRun w (.died c) (∅, d)
  | reopened (w : Readers × Disk) : StoreRun w .reopened (∅, w.2)

section
variable {cause : Option DeliveryResult} {w w' : Readers × Disk} {c : WorkCall} {d d' : Disk}

theorem storeEnv_exactDisk {a : c.Answer} (h : storeEnv (exactDisk cause) w c a w') :
    storeEnv (trueDisk cause) w c a w' := Exec.map (f := id) (fun _ _ _ _ ha => ha.1) h

theorem cut_exactDisk {α : Type} {p : Prog FsCall FsCall.Answer α} (h : Cut (exactDisk cause) p d d') :
    Cut (diskEnv cause) p d d' := Cut.map (f := id) (fun _ _ _ _ ha => ha.1.1) h

/-- A completion that returned has removed the record. -/
theorem complete_removed {chainKey : ChainKey} {id : B256}
    (h : storeEnv (exactDisk cause) w (.complete chainKey id) (.ok ()) w') :
    w'.2.records chainKey id = none := by
  have hremoved : ∀ d₁ : Disk, (d₁.done cause (.removeFile chainKey id)).records chainKey id = none := by
    intro d₁
    simp only [Disk.done]
    split
    · simp [setAt]
    · rename_i hn
      simpa using hn
  have hpost : post (exactDisk cause) (WorkStore.complete chainKey id) w.1 w.2 fun d' r _ =>
      r = .ok () → d'.records chainKey id = none := by
    rw [WorkStore.complete, post_bind, post_fs]
    rintro ((_ | e) | _) d₁ ⟨⟨ha, -⟩, hf⟩
    · -- the record was not there, so there was none to remove
      have habsent : w.2.records chainKey id = none := hf
      intro _
      rcases ha with rfl | rfl
      · exact habsent
      · exact hremoved w.2
    · exact fun e => by cases e
    · have hnone : d₁.records chainKey id = none := by
        rw [show d₁ = _ from ha]
        exact hremoved w.2
      dsimp only
      rw [post_bind, post_update]
      dsimp only
      rw [post_io]
      rintro a d₂ ⟨⟨ha, -⟩, -⟩
      cases a with
      | ok =>
        rw [show d₂ = d₁ from ha]
        exact fun _ => hnone
      | error => exact fun e => by cases e
  exact h.post hpost rfl

/-- Wherever a call is cut, it has done what it is for, or nothing. -/
theorem cut_effect (h : Cut (diskEnv cause) (c.body.run.run w.1) w.2 d) :
    d.records = w.2.records ∨ d.records = c.effect w.2.records := by
  cases c with
  | record message =>
    apply eq_or_setAt
    intro chainKey id
    rcases WorkCall.cut_writes h nofun chainKey id with hsame | ⟨m, e, hk, hi, hnew⟩
    · exact .inl hsame
    · cases e
      exact .inr ⟨hk, hi, hnew⟩
  | complete chainKey id => exact eq_or_setAt (complete_removes h)
  | pending chainKey loaded limit =>
    left
    funext k i
    rcases WorkCall.cut_writes h nofun k i with hsame | ⟨m, e, -⟩
    · exact hsame
    · cases e

/-- A call that returned has done what it is for. -/
theorem returned_effect {x : c.Result} (h : storeEnv (exactDisk cause) w c (.ok x) w') :
    w'.2.records = c.effect w.2.records := by
  rcases cut_effect (cut_exactDisk (Exec.cut h)) with hsame | hdone
  · rw [hsame]
    cases c with
    | record message =>
      have hnew := storeEnv_recorded (storeEnv_trueDisk (storeEnv_exactDisk h))
      rw [hsame] at hnew
      exact (setAt_self hnew).symm
    | complete chainKey id =>
      have hnone := complete_removed h
      rw [hsame] at hnone
      exact (setAt_self hnone).symm
    | pending => rfl
  · exact hdone

/-- What a call returns is what it may. -/
theorem returned_answer {x : c.Result} (h : storeEnv (exactDisk cause) w c (.ok x) w') :
    c.Returns w.2.records (.ok x) := by
  cases c with
  | record | complete => trivial
  | pending chainKey loaded limit =>
    exact ⟨storeEnv_pending h, storeEnv_shows (storeEnv_exactDisk h)⟩

end

/-! ## Runs -/

theorem StoreRun.backlog {w w' : Readers × Disk} {e : StoreEvent} (h : StoreRun w e w') :
    BacklogStep w.2.records e w'.2.records := by
  cases h with
  | @returned _ c a cause h =>
    cases a with
    | ok x =>
      rw [returned_effect h]
      exact .returned (returned_answer h)
    | error e => exact .failed c e (cut_effect (cut_exactDisk (Exec.cut h)))
  | died cause h => exact .died _ (cut_effect (cut_exactDisk h))
  | reopened => exact .reopened _

/-- Every run of the store on its files is one of the backlog. -/
theorem store_refines {w w' : Readers × Disk} {l : List StoreEvent} (h : Run StoreRun w l w') :
    Run BacklogStep w.2.records l w'.2.records := by
  have hrun := h.simulate (fun w => w.2.records) (fun e => [e]) fun _ _ _ h => .single h.backlog
  simpa using hrun

/-- Files that take every call, and hold no record. -/
def obligingFiles (d : Disk) (c : FsCall) : c.Answer × Disk :=
  (match c with
    | .tryExists .. => .ok false
    | .readDir _ => .ok []
    | .read .. => .error .notFound
    | .createDir _ | .createDirAll _ | .writeTmp .. | .rename .. | .syncDir _ | .removeFile .. =>
      .ok (), d.done none c)

theorem exactDisk_obligingFiles (d : Disk) (c : FsCall) :
    exactDisk none d c (obligingFiles d c).1 (obligingFiles d c).2 := by
  cases c with
  | read => exact ⟨⟨.inl rfl, trivial⟩, trivial⟩
  | _ => exact ⟨⟨rfl, trivial⟩, trivial⟩

def filed : IndexedMessage := ⟨2, 7, 4, 5, 1, 6, 102031, [1], 8, 12⟩

def emptyFiles : Disk := ⟨fun _ _ => none, none, fun _ _ => none⟩

/-- What the record of the message leaves on these files. -/
def filedStore : Readers × Disk :=
  let r := ((WorkCall.body (.record filed)).run.run ∅).run obligingFiles emptyFiles
  (r.2.2, r.1)

def filedThenDied : List StoreEvent :=
  [.returned (.record filed) (.ok ()), .reopened]

theorem filedThenDied_run :
    Run StoreRun (∅, emptyFiles) filedThenDied (∅, filedStore.2) := by
  have hrecord : StoreRun (∅, emptyFiles) (.returned (.record filed) (.ok ())) filedStore :=
    .returned none (exec_run exactDisk_obligingFiles
      ((WorkCall.body (.record filed)).run.run ∅) emptyFiles)
  exact (Run.single hrecord).snoc (.reopened _)

theorem store_refines_recorded :
    Run BacklogStep (fun _ _ => none) filedThenDied filedStore.2.records :=
  store_refines filedThenDied_run

/-- The calls that may remove a record. -/
def StoreEvent.Completes (chainKey : ChainKey) (id : B256) : StoreEvent → Prop
  | returned c _ | died c => c = .complete chainKey id
  | reopened => False

theorem effect_stays {c : WorkCall} {b : Backlog} {chainKey : ChainKey} {id : B256}
    (hc : c ≠ .complete chainKey id) (h : (b chainKey id).isSome = true) :
    (c.effect b chainKey id).isSome = true := by
  cases c with
  | record message =>
    simp only [WorkCall.effect, setAt]
    split
    · rfl
    · exact h
  | complete k i =>
    have hne : ¬(chainKey = k ∧ id = i) := by
      rintro ⟨rfl, rfl⟩
      exact hc rfl
    simpa [WorkCall.effect, setAt, hne] using h
  | pending => exact h

theorem BacklogStep.stays {b b' : Backlog} {e : StoreEvent} {chainKey : ChainKey} {id : B256}
    (h : BacklogStep b e b') (he : ¬e.Completes chainKey id) (hb : (b chainKey id).isSome = true) :
    (b' chainKey id).isSome = true := by
  have hor : ∀ {c : WorkCall}, c ≠ .complete chainKey id → b' = b ∨ b' = c.effect b →
      (b' chainKey id).isSome = true := by
    rintro c hc (rfl | rfl)
    · exact hb
    · exact effect_stays hc hb
  cases h with
  | returned => exact hor he (.inr rfl)
  | failed c e h => exact hor he h
  | died c h => exact hor he h
  | reopened => exact hb

/-- Whatever fails and wherever the process dies: once the recording of a message has returned, there is
a record under its id until a completion of it is called for. -/
theorem recorded_stays {w w' : Readers × Disk} {l l' : List StoreEvent} {message : IndexedMessage}
    (h : Run StoreRun w (l ++ .returned (.record message) (.ok ()) :: l') w')
    (hl : ∀ e ∈ l', ¬e.Completes message.chainKey message.messageId) :
    (w'.2.records message.chainKey message.messageId).isSome = true := by
  obtain ⟨w₁, w₂, -, hrecord, hafter⟩ := h.split
  have hrecorded : (w₂.2.records message.chainKey message.messageId).isSome = true := by
    have hstep := hrecord.backlog
    generalize w₂.2.records = b at hstep ⊢
    cases hstep with
    | returned => simp [WorkCall.effect, setAt]
  clear hrecord h
  induction hafter with
  | nil => exact hrecorded
  | snoc _ hstep ih =>
    have hearlier := ih fun e he => hl e (List.mem_append_left _ he)
    exact hstep.backlog.stays (hl _ (by simp)) hearlier

end MessageRelayer

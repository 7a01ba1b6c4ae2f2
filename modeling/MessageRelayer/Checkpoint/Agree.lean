import MessageRelayer.Checkpoint
import MessageRelayer.Lib.Runs

/-!
# The checkpoints in memory and on disk

Runs of a checkpoint store (`StoreStep`): it is loaded, its operations succeed
or fail at any of their writes, and the process may be gone anywhere and load
the file again. A rename is atomic: one that failed changed nothing. Then what
is in memory is always what the file says (`checkpoint_agreement`).
-/

namespace MessageRelayer

open Prog

/-! ## Runs of the store -/

/-- The operations that change an entry. -/
inductive StoreOp where
  | set (key : String) (block : Nat)
  | setWithOutbox (key : String) (block : Nat) (outbox : String)
  | setJournaled (key : String) (block : Nat) (outbox : Option String)

namespace StoreOp

def run (entries : Entries) :
    StoreOp → Prog (FileCall CheckpointText) FileCall.Answer (Except Error Unit × Entries)
  | set key block => CheckpointStore.set entries key block
  | setWithOutbox key block outbox => CheckpointStore.setWithOutbox entries key block outbox
  | setJournaled key block outbox => CheckpointStore.setJournaled entries key block outbox

/-- The key of the entry that an operation changes. -/
def key : StoreOp → String
  | set key _ | setWithOutbox key .. | setJournaled key .. => key

/-- The entries that an operation is to leave. -/
def changed (entries : Entries) : StoreOp → Entries
  | set key block => entries.insert key { entries[key]?.getD Entry.default with block }
  | setWithOutbox key block outbox => entries.insert key ⟨block, some outbox, false⟩
  | setJournaled key block outbox => entries.insert key ⟨block, outbox, true⟩

end StoreOp

/-- What a process does with the store; it is none while there is no process. -/
inductive StoreStep : Option CheckpointText × Option Entries → Unit →
    Option CheckpointText × Option Entries → Prop where
  | load {file file' : Option CheckpointText} {entries : Entries}
      (hx : Exec (fileEnv true) CheckpointStore.load.run file file' (.ok entries)) :
      StoreStep (file, none) () (file', some entries)
  | op {file file' : Option CheckpointText} {entries entries' : Entries} {r : Except Error Unit}
      (o : StoreOp) (hx : Exec (fileEnv true) (o.run entries) file file' (r, entries')) :
      StoreStep (file, some entries) () (file', some entries')
  | crash {file file' : Option CheckpointText} {entries : Entries} (o : StoreOp)
      (hx : Cut (fileEnv true) (o.run entries) file file') :
      StoreStep (file, some entries) () (file', none)

/-! ## Loading -/

/-- The entries that a file stands for: none, if it is not there, and no entries at all if it is
empty or not a JSON map of entries. -/
def entriesOf : Option CheckpointText → Option Entries
  | none => some ∅
  | some (.json entries) => some (deserialize entries)
  | some .blank | some (.malformed _) => none

@[simp] theorem entriesOf_serialize (entries : Entries) :
    entriesOf (some (serialize entries)) = some entries := by
  rw [serialize, entriesOf, deserialize_toJson]

/-- Loading reads the entries of the file, unless it fails; and where the file has entries, only a
read that fails can make it fail. -/
theorem load_spec {exact : Bool} (file : Option CheckpointText) :
    wp (fileEnv exact) CheckpointStore.load.run file fun file' r => file' = file ∧
      (∀ entries, r = .ok entries → entriesOf file = some entries) ∧
      ∀ e, r = .error e → entriesOf file = none ∨ ∃ text, e = ["reading checkpoint file", text] := by
  rw [CheckpointStore.load, wp_run_bind, wp_run_lift, wp_call]
  rintro ((_ | e) | _ | text | raw) file' ha
  · obtain ⟨rfl, rfl⟩ := ha
    exact ⟨rfl, fun _ e => by cases e; rfl, fun _ e => by cases e⟩
  · exact ⟨ha, fun _ e => (by cases e), fun _ he => .inr ⟨e, by cases he; rfl⟩⟩
  all_goals obtain ⟨rfl, rfl⟩ := ha
  · exact ⟨rfl, fun _ e => (by cases e), fun _ _ => .inl rfl⟩
  · exact ⟨rfl, fun _ e => (by cases e), fun _ _ => .inl rfl⟩
  · exact ⟨rfl, fun _ e => (by cases e; rfl), fun _ e => by cases e⟩

/-- A file that holds the beginning of what was written, and not all of it, is not loaded. -/
theorem truncated_not_loaded {write : Map String EntryJson → String} {read : String → CheckpointText}
    (hl : CheckpointText.Laws write read) {exact : Bool} (entries : Entries) {text : String}
    (hp : text.toList <+: (write (entries.map fun _ e => e.toJson)).toList)
    (hne : read text ≠ serialize entries) :
    wp (fileEnv exact) CheckpointStore.load.run (some (read text)) fun _ r => ∃ e, r = .error e := by
  have hcut : text ≠ write (entries.map fun _ e => e.toJson) := by
    rintro rfl
    exact hne (hl.written _)
  refine wp_mono (load_spec _) fun _ r ⟨_, hok, _⟩ => ?_
  cases r with
  | error e => exact ⟨e, rfl⟩
  | ok loaded =>
    have hent := hok _ rfl
    cases ht : read text with
    | blank | malformed => rw [ht] at hent; cases hent
    | json entries' => exact absurd ht (hl.truncated _ _ hp hcut entries')

/-! ## Writing -/

/-- With an atomic rename, `write_atomic` replaces the file, or fails and leaves it. -/
theorem writeAtomic_spec {C : Type} (contents : C) (file : Option C) :
    wp (fileEnv true) (writeAtomic contents).run file fun file' r =>
      match r with
      | .ok () => file' = some contents
      | .error _ => file' = file := by
  rw [writeAtomic]
  simp only [wp_run_bind, wp_io, wp_run_lift, wp_call, wp_run_pure]
  rintro (e | _) _ ha
  · exact ha.resolve_right fun h => absurd h.1 (by simp)
  rw [show _ = file from ha]
  rintro (e | _) _ ha
  · exact ha.resolve_right fun h => absurd h.1 (by simp)
  rw [show _ = file from ha]
  rintro (e | _) _ ha
  · exact ha.resolve_right fun h => absurd h.1 (by simp)
  rw [show _ = some contents from ha]
  rintro (e | _) _ ha
  · exact ha.elim id fun h => h.2
  · exact ha

theorem persistEntry_spec (entries : Entries) (key : String) (entry : Entry)
    (file : Option CheckpointText) :
    wp (fileEnv true) (CheckpointStore.persistEntry entries key entry) file fun file' r =>
      match r.1 with
      | .ok () => r.2 = entries.insert key entry ∧
          file' = some (serialize (entries.insert key entry))
      | .error _ => r.2 = entries ∧ file' = file := by
  rw [CheckpointStore.persistEntry, wp_bind]
  refine wp_mono (writeAtomic_spec _ file) fun file' r hr => ?_
  cases r with
  | ok => exact ⟨rfl, hr⟩
  | error e =>
    have h := CheckpointStore.rollback entries key entry
    revert h
    cases entries[key]? <;> exact fun h => ⟨h, hr⟩

theorem persistEntry_cut {exact : Bool} {entries : Entries} {key : String} {entry : Entry}
    {file file' : Option CheckpointText}
    (h : Cut (fileEnv exact) (CheckpointStore.persistEntry entries key entry) file file') :
    file' = file ∨ file' = some (serialize (entries.insert key entry)) := by
  refine h.asked (I := fun f => f = file ∨ f = some (serialize (entries.insert key entry)))
    (G := fun _ c => (∀ file, c.done file = file) ∨
    c = .rename (serialize (entries.insert key entry))) (fun f c a f' hc ha hf => ?_)
    (CheckpointStore.asks_persistEntry (fun _ _ hc => hc) file) (.inl rfl)
  have hd : f' = f ∨ f' = c.done f := by
    cases c with
    | read => rcases a with (_ | _) | _ <;> simp_all [fileEnv]
    | _ => cases a with
      | ok => exact .inr ha
      | error => exact ha.imp_right And.right
  rcases hd with rfl | rfl
  · exact hf
  · rcases hc with hc | rfl
    · rwa [hc]
    · exact .inr rfl

namespace StoreOp

/-- An operation leaves the changed entries in memory and in the file, or it fails and leaves both. -/
theorem run_spec (entries : Entries) (o : StoreOp) (file : Option CheckpointText) :
    wp (fileEnv true) (o.run entries) file fun file' r =>
      match r.1 with
      | .ok () => r.2 = o.changed entries ∧ file' = some (serialize (o.changed entries))
      | .error _ => r.2 = entries ∧ file' = file := by
  cases o <;> exact persistEntry_spec entries _ _ file

theorem cut_spec {exact : Bool} {entries : Entries} {o : StoreOp}
    {file file' : Option CheckpointText} (h : Cut (fileEnv exact) (o.run entries) file file') :
    file' = file ∨ file' = some (serialize (o.changed entries)) := by
  cases o <;> exact persistEntry_cut h

theorem changed_ne {entries : Entries} {o : StoreOp} {key : String} (hk : o.key ≠ key) :
    (o.changed entries)[key]? = entries[key]? := by
  cases o <;> exact Map.get_insert_ne (Ne.symm hk)

/-- An operation changes the entries in memory, or leaves them. -/
theorem run_entries {W : Type} {H : Env (FileCall CheckpointText) FileCall.Answer W}
    {entries entries' : Entries} {o : StoreOp} {w w' : W} {r : Except Error Unit}
    (hx : Exec H (o.run entries) w w' (r, entries')) :
    entries' = o.changed entries ∨ entries' = entries := by
  have he : wp H (o.run entries) w fun _ r =>
      r.2 = (match r.1 with | .ok () => o.changed entries | .error _ => entries) := by
    cases o <;> exact CheckpointStore.persistEntry_entries _ _ _ _
  have he := hx.post he
  cases r with
  | ok => exact .inl he
  | error e => exact .inr he

end StoreOp

/-! ## Memory and disk agree -/

theorem StoreStep.agree {s t : Option CheckpointText × Option Entries} (h : StoreStep s () t)
    (hs : ∀ entries, s.2 = some entries → entriesOf s.1 = some entries) :
    ∀ entries, t.2 = some entries → entriesOf t.1 = some entries := by
  rintro entries he
  cases h with
  | @load file file' loaded hx =>
    obtain ⟨rfl, hl, -⟩ := hx.post (load_spec file)
    obtain rfl := Option.some.inj he
    exact hl _ rfl
  | @op file file' before after r o hx =>
    have ho := hx.post (o.run_spec before file)
    obtain rfl := Option.some.inj he
    cases r with
    | ok =>
      obtain ⟨rfl, rfl⟩ := ho
      exact entriesOf_serialize _
    | error e =>
      obtain ⟨rfl, rfl⟩ := ho
      exact hs _ rfl
  | crash => cases he

/-- Over every run of the store, what is in memory is what loading the file returns. An operation that
fails leaves both, one that succeeds changes both, and a crash leaves a file that stands for the old
or the new entries. Entries of older forms load with their block and without the marker, `set` keeps
the rest of an entry, and a file that is empty or cut short is not loaded. -/
theorem checkpoint_agreement {file₀ file : Option CheckpointText} {memory : Option Entries}
    {l : List Unit} (hr : Run StoreStep (file₀, none) l (file, memory)) :
    (∀ entries, memory = some entries →
      (wp (fileEnv true) CheckpointStore.load.run file fun file' r => file' = file ∧
        (r = .ok entries ∨ ∃ text, r = .error ["reading checkpoint file", text])) ∧
      ∀ o : StoreOp,
        (wp (fileEnv true) (o.run entries) file fun file' r =>
          match r.1 with
          | .ok () => r.2 = o.changed entries ∧ file' = some (serialize (o.changed entries))
          | .error _ => r.2 = entries ∧ file' = file) ∧
        ∀ file', Cut (fileEnv true) (o.run entries) file file' →
          file' = file ∧ entriesOf file' = some entries ∨
          file' = some (serialize (o.changed entries)) ∧
            entriesOf file' = some (o.changed entries)) ∧
    (∀ (raw : Map String EntryJson) (key : String) (block : Nat) (outbox : Option String),
      (raw[key]? = some (.number block) → (deserialize raw)[key]? = some ⟨block, none, false⟩) ∧
      (raw[key]? = some (.object block outbox none) →
        (deserialize raw)[key]? = some ⟨block, outbox, false⟩)) ∧
    (∀ (entries : Entries) (key : String) (block : Nat) (e : Entry), entries[key]? = some e →
      ((StoreOp.set key block).changed entries)[key]? = some ⟨block, e.outbox, e.durableWork⟩) ∧
    ∀ file, file = some .blank ∨ (∃ text, file = some (.malformed text)) →
      wp (fileEnv true) CheckpointStore.load.run file fun _ r => ∃ e, r = .error e := by
  have hi : ∀ entries, memory = some entries → entriesOf file = some entries :=
    hr.inv (I := fun s => ∀ entries, s.2 = some entries → entriesOf s.1 = some entries)
      (fun _ _ _ h hs => h.agree hs) (fun _ e => by cases e)
  refine ⟨fun entries he => ⟨?_, fun o => ⟨o.run_spec entries file, fun file' hx => ?_⟩⟩,
    fun raw key block outbox => ⟨fun h => ?_, fun h => ?_⟩, fun entries key block e h => ?_,
    fun file hf => ?_⟩
  · refine wp_mono (load_spec file) fun file' r ⟨hf, hok, herr⟩ => ⟨hf, ?_⟩
    cases r with
    | ok loaded => exact .inl (congrArg _ (Option.some.inj ((hok _ rfl).symm.trans (hi _ he))))
    | error e =>
      refine .inr ((herr e rfl).elim (fun h => ?_) fun ⟨text, h⟩ => ⟨text, congrArg _ h⟩)
      rw [hi _ he] at h; cases h
  · rcases StoreOp.cut_spec hx with rfl | rfl
    · exact .inl ⟨rfl, hi _ he⟩
    · exact .inr ⟨rfl, entriesOf_serialize _⟩
  · rw [deserialize, Map.get_map, h]; rfl
  · rw [deserialize, Map.get_map, h]; rfl
  · rw [StoreOp.changed, Map.get_insert_self, h]; rfl
  · refine wp_mono (load_spec file) fun file' r ⟨_, hok, _⟩ => ?_
    cases r with
    | error e => exact ⟨e, rfl⟩
    | ok loaded => rcases hf with rfl | ⟨text, rfl⟩ <;> cases hok _ rfl

/-- A first checkpoint: no file, then the cursor 5. -/
def firstEntries : Entries := (∅ : Entries).insert "outbox:2" ⟨5, none, true⟩

theorem first_run : Run StoreStep (none, none) [(), ()]
    (some (serialize firstEntries), some firstEntries) := by
  have hset : Exec (fileEnv true) ((StoreOp.setJournaled "outbox:2" 5 none).run ∅) none
      (some (serialize firstEntries)) (.ok (), firstEntries) :=
    CheckpointStore.persistEntry_written ∅ "outbox:2" ⟨5, none, true⟩ none
  exact .snoc (.snoc .nil (.load CheckpointStore.load_missing))
    (.op (.setJournaled "outbox:2" 5 none) hset)

theorem checkpoint_agreement_first :
    wp (fileEnv true) CheckpointStore.load.run (some (serialize firstEntries)) fun file' r =>
      file' = some (serialize firstEntries) ∧
        (r = .ok firstEntries ∨ ∃ text, r = .error ["reading checkpoint file", text]) :=
  ((checkpoint_agreement first_run).1 firstEntries rfl).1

end MessageRelayer

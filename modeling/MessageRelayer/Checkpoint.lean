import MessageRelayer.Lib.Map
import MessageRelayer.Files

/-!
# Checkpoints

`checkpoint::CheckpointStore`: the block cursors of all watchers in one JSON
file, read when the process starts (`load`) and replaced whole by every change
of an entry (`persistEntry`). The entries are held under a mutex throughout an
operation, which therefore takes them and returns them; an operation that
fails returns them as they were (`persistEntry_entries`).

The text of the file is taken as what parsing it yields (`CheckpointText`).
The JSON writer and parser themselves are not modelled; what is relied on of
them is `CheckpointText.Laws`.
-/

namespace MessageRelayer

open Prog

/-! ## Entries -/

/-- One watcher's cursor. -/
structure Entry where
  block : Nat
  outbox : Option String
  /-- Every message through this cursor was recorded in the unfinished-work store. -/
  durableWork : Bool
  deriving DecidableEq

/-- `Entry::default()`. -/
def Entry.default : Entry := ⟨0, none, false⟩

/-- An entry as it is read; older files have bare numbers. -/
inductive RawEntry where
  | legacy (block : Nat)
  | full (block : Nat) (outbox : Option String) (durableWork : Bool)
  deriving DecidableEq

def Entry.ofRaw : RawEntry → Entry
  | .legacy block => { Entry.default with block }
  | .full block outbox durableWork => ⟨block, outbox, durableWork⟩

/-- The JSON value of an entry: a number, or an object whose other fields may be missing. -/
inductive EntryJson where
  | number (block : Nat)
  | object (block : Nat) (outbox : Option String) (durableWork : Option Bool)
  deriving DecidableEq

/-- How an entry is deserialized: a missing marker is false. -/
def RawEntry.ofJson : EntryJson → RawEntry
  | .number block => .legacy block
  | .object block outbox durableWork => .full block outbox (durableWork.getD false)

/-- How an entry is serialized: an outbox that is not there and a false marker are left out. -/
def Entry.toJson (e : Entry) : EntryJson :=
  .object e.block e.outbox (if e.durableWork then some true else none)

@[simp] theorem Entry.ofRaw_toJson (e : Entry) : Entry.ofRaw (.ofJson e.toJson) = e := by
  obtain ⟨block, outbox, durableWork⟩ := e
  cases durableWork <;> rfl

/-- What the text of a checkpoint file says. -/
inductive CheckpointText where
  /-- Empty, or white space: an interrupted write. -/
  | blank
  /-- Not a JSON map of entries, such as the beginning of one. -/
  | malformed (text : String)
  | json (entries : Map String EntryJson)

/-- What is relied on of the JSON writer and of what `load` makes of a text: a text that was written is
read back, and of a JSON map no strict beginning is one. -/
structure CheckpointText.Laws (write : Map String EntryJson → String)
    (read : String → CheckpointText) : Prop where
  written : ∀ entries, read (write entries) = .json entries
  truncated : ∀ entries text, text.toList <+: (write entries).toList → text ≠ write entries →
    ∀ entries', read text ≠ .json entries'

/-- The cursors by watcher key. -/
abbrev Entries := Map String Entry

/-- The text that is written. -/
def serialize (entries : Entries) : CheckpointText := .json (entries.map fun _ e => e.toJson)

/-- The entries that a JSON map of them stands for. -/
def deserialize (entries : Map String EntryJson) : Entries :=
  entries.map fun _ e => Entry.ofRaw (.ofJson e)

@[simp] theorem deserialize_toJson (entries : Entries) :
    deserialize (entries.map fun _ e => e.toJson) = entries := by
  refine Map.ext fun k => ?_
  rw [deserialize, Map.get_map, Map.get_map]
  cases entries[k]? with
  | none => rfl
  | some e => simp only [Option.map_some, Entry.ofRaw_toJson]

/-- The entry of a key, as `load` reads it. -/
def CheckpointText.entry (text : CheckpointText) (key : String) : Option Entry :=
  match text with
  | blank | malformed _ => none
  | json entries => (deserialize entries)[key]?

@[simp] theorem serialize_entry (entries : Entries) (key : String) :
    (serialize entries).entry key = entries[key]? := by
  rw [serialize, CheckpointText.entry, deserialize_toJson]

/-! ## The store -/

namespace CheckpointStore

/-- Read the file; a missing one is an empty store, an empty one is an interrupted write. -/
def load : FileM CheckpointText Entries := do
  match ← ExceptT.lift (call (FileCall.read (C := CheckpointText))) with
  | .ok CheckpointText.blank =>
    throw ["checkpoint file exists but is empty — this indicates an interrupted write, not a " ++
      "fresh start. Resuming would skip every block since the last durable cursor. Restore the " ++
      "file from backup, or delete it to deliberately accept restarting from the chain head (or " ++
      "from `start_block`)."]
  | .ok (CheckpointText.malformed text) => throw ["parsing checkpoint file", text]
  | .ok (CheckpointText.json entries) => pure (deserialize entries)
  | .error .notFound => pure ∅
  | .error (.other e) => throw ["reading checkpoint file", e]

def get (entries : Entries) (key : String) : Option Nat := entries[key]?.map (·.block)

def hasDurableWork (entries : Entries) (key : String) : Bool := entries[key]?.any (·.durableWork)

/-- Change an entry and write the file; if that fails, the entry is what it was. -/
def persistEntry (entries : Entries) (key : String) (entry : Entry) :
    Prog (FileCall CheckpointText) FileCall.Answer (Except Error Unit × Entries) := do
  let previous := entries[key]?
  let entries := entries.insert key entry
  match ← (writeAtomic (serialize entries)).run with
  | .ok () => pure (.ok (), entries)
  | .error err =>
    match previous with
    | some previous => pure (.error err, entries.insert key previous)
    | none => pure (.error err, entries.erase key)

/-- The last block of a watcher, keeping the rest of its entry. -/
def set (entries : Entries) (key : String) (block : Nat) :
    Prog (FileCall CheckpointText) FileCall.Answer (Except Error Unit × Entries) :=
  persistEntry entries key { entries[key]?.getD Entry.default with block }

/-- The last block of a watcher, with the Outbox that was scanned. -/
def setWithOutbox (entries : Entries) (key : String) (block : Nat) (outbox : String) :
    Prog (FileCall CheckpointText) FileCall.Answer (Except Error Unit × Entries) :=
  persistEntry entries key ⟨block, some outbox, false⟩

/-- A source cursor that is backed by durable unfinished work. -/
def setJournaled (entries : Entries) (key : String) (block : Nat) (outbox : Option String) :
    Prog (FileCall CheckpointText) FileCall.Answer (Except Error Unit × Entries) :=
  persistEntry entries key ⟨block, outbox, true⟩

/-! ## What persisting an entry does -/

theorem rollback (entries : Entries) (key : String) (entry : Entry) :
    (match entries[key]? with
      | some previous => (entries.insert key entry).insert key previous
      | none => (entries.insert key entry).erase key) = entries := by
  refine Map.ext fun k => ?_
  cases h : entries[key]? with
  | some previous =>
    simp only [Map.get_insert]
    split
    · rename_i e; rw [e, h]
    · rfl
  | none =>
    simp only [Map.get_erase, Map.get_insert]
    split
    · rename_i e; rw [e, h]
    · rfl

variable {W : Type} {H : Env (FileCall CheckpointText) FileCall.Answer W}

/-- The entries that `persist_entry` leaves in memory: the changed ones, or those it was given. -/
theorem persistEntry_entries (entries : Entries) (key : String) (entry : Entry) (w : W) :
    wp H (persistEntry entries key entry) w fun _ r =>
      r.2 = (match r.1 with | .ok () => entries.insert key entry | .error _ => entries) := by
  rw [persistEntry, wp_bind]
  refine wp_iff.mpr fun w' r _ => ?_
  cases r with
  | ok => rfl
  | error e =>
    have h := rollback entries key entry
    revert h
    cases entries[key]? <;> exact id

/-- The only call of `persist_entry` that changes the file writes the changed entries. -/
theorem asks_persistEntry {G : W → FileCall CheckpointText → Prop} {entries : Entries}
    {key : String} {entry : Entry}
    (h : ∀ w c, (∀ file, c.done file = file) ∨ c = .rename (serialize (entries.insert key entry)) →
      G w c) (w : W) : asks H G (persistEntry entries key entry) w := by
  rw [persistEntry]
  refine asks_bind_all (fun w => asks_writeAtomic h w) (fun r w => ?_) w
  cases r with
  | ok => trivial
  | error e => cases entries[key]? <;> trivial

/-! ## Where every call succeeds -/

variable {exact : Bool}

theorem load_missing : Exec (fileEnv exact) load.run none none (.ok (∅ : Entries)) :=
  .ask (show fileEnv exact none .read (.error .notFound) none from ⟨rfl, rfl⟩) (by exact .ret)

theorem load_written (entries : Entries) : Exec (fileEnv exact) load.run (some (serialize entries))
    (some (serialize entries)) (.ok entries) := by
  refine .ask (show fileEnv exact _ .read (.ok (serialize entries)) _ from ⟨rfl, rfl⟩) ?_
  have h : (.ok (deserialize (entries.map fun _ e => e.toJson)) : Except Error Entries) = .ok entries :=
    congrArg Except.ok (deserialize_toJson entries)
  rw [← h]
  exact .ret

theorem persistEntry_written (entries : Entries) (key : String) (entry : Entry)
    (file : Option CheckpointText) : Exec (fileEnv exact) (persistEntry entries key entry) file
      (some (serialize (entries.insert key entry))) (.ok (), entries.insert key entry) :=
  file_ok () rfl <| file_ok () rfl <| file_ok () rfl <| file_ok () rfl (by exact .ret)

end CheckpointStore

end MessageRelayer

import MessageRelayer.Checkpoint.Agree

/-!
# One watcher's cursor

The cursor of one key of the checkpoint file (`cursorOf`), whatever of the
writes to the file succeed: an operation on the key leaves the cursor that was
there or the one it was to write (`cursorOf_set`), and an operation on another
key the one that was there or the one that the process knows
(`cursorOf_other`).
-/

namespace MessageRelayer

open Prog

/-- The cursor of a key in the file. -/
def cursorOf (key : String) (file : Option CheckpointText) : Option Nat :=
  (file.bind fun text => text.entry key).map (·.block)

section
variable {key : String} {file file' : Option CheckpointText} {entries entries' : Entries}

theorem cursorOf_serialize (key : String) (entries : Entries) :
    cursorOf key (some (serialize entries)) = CheckpointStore.get entries key := by
  rw [cursorOf, Option.bind_some, serialize_entry, CheckpointStore.get]

theorem cursorOf_entriesOf (h : entriesOf file = some entries) :
    cursorOf key file = CheckpointStore.get entries key := by
  rcases file with _ | _ | _ | raw
  · obtain rfl := Option.some.inj h
    rfl
  · cases h
  · cases h
  · obtain rfl := Option.some.inj h
    rfl

/-- Writing the cursor leaves the one that was there, or the new one. -/
theorem cursorOf_set {value : Nat}
    (hx : Cut (fileEnv false) (CheckpointStore.set entries key value) file file') :
    cursorOf key file' = cursorOf key file ∨ cursorOf key file' = some value := by
  rcases persistEntry_cut hx with rfl | rfl
  · exact .inl rfl
  · refine .inr ?_
    rw [cursorOf_serialize, CheckpointStore.get, Map.get_insert_self]
    rfl

theorem get_set {value : Nat} {r : Except Error Unit}
    (hx : Exec (fileEnv false) (CheckpointStore.set entries key value) file file' (r, entries')) :
    CheckpointStore.get entries' key = CheckpointStore.get entries key ∨
      CheckpointStore.get entries' key = some value := by
  have ho : Exec (fileEnv false) (StoreOp.run entries (.set key value)) file file' (r, entries') := hx
  rcases StoreOp.run_entries ho with rfl | rfl
  · refine .inr ?_
    rw [CheckpointStore.get, StoreOp.changed, Map.get_insert_self]
    rfl
  · exact .inl rfl

/-- An operation on another entry leaves the cursor, as the process knows it or as it was. -/
theorem cursorOf_other {o : StoreOp} (hk : o.key ≠ key)
    (hx : Cut (fileEnv false) (o.run entries) file file') :
    cursorOf key file' = cursorOf key file ∨ cursorOf key file' = CheckpointStore.get entries key := by
  rcases StoreOp.cut_spec hx with rfl | rfl
  · exact .inl rfl
  · refine .inr ?_
    rw [cursorOf_serialize, CheckpointStore.get, CheckpointStore.get, StoreOp.changed_ne hk]

theorem get_other {o : StoreOp} {r : Except Error Unit} (hk : o.key ≠ key)
    (hx : Exec (fileEnv false) (o.run entries) file file' (r, entries')) :
    CheckpointStore.get entries' key = CheckpointStore.get entries key := by
  rcases StoreOp.run_entries hx with rfl | rfl
  · rw [CheckpointStore.get, CheckpointStore.get, StoreOp.changed_ne hk]
  · rfl

end

end MessageRelayer

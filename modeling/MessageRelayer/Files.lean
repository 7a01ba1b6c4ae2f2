import MessageRelayer.Lib.Prog
import MessageRelayer.Basic

/-!
# Files written whole

`checkpoint::write_atomic` replaces a file by way of a temporary sibling: the
contents are synced before the rename, and the rename is the only call that
changes the file. A file is seen through the calls made on it (`FileCall`);
what they do to its contents is `fileEnv`. A failed call changes nothing, or,
on a file system that is not `exact`, may have taken effect all the same.

The sibling has the name of the file with the extension `tmp`. It is another
file as long as the configured path does not have this extension itself; if it
has, writing the temporary file empties the file.
-/

namespace MessageRelayer

open Prog

inductive IoError where
  | notFound
  | other (text : String)

def IoError.text : IoError → String
  | notFound => "entity not found"
  | other text => text

/-- The calls on one file with contents `C`, its directory and its temporary sibling. -/
inductive FileCall (C : Type) where
  | createDirAll
  /-- The temporary file is created, written and synced. -/
  | writeTmp (contents : C)
  /-- The temporary file takes the name of the file. -/
  | rename (contents : C)
  | syncDir
  | read
  | remove

namespace FileCall

variable {C : Type}

abbrev Result : FileCall C → Type
  | createDirAll | writeTmp _ | rename _ | syncDir | remove => Unit
  | read => C

abbrev Answer (c : FileCall C) : Type := Except IoError c.Result

/-- The contents after a call that did what it is for. -/
def done (file : Option C) : FileCall C → Option C
  | rename contents => some contents
  | remove => none
  | createDirAll | writeTmp _ | syncDir | read => file

end FileCall

/-- A program over the calls on a file, which may fail. -/
abbrev FileM (C : Type) := ExceptT Error (Prog (FileCall C) FileCall.Answer)

namespace FileM

variable {C : Type}

/-- A call on the file whose failure is the operation's. -/
def io (context : Error) (c : FileCall C) : FileM C c.Result := do
  match ← ExceptT.lift (call c) with
  | .ok a => pure a
  | .error e => throw (context ++ [e.text])

end FileM

/-- `write_atomic`; a directory that cannot be synced is only warned about. -/
def writeAtomic {C : Type} (contents : C) : FileM C Unit := do
  FileM.io ["creating checkpoint dir"] .createDirAll
  FileM.io ["writing checkpoint temp file"] (.writeTmp contents)
  FileM.io ["renaming checkpoint temp file"] (.rename contents)
  let _ ← ExceptT.lift (call .syncDir)

/-- The file system: a call that succeeded took effect, and reads tell the truth. -/
def fileEnv {C : Type} (exact : Bool) : Env (FileCall C) FileCall.Answer (Option C) :=
  fun file c a file' =>
    match c, a with
    | .read, .ok contents => file = some contents ∧ file' = file
    | .read, .error .notFound => file = none ∧ file' = file
    | .read, .error (.other _) => file' = file
    | c, .ok _ => file' = c.done file
    | c, .error _ => file' = file ∨ (exact = false ∧ file' = c.done file)

/-- A call on a file that succeeds. -/
theorem file_ok {C α : Type} {exact : Bool} {c : FileCall C} {file file' : Option C} {r : α}
    {k : c.Answer → Prog (FileCall C) FileCall.Answer α} (a : c.Result)
    (ha : fileEnv exact file c (.ok a) (c.done file))
    (h : Exec (fileEnv exact) (k (.ok a)) (c.done file) file' r) :
    Exec (fileEnv exact) (.ask c k) file file' r := .ask ha h

section
variable {C W : Type} {H : Env (FileCall C) FileCall.Answer W} {G : W → FileCall C → Prop}

@[simp] theorem wp_io (context : Error) (c : FileCall C) (w : W)
    (Q : W → Except Error c.Result → Prop) :
    wp (α := no_index (Except Error c.Result)) H
        (ExceptT.run (α := no_index c.Result) (FileM.io context c)) w Q ↔ ∀ a w', H w c a w' →
      match a with
      | .ok a => Q w' (.ok a)
      | .error e => Q w' (.error (context ++ [e.text])) := by
  rw [FileM.io, wp_run_bind, wp_run_lift, wp_call]
  refine forall_congr' fun a => forall_congr' fun w' => imp_congr Iff.rfl ?_
  cases a <;> exact Iff.rfl

theorem asks_io (context : Error) {c : FileCall C} {w : W} (h : G w c) :
    asks H G (FileM.io context c).run w := by
  refine asks_run_bind ⟨h, fun _ _ _ => trivial⟩ (wp_iff.mpr fun w' r hx => ?_)
  rcases r with _ | _ | _ <;> trivial

/-- The only call of `write_atomic` that changes the file gives it the new contents. -/
theorem asks_writeAtomic {contents : C}
    (h : ∀ w c, (∀ file, c.done file = file) ∨ c = .rename contents → G w c) (w : W) :
    asks H G (writeAtomic contents).run w := by
  rw [writeAtomic]
  refine asks_run_bind_all (fun w => asks_io _ (h w _ (.inl fun _ => rfl))) (fun _ => ?_) w
  refine asks_run_bind_all (fun w => asks_io _ (h w _ (.inl fun _ => rfl))) (fun _ => ?_)
  refine asks_run_bind_all (fun w => asks_io _ (h w _ (.inr rfl))) (fun _ => ?_)
  exact asks_run_bind_all
    (fun w => ⟨h w _ (.inl fun _ => rfl), fun _ _ _ => trivial⟩) (fun _ _ => trivial)

end

end MessageRelayer

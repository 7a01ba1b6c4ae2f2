import MessageRelayer.Files

/-!
# The store of unfinished messages

`work::WorkStore`: one file per unfinished message in a directory per route,
and in memory a bounded cursor per route that walks the files in the order of
their ids, lap by lap. An operation is a program over the calls that it makes
on the file system (`FsCall`); any of them may fail. The cursors live under a
mutex that an operation holds throughout, so they are the state of `WorkM`,
which an error does not undo.
-/

namespace MessageRelayer

open Prog

/-! ## The file system -/

/-- The calls on the directory of a route; records are named by their message ids. -/
inductive FsCall where
  /-- `create_dir_durable` of the route's directory. -/
  | createDir (chainKey : ChainKey)
  /-- `try_exists` of a record. -/
  | tryExists (chainKey : ChainKey) (id : B256)
  /-- The first call of `write_atomic`, on the same directory. -/
  | createDirAll (chainKey : ChainKey)
  /-- Then the temporary file, with its contents synced. -/
  | writeTmp (chainKey : ChainKey) (id : B256) (message : IndexedMessage)
  /-- Then the temporary file takes the record's name. -/
  | rename (chainKey : ChainKey) (id : B256) (message : IndexedMessage)
  /-- `sync_directory` of the route's directory. -/
  | syncDir (chainKey : ChainKey)
  /-- `read_dir`: the ids of the records, in any order. -/
  | readDir (chainKey : ChainKey)
  | read (chainKey : ChainKey) (id : B256)
  | removeFile (chainKey : ChainKey) (id : B256)

abbrev FsCall.Result : FsCall → Type
  | createDir _ | createDirAll _ | writeTmp .. | rename .. | syncDir _ | removeFile .. => Unit
  | tryExists .. => Bool
  | readDir _ => List B256
  | read .. => IndexedMessage

abbrev FsCall.Answer (c : FsCall) : Type := Except IoError c.Result

/-! ## Cursors -/

def windowSize : Nat := 4096
def maxExaminedPerCall : Nat := 4096

/-- The position of a route's walk through its records (`work::RouteCursor`). -/
structure RouteCursor where
  liveRecords : Nat
  /-- The last id handed to the walk; none at the start of a lap. -/
  after : Option B256
  /-- The next ids, in ascending order. -/
  window : List B256
  /-- The largest id when the lap began. -/
  lapEnd : Option B256

abbrev Readers := Map ChainKey RouteCursor

/-- An operation under the mutex: it may fail, and keeps what it did to the state `σ`. -/
abbrev WorkM (σ : Type) := ExceptT Error (StateT σ (Prog FsCall FsCall.Answer))

namespace WorkM

/-- A call on the file system. -/
def fs {σ : Type} (c : FsCall) : WorkM σ c.Answer := ExceptT.lift (StateT.lift (call c))

/-- `r?`, with its context. -/
def orFail {σ α : Type} (context : Error) : Except IoError α → WorkM σ α
  | .ok a => pure a
  | .error e => throw (context ++ [e.text])

/-- A call on the file system whose failure is the operation's. -/
def io {σ : Type} (context : Error) (c : FsCall) : WorkM σ c.Result := do
  orFail context (← fs c)

def peek {σ : Type} : WorkM σ σ := ExceptT.lift StateT.get
def update {σ : Type} (f : σ → σ) : WorkM σ Unit := ExceptT.lift (modifyGet fun s => ((), f s))

/-- An operation on a part of the state. -/
def zoom {σ τ α : Type} (part : τ) (put : σ → τ → σ) (m : WorkM τ α) : WorkM σ α :=
  ExceptT.mk (fun s => do
    let (r, t) ← m.run.run part
    pure (r, put s t))

end WorkM

open WorkM

/-- `id` in its place in an ascending list. -/
def insertSorted (id : B256) : List B256 → List B256
  | [] => [id]
  | x :: xs => if id ≤ x then id :: x :: xs else x :: insertSorted id xs

/-- The `windowSize` smallest of an ascending list and `id` (the source keeps them in a heap
and drops the largest). -/
def keepSmallest (smallest : List B256) (id : B256) : List B256 :=
  let smallest := insertSorted id smallest
  if windowSize < smallest.length then smallest.dropLast else smallest

/-- Whether `refill` skips a record: it is behind the walk, or past the end of the lap. -/
def RouteCursor.skips (cursor : RouteCursor) (id : B256) : Bool :=
  cursor.after.any (fun after => decide (id ≤ after)) ||
    (cursor.after.isSome && cursor.lapEnd.any fun lapEnd => decide (lapEnd < id))

/-- `largest.max(Some(id))`. -/
def maxId (largest : Option B256) (id : B256) : Option B256 :=
  match largest with
  | none => some id
  | some l => if l < id then some id else some l

/-- The window after a pass over the records. -/
def RouteCursor.refilled (cursor : RouteCursor) (ids : List B256) : RouteCursor :=
  { cursor with
    lapEnd := if cursor.after.isNone then ids.foldl maxId none else cursor.lapEnd
    window := (ids.filter fun id => !cursor.skips id).foldl keepSmallest [] }

def RouteCursor.refill (chainKey : ChainKey) : WorkM RouteCursor Unit := do
  let ids ← io ["reading pending-message directory"] (.readDir chainKey)
  update fun cursor => cursor.refilled ids

/-! ## The operations -/

namespace WorkStore

/-- Commit a source message before it is handed to a worker. -/
def record (message : IndexedMessage) : WorkM Readers Unit := do
  let route := message.chainKey
  io ["creating pending-message directory"] (.createDir route)
  let existed ← io ["checking pending message"] (.tryExists route message.messageId)
  io ["creating checkpoint dir"] (.createDirAll route)
  io ["writing checkpoint temp file"] (.writeTmp route message.messageId message)
  io ["renaming checkpoint temp file"] (.rename route message.messageId message)
  let _ ← fs (.syncDir route)
  if !existed then
    update fun readers =>
      readers.modify route fun cursor => { cursor with liveRecords := cursor.liveRecords + 1 }
  io ["syncing pending-message directory"] (.syncDir route)

/-- Remove a record whose message is final. -/
def complete (chainKey : ChainKey) (messageId : B256) : WorkM Readers Unit := do
  match ← fs (.removeFile chainKey messageId) with
  | .ok () =>
    update fun readers =>
      readers.modify chainKey fun cursor => { cursor with liveRecords := cursor.liveRecords - 1 }
    io ["syncing pending-message directory"] (.syncDir chainKey)
  | .error .notFound => pure ()
  | .error (.other e) => throw ["removing completed message", e]

/-- What a call of `pending` has done so far. -/
structure Walk where
  wrapped : Bool
  examined : Nat
  loaded : List B256
  messages : List IndexedMessage

/-- What the walk of a call of `pending` does next. -/
inductive Turn where
  | stop
  /-- Past the last record: the next lap starts, once per call. -/
  | wrap
  | go

/-- Look for the next ids, where the window has none. -/
def turn (chainKey : ChainKey) (start : Option B256) (wrapped : Bool) : WorkM RouteCursor Turn := do
  if !(← peek).window.isEmpty then return .go
  if (← peek).liveRecords = 0 then
    update fun cursor => { cursor with after := none }
    return .stop
  RouteCursor.refill chainKey
  if !(← peek).window.isEmpty then return .go
  update fun cursor => { cursor with after := none }
  return if wrapped || start.isNone then .stop else .wrap

/-- Take the next id from the window, unless the walk is back where this call began. -/
def takeNext (start : Option B256) (wrapped : Bool) : WorkM RouteCursor (Option B256) := do
  match (← peek).window with
  | [] => return none
  | id :: window =>
    if wrapped && start.any (fun start => decide (start < id)) then return none
    update fun cursor => { cursor with window, after := some id }
    return some id

/-- The record of an id, unless it is loaded or was removed. -/
def examine (chainKey : ChainKey) (loaded : List B256) (id : B256) :
    WorkM RouteCursor (Option IndexedMessage) := do
  if loaded.contains id then return none
  match ← fs (.read chainKey id) with
  | .error .notFound => return none
  | .error (.other e) => throw ["reading pending message", e]
  | .ok message =>
    if message.chainKey = chainKey ∧ message.messageId = id then return some message
    else throw ["pending message identity disagrees with its storage key"]

/-- The walk of one call of `pending`, from where the cursor was (`start`). Every round
examines an id or wraps around, so `fuel` rounds are enough. -/
def pendingLoop (chainKey : ChainKey) (limit : Nat) (start : Option B256) :
    Nat → Walk → WorkM RouteCursor (List IndexedMessage)
  | 0, walk => pure walk.messages
  | fuel + 1, walk =>
    if walk.examined ≥ maxExaminedPerCall then pure walk.messages
    else do
      match ← turn chainKey start walk.wrapped with
      | .stop => pure walk.messages
      | .wrap => pendingLoop chainKey limit start fuel { walk with wrapped := true }
      | .go =>
        match ← takeNext start walk.wrapped with
        | none => pure walk.messages
        | some id =>
          match ← examine chainKey walk.loaded id with
          | none => pendingLoop chainKey limit start fuel { walk with examined := walk.examined + 1 }
          | some message =>
            let walk : Walk :=
              { walk with
                examined := walk.examined + 1
                loaded := id :: walk.loaded
                messages := walk.messages ++ [message] }
            if walk.messages.length = limit then pure walk.messages
            else pendingLoop chainKey limit start fuel walk

/-- The walk of a call of `pending` with the cursor of the route. -/
def walkFrom (chainKey : ChainKey) (loaded : List B256) (limit : Nat) (cursor : RouteCursor) :
    WorkM Readers (List IndexedMessage) :=
  zoom cursor (fun readers cursor => readers.insert chainKey cursor)
    (pendingLoop chainKey limit cursor.after (maxExaminedPerCall + 2)
      { wrapped := false, examined := 0, loaded, messages := [] })

/-- At most `limit` unfinished messages that are not `loaded`, from where the last call of
`pending` stopped. -/
def pending (chainKey : ChainKey) (loaded : List B256) (limit : Nat) :
    WorkM Readers (List IndexedMessage) := do
  if limit = 0 then pure []
  else do
    match (← peek)[chainKey]? with
    | some cursor => walkFrom chainKey loaded limit cursor
    | none =>
      match ← fs (.readDir chainKey) with
      | .error .notFound => pure []
      | .error (.other e) => throw ["initializing pending-message cursor", e]
      | .ok ids =>
        walkFrom chainKey loaded limit
          { liveRecords := ids.length, after := none, window := [], lapEnd := none }

end WorkStore

/-! ## Calls on the store -/

/-- A call of another task on the store. -/
inductive WorkCall where
  | record (message : IndexedMessage)
  | complete (chainKey : ChainKey) (messageId : B256)
  | pending (chainKey : ChainKey) (loaded : List B256) (limit : Nat)

abbrev WorkCall.Result : WorkCall → Type
  | record _ | complete .. => Unit
  | pending .. => List IndexedMessage

abbrev WorkCall.Answer (c : WorkCall) : Type := Except Error c.Result

/-- The route that a call is about. -/
def WorkCall.route : WorkCall → ChainKey
  | record message => message.chainKey
  | complete chainKey _ | pending chainKey _ _ => chainKey

/-- What a call on the store runs. -/
def WorkCall.body : (c : WorkCall) → WorkM Readers c.Result
  | record message => WorkStore.record message
  | complete chainKey messageId => WorkStore.complete chainKey messageId
  | pending chainKey loaded limit => WorkStore.pending chainKey loaded limit

abbrev WorkProg := Prog WorkCall WorkCall.Answer

def workRecord (message : IndexedMessage) : WorkProg (Except Error Unit) := call (WorkCall.record message)

def workComplete (chainKey : ChainKey) (messageId : B256) : WorkProg (Except Error Unit) :=
  call (WorkCall.complete chainKey messageId)

def workPending (chainKey : ChainKey) (loaded : List B256) (limit : Nat) :
    WorkProg (Except Error (List IndexedMessage)) := call (WorkCall.pending chainKey loaded limit)

section
variable {W : Type} (H : Env WorkCall WorkCall.Answer W)

@[simp] theorem wp_workRecord (message : IndexedMessage) (w : W)
    (Q : W → Except Error Unit → Prop) :
    wp H (workRecord message) w Q ↔ ∀ a w', H w (.record message) a w' → Q w' a := Iff.rfl

@[simp] theorem wp_workPending (chainKey : ChainKey) (loaded : List B256) (limit : Nat) (w : W)
    (Q : W → Except Error (List IndexedMessage) → Prop) :
    wp H (workPending chainKey loaded limit) w Q ↔
      ∀ a w', H w (.pending chainKey loaded limit) a w' → Q w' a := Iff.rfl

end

end MessageRelayer

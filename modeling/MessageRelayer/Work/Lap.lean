import MessageRelayer.Lib.Runs
import MessageRelayer.Work.Facts

/-!
# The walk of a route, observed

The calls on the store one after the other (`LapStep`: an operation holds the
mutex throughout), on directories of records that tell the truth
(`recordsEnv`; any call may fail, and then changes nothing). The walk through
the records of a route is told in laps (`Lap`): `refill` starts one where the
cursor has no position, `takeNext` examines ids, and `complete` removes them.
To be told, the operations are written once more with what they log
(`WorkCall.observed`); without the log they are the operations of the store
(`observed_erase`). The loop of `pending` never runs out of rounds
(`pendingLoop_fuel`).
-/

namespace MessageRelayer

open Prog WorkM

/-! ## The directories of records -/

/-- The records of each route. -/
abbrev Records := ChainKey → Map B256 IndexedMessage

/-- The file system, with nothing but whole records: what it answers is so, and a call that
failed changed nothing. -/
def recordsEnv : Env FsCall FsCall.Answer Records := fun records c a records' =>
  match c, a with
  | .readDir chainKey, .ok ids => ids.Perm (records chainKey).keys ∧ records' = records
  | .readDir chainKey, .error .notFound => (records chainKey).keys = [] ∧ records' = records
  | .tryExists chainKey id, .ok existed =>
    existed = (records chainKey).contains id ∧ records' = records
  | .read chainKey id, .ok message => (records chainKey)[id]? = some message ∧ records' = records
  | .read chainKey id, .error .notFound => (records chainKey)[id]? = none ∧ records' = records
  | .removeFile chainKey id, .ok _ => (records chainKey).contains id = true ∧
      records' = Function.update records chainKey ((records chainKey).erase id)
  | .removeFile chainKey id, .error .notFound =>
    (records chainKey)[id]? = none ∧ records' = records
  | .rename chainKey id message, .ok _ =>
    records' = Function.update records chainKey ((records chainKey).insert id message)
  | _, _ => records' = records

/-- A file system on which no call fails. -/
def recordsAnswer (records : Records) : (c : FsCall) → c.Answer × Records
  | .readDir chainKey => (.ok (records chainKey).keys, records)
  | .tryExists chainKey id => (.ok ((records chainKey).contains id), records)
  | .read chainKey id =>
    match (records chainKey)[id]? with
    | some message => (.ok message, records)
    | none => (.error .notFound, records)
  | .removeFile chainKey id =>
    if (records chainKey).contains id then
      (.ok (), Function.update records chainKey ((records chainKey).erase id))
    else (.error .notFound, records)
  | .rename chainKey id message =>
    (.ok (), Function.update records chainKey ((records chainKey).insert id message))
  | .createDir _ | .createDirAll _ | .writeTmp .. | .syncDir _ => (.ok (), records)

theorem recordsEnv_answer (records : Records) (c : FsCall) :
    recordsEnv records c (recordsAnswer records c).1 (recordsAnswer records c).2 := by
  cases c with
  | readDir chainKey => exact ⟨.refl _, rfl⟩
  | tryExists chainKey id => exact ⟨rfl, rfl⟩
  | read chainKey id =>
    rw [recordsAnswer]
    split
    · rename_i message hm
      exact ⟨hm, rfl⟩
    · rename_i hm
      exact ⟨hm, rfl⟩
  | removeFile chainKey id =>
    rw [recordsAnswer]
    split
    · rename_i hm
      exact ⟨hm, rfl⟩
    · rename_i hm
      exact ⟨Map.not_contains_iff.mp (Bool.eq_false_iff.mpr hm), rfl⟩
  | _ => rfl

/-! ## Laps -/

/-- What happens to the walk of a route. -/
inductive LapEvent where
  /-- `refill` fixes the end of a new lap: the records present. -/
  | start (present : List B256)
  | examined (id : B256)
  | removed (id : B256)

/-- A walk through the records, from the smallest id to the largest that was present. -/
structure Lap where
  present : List B256
  examined : List B256
  removed : List B256
  deriving DecidableEq

/-- The laps after an event, the last one first. -/
def LapEvent.on : List Lap → LapEvent → List Lap
  | laps, start present => { present, examined := [], removed := [] } :: laps
  | lap :: laps, examined id => { lap with examined := lap.examined ++ [id] } :: laps
  | lap :: laps, removed id => { lap with removed := id :: lap.removed } :: laps
  | [], examined _ | [], removed _ => []

/-! ## The operations, observed -/

variable {σ τ α β : Type}

/-- An operation that logs what it did. -/
abbrev ObservedM (σ : Type) := WorkM (σ × List LapEvent)

/-- An operation, with what it logs when it succeeds: of the state before, and its result. -/
def observe (told : σ → α → List LapEvent) (m : WorkM σ α) : ObservedM σ α :=
  ExceptT.mk (fun s => do
    let (r, state) ← m.run.run s.1
    pure (r, state, s.2 ++ match r with
      | .ok a => told s.1 a
      | .error _ => []))

/-- An operation that logs nothing. -/
def unobserved (m : WorkM σ α) : ObservedM σ α := observe (fun _ _ => []) m

/-- `turn` refills an empty window; without a position, that starts a lap. -/
def lapStart (present : List B256) (cursor : RouteCursor) (_ : WorkStore.Turn) : List LapEvent :=
  if cursor.window.isEmpty && cursor.after.isNone && cursor.liveRecords != 0 then [.start present]
  else []

/-- The id that `takeNext` takes. -/
def lapExamined (_ : RouteCursor) (next : Option B256) : List LapEvent :=
  next.toList.map .examined

namespace WorkStore

/-- `pendingLoop`, observed. -/
def lapLoop (present : List B256) (chainKey : ChainKey) (limit : Nat) (start : Option B256) :
    Nat → Walk → ObservedM RouteCursor (List IndexedMessage)
  | 0, walk => pure walk.messages
  | fuel + 1, walk =>
    if walk.examined ≥ maxExaminedPerCall then pure walk.messages
    else do
      match ← observe (lapStart present) (turn chainKey start walk.wrapped) with
      | .stop => pure walk.messages
      | .wrap => lapLoop present chainKey limit start fuel { walk with wrapped := true }
      | .go =>
        match ← observe lapExamined (takeNext start walk.wrapped) with
        | none => pure walk.messages
        | some id =>
          match ← unobserved (examine chainKey walk.loaded id) with
          | none =>
            lapLoop present chainKey limit start fuel { walk with examined := walk.examined + 1 }
          | some message =>
            let walk : Walk :=
              { walk with
                examined := walk.examined + 1
                loaded := id :: walk.loaded
                messages := walk.messages ++ [message] }
            if walk.messages.length = limit then pure walk.messages
            else lapLoop present chainKey limit start fuel walk

/-- `walkFrom`, observed. -/
def lapWalk (present : List B256) (chainKey : ChainKey) (loaded : List B256) (limit : Nat)
    (cursor : RouteCursor) : ObservedM Readers (List IndexedMessage) := do
  zoom (cursor, (← peek).2) (fun s c => (s.1.insert chainKey c.1, c.2))
    (lapLoop present chainKey limit cursor.after (maxExaminedPerCall + 2)
      { wrapped := false, examined := 0, loaded, messages := [] })

/-- `pending`, observed. -/
def lapPending (present : List B256) (chainKey : ChainKey) (loaded : List B256) (limit : Nat) :
    ObservedM Readers (List IndexedMessage) := do
  if limit = 0 then pure []
  else do
    match (← unobserved peek)[chainKey]? with
    | some cursor => lapWalk present chainKey loaded limit cursor
    | none =>
      match ← unobserved (fs (.readDir chainKey)) with
      | .error .notFound => pure []
      | .error (.other e) => throw ["initializing pending-message cursor", e]
      | .ok ids =>
        lapWalk present chainKey loaded limit
          { liveRecords := ids.length, after := none, window := [], lapEnd := none }

end WorkStore

/-- What a call on the store runs, observed. -/
def WorkCall.observed (present : List B256) : (c : WorkCall) → ObservedM Readers c.Result
  | record message => unobserved (WorkStore.record message)
  | complete chainKey messageId => unobserved (WorkStore.complete chainKey messageId)
  | pending chainKey loaded limit => WorkStore.lapPending present chainKey loaded limit

/-! ## Runs -/

structure LapState where
  readers : Readers
  records : Records
  /-- The laps of each route, the last one first. -/
  laps : ChainKey → List Lap

/-- A call on the store, its answer and what its walk logged. -/
structure LapCall where
  call : WorkCall
  answer : call.Answer
  events : List LapEvent

/-- The ids whose record is gone. -/
def gone (before after : Map B256 IndexedMessage) : List LapEvent :=
  (before.keys.filter fun id => !after.contains id).map .removed

/-- A call on the store. -/
def LapStep (s : LapState) (c : LapCall) (s' : LapState) : Prop :=
  Exec recordsEnv ((c.call.observed (s.records c.call.route).keys).run.run (s.readers, []))
    s.records s'.records (c.answer, s'.readers, c.events) ∧
  s'.laps = Function.update s.laps c.call.route
    ((c.events ++ gone (s.records c.call.route) (s'.records c.call.route)).foldl LapEvent.on
      (s.laps c.call.route))

/-- A call on the store where no call on the file system fails. -/
def lapCall (s : LapState) (call : WorkCall) : LapCall × LapState :=
  let (records, answer, readers, events) :=
    ((call.observed (s.records call.route).keys).run.run (s.readers, [])).run recordsAnswer s.records
  let laps := (events ++ gone (s.records call.route) (records call.route)).foldl LapEvent.on
    (s.laps call.route)
  ({ call, answer, events }, { readers, records, laps := Function.update s.laps call.route laps })

theorem lapStep_lapCall (s : LapState) (call : WorkCall) :
    LapStep s (lapCall s call).1 (lapCall s call).2 :=
  ⟨exec_run recordsEnv_answer _ _, rfl⟩

/-! ## The operations behind the log -/

/-- The operation `m'` is `m` and a log. -/
def Erases (m' : ObservedM σ α) (m : WorkM σ α) : Prop :=
  ∀ s log, (fun r => (r.1, r.2.1)) <$> m'.run.run (s, log) = m.run.run s

theorem erases_pure (a : α) : Erases (pure a : ObservedM σ α) (pure a) := fun _ _ => rfl

theorem erases_throw (e : Error) : Erases (throw e : ObservedM σ α) (throw e) := fun _ _ => rfl

theorem erases_observe (told : σ → α → List LapEvent) (m : WorkM σ α) :
    Erases (observe told m) m := fun s log => by
  show _ <$> (m.run.run s >>= _) = _
  rw [map_bind]
  exact bind_pure _

theorem erases_bind {m' : ObservedM σ α} {m : WorkM σ α} {f' : α → ObservedM σ β}
    {f : α → WorkM σ β} (hm : Erases m' m) (hf : ∀ a, Erases (f' a) (f a)) :
    Erases (m' >>= f') (m >>= f) := fun s log => by
  rw [ExceptT.run_bind, ExceptT.run_bind, StateT.run_bind, StateT.run_bind, ← hm s log,
    bind_map_left, map_bind]
  refine bind_congr fun r => ?_
  obtain ⟨_ | a, s', log'⟩ := r
  · rfl
  · exact hf a s' log'

theorem erases_zoom (part : τ) (log : List LapEvent) (put : σ → τ → σ) {m' : ObservedM τ α}
    {m : WorkM τ α} (h : Erases m' m) (s : σ × List LapEvent) :
    (fun r => (r.1, r.2.1)) <$>
        (zoom (part, log) (fun s c => (put s.1 c.1, c.2)) m' : ObservedM σ α).run.run s =
      (zoom part put m : WorkM σ α).run.run s.1 := by
  show _ <$> (m'.run.run (part, log) >>= _) = m.run.run part >>= _
  rw [← h part log, map_bind, bind_map_left]
  rfl

namespace WorkStore

theorem lapLoop_erase (present : List B256) (chainKey : ChainKey) (limit : Nat)
    (start : Option B256) (fuel : Nat) : ∀ walk : Walk,
    Erases (lapLoop present chainKey limit start fuel walk)
      (pendingLoop chainKey limit start fuel walk) := by
  induction fuel with
  | zero => exact fun walk => erases_pure _
  | succ fuel ih =>
    intro walk
    rw [lapLoop, pendingLoop]
    split
    · exact erases_pure _
    · refine erases_bind (erases_observe _ _) fun t => ?_
      cases t with
      | stop => exact erases_pure _
      | wrap => exact ih _
      | go =>
        refine erases_bind (erases_observe _ _) fun next => ?_
        cases next with
        | none => exact erases_pure _
        | some id =>
          refine erases_bind (erases_observe _ _) fun found => ?_
          cases found with
          | none => exact ih _
          | some message =>
            dsimp only
            split
            · exact erases_pure _
            · exact ih _

theorem lapWalk_erase (present : List B256) (chainKey : ChainKey) (loaded : List B256) (limit : Nat)
    (cursor : RouteCursor) :
    Erases (lapWalk present chainKey loaded limit cursor)
      (walkFrom chainKey loaded limit cursor) := fun s log => by
  exact erases_zoom cursor log (fun readers cursor => readers.insert chainKey cursor)
    (lapLoop_erase present chainKey limit _ _ _) (s, log)

theorem lapPending_erase (present : List B256) (chainKey : ChainKey) (loaded : List B256)
    (limit : Nat) :
    Erases (lapPending present chainKey loaded limit) (pending chainKey loaded limit) := by
  rw [lapPending, pending]
  split
  · exact erases_pure _
  · refine erases_bind (erases_observe _ _) fun readers => ?_
    rcases readers[chainKey]? with _ | cursor
    · refine erases_bind (erases_observe _ _) fun a => ?_
      rcases a with (_ | e) | ids
      · exact erases_pure _
      · exact erases_throw _
      · exact lapWalk_erase _ _ _ _ _
    · exact lapWalk_erase _ _ _ _ _

end WorkStore

/-- Without its log, an observed call is the call. -/
theorem observed_erase (present : List B256) (c : WorkCall) : Erases (c.observed present) c.body := by
  cases c with
  | record message => exact erases_observe (fun _ _ => []) (WorkStore.record message)
  | complete chainKey id => exact erases_observe (fun _ _ => []) (WorkStore.complete chainKey id)
  | pending chainKey loaded limit => exact WorkStore.lapPending_erase _ _ _ _

/-! ## The rounds of a call -/

namespace WorkStore

/-- A call that has wrapped around does not wrap again. -/
theorem turn_congr {chainKey : ChainKey} {start : Option B256} {wrapped : Bool}
    {f g : Turn → WorkM RouteCursor α} (hs : f .stop = g .stop) (hg : f .go = g .go)
    (hw : wrapped = false → f .wrap = g .wrap) :
    turn chainKey start wrapped >>= f = turn chainKey start wrapped >>= g := by
  cases wrapped with
  | false =>
    refine bind_congr fun t => ?_
    cases t with
    | stop => exact hs
    | wrap => exact hw rfl
    | go => exact hg
  | true =>
    simp only [turn, bind_assoc, Bool.true_or, if_true]
    refine bind_congr fun cursor => ?_
    split
    · rw [pure_bind, pure_bind, hg]
    · rw [bind_assoc, bind_assoc]
      refine bind_congr fun cursor => ?_
      split <;> simp only [bind_assoc, pure_bind, hs]
      refine bind_congr fun _ => bind_congr fun cursor => ?_
      split <;> simp only [bind_assoc, pure_bind, hs, hg]

/-- With a round for every id that the call may examine, one to wrap around and one to end, the
walk does not run out of rounds. -/
theorem pendingLoop_fuel {chainKey : ChainKey} {limit : Nat} {start : Option B256} (more fuel : Nat) :
    ∀ walk : Walk, maxExaminedPerCall - walk.examined + (if walk.wrapped then 0 else 1) < fuel →
      pendingLoop chainKey limit start (fuel + more) walk =
        pendingLoop chainKey limit start fuel walk := by
  induction fuel with
  | zero => exact fun walk h => absurd h (Nat.not_lt_zero _)
  | succ fuel ih =>
    intro walk h
    rw [Nat.add_right_comm, pendingLoop, pendingLoop]
    split
    · rfl
    · rename_i he
      refine turn_congr rfl ?_ fun hw => ih _ ?_
      · refine bind_congr fun next => ?_
        cases next with
        | none => rfl
        | some id =>
          refine bind_congr fun found => ?_
          cases found with
          | none =>
            refine ih _ ?_
            dsimp only
            omega
          | some message =>
            dsimp only
            split
            · rfl
            · refine ih _ ?_
              dsimp only
              omega
      · rw [hw] at h
        simp only [if_true]
        simp only [Bool.false_eq_true, if_false] at h
        omega

end WorkStore

end MessageRelayer

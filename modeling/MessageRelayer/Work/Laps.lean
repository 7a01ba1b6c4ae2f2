import MessageRelayer.Work.Fairness

/-!
# Laps

Each piece of the walk keeps the cursor fair (`turn_spec`, `takeNext_spec`,
`examine_spec`), so the walk of a call does (`lapLoop_spec`), which also never
examines an id twice (`Told`), and answers with what it found (`Offered`).
`record` and `complete` only change the records and their count
(`record_counted`, `complete_counted`). From this every call keeps every cursor
fair (`LapStep.ok`), and every run tells of ordered laps that were complete when
they were over (`lap_fairness`).
-/

namespace MessageRelayer

open Prog WorkM

theorem post_observe {σ α W : Type} (H : Env FsCall FsCall.Answer W)
    (told : σ → α → List LapEvent) (m : WorkM σ α) (s : σ) (log : List LapEvent) (w : W)
    (Q : W → Except Error α → σ × List LapEvent → Prop) :
    post H (observe told m) (s, log) w Q ↔ post H m s w fun w' r s' =>
      Q w' r (s', log ++ match r with
        | .ok a => told s a
        | .error _ => []) := wp_bind H _ _ w _

theorem post_unobserved {σ α W : Type} (H : Env FsCall FsCall.Answer W) (m : WorkM σ α) (s : σ)
    (log : List LapEvent) (w : W) (Q : W → Except Error α → σ × List LapEvent → Prop) :
    post H (unobserved m) (s, log) w Q ↔ post H m s w fun w' r s' => Q w' r (s', log) := by
  rw [unobserved, post_observe]
  refine wp_congr fun w' r => ?_
  obtain ⟨_ | _, _⟩ := r <;> simp

namespace WorkStore

/-! ## The pieces of the walk -/

/-- What `turn` leaves to the walk. -/
def Turned (cursor : RouteCursor) (start : Option B256) (wrapped : Bool) (cursor' : RouteCursor) :
    Turn → Prop
  | .go => cursor'.window ≠ [] ∧ cursor'.after = cursor.after
  | .wrap => cursor'.after = none ∧ wrapped = false ∧ start ≠ none
  | .stop => True

section
variable {records : Records} {chainKey : ChainKey} {cursor : RouteCursor} {laps : List Lap}

theorem turn_spec (h : Fair (records chainKey) cursor laps) (start : Option B256) (wrapped : Bool) :
    post recordsEnv (turn chainKey start wrapped) cursor records fun records' r cursor' =>
      records' = records ∧ match r with
        | .error _ => cursor' = cursor
        | .ok t => Fair (records chainKey) cursor'
            ((lapStart (records chainKey).keys cursor t).foldl LapEvent.on laps) ∧
          Turned cursor start wrapped cursor' t := by
  rw [turn, post_bind, post_peek]
  dsimp only
  split
  · rename_i hw
    have hw : cursor.window ≠ [] := by simpa using hw
    refine ⟨rfl, ?_, hw, rfl⟩
    rw [lapStart, if_neg (by simp [hw])]
    exact h
  · rename_i hw
    have hw : cursor.window = [] := by simpa using hw
    rw [post_bind, post_peek]
    dsimp only
    split
    · rename_i hl
      refine ⟨rfl, ?_, trivial⟩
      rw [lapStart, if_neg (by simp [hl])]
      exact h.ended hw (h.complete_of_empty hw hl)
    · rename_i hl
      rw [post_bind, RouteCursor.refill, post_bind, post_io]
      intro a records' ha
      cases a with
      | error e =>
        refine ⟨?_, rfl⟩
        cases e with
        | notFound => exact ha.2
        | other => exact ha
      | ok ids =>
        obtain ⟨hp, rfl⟩ := ha
        simp only [post_bind, post_update, post_peek]
        have hwe : cursor.window.isEmpty = true := by rw [hw]; rfl
        by_cases ha : cursor.after = none
        · obtain ⟨hne, hf⟩ := h.refill_start ha hw hl hp
          rw [if_pos (by simpa using hne)]
          refine ⟨rfl, ?_, hne, rfl⟩
          rw [lapStart, if_pos (by simp [hwe, ha, hl])]
          exact hf
        · obtain ⟨hf, hc⟩ := h.refill_on ha hw hp
          have hs : ∀ t, lapStart (records' chainKey).keys cursor t = [] := fun t => by
            rw [lapStart, if_neg (by simp [ha])]
          split
          · rename_i hne
            refine ⟨rfl, ?_, by simpa using hne, rfl⟩
            rw [hs]
            exact hf
          · rename_i he
            have he : (cursor.refilled ids).window = [] := by simpa using he
            refine ⟨rfl, ?_, ?_⟩
            · rw [hs]
              exact hf.ended he (hc he)
            · split
              · trivial
              · rename_i hn
                rw [Bool.or_eq_true, not_or] at hn
                exact ⟨rfl, by simpa using hn.1, by simpa using hn.2⟩

theorem takeNext_spec (h : Fair (records chainKey) cursor laps) (start : Option B256)
    (wrapped : Bool) :
    post recordsEnv (takeNext start wrapped) cursor records fun records' r cursor' =>
      records' = records ∧ ∃ next, r = .ok next ∧
        Fair (records chainKey) cursor' ((lapExamined cursor next).foldl LapEvent.on laps) ∧
        match next with
        | none => True
        | some id => cursor.Ahead id ∧ cursor'.after = some id ∧
            (wrapped = true → ∀ s, start = some s → id ≤ s) := by
  rw [takeNext, post_bind, post_peek]
  dsimp only
  split
  · exact ⟨rfl, none, rfl, h, trivial⟩
  · rename_i id window hw
    split
    · exact ⟨rfl, none, rfl, h, trivial⟩
    · rename_i hs
      refine ⟨rfl, some id, rfl, h.taken hw, h.next id (by simp [hw]), rfl, fun e s hs' => ?_⟩
      subst e hs'
      exact BitVec.not_lt.mp (by simpa using hs)

theorem examine_spec (loaded : List B256) (id : B256) :
    post recordsEnv (examine chainKey loaded id) cursor records fun records' r cursor' =>
      records' = records ∧ cursor' = cursor ∧
        (r = .ok none → id ∈ loaded ∨ (records chainKey)[id]? = none) ∧
        ∀ message, r = .ok (some message) →
          message.messageId = id ∧ (records chainKey)[id]? = some message := by
  rw [examine]
  split
  · rename_i hl
    exact ⟨rfl, rfl, fun _ => .inl (List.contains_iff_mem.mp hl), fun _ h => by cases h⟩
  · rw [post_bind, post_fs]
    intro a records' ha
    cases a with
    | error e =>
      cases e with
      | notFound => exact ⟨ha.2, rfl, fun _ => .inr ha.1, fun _ h => by cases h⟩
      | other => exact ⟨ha, rfl, (fun h => by cases h), fun _ h => by cases h⟩
    | ok message =>
      obtain ⟨hm, rfl⟩ := ha
      dsimp only
      split
      · rename_i he
        refine ⟨rfl, rfl, (fun h => by cases h), fun m e => ?_⟩
        cases e
        exact ⟨he.2, hm⟩
      · exact ⟨rfl, rfl, (fun h => by cases h), fun _ h => by cases h⟩

end

/-! ## The walk of a call -/

/-- The ids that a call examined. -/
def examinedIds (log : List LapEvent) : List B256 := log.filterMap fun
  | .examined id => some id
  | .start _ | .removed _ => none

theorem examinedIds_append (log log' : List LapEvent) :
    examinedIds (log ++ log') = examinedIds log ++ examinedIds log' := List.filterMap_append

theorem examinedIds_lapStart (present : List B256) (cursor : RouteCursor) (t : Turn) :
    examinedIds (lapStart present cursor t) = [] := by
  rw [lapStart]
  split <;> rfl

/-- The ids that a call has examined: up to where it wrapped around, they lie between its start
and its position; from then on, after its start or up to its position. -/
structure Told (cursor : RouteCursor) (start : Option B256) (walk : Walk) (ids : List B256) :
    Prop where
  nodup : ids.Nodup
  count : ids.length = walk.examined
  most : walk.examined ≤ maxExaminedPerCall
  from_start : walk.wrapped = false → ∀ s, start = some s → ∃ a, cursor.after = some a ∧ s ≤ a
  apart : ∀ id ∈ ids, (walk.wrapped = true ∧ ∃ s, start = some s ∧ s < id) ∨
    (∃ a, cursor.after = some a ∧ id ≤ a) ∧ (walk.wrapped = false → ∀ s, start = some s → s < id)

section
variable {cursor cursor' : RouteCursor} {start : Option B256} {walk : Walk} {ids : List B256}

theorem Told.go (h : Told cursor start walk ids) (ha : cursor'.after = cursor.after) :
    Told cursor' start walk ids :=
  ⟨h.nodup, h.count, h.most, ha ▸ h.from_start, ha ▸ h.apart⟩

theorem Told.wrap (h : Told cursor start walk ids) (hw : walk.wrapped = false) (hs : start ≠ none) :
    Told cursor' start { walk with wrapped := true } ids := by
  refine ⟨h.nodup, h.count, h.most, nofun, fun id hi => .inl ⟨rfl, ?_⟩⟩
  obtain ⟨s, rfl⟩ := Option.ne_none_iff_exists'.mp hs
  rcases h.apart id hi with ⟨e, -⟩ | ⟨-, hb⟩
  · rw [hw] at e
    cases e
  · exact ⟨s, rfl, hb hw s rfl⟩

/-- One more id. -/
theorem Told.take (h : Told cursor start walk ids) (hm : walk.examined < maxExaminedPerCall)
    {id : B256} (ha : cursor.Ahead id) (ha' : cursor'.after = some id)
    (hs : walk.wrapped = true → ∀ s, start = some s → id ≤ s) {walk' : Walk}
    (hw : walk'.wrapped = walk.wrapped) (he : walk'.examined = walk.examined + 1) :
    Told cursor' start walk' (ids ++ [id]) := by
  have hlt : ∀ x a, cursor.after = some a → x ≤ a → x < id := fun x a e hx => by
    have := ha a e
    bv_omega
  have hn : id ∉ ids := fun hi => by
    rcases h.apart id hi with ⟨e, s, hs', hlt⟩ | ⟨⟨a, e, hle⟩, -⟩
    · have := hs e s hs'
      bv_omega
    · exact absurd (hlt id a e hle) (BitVec.lt_irrefl _)
  have hfrom : walk.wrapped = false → ∀ s, start = some s → s < id := fun e s hs' => by
    obtain ⟨a, hea, hle⟩ := h.from_start e s hs'
    exact hlt s a hea hle
  refine ⟨?_, ?_, ?_, fun e s hs' => ⟨id, ha', ?_⟩, fun x hx => ?_⟩
  · rw [List.nodup_append]
    refine ⟨h.nodup, by simp, fun x hx y hy e => hn ?_⟩
    rwa [← List.mem_singleton.mp hy, ← e]
  · rw [List.length_append, h.count, he, List.length_singleton]
  · omega
  · exact BitVec.le_of_lt (hfrom (hw ▸ e) s hs')
  · rw [hw]
    rcases List.mem_append.mp hx with hx | hx
    · refine (h.apart x hx).imp_right fun ⟨⟨a, e, hle⟩, hb⟩ => ⟨⟨id, ha', ?_⟩, hb⟩
      exact BitVec.le_of_lt (hlt x a e hle)
    · rw [List.mem_singleton.mp hx]
      exact .inr ⟨⟨id, ha', BitVec.le_refl _⟩, hfrom⟩

end

/-- The record of an id, where it has one, is among the messages, unless the id was loaded. -/
def Handed (records : Map B256 IndexedMessage) (loaded : List B256) (messages : List IndexedMessage)
    (id : B256) : Prop := id ∈ loaded ∨ ∀ m, records[id]? = some m → m ∈ messages

/-- What a call that was given the ids `loaded` and has examined `ids` has to answer. -/
structure Offered (records : Map B256 IndexedMessage) (loaded : List B256) (walk : Walk)
    (ids : List B256) : Prop where
  stored : ∀ m ∈ walk.messages, records[m.messageId]? = some m
  known : ∀ id ∈ walk.loaded, Handed records loaded walk.messages id
  examined : ∀ id ∈ ids, Handed records loaded walk.messages id

section
variable {records : Map B256 IndexedMessage} {loaded ids : List B256} {walk : Walk} {id : B256}

/-- An id is examined without a message. -/
theorem Offered.skip (h : Offered records loaded walk ids)
    (hn : id ∈ walk.loaded ∨ records[id]? = none) :
    Offered records loaded { walk with examined := walk.examined + 1 } (ids ++ [id]) := by
  refine ⟨h.stored, h.known, List.forall_mem_append.mpr ⟨h.examined, ?_⟩⟩
  rw [List.forall_mem_singleton]
  rcases hn with hl | hnone
  · exact h.known id hl
  · exact .inr fun m hm => by rw [hnone] at hm; cases hm

/-- An id is examined, and its record is a message. -/
theorem Offered.found (h : Offered records loaded walk ids) {message : IndexedMessage}
    (hid : message.messageId = id) (hm : records[id]? = some message) :
    Offered records loaded { walk with
      examined := walk.examined + 1
      loaded := id :: walk.loaded
      messages := walk.messages ++ [message] } (ids ++ [id]) := by
  have hgrow : ∀ x, Handed records loaded walk.messages x →
      Handed records loaded (walk.messages ++ [message]) x :=
    fun x hx => hx.imp_right fun ha m hm => List.mem_append_left _ (ha m hm)
  have hself : Handed records loaded (walk.messages ++ [message]) id := .inr fun m hm' => by
    rw [hm, Option.some.injEq] at hm'
    exact List.mem_append_right _ (List.mem_singleton.mpr hm'.symm)
  refine ⟨List.forall_mem_append.mpr ⟨h.stored, List.forall_mem_singleton.mpr (hid ▸ hm)⟩, ?_, ?_⟩
  · exact List.forall_mem_cons.mpr ⟨hself, fun x hx => hgrow x (h.known x hx)⟩
  · exact List.forall_mem_append.mpr
      ⟨fun x hx => hgrow x (h.examined x hx), List.forall_mem_singleton.mpr hself⟩

end

/-- What the walk of a call has done: a fair cursor, each id examined once, records as stored and none
of those examined left out. -/
structure Walked (records : Map B256 IndexedMessage) (laps : List Lap) (loaded : List B256)
    (r : Except Error (List IndexedMessage)) (s : RouteCursor × List LapEvent) : Prop where
  fair : Fair records s.1 (s.2.foldl LapEvent.on laps)
  nodup : (examinedIds s.2).Nodup
  most : (examinedIds s.2).length ≤ maxExaminedPerCall
  stored : ∀ messages, r = .ok messages → ∀ m ∈ messages, records[m.messageId]? = some m
  handed : ∀ messages, r = .ok messages → ∀ id ∈ examinedIds s.2, Handed records loaded messages id

variable {records : Records} {chainKey : ChainKey} {limit : Nat} {laps : List Lap}

/-- A walk that ends here, with what it has. -/
theorem Walked.done {cursor cursor' : RouteCursor} {start : Option B256} {walk : Walk}
    {loaded : List B256} {log : List LapEvent}
    (hf : Fair (records chainKey) cursor (log.foldl LapEvent.on laps))
    (ho : Offered (records chainKey) loaded walk (examinedIds log))
    (ht : Told cursor' start walk (examinedIds log)) :
    Walked (records chainKey) laps loaded (.ok walk.messages) (cursor, log) :=
  ⟨hf, ht.nodup, ht.count ▸ ht.most, fun _ e => by cases e; exact ho.stored,
    fun _ e => by cases e; exact ho.examined⟩

/-- A walk that fails. -/
theorem Walked.failed {cursor : RouteCursor} {start : Option B256} {walk : Walk} {loaded : List B256}
    {log : List LapEvent} (hf : Fair (records chainKey) cursor (log.foldl LapEvent.on laps))
    (ht : Told cursor start walk (examinedIds log)) (e : Error) :
    Walked (records chainKey) laps loaded (.error e) (cursor, log) :=
  ⟨hf, ht.nodup, ht.count ▸ ht.most, nofun, nofun⟩

theorem lapLoop_spec (loaded : List B256) (start : Option B256) (fuel : Nat) :
    ∀ (walk : Walk) (cursor : RouteCursor) (log : List LapEvent),
      Fair (records chainKey) cursor (log.foldl LapEvent.on laps) →
      Told cursor start walk (examinedIds log) →
      Offered (records chainKey) loaded walk (examinedIds log) →
      post recordsEnv (lapLoop (records chainKey).keys chainKey limit start fuel walk)
        (cursor, log) records fun records' r s =>
          records' = records ∧ Walked (records chainKey) laps loaded r s := by
  induction fuel with
  | zero => exact fun walk cursor log hf ht ho => ⟨rfl, .done hf ho ht⟩
  | succ fuel ih =>
    intro walk cursor log hf ht ho
    rw [lapLoop]
    split
    · exact ⟨rfl, .done hf ho ht⟩
    rename_i hlt
    rw [post_bind, post_observe]
    refine post_mono recordsEnv (turn_spec hf start walk.wrapped) fun records' r cursor₁ hr => ?_
    obtain ⟨rfl, hr⟩ := hr
    cases r with
    | error e =>
      subst hr
      dsimp only
      rw [List.append_nil]
      exact ⟨rfl, .failed hf ht e⟩
    | ok t =>
      obtain ⟨hf₁, htu⟩ := hr
      dsimp only
      rw [← List.foldl_append] at hf₁
      generalize hlog : log ++ lapStart (records' chainKey).keys cursor t = log₁ at hf₁ ⊢
      have hids : examinedIds log₁ = examinedIds log := by
        rw [← hlog, examinedIds_append, examinedIds_lapStart, List.append_nil]
      rw [← hids] at ht ho
      cases t with
      | stop => exact ⟨rfl, .done hf₁ ho ht⟩
      | wrap => exact ih _ _ _ hf₁ (ht.wrap htu.2.1 htu.2.2) ⟨ho.stored, ho.known, ho.examined⟩
      | go =>
        have ht₁ := ht.go htu.2
        dsimp only
        rw [post_bind, post_observe]
        refine post_mono recordsEnv (takeNext_spec hf₁ start walk.wrapped)
          fun records'' r cursor₂ hr => ?_
        obtain ⟨rfl, next, rfl, hf₂, hn⟩ := hr
        rw [← List.foldl_append] at hf₂
        dsimp only
        cases next with
        | none =>
          rw [show lapExamined cursor₁ none = [] from rfl, List.append_nil] at hf₂ ⊢
          exact ⟨rfl, .done hf₂ ho ht⟩
        | some id =>
          obtain ⟨ha, ha', hs⟩ := hn
          have hone : examinedIds (log₁ ++ lapExamined cursor₁ (some id)) = examinedIds log₁ ++ [id] :=
            examinedIds_append _ _
          have htake : ∀ walk' : Walk, walk'.wrapped = walk.wrapped →
              walk'.examined = walk.examined + 1 →
              Told cursor₂ start walk' (examinedIds (log₁ ++ lapExamined cursor₁ (some id))) := by
            intro walk' hw he
            rw [hone]
            exact ht₁.take (Nat.lt_of_not_ge hlt) ha ha' hs hw he
          dsimp only
          rw [post_bind, post_unobserved]
          refine post_mono recordsEnv (examine_spec walk.loaded id) fun records₃ r cursor₃ hr => ?_
          obtain ⟨rfl, rfl, hskip, hfound⟩ := hr
          cases r with
          | error e =>
            have ht₂ := htake { walk with examined := walk.examined + 1 } rfl rfl
            exact ⟨rfl, .failed hf₂ ht₂ e⟩
          | ok found =>
            cases found with
            | none =>
              have ho' := ho.skip (hskip rfl)
              rw [← hone] at ho'
              exact ih _ _ _ hf₂ (htake _ rfl rfl) ho'
            | some message =>
              obtain ⟨hid, hm⟩ := hfound message rfl
              have ho' := ho.found hid hm
              rw [← hone] at ho'
              dsimp only
              split
              · exact ⟨rfl, .done hf₂ ho' (htake _ rfl rfl)⟩
              · exact ih _ _ _ hf₂ (htake _ rfl rfl) ho'

/-! ## The calls on the store -/

/-- The laps of a route fit its cursor; without a cursor there are none. -/
def RouteOk (records : Map B256 IndexedMessage) (cursor : Option RouteCursor) (laps : List Lap) :
    Prop :=
  match cursor with
  | none => laps = []
  | some cursor => Fair records cursor laps

/-- What a call of `pending` has done to the cursors. -/
structure Pended (records : Records) (chainKey : ChainKey) (laps : List Lap) (readers : Readers)
    (loaded : List B256) (r : Except Error (List IndexedMessage)) (s : Readers × List LapEvent) :
    Prop where
  others : ∀ c, c ≠ chainKey → s.1[c]? = readers[c]?
  ok : RouteOk (records chainKey) s.1[chainKey]? (s.2.foldl LapEvent.on laps)
  nodup : (examinedIds s.2).Nodup
  most : (examinedIds s.2).length ≤ maxExaminedPerCall
  stored : ∀ messages, r = .ok messages → ∀ m ∈ messages,
    (records chainKey)[m.messageId]? = some m
  handed : ∀ messages, r = .ok messages → ∀ id ∈ examinedIds s.2,
    Handed (records chainKey) loaded messages id

theorem lapWalk_spec {cursor : RouteCursor} (h : Fair (records chainKey) cursor laps)
    (loaded : List B256) (readers : Readers) :
    post recordsEnv (lapWalk (records chainKey).keys chainKey loaded limit cursor) (readers, [])
      records fun records' r s => records' = records ∧
        Pended records chainKey laps readers loaded r s := by
  rw [lapWalk, post_bind, post_peek]
  dsimp only
  rw [post_zoom]
  have ht : Told cursor cursor.after ⟨false, 0, loaded, []⟩ (examinedIds []) :=
    ⟨.nil, rfl, Nat.zero_le _, fun _ s e => ⟨s, e, BitVec.le_refl _⟩, nofun⟩
  have ho : Offered (records chainKey) loaded ⟨false, 0, loaded, []⟩ (examinedIds []) :=
    ⟨nofun, fun _ hl => .inl hl, nofun⟩
  refine post_mono recordsEnv (lapLoop_spec loaded cursor.after _ _ _ _ h ht ho)
    fun records' r s hr => ?_
  refine ⟨hr.1, fun c hc => Map.get_insert_ne hc, ?_, hr.2.nodup, hr.2.most, hr.2.stored,
    hr.2.handed⟩
  show RouteOk _ (readers.insert chainKey s.1)[chainKey]? _
  rw [Map.get_insert_self]
  exact hr.2.fair

theorem lapPending_spec {readers : Readers} (h : RouteOk (records chainKey) readers[chainKey]? laps)
    (loaded : List B256) (limit : Nat) :
    post recordsEnv (lapPending (records chainKey).keys chainKey loaded limit) (readers, []) records
      fun records' r s => records' = records ∧
        Pended records chainKey laps readers loaded r s := by
  have hstay : ∀ r : Except Error (List IndexedMessage), (∀ messages, r = .ok messages → messages = []) →
      Pended records chainKey laps readers loaded r (readers, []) := fun r hr =>
    ⟨fun _ _ => rfl, h, .nil, Nat.zero_le _,
      fun messages e m hm => absurd (hr messages e ▸ hm) List.not_mem_nil, fun _ _ => nofun⟩
  have hnil : ∀ messages : List IndexedMessage, (Except.ok [] : Except Error _) = .ok messages →
      messages = [] := fun _ e => by cases e; rfl
  rw [lapPending]
  split
  · exact ⟨rfl, hstay _ hnil⟩
  · rw [post_bind, post_unobserved, post_peek]
    dsimp only
    cases hc : readers[chainKey]? with
    | some cursor =>
      rw [hc] at h
      exact lapWalk_spec h loaded readers
    | none =>
      dsimp only
      rw [post_bind, post_unobserved, post_fs]
      intro a records' ha
      cases a with
      | error e =>
        cases e with
        | notFound => exact ⟨ha.2, hstay _ hnil⟩
        | other => exact ⟨ha, hstay _ fun _ h => by cases h⟩
      | ok ids =>
        obtain ⟨hp, rfl⟩ := ha
        rw [hc] at h
        subst h
        have hsize : ids.length = (records' chainKey).size := by
          rw [hp.length_eq, Std.ExtTreeMap.length_keys]
        dsimp only
        rw [hsize]
        exact lapWalk_spec (.start _) loaded readers

/-- What `record` and `complete` do to the cursors and the records of the routes: the records
of one route change, and its cursor counts them. -/
structure Recounted (chainKey : ChainKey) (readers : Readers) (records : Records) (readers' : Readers)
    (records' : Records) : Prop where
  others : ∀ c, c ≠ chainKey → readers'[c]? = readers[c]? ∧ records' c = records c
  cursor : (∀ cursor, readers[chainKey]? = some cursor →
      cursor.liveRecords = (records chainKey).size) →
    readers'[chainKey]? = readers[chainKey]?.map fun cursor =>
      { cursor with liveRecords := (records' chainKey).size }

theorem Recounted.same (chainKey : ChainKey) (readers : Readers) (records : Records) :
    Recounted chainKey readers records readers records := by
  refine ⟨fun _ _ => ⟨rfl, rfl⟩, fun h => ?_⟩
  cases hc : readers[chainKey]? with
  | none => rfl
  | some cursor => rw [Option.map_some, ← h cursor hc]

/-- The count moves with the number of records. -/
theorem Recounted.modify {chainKey : ChainKey} {readers : Readers} {records : Records}
    {m : Map B256 IndexedMessage} (f : Nat → Nat) (hf : m.size = f (records chainKey).size) :
    Recounted chainKey readers records
      (readers.modify chainKey fun cursor => { cursor with liveRecords := f cursor.liveRecords })
      (Function.update records chainKey m) := by
  refine ⟨fun c hc => ⟨?_, Function.update_of_ne hc _ _⟩, fun h => ?_⟩
  · rw [Map.get_modify, if_neg hc]
  · rw [Map.get_modify, if_pos rfl, Function.update_self]
    cases hc : readers[chainKey]? with
    | none => rfl
    | some cursor => rw [Option.map_some, Option.map_some, h cursor hc, hf]

/-- The count stays with the number of records. -/
theorem Recounted.keep {chainKey : ChainKey} {readers : Readers} {records : Records}
    {m : Map B256 IndexedMessage} (hm : m.size = (records chainKey).size) :
    Recounted chainKey readers records readers (Function.update records chainKey m) := by
  have h := (Recounted.same chainKey readers records).cursor
  refine ⟨fun c hc => ⟨rfl, Function.update_of_ne hc _ _⟩, fun hl => ?_⟩
  rw [Function.update_self, hm]
  exact h hl

/-- The answers to the calls of `record` other than the rename. -/
theorem records_eq {records records' : Records} {c : FsCall} {a : c.Answer}
    (ha : recordsEnv records c a records') (hr : ∀ chainKey id m, c ≠ .rename chainKey id m)
    (hf : ∀ chainKey id, c ≠ .removeFile chainKey id) : records' = records := by
  cases c with
  | rename chainKey id m => exact absurd rfl (hr _ _ _)
  | removeFile chainKey id => exact absurd rfl (hf _ _)
  | createDir | createDirAll | writeTmp | syncDir => exact ha
  | tryExists =>
    cases a with
    | ok => exact ha.2
    | error => exact ha
  | readDir | read => rcases a with (_ | _) | _ <;> first | exact ha.2 | exact ha

theorem record_counted (message : IndexedMessage) (readers : Readers) (records : Records) :
    post recordsEnv (record message) readers records fun records' _ readers' =>
      Recounted message.chainKey readers records readers' records' := by
  have hs := Recounted.same message.chainKey readers records
  have hsync : ∀ readers' records', Recounted message.chainKey readers records readers' records' →
      post recordsEnv (io ["syncing pending-message directory"] (.syncDir message.chainKey) :
        WorkM Readers Unit) readers' records' fun records'' _ readers'' =>
          Recounted message.chainKey readers records readers'' records'' := fun readers' records' hc => by
    rw [post_io]
    intro a records'' ha
    have := records_eq ha (fun _ _ _ h => by cases h) fun _ _ h => by cases h
    subst this
    cases a <;> exact hc
  unfold record
  simp only [post_bind, post_io, post_fs]
  intro a records₁ ha
  obtain rfl := records_eq ha (fun _ _ _ h => by cases h) fun _ _ h => by cases h
  cases a with
  | error => exact hs
  | ok =>
  intro a records₂ hex
  obtain rfl := records_eq hex (fun _ _ _ h => by cases h) fun _ _ h => by cases h
  cases a with
  | error => exact hs
  | ok existed =>
  intro a records₃ ha
  obtain rfl := records_eq ha (fun _ _ _ h => by cases h) fun _ _ h => by cases h
  cases a with
  | error => exact hs
  | ok =>
  intro a records₄ ha
  obtain rfl := records_eq ha (fun _ _ _ h => by cases h) fun _ _ h => by cases h
  cases a with
  | error => exact hs
  | ok =>
  intro a records₅ hren
  cases a with
  | error =>
    rw [show records₅ = records₄ from hren]
    exact hs
  | ok =>
  obtain rfl := show records₅ = _ from hren
  intro a records₆ ha
  obtain rfl := records_eq ha (fun _ _ _ h => by cases h) fun _ _ h => by cases h
  have hex := hex.1
  have hsize := Std.ExtTreeMap.size_insert (t := records₄ message.chainKey) (k := message.messageId)
    (v := message)
  cases existed with
  | true =>
    refine hsync _ _ (.keep ?_)
    rw [hsize, if_pos hex.symm]
  | false =>
    refine (post_bind _ _ _ _ _ _).mpr ((post_update _ _ _ _ _).mpr (hsync _ _ (.modify (· + 1) ?_)))
    rw [hsize, if_neg (by rw [← hex]; decide)]

theorem complete_counted (chainKey : ChainKey) (id : B256) (readers : Readers) (records : Records) :
    post recordsEnv (complete chainKey id) readers records fun records' _ readers' =>
      Recounted chainKey readers records readers' records' := by
  have hs := Recounted.same chainKey readers records
  rw [complete, post_bind, post_fs]
  intro a records₁ ha
  rcases a with (_ | e) | _
  · rw [show records₁ = records from ha.2]
    exact hs
  · rw [show records₁ = records from ha]
    exact hs
  · obtain ⟨hm, rfl⟩ := ha
    simp only [post_bind, post_update, post_io]
    intro a records₂ ha
    obtain rfl := records_eq ha (fun _ _ _ h => by cases h) fun _ _ h => by cases h
    have hc : Recounted chainKey readers records
        (readers.modify chainKey fun cursor => { cursor with liveRecords := cursor.liveRecords - 1 })
        (Function.update records chainKey ((records chainKey).erase id)) := by
      refine .modify (· - 1) ?_
      rw [Std.ExtTreeMap.size_erase, if_pos hm]
    cases a <;> exact hc

theorem RouteOk.live {records : Map B256 IndexedMessage} {cursor : Option RouteCursor}
    {laps : List Lap} (h : RouteOk records cursor laps) :
    ∀ c, cursor = some c → c.liveRecords = records.size := by
  rintro c rfl
  exact Fair.live h

/-- The laps of a route after a call that only changed its records. -/
theorem RouteOk.counted {records records' : Map B256 IndexedMessage} {cursor : Option RouteCursor}
    {laps : List Lap} (h : RouteOk records cursor laps) :
    RouteOk records' (cursor.map fun c => { c with liveRecords := records'.size })
      ((gone records records').foldl LapEvent.on laps) := by
  cases cursor with
  | none =>
    rw [show laps = [] from h, gone, removed_on]
    rfl
  | some cursor => exact Fair.changed h records'

end WorkStore

/-! ## Runs -/

open WorkStore

/-- All cursors are fair. -/
def LapState.Ok (s : LapState) : Prop :=
  ∀ chainKey, RouteOk (s.records chainKey) s.readers[chainKey]? (s.laps chainKey)

theorem LapStep.counted {s s' : LapState} {c : LapCall} (h : LapStep s c s') (hs : s.Ok)
    (hc : Recounted c.call.route s.readers s.records s'.readers s'.records) (he : c.events = []) :
    s'.Ok := by
  intro chainKey
  rw [h.2, he, List.nil_append]
  by_cases e : chainKey = c.call.route
  · subst e
    rw [Function.update_self, hc.cursor (hs _).live]
    exact (hs _).counted
  · obtain ⟨hr, hm⟩ := hc.others chainKey e
    rw [Function.update_of_ne e, hr, hm]
    exact hs chainKey

/-- Every call keeps every cursor fair. -/
theorem LapStep.ok {s s' : LapState} {c : LapCall} (h : LapStep s c s') (hs : s.Ok) : s'.Ok := by
  obtain ⟨call, answer, events⟩ := c
  cases call with
  | record message =>
    obtain ⟨hc, he⟩ := h.1.post ((post_unobserved recordsEnv (record message) _ _ _
      fun w _ t => Recounted message.chainKey s.readers s.records t.1 w ∧ t.2 = []).mpr
      (post_mono recordsEnv (record_counted message s.readers s.records) fun _ _ _ hc => ⟨hc, rfl⟩))
    exact h.counted hs hc he
  | complete chainKey id =>
    obtain ⟨hc, he⟩ := h.1.post ((post_unobserved recordsEnv (complete chainKey id) _ _ _
      fun w _ t => Recounted chainKey s.readers s.records t.1 w ∧ t.2 = []).mpr
      (post_mono recordsEnv (complete_counted chainKey id s.readers s.records)
        fun _ _ _ hc => ⟨hc, rfl⟩))
    exact h.counted hs hc he
  | pending chainKey loaded limit =>
    obtain ⟨hr, hp⟩ := h.1.post (lapPending_spec (hs chainKey) loaded limit)
    intro k
    rw [h.2, hr]
    by_cases e : k = chainKey
    · subst e
      show RouteOk _ _ (Function.update s.laps k _ k)
      rw [Function.update_self, gone_self, List.append_nil]
      exact hp.ok
    · show RouteOk _ _ (Function.update s.laps chainKey _ k)
      rw [Function.update_of_ne e, hp.others k e]
      exact hs k

theorem Erases.exec {σ α : Type} {m' : ObservedM σ α} {m : WorkM σ α} (h : Erases m' m)
    {s s' : σ} {log log' : List LapEvent} {records records' : Records} {r : Except Error α}
    (hx : Exec recordsEnv (m'.run.run (s, log)) records records' (r, s', log')) :
    Exec recordsEnv (m.run.run s) records records' (r, s') := by
  rw [← h s log]
  exact hx.bind .ret

theorem Lap.Ordered.nodup {lap : Lap} (h : lap.Ordered) : lap.examined.Nodup :=
  List.Pairwise.imp (fun {a b} (hlt : a < b) (e : a = b) => BitVec.lt_irrefl b (e ▸ hlt)) h.ascending

/-- What was kept is examined once, or it is still ahead in a lap that is not over. -/
theorem Fair.examined_once {records : Map B256 IndexedMessage} {cursor : RouteCursor} {lap : Lap}
    {rest : List Lap} (h : Fair records cursor (lap :: rest)) {id : B256} (hk : lap.Kept id) :
    lap.examined.count id = 1 ∨ ¬(cursor.after = none ∧ cursor.window = []) ∧
      records.contains id = true ∧ ∀ x ∈ lap.examined, x < id := by
  have hn := (h.ordered lap List.mem_cons_self).nodup
  by_cases ho : cursor.after = none ∧ cursor.window = []
  · exact .inl (List.count_eq_one_of_mem hn (h.finished ho.1 ho.2 lap List.mem_cons_self id hk))
  · obtain ⟨_, _, he, hc⟩ := h.current ho
    cases he
    by_cases hx : id ∈ lap.examined
    · exact .inl (List.count_eq_one_of_mem hn hx)
    · have ha : cursor.Ahead id := by
        rcases hc.ahead id hk with hx' | hw | ⟨-, ha⟩
        · exact absurd hx' hx
        · exact h.next id hw
        · exact ha
      refine .inr ⟨ho, hc.recorded id hk, fun x hx' => ?_⟩
      obtain ⟨after, he, hle⟩ := hc.passed x hx'
      have := ha after he
      bv_omega

/-- The laps of every route, after any calls on the store, failed or not. Each examines ids in
ascending order, up to the largest id that was present when it began. A lap before the last one
examined every id that was present when it began and not removed, once; in the last lap each such
id is examined once, or, while the lap is not over, recorded and ahead of all that is examined. The
count of an initialised cursor is the number of records. Every call returns; a call of `pending`
examines no id twice and at most `maxExaminedPerCall`, and what it returns are distinct records as
they are stored, no more than asked for and none that was loaded, with the record of every id that it
examined and that was not loaded. -/
theorem lap_fairness {s t : LapState} {calls : List LapCall} (hr : s.readers = ∅)
    (hl : ∀ chainKey, s.laps chainKey = []) (h : Run LapStep s calls t) :
    (∀ chainKey,
      (∀ lap ∈ t.laps chainKey, lap.examined.Pairwise (· < ·) ∧
        ∀ id ∈ lap.examined, ∃ last ∈ lap.present, id ≤ last) ∧
      (∀ lap ∈ (t.laps chainKey).tail, ∀ id ∈ lap.present, id ∉ lap.removed →
        lap.examined.count id = 1) ∧
      (∀ cursor, t.readers[chainKey]? = some cursor →
        cursor.liveRecords = (t.records chainKey).size ∧
        ∀ lap ∈ (t.laps chainKey).head?, ∀ id ∈ lap.present, id ∉ lap.removed →
          lap.examined.count id = 1 ∨ ¬(cursor.after = none ∧ cursor.window = []) ∧
            (t.records chainKey).contains id = true ∧ ∀ x ∈ lap.examined, x < id) ∧
      (t.readers[chainKey]? = none → t.laps chainKey = [])) ∧
    (∀ call, ∃ c t', c.call = call ∧ LapStep t c t') ∧
    (∀ chainKey loaded limit answer events t',
      LapStep t ⟨.pending chainKey loaded limit, answer, events⟩ t' →
        (examinedIds events).Nodup ∧ (examinedIds events).length ≤ maxExaminedPerCall ∧
        ∀ messages, answer = .ok messages → Offers chainKey loaded limit messages ∧
          (∀ m ∈ messages, (t.records chainKey)[m.messageId]? = some m) ∧
          ∀ id ∈ examinedIds events, id ∈ loaded ∨
            ∀ m, (t.records chainKey)[id]? = some m → m ∈ messages) ∧
    (∀ chainKey loaded limit start more,
      pendingLoop chainKey limit start (maxExaminedPerCall + 2 + more) ⟨false, 0, loaded, []⟩ =
        pendingLoop chainKey limit start (maxExaminedPerCall + 2) ⟨false, 0, loaded, []⟩) ∧
    ∀ present c, Erases (WorkCall.observed present c) c.body := by
  have hs : s.Ok := fun chainKey => by
    rw [hr, hl]
    rfl
  have ht : t.Ok := h.inv (fun _ _ _ hstep hs => hstep.ok hs) hs
  refine ⟨fun chainKey => ?_, fun call => ⟨_, _, rfl, lapStep_lapCall t call⟩, ?_,
    fun chainKey loaded limit start more => pendingLoop_fuel more _ _ (by simp), observed_erase⟩
  · have hk := ht chainKey
    cases hc : t.readers[chainKey]? with
    | none =>
      rw [hc] at hk
      rw [show t.laps chainKey = [] from hk]
      exact ⟨nofun, nofun, nofun, fun _ => rfl⟩
    | some cursor =>
      rw [hc] at hk
      have hf : Fair (t.records chainKey) cursor (t.laps chainKey) := hk
      have hord := hf.ordered
      refine ⟨fun lap hm => ⟨(hord lap hm).ascending, (hord lap hm).bounded⟩,
        fun lap hm id hp hrem => ?_, ?_, nofun⟩
      · exact List.count_eq_one_of_mem (hord lap (List.mem_of_mem_tail hm)).nodup
          (hf.complete lap hm id ⟨hp, hrem⟩)
      · rintro _ ⟨⟩
        refine ⟨hf.live, fun lap hm id hp hrem => ?_⟩
        obtain ⟨rest, hlaps⟩ : ∃ rest, t.laps chainKey = lap :: rest := by
          cases hlaps : t.laps chainKey with
          | nil => simp [hlaps] at hm
          | cons l rest => exact ⟨rest, by simp [hlaps] at hm; rw [hm]⟩
        rw [hlaps] at hf
        exact hf.examined_once ⟨hp, hrem⟩
  · intro chainKey loaded limit answer events t' hstep
    obtain ⟨-, hp⟩ := hstep.1.post (lapPending_spec (ht chainKey) loaded limit)
    have ho := ((lapPending_erase _ chainKey loaded limit).exec hstep.1).post
      (pending_answer recordsEnv chainKey loaded limit t.readers t.records)
    exact ⟨hp.nodup, hp.most,
      fun messages e => ⟨ho messages e, hp.stored messages e, hp.handed messages e⟩⟩

/-- A lap over two records, of which one is removed on the way, and the next lap. -/
theorem lap_fairness_walk :
    let message : B256 → IndexedMessage := fun id => ⟨2, id, 3, 4, 0, 5, 42, [], 6, 7⟩
    let s₀ : LapState := ⟨∅, fun _ => ∅, fun _ => []⟩
    let s₁ := (lapCall s₀ (.record (message 9))).2
    let s₂ := (lapCall s₁ (.record (message 8))).2
    let s₃ := (lapCall s₂ (.pending 2 [] 1)).2
    let s₄ := (lapCall s₃ (.complete 2 8)).2
    let s₅ := (lapCall s₄ (.pending 2 [9] 2)).2
    s₅.laps 2 = [⟨[9], [], []⟩, ⟨[8, 9], [8, 9], [8]⟩] ∧
    ∀ cursor, s₅.readers[2]? = some cursor → cursor.liveRecords = (s₅.records 2).size := by
  intro message s₀ s₁ s₂ s₃ s₄ s₅
  have hrun : Run LapStep s₀ _ s₅ :=
    (((((Run.nil.snoc (lapStep_lapCall s₀ _)).snoc (lapStep_lapCall s₁ _)).snoc
      (lapStep_lapCall s₂ _)).snoc (lapStep_lapCall s₃ _)).snoc (lapStep_lapCall s₄ _))
  refine ⟨by decide, fun cursor hc => ?_⟩
  exact (((lap_fairness rfl (fun _ => rfl) hrun).1 2).2.2.1 cursor hc).1

end MessageRelayer

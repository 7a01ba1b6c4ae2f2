import MessageRelayer.Lib.Runs

/-!
# A cursor that unfinished items hold back

A worker scans a sequence of blocks and tracks the items it finds until they
are settled. What it tracks is lost with its process; what survives is a saved
cursor, and the next worker resumes `rewind` blocks before it, or afresh where
there is none. The cursor is saved below the block of every item that is
tracked (`Worker.Saves`).

`Step` is what such a worker does, beside others that write the same store. An
item is owed (`Owed`) from the scan that finds it until it is released, unless
a later scan of its block does not find it or a worker starts afresh past it.
Then no cursor is saved past an owed item (`save_lt`), the saved cursor always
resumes before all of them (`saved_lt`), and the cursors that one worker saves
never decrease nor pass what it scanned (`saves_sorted`, `saves_le`).
-/

namespace Holdback

/-- What a worker has in memory. -/
structure Worker (T : Type) where
  /-- The last block scanned. -/
  cursor : Nat
  /-- The block at which an item is held while it is tracked. -/
  held : T → Option Nat
  /-- The items remembered as released. -/
  done : T → Prop

/-- A process, with the saved cursor as it knows it. -/
structure Process (T : Type) where
  kept : Option Nat
  worker : Option (Worker T)

structure State (T : Type) where
  saved : Option Nat
  process : Option (Process T)

inductive Event (T : Type) where
  /-- A worker starts, afresh if there was no saved cursor. -/
  | start (cursor : Nat) (fresh : Bool)
  /-- A scan of the blocks from `first` to `last`, none of them above `head`. -/
  | scan (first last head : Nat) (found dropped : List T)
  | settle (settled : List T)
  | save (value : Nat)
  | other

variable {T : Type}

/-- An empty worker at a cursor. -/
def Worker.start (T : Type) (cursor : Nat) : Worker T where
  cursor := cursor
  held := fun _ => none
  done := fun _ => False

/-! ## Steps -/

section
variable (blockOf : T → Nat)

/-- A scan tracks what it finds, at the item's block or before it. -/
structure Worker.Scans (w w' : Worker T) (first last head : Nat) (found dropped : List T) : Prop where
  first : first = w.cursor + 1
  last : last = w'.cursor
  cursor : w.cursor ≤ w'.cursor
  head : w'.cursor ≤ head
  found : ∀ t ∈ found, blockOf t ≤ w'.cursor → (∃ b, w'.held t = some b) ∨ t ∈ dropped ∨ w.done t
  held : ∀ t b, w'.held t = some b → w.held t = some b ∨ w.cursor < b ∧ b ≤ blockOf t
  kept : ∀ t b, w.held t = some b → (∃ b', w'.held t = some b') ∨ t ∈ dropped
  done : ∀ t, w'.done t → w.done t

end

structure Worker.Settles (w w' : Worker T) (settled : List T) : Prop where
  cursor : w'.cursor = w.cursor
  held : ∀ t b, w'.held t = some b → w.held t = some b
  kept : ∀ t b, w.held t = some b → w'.held t = some b ∨ t ∈ settled
  done : ∀ t, w'.done t → w.done t ∨ t ∈ settled

/-- The cursor to save: the last block scanned, or the one before the first at which an item is
held. -/
structure Worker.Saves (w : Worker T) (value : Nat) : Prop where
  cursor : value ≤ w.cursor
  held : ∀ t b, w.held t = some b → value ≤ b - 1
  greatest : value = w.cursor ∨ ∃ t b, w.held t = some b ∧ value = b - 1

/-- A step; a save may fail, whether or not it took effect, and another task that writes the store
writes the cursor that the process knows, even as the process ends. -/
inductive Step (blockOf : T → Nat) (rewind : Nat) : State T → Event T → State T → Prop where
  | boot {saved : Option Nat} :
      Step blockOf rewind ⟨saved, none⟩ .other ⟨saved, some ⟨saved, none⟩⟩
  | crash {saved saved' : Option Nat} {p : Process T} (hs : saved' = saved ∨ saved' = p.kept) :
      Step blockOf rewind ⟨saved, some p⟩ .other ⟨saved', none⟩
  | resume {saved : Option Nat} {v : Nat} :
      Step blockOf rewind ⟨saved, some ⟨some v, none⟩⟩ (.start (v - rewind) false)
        ⟨saved, some ⟨some v, some (.start T (v - rewind))⟩⟩
  | fresh {saved : Option Nat} (cursor : Nat) :
      Step blockOf rewind ⟨saved, some ⟨none, none⟩⟩ (.start cursor true)
        ⟨saved, some ⟨none, some (.start T cursor)⟩⟩
  | scan {saved kept : Option Nat} {w w' : Worker T} {first last head : Nat} {found dropped : List T}
      (h : w.Scans blockOf w' first last head found dropped) :
      Step blockOf rewind ⟨saved, some ⟨kept, some w⟩⟩ (.scan first last head found dropped)
        ⟨saved, some ⟨kept, some w'⟩⟩
  | settle {saved kept : Option Nat} {w w' : Worker T} {settled : List T} (h : w.Settles w' settled) :
      Step blockOf rewind ⟨saved, some ⟨kept, some w⟩⟩ (.settle settled) ⟨saved, some ⟨kept, some w'⟩⟩
  | save {saved saved' kept kept' : Option Nat} {w : Worker T} {value : Nat} (h : w.Saves value)
      (hs : saved' = saved ∨ saved' = some value) (hk : kept' = kept ∨ kept' = some value) :
      Step blockOf rewind ⟨saved, some ⟨kept, some w⟩⟩ (.save value) ⟨saved', some ⟨kept', some w⟩⟩
  | elsewhere {saved saved' kept : Option Nat} {worker : Option (Worker T)}
      (hs : saved' = saved ∨ saved' = kept) :
      Step blockOf rewind ⟨saved, some ⟨kept, worker⟩⟩ .other ⟨saved', some ⟨kept, worker⟩⟩

/-! ## What a history says -/

section
variable (blockOf : T → Nat)

/-- A scan of the item's block that finds it. -/
def Event.Finds (e : Event T) (t : T) : Prop :=
  match e with
  | scan first last _ found _ => first ≤ blockOf t ∧ blockOf t ≤ last ∧ t ∈ found
  | start .. | settle _ | save _ | other => False

/-- A scan of the item's block that does not find it, or a fresh start past it. -/
def Event.Skips (e : Event T) (t : T) : Prop :=
  match e with
  | scan first last _ found _ => first ≤ blockOf t ∧ blockOf t ≤ last ∧ t ∉ found
  | start cursor fresh => fresh = true ∧ blockOf t ≤ cursor
  | settle _ | save _ | other => False

/-- The item is settled, or dropped. -/
def Event.Releases (e : Event T) (t : T) : Prop :=
  match e with
  | scan _ _ _ _ dropped => t ∈ dropped
  | settle settled => t ∈ settled
  | start .. | save _ | other => False

/-- A scan has found the item, and nothing skipped it since; it was never released. -/
def Owed (l : List (Event T)) (t : T) : Prop :=
  (∃ l₁ e l₂, l = l₁ ++ e :: l₂ ∧ e.Finds blockOf t ∧ ∀ e' ∈ l₂, ¬ e'.Skips blockOf t) ∧
    ∀ e ∈ l, ¬ e.Releases t

end

def Event.isStart : Event T → Bool
  | start .. => true
  | scan .. | settle _ | save _ | other => false

/-- The events since a worker last started. -/
def session (l : List (Event T)) : List (Event T) := since Event.isStart l

/-- The cursors that are saved. -/
def saves (l : List (Event T)) : List Nat :=
  l.filterMap fun
    | .save value => some value
    | .start .. | .scan .. | .settle _ | .other => none

/-- What bounds the cursor of a worker: where it started and the heads of its scans. -/
def bounds (l : List (Event T)) : List Nat :=
  l.filterMap fun
    | .start cursor _ => some cursor
    | .scan _ _ head _ _ => some head
    | .settle _ | .save _ | .other => none

section
variable {blockOf : T → Nat} {l : List (Event T)} {a : Event T} {t : T}

theorem session_concat (l : List (Event T)) (a : Event T) :
    session (l ++ [a]) = if a.isStart then [a] else session l ++ [a] := since_concat _ l a

theorem saves_concat (l : List (Event T)) (a : Event T) : saves (l ++ [a]) = saves l ++ saves [a] :=
  List.filterMap_append

theorem bounds_concat (l : List (Event T)) (a : Event T) :
    bounds (l ++ [a]) = bounds l ++ bounds [a] := List.filterMap_append

/-- An item is owed after an event if it was owed before, or if the event has found it. -/
theorem Owed.of_concat (h : Owed blockOf (l ++ [a]) t) :
    (¬ a.Releases t ∧ ∀ e ∈ l, ¬ e.Releases t) ∧
      (a.Finds blockOf t ∨ Owed blockOf l t ∧ ¬ a.Skips blockOf t) := by
  obtain ⟨⟨l₁, e, l₂, hl, hf, hs⟩, hr⟩ := h
  have hr₁ : ∀ e ∈ l, ¬ e.Releases t := fun e he => hr e (List.mem_append_left _ he)
  refine ⟨⟨hr a (List.mem_append_right _ (List.mem_singleton_self a)), hr₁⟩, ?_⟩
  rcases List.eq_nil_or_concat l₂ with rfl | ⟨l₃, b, rfl⟩
  · obtain ⟨-, he⟩ := List.append_inj' hl rfl
    obtain rfl : a = e := by simpa using he
    exact .inl hf
  · have hl' : l ++ [a] = (l₁ ++ e :: l₃) ++ [b] := by simpa using hl
    obtain ⟨rfl, he⟩ := List.append_inj' hl' rfl
    obtain rfl : a = b := by simpa using he
    rw [List.concat_eq_append] at hs
    refine .inr ⟨⟨⟨l₁, e, l₃, rfl, hf, fun e' he' => hs e' (List.mem_append_left _ he')⟩, hr₁⟩, ?_⟩
    exact hs a (List.mem_append_right _ (List.mem_singleton_self a))

/-- An event that finds nothing makes nothing owed. -/
theorem Owed.of_concat_other (h : Owed blockOf (l ++ [a]) t) (hf : ¬ a.Finds blockOf t) :
    Owed blockOf l t ∧ ¬ a.Skips blockOf t ∧ ¬ a.Releases t :=
  ⟨(h.of_concat.2.resolve_left hf).1, (h.of_concat.2.resolve_left hf).2, h.of_concat.1.1⟩

end

/-! ## The invariant -/

section
variable (blockOf : T → Nat) (rewind : Nat)

/-- The cursors saved since the worker started do not decrease, and are within its bounds. -/
structure SessionOk (l : List (Event T)) : Prop where
  sorted : (saves (session l)).Pairwise (· ≤ ·)
  bounded : ∀ v ∈ saves (session l), ∃ b ∈ bounds (session l), v ≤ b

/-- A cursor resumes before every owed item. -/
def CursorOk (l : List (Event T)) (cursor : Option Nat) : Prop :=
  ∀ v, cursor = some v → ∀ t, Owed blockOf l t → v - rewind < blockOf t

structure WorkerOk (l : List (Event T)) (w : Worker T) : Prop where
  held : ∀ t b, w.held t = some b → 0 < b ∧ b ≤ blockOf t
  owed : ∀ t, Owed blockOf l t → blockOf t ≤ w.cursor → ∃ b, w.held t = some b
  done : ∀ t, w.done t → ∃ e ∈ l, e.Releases t
  saved : ∀ v ∈ saves (session l), v ≤ w.cursor ∧ ∀ t b, w.held t = some b → v < b
  cursor : ∃ b ∈ bounds (session l), w.cursor ≤ b

structure Ok (l : List (Event T)) (s : State T) : Prop where
  session : SessionOk l
  saved : CursorOk blockOf rewind l s.saved
  kept : ∀ p, s.process = some p → CursorOk blockOf rewind l p.kept
  fresh : ∀ p, s.process = some p → p.worker = none → s.saved = p.kept
  near : ∀ p w, s.process = some p → p.worker = some w → ∀ v, s.saved = some v ∨ p.kept = some v →
    v - rewind ≤ w.cursor
  worker : ∀ p w, s.process = some p → p.worker = some w → WorkerOk blockOf l w

end

section
variable {blockOf : T → Nat} {rewind : Nat} {l : List (Event T)} {a : Event T} {s s' : State T}

/-- An event that saves nothing, other than a start. -/
theorem SessionOk.quiet (h : SessionOk l) (hs : session (l ++ [a]) = session l ++ [a])
    (ha : saves [a] = []) : SessionOk (l ++ [a]) := by
  have he : saves (session (l ++ [a])) = saves (session l) := by
    rw [hs, saves_concat, ha, List.append_nil]
  refine ⟨by rw [he]; exact h.sorted, fun v hv => ?_⟩
  rw [he] at hv
  obtain ⟨b, hb, hle⟩ := h.bounded v hv
  exact ⟨b, by rw [hs, bounds_concat]; exact List.mem_append_left _ hb, hle⟩

theorem SessionOk.start (cursor : Nat) (fresh : Bool) :
    SessionOk (l ++ [.start cursor fresh]) := by
  have he : session (l ++ [.start cursor fresh]) = [.start cursor fresh] := session_concat l _
  refine ⟨by rw [he]; exact List.Pairwise.nil, fun v hv => ?_⟩
  rw [he] at hv
  cases hv

theorem CursorOk.mono {cursor : Option Nat} (h : CursorOk blockOf rewind l cursor)
    (ha : ∀ t, ¬ a.Finds blockOf t) : CursorOk blockOf rewind (l ++ [a]) cursor :=
  fun v hv t ht => h v hv t (ht.of_concat_other (ha t)).1

/-! ### A worker starts -/

theorem WorkerOk.start {cursor : Nat} {fresh : Bool}
    (h : fresh = true ∨ ∀ t, Owed blockOf l t → cursor < blockOf t) :
    WorkerOk blockOf (l ++ [.start cursor fresh]) (.start T cursor) := by
  have he : session (l ++ [.start cursor fresh]) = [.start cursor fresh] := session_concat l _
  refine ⟨fun t b hb => (by cases hb), fun t ht hle => ?_, fun t ht => False.elim ht, fun v hv => ?_, ?_⟩
  · obtain ⟨ho, hs, -⟩ := ht.of_concat_other fun hf => hf
    have hle : blockOf t ≤ cursor := hle
    rcases h with rfl | h
    · exact absurd ⟨rfl, hle⟩ hs
    · have := h t ho
      omega
  · rw [he] at hv
    cases hv
  · exact ⟨cursor, by rw [he]; exact List.mem_singleton_self _, Nat.le_refl _⟩

/-! ### A scan -/

section
variable {w w' : Worker T} {first last head : Nat} {found dropped : List T}

theorem WorkerOk.scan (h : WorkerOk blockOf l w)
    (hs : w.Scans blockOf w' first last head found dropped) :
    WorkerOk blockOf (l ++ [.scan first last head found dropped]) w' := by
  have he : session (l ++ [.scan first last head found dropped]) =
      session l ++ [.scan first last head found dropped] := session_concat l _
  have hfirst := hs.first
  have hlast := hs.last
  refine ⟨fun t b hb => ?_, fun t ht hle => ?_, fun t ht => ?_, fun v hv => ?_, ?_⟩
  · rcases hs.held t b hb with hb | hb
    · exact h.held t b hb
    · omega
  · obtain ⟨⟨hr, hr'⟩, hf⟩ := ht.of_concat
    -- what the scan finds is tracked, or it was released
    have htracked : t ∈ found → ∃ b, w'.held t = some b := fun hf => by
      rcases hs.found t hf hle with hb | hd | hd
      · exact hb
      · exact absurd hd hr
      · obtain ⟨e, he, hrel⟩ := h.done t hd
        exact absurd hrel (hr' e he)
    rcases hf with hf | ⟨ho, hskip⟩
    · exact htracked hf.2.2
    · by_cases hb : blockOf t ≤ w.cursor
      · obtain ⟨b, hb⟩ := h.owed t ho hb
        exact (hs.kept t b hb).resolve_right hr
      · refine htracked (by_contra fun hn => hskip ⟨?_, ?_, hn⟩) <;> omega
  · obtain ⟨e, he, hrel⟩ := h.done t (hs.done t ht)
    exact ⟨e, List.mem_append_left _ he, hrel⟩
  · rw [he, saves_concat, show saves [Event.scan first last head found dropped] = [] from rfl,
      List.append_nil] at hv
    obtain ⟨hc, hh⟩ := h.saved v hv
    refine ⟨Nat.le_trans hc hs.cursor, fun t b hb => ?_⟩
    rcases hs.held t b hb with hb | hb
    · exact hh t b hb
    · omega
  · refine ⟨head, ?_, hs.head⟩
    rw [he, bounds_concat]
    exact List.mem_append_right _ (List.mem_singleton_self head)

/-- A cursor that resumes no later than the worker scans resumes before what the scan finds. -/
theorem CursorOk.scan {cursor : Option Nat} (h : CursorOk blockOf rewind l cursor)
    (hn : ∀ v, cursor = some v → v - rewind ≤ w.cursor)
    (hs : w.Scans blockOf w' first last head found dropped) :
    CursorOk blockOf rewind (l ++ [.scan first last head found dropped]) cursor := by
  intro v hv t ht
  rcases ht.of_concat.2 with hf | hf
  · have := hs.first
    have := hn v hv
    have := hf.1
    omega
  · exact h v hv t hf.1

end

/-! ### Settling and saving -/

section
variable {w w' : Worker T}

theorem WorkerOk.settle {settled : List T} (h : WorkerOk blockOf l w) (hs : w.Settles w' settled) :
    WorkerOk blockOf (l ++ [.settle settled]) w' := by
  have he : session (l ++ [.settle settled]) = session l ++ [.settle settled] := session_concat l _
  refine ⟨fun t b hb => h.held t b (hs.held t b hb), fun t ht hle => ?_, fun t ht => ?_,
    fun v hv => ?_, ?_⟩
  · obtain ⟨ho, -, hr⟩ := ht.of_concat_other fun hf => hf
    rw [hs.cursor] at hle
    obtain ⟨b, hb⟩ := h.owed t ho hle
    exact ⟨b, (hs.kept t b hb).resolve_right hr⟩
  · rcases hs.done t ht with hd | hd
    · obtain ⟨e, he, hrel⟩ := h.done t hd
      exact ⟨e, List.mem_append_left _ he, hrel⟩
    · exact ⟨_, List.mem_append_right _ (List.mem_singleton_self _), hd⟩
  · rw [he, saves_concat, show saves [(.settle settled : Event T)] = [] from rfl,
      List.append_nil] at hv
    obtain ⟨hc, hh⟩ := h.saved v hv
    exact ⟨by rw [hs.cursor]; exact hc, fun t b hb => hh t b (hs.held t b hb)⟩
  · obtain ⟨b, hb, hle⟩ := h.cursor
    refine ⟨b, ?_, by rw [hs.cursor]; exact hle⟩
    rw [he, bounds_concat]
    exact List.mem_append_left _ hb

theorem WorkerOk.other (h : WorkerOk blockOf l w) : WorkerOk blockOf (l ++ [.other]) w := by
  have he : session (l ++ [.other]) = session l ++ [.other] := session_concat l _
  refine ⟨h.held, fun t ht hle => h.owed t (ht.of_concat_other fun hf => hf).1 hle, fun t ht => ?_,
    fun v hv => ?_, ?_⟩
  · obtain ⟨e, he, hrel⟩ := h.done t ht
    exact ⟨e, List.mem_append_left _ he, hrel⟩
  · rw [he, saves_concat, show saves [(.other : Event T)] = [] from rfl, List.append_nil] at hv
    exact h.saved v hv
  · obtain ⟨b, hb, hle⟩ := h.cursor
    refine ⟨b, ?_, hle⟩
    rw [he, bounds_concat]
    exact List.mem_append_left _ hb

/-- A saved cursor is before every item that is owed. -/
theorem WorkerOk.save_lt {value : Nat} (h : WorkerOk blockOf l w) (hs : w.Saves value) {t : T}
    (ht : Owed blockOf l t) : value < blockOf t := by
  by_cases hle : blockOf t ≤ w.cursor
  · obtain ⟨b, hb⟩ := h.owed t ht hle
    obtain ⟨hpos, hle⟩ := h.held t b hb
    have := hs.held t b hb
    omega
  · have := hs.cursor
    omega

/-- A cursor is saved at or after those saved before it. -/
theorem WorkerOk.le_save {value v : Nat} (h : WorkerOk blockOf l w) (hs : w.Saves value)
    (hv : v ∈ saves (session l)) : v ≤ value := by
  obtain ⟨hc, hh⟩ := h.saved v hv
  rcases hs.greatest with rfl | ⟨t, b, hb, rfl⟩
  · exact hc
  · have := hh t b hb
    omega

theorem WorkerOk.save {value : Nat} (h : WorkerOk blockOf l w) (hs : w.Saves value) :
    WorkerOk blockOf (l ++ [.save value]) w := by
  have he : session (l ++ [.save value]) = session l ++ [.save value] := session_concat l _
  refine ⟨h.held, fun t ht hle => h.owed t (ht.of_concat_other fun hf => hf).1 hle, fun t ht => ?_,
    fun v hv => ?_, ?_⟩
  · obtain ⟨e, he, hrel⟩ := h.done t ht
    exact ⟨e, List.mem_append_left _ he, hrel⟩
  · rw [he, saves_concat, show saves [(.save value : Event T)] = [value] from rfl] at hv
    rcases List.mem_append.mp hv with hv | hv
    · exact h.saved v hv
    · obtain rfl := List.mem_singleton.mp hv
      refine ⟨hs.cursor, fun t b hb => ?_⟩
      have := hs.held t b hb
      have := (h.held t b hb).1
      omega
  · obtain ⟨b, hb, hle⟩ := h.cursor
    refine ⟨b, ?_, hle⟩
    rw [he, bounds_concat]
    exact List.mem_append_left _ hb

theorem SessionOk.save {value : Nat} (h : SessionOk l) (hw : WorkerOk blockOf l w)
    (hs : w.Saves value) : SessionOk (l ++ [.save value]) := by
  have he : session (l ++ [.save value]) = session l ++ [.save value] := session_concat l _
  refine ⟨?_, fun v hv => ?_⟩
  · rw [he, saves_concat]
    refine List.pairwise_append.mpr ⟨h.sorted, List.pairwise_singleton _ _, fun v hv u hu => ?_⟩
    obtain rfl : u = value := List.mem_singleton.mp hu
    exact hw.le_save hs hv
  · rw [he, bounds_concat]
    rw [he, saves_concat, show saves [(.save value : Event T)] = [value] from rfl] at hv
    rcases List.mem_append.mp hv with hv | hv
    · obtain ⟨b, hb, hle⟩ := h.bounded v hv
      exact ⟨b, List.mem_append_left _ hb, hle⟩
    · obtain rfl := List.mem_singleton.mp hv
      obtain ⟨b, hb, hle⟩ := hw.cursor
      exact ⟨b, List.mem_append_left _ hb, Nat.le_trans hs.cursor hle⟩

end

/-! ### Every step -/

theorem Step.ok (h : Step blockOf rewind s a s') (hs : Ok blockOf rewind l s) :
    Ok blockOf rewind (l ++ [a]) s' := by
  cases h with
  | @boot saved =>
    refine ⟨hs.session.quiet (session_concat l _) rfl, hs.saved.mono fun t hf => hf, ?_, ?_, ?_, ?_⟩
    · rintro p ⟨⟩
      exact hs.saved.mono fun t hf => hf
    · rintro p ⟨⟩ -
      rfl
    · rintro p w ⟨⟩ hw
      cases hw
    · rintro p w ⟨⟩ hw
      cases hw
  | @crash saved saved' p hsv =>
    refine ⟨hs.session.quiet (session_concat l _) rfl, ?_, ?_, ?_, ?_, ?_⟩
    · rcases hsv with rfl | rfl
      · exact hs.saved.mono fun t hf => hf
      · exact (hs.kept _ rfl).mono fun t hf => hf
    · rintro p ⟨⟩
    · rintro p ⟨⟩
    · rintro p w ⟨⟩
    · rintro p w ⟨⟩
  | @resume saved v =>
    have hk := hs.kept _ rfl
    obtain rfl : saved = some v := hs.fresh _ rfl rfl
    refine ⟨.start _ _, hk.mono fun t hf => hf, ?_, ?_, ?_, ?_⟩
    · rintro p ⟨⟩
      exact hk.mono fun t hf => hf
    · rintro p ⟨⟩ hw
      cases hw
    · rintro p w ⟨⟩ hw u hu
      obtain rfl := Option.some.inj hw
      rcases hu with hu | hu <;>
      · obtain rfl := Option.some.inj hu
        exact Nat.le_refl _
    · rintro p w ⟨⟩ hw
      obtain rfl := Option.some.inj hw
      exact .start (.inr fun t ht => hk v rfl t ht)
  | @fresh saved cursor =>
    obtain rfl : saved = none := hs.fresh _ rfl rfl
    refine ⟨.start _ _, fun v hv => (by cases hv), ?_, ?_, ?_, ?_⟩
    · rintro p ⟨⟩ v hv
      cases hv
    · rintro p ⟨⟩ hw
      cases hw
    · rintro p w ⟨⟩ hw v hv
      rcases hv with hv | hv <;> cases hv
    · rintro p w ⟨⟩ hw
      obtain rfl := Option.some.inj hw
      exact .start (.inl rfl)
  | @scan saved kept w w' first last head found dropped h =>
    have hnear := hs.near _ w rfl rfl
    refine ⟨hs.session.quiet (session_concat l _) rfl,
      hs.saved.scan (fun v hv => hnear v (.inl hv)) h, ?_, ?_, ?_, ?_⟩
    · rintro p ⟨⟩
      exact (hs.kept _ rfl).scan (fun v hv => hnear v (.inr hv)) h
    · rintro p ⟨⟩ hw
      cases hw
    · rintro p u ⟨⟩ hw v hv
      obtain rfl := Option.some.inj hw
      exact Nat.le_trans (hnear v hv) h.cursor
    · rintro p u ⟨⟩ hw
      obtain rfl := Option.some.inj hw
      exact (hs.worker _ w rfl rfl).scan h
  | @settle saved kept w w' settled h =>
    refine ⟨hs.session.quiet (session_concat l _) rfl, hs.saved.mono fun t hf => hf, ?_, ?_, ?_, ?_⟩
    · rintro p ⟨⟩
      exact (hs.kept _ rfl).mono fun t hf => hf
    · rintro p ⟨⟩ hw
      cases hw
    · rintro p u ⟨⟩ hw v hv
      obtain rfl := Option.some.inj hw
      rw [h.cursor]
      exact hs.near _ w rfl rfl v hv
    · rintro p u ⟨⟩ hw
      obtain rfl := Option.some.inj hw
      exact (hs.worker _ w rfl rfl).settle h
  | @save saved saved' kept kept' w value h hsv hkv =>
    have hw := hs.worker _ w rfl rfl
    have hnear := hs.near _ w rfl rfl
    -- the value that is saved resumes before everything owed
    have hv : CursorOk blockOf rewind (l ++ [.save value]) (some value) := fun v hv t ht => by
      obtain rfl := Option.some.inj hv
      have := hw.save_lt h (ht.of_concat_other fun hf => hf).1
      omega
    refine ⟨hs.session.save hw h, ?_, ?_, ?_, ?_, ?_⟩
    · rcases hsv with rfl | rfl
      · exact hs.saved.mono fun t hf => hf
      · exact hv
    · rintro p ⟨⟩
      rcases hkv with rfl | rfl
      · exact (hs.kept _ rfl).mono fun t hf => hf
      · exact hv
    · rintro p ⟨⟩ hw
      cases hw
    · rintro p u ⟨⟩ hu v hv
      obtain rfl := Option.some.inj hu
      have hle : ∀ c : Option Nat, c = some value → c = some v → v - rewind ≤ w.cursor := by
        rintro c rfl hc
        obtain rfl := Option.some.inj hc
        have := h.cursor
        omega
      rcases hv with hv | hv
      · rcases hsv with rfl | rfl
        · exact hnear v (.inl hv)
        · exact hle _ rfl hv
      · rcases hkv with rfl | rfl
        · exact hnear v (.inr hv)
        · exact hle _ rfl hv
    · rintro p u ⟨⟩ hu
      obtain rfl := Option.some.inj hu
      exact hw.save h
  | @elsewhere saved saved' kept worker hsv =>
    have hk := hs.kept _ rfl
    refine ⟨hs.session.quiet (session_concat l _) rfl, ?_, ?_, ?_, ?_, ?_⟩
    · rcases hsv with rfl | rfl
      · exact hs.saved.mono fun t hf => hf
      · exact hk.mono fun t hf => hf
    · rintro p ⟨⟩
      exact hk.mono fun t hf => hf
    · rintro p ⟨⟩ hw
      rcases hsv with rfl | rfl
      · exact hs.fresh _ rfl hw
      · rfl
    · rintro p w ⟨⟩ hw v hv
      have hnear := hs.near _ w rfl hw v
      rcases hsv with rfl | rfl
      · exact hnear hv
      · exact hnear (.inr (hv.elim id id))
    · rintro p w ⟨⟩ hw
      exact (hs.worker _ w rfl hw).other

/-! ## Runs -/

theorem ok_start (saved : Option Nat) : Ok blockOf rewind [] (⟨saved, none⟩ : State T) := by
  refine ⟨⟨List.Pairwise.nil, fun v hv => (by cases hv)⟩, fun v _ t ht => ?_, ?_, ?_, ?_, ?_⟩
  · obtain ⟨⟨l₁, e, l₂, hl, -⟩, -⟩ := ht
    simp at hl
  · rintro p ⟨⟩
  · rintro p ⟨⟩
  · rintro p w ⟨⟩
  · rintro p w ⟨⟩

theorem run_ok {saved : Option Nat} (h : Run (Step blockOf rewind) ⟨saved, none⟩ l s) :
    Ok blockOf rewind l s := h.hist (fun _ _ _ _ ha => ha.ok) (ok_start saved)

/-- No cursor is saved past an item that is owed. -/
theorem save_lt {saved : Option Nat} {l₁ l₂ : List (Event T)} {value : Nat}
    (h : Run (Step blockOf rewind) ⟨saved, none⟩ (l₁ ++ .save value :: l₂) s) {t : T}
    (ht : Owed blockOf l₁ t) : value < blockOf t := by
  obtain ⟨s₁, s₂, h₁, hstep, -⟩ := h.split
  have hok := run_ok h₁
  cases hstep with
  | save hs => exact (hok.worker _ _ rfl rfl).save_lt hs ht

/-- A worker that starts from the saved cursor starts before every item that is owed. -/
theorem saved_lt {saved : Option Nat} (h : Run (Step blockOf rewind) ⟨saved, none⟩ l s) {v : Nat}
    (hv : s.saved = some v) {t : T} (ht : Owed blockOf l t) : v - rewind < blockOf t :=
  (run_ok h).saved v hv t ht

/-- The cursors that one worker saves do not decrease. -/
theorem saves_sorted {saved : Option Nat} (h : Run (Step blockOf rewind) ⟨saved, none⟩ l s) :
    (saves (session l)).Pairwise (· ≤ ·) := (run_ok h).session.sorted

/-- A cursor that a worker saves is at most where it started, or the head of one of its scans. -/
theorem saves_le {saved : Option Nat} (h : Run (Step blockOf rewind) ⟨saved, none⟩ l s) {v : Nat}
    (hv : v ∈ saves (session l)) : ∃ b ∈ bounds (session l), v ≤ b := (run_ok h).session.bounded v hv

end

end Holdback

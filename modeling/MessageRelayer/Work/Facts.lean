import MessageRelayer.Work.Store

/-!
# What the store of unfinished messages does

The rules for the operations of `WorkM`, and what a call of `pending` answers
whatever the file system does: distinct records of the route, at most as many
as asked for, none of which the caller had already (`pending_answer`).
-/

namespace MessageRelayer

open Prog

namespace WorkM

variable {W σ τ α β : Type} (H : Env FsCall FsCall.Answer W)

/-- What holds after an operation of the store, from the state `s` and the world `w`. -/
def post (m : WorkM σ α) (s : σ) (w : W) (Q : W → Except Error α → σ → Prop) : Prop :=
  wp H (m.run.run s) w fun w' r => Q w' r.1 r.2

@[simp] theorem post_bind (m : WorkM σ α) (f : α → WorkM σ β) (s : σ) (w : W)
    (Q : W → Except Error β → σ → Prop) :
    post H (m >>= f) s w Q ↔ post H m s w fun w' r s' =>
      match r with
      | .ok a => post H (f a) s' w' Q
      | .error e => Q w' (.error e) s' := by
  rw [post, wp_runState_bind]
  refine ⟨fun h => wp_mono h fun w' r => ?_, fun h => wp_mono h fun w' r => ?_⟩ <;>
    obtain ⟨_ | _, _⟩ := r <;> exact id

@[simp] theorem post_pure (a : α) (s : σ) (w : W) (Q : W → Except Error α → σ → Prop) :
    post H (pure a : WorkM σ α) s w Q ↔ Q w (.ok a) s := Iff.rfl

@[simp] theorem post_throw (e : Error) (s : σ) (w : W) (Q : W → Except Error α → σ → Prop) :
    post H (throw e : WorkM σ α) s w Q ↔ Q w (.error e) s := Iff.rfl

@[simp] theorem post_fs (c : FsCall) (s : σ) (w : W) (Q : W → Except Error c.Answer → σ → Prop) :
    post (α := no_index c.Answer) H (fs c) s w Q ↔ ∀ a w', H w c a w' → Q w' (.ok a) s := Iff.rfl

@[simp] theorem post_io (context : Error) (c : FsCall) (s : σ) (w : W)
    (Q : W → Except Error c.Result → σ → Prop) :
    post (α := no_index c.Result) H (io context c) s w Q ↔ ∀ a w', H w c a w' →
      match a with
      | .ok a => Q w' (.ok a) s
      | .error e => Q w' (.error (context ++ [e.text])) s := by
  rw [io, post_bind, post_fs]
  refine forall_congr' fun a => forall_congr' fun w' => imp_congr Iff.rfl ?_
  cases a <;> exact Iff.rfl

@[simp] theorem post_peek (s : σ) (w : W) (Q : W → Except Error σ → σ → Prop) :
    post H (peek : WorkM σ σ) s w Q ↔ Q w (.ok s) s := Iff.rfl

@[simp] theorem post_update (f : σ → σ) (s : σ) (w : W) (Q : W → Except Error Unit → σ → Prop) :
    post H (update f) s w Q ↔ Q w (.ok ()) (f s) := Iff.rfl

theorem post_zoom (part : τ) (put : σ → τ → σ) (m : WorkM τ α) (s : σ) (w : W)
    (Q : W → Except Error α → σ → Prop) :
    post H (zoom part put m) s w Q ↔ post H m part w fun w' r t => Q w' r (put s t) :=
  wp_bind H _ _ w _

theorem post_mono {m : WorkM σ α} {s : σ} {w : W} {Q Q' : W → Except Error α → σ → Prop}
    (h : post H m s w Q) (hQ : ∀ w' r s', Q w' r s' → Q' w' r s') : post H m s w Q' :=
  wp_mono h fun w' r => hQ w' r.1 r.2

theorem post_true (m : WorkM σ α) (s : σ) (w : W) : post H m s w fun _ _ _ => True :=
  wp_true H _ w

end WorkM

open WorkM

namespace WorkStore

variable {W : Type} (H : Env FsCall FsCall.Answer W)

/-- Distinct records of the route that the caller does not have, no more than it asked for. -/
structure Offers (chainKey : ChainKey) (loaded : List B256) (limit : Nat)
    (ms : List IndexedMessage) : Prop where
  route : ∀ m ∈ ms, m.chainKey = chainKey
  unloaded : ∀ m ∈ ms, m.messageId ∉ loaded
  distinct : (ms.map (·.messageId)).Nodup
  limit : ms.length ≤ limit

/-- The invariant of the walk: what it offers so far is also what it will not offer again. -/
structure Walk.Ok (chainKey : ChainKey) (loaded : List B256) (limit : Nat) (walk : Walk) : Prop where
  offers : Offers chainKey loaded limit walk.messages
  short : walk.messages.length < limit
  seen : ∀ id, id ∈ walk.loaded ↔ id ∈ loaded ∨ id ∈ walk.messages.map (·.messageId)

/-- One more message. -/
theorem Walk.Ok.add {chainKey : ChainKey} {loaded : List B256} {limit : Nat} {walk : Walk}
    (h : walk.Ok chainKey loaded limit) {id : B256} (hn : walk.loaded.contains id = false)
    {m : IndexedMessage} (hm : m.chainKey = chainKey ∧ m.messageId = id) :
    Offers chainKey loaded limit (walk.messages ++ [m]) ∧
    ∀ a, a ∈ id :: walk.loaded ↔ a ∈ loaded ∨ a ∈ (walk.messages ++ [m]).map (·.messageId) := by
  have hn : id ∉ walk.loaded := by simpa using hn
  have hs := not_or.mp (fun hs => hn ((h.seen id).mpr hs))
  refine ⟨⟨fun m' hm' => ?_, fun m' hm' => ?_, ?_, ?_⟩, fun a => ?_⟩
  · rcases List.mem_append.mp hm' with hm' | hm'
    · exact h.offers.route m' hm'
    · rw [List.mem_singleton.mp hm']; exact hm.1
  · rcases List.mem_append.mp hm' with hm' | hm'
    · exact h.offers.unloaded m' hm'
    · rw [List.mem_singleton.mp hm', hm.2]; exact hs.1
  · rw [List.map_append, List.map_singleton, hm.2, List.nodup_append]
    refine ⟨h.offers.distinct, by simp, fun a ha b hb e => hs.2 ?_⟩
    rwa [← List.mem_singleton.mp hb, ← e]
  · have := h.short
    rw [List.length_append, List.length_singleton]; omega
  · rw [List.mem_cons, h.seen, List.map_append, List.map_singleton, hm.2, List.mem_append,
      List.mem_singleton]
    exact ⟨fun h => h.elim (fun e => .inr (.inr e)) (·.imp_right .inl),
      fun h => h.elim (fun h => .inr (.inl h)) fun h => h.elim (fun h => .inr (.inr h)) .inl⟩

theorem examine_answer (chainKey : ChainKey) (loaded : List B256) (id : B256) (cursor : RouteCursor)
    (w : W) : post H (examine chainKey loaded id) cursor w fun _ r _ => ∀ m, r = .ok (some m) →
      loaded.contains id = false ∧ m.chainKey = chainKey ∧ m.messageId = id := by
  rw [examine]
  split
  · exact fun m e => by cases e
  · rename_i hl
    rw [post_bind, post_fs]
    intro a w' _
    cases a with
    | error e => cases e <;> exact fun m e => by cases e
    | ok m' =>
      dsimp only
      split
      · rename_i hm
        exact fun m e => by cases e; exact ⟨Bool.not_eq_true _ ▸ hl, hm⟩
      · exact fun m e => by cases e

/-- A walk keeps what holds of it when it starts (`I`) until it ends, if every message that
`examine` may find (`F`) can be added. -/
theorem pendingLoop_rule {chainKey : ChainKey} {limit : Nat} {I : Walk → Prop}
    {F : List B256 → B256 → IndexedMessage → Prop} {Q : List IndexedMessage → Prop}
    (hx : ∀ (loaded : List B256) (id : B256) (cursor : RouteCursor) (w : W),
      post H (examine chainKey loaded id) cursor w fun _ r _ => ∀ m, r = .ok (some m) → F loaded id m)
    (hstop : ∀ walk, I walk → Q walk.messages)
    (hon : ∀ walk wrapped examined, I walk → I { walk with wrapped, examined })
    (hadd : ∀ walk id m, I walk → F walk.loaded id m → Q (walk.messages ++ [m]) ∧
      ((walk.messages ++ [m]).length ≠ limit →
        I { walk with loaded := id :: walk.loaded, messages := walk.messages ++ [m] }))
    (start : Option B256) (fuel : Nat) : ∀ (walk : Walk) (cursor : RouteCursor) (w : W), I walk →
      post H (pendingLoop chainKey limit start fuel walk) cursor w
        fun _ r _ => ∀ ms, r = .ok ms → Q ms := by
  induction fuel with
  | zero => exact fun walk _ _ h ms e => by cases e; exact hstop walk h
  | succ fuel ih =>
    intro walk cursor w h
    have hd : ∀ ms, (Except.ok walk.messages : Except Error _) = .ok ms → Q ms := fun ms e => by
      cases e
      exact hstop walk h
    rw [pendingLoop]
    split
    · exact hd
    · rw [post_bind]
      refine post_mono H (post_true H _ cursor w) fun w r cursor _ => ?_
      cases r with
      | error e => exact fun ms e => by cases e
      | ok turn =>
        cases turn with
        | stop => exact hd
        | wrap => exact ih _ cursor w (hon walk _ _ h)
        | go =>
          dsimp only
          rw [post_bind]
          refine post_mono H (post_true H _ cursor w) fun w r cursor _ => ?_
          cases r with
          | error e => exact fun ms e => by cases e
          | ok next =>
            cases next with
            | none => exact hd
            | some id =>
              dsimp only
              rw [post_bind]
              refine post_mono H (hx walk.loaded id cursor w) fun w r cursor hm => ?_
              cases r with
              | error e => exact fun ms e => by cases e
              | ok found =>
                cases found with
                | none => exact ih _ cursor w (hon walk _ _ h)
                | some m =>
                  obtain ⟨hq, hi⟩ := hadd walk id m h (hm m rfl)
                  dsimp only
                  split
                  · exact fun ms e => by cases e; exact hq
                  · rename_i hne
                    exact ih _ cursor w (hon _ _ _ (hi hne))

/-- What holds of no messages, and of every walk of the route, holds of what `pending` returns. -/
theorem pending_rule {chainKey : ChainKey} {loaded : List B256} {limit : Nat}
    {Q : List IndexedMessage → Prop} (hz : Q [])
    (hw : 0 < limit → ∀ (cursor : RouteCursor) (w : W), post H (pendingLoop chainKey limit
      cursor.after (maxExaminedPerCall + 2) { wrapped := false, examined := 0, loaded, messages := [] })
      cursor w fun _ r _ => ∀ ms, r = .ok ms → Q ms) (readers : Readers) (w : W) :
    post H (pending chainKey loaded limit) readers w fun _ r _ => ∀ ms, r = .ok ms → Q ms := by
  rw [pending]
  split
  · exact fun ms e => by cases e; exact hz
  · rename_i hl
    have hwalk : ∀ (cursor : RouteCursor) (w : W), post H (walkFrom chainKey loaded limit cursor)
        readers w fun _ r _ => ∀ ms, r = .ok ms → Q ms := fun cursor w =>
      (post_zoom H _ _ _ _ _ _).mpr (hw (Nat.pos_of_ne_zero hl) cursor w)
    rw [post_bind, post_peek]
    dsimp only
    split
    · exact hwalk _ w
    · rw [post_bind, post_fs]
      intro a w' _
      cases a with
      | error e =>
        cases e with
        | notFound => exact fun ms e => by cases e; exact hz
        | other => exact fun ms e => by cases e
      | ok ids => exact hwalk _ w'

/-- Whatever the file system answers, `pending` offers distinct records of the route that the caller
does not have, and no more than it asked for. -/
theorem pending_answer (chainKey : ChainKey) (loaded : List B256) (limit : Nat) (readers : Readers)
    (w : W) : post H (pending chainKey loaded limit) readers w
      fun _ r _ => ∀ ms, r = .ok ms → Offers chainKey loaded limit ms := by
  have hz : Offers chainKey loaded limit [] :=
    ⟨fun _ hm => absurd hm List.not_mem_nil, fun _ hm => absurd hm List.not_mem_nil, by simp,
      Nat.zero_le limit⟩
  refine pending_rule H hz (fun hl cursor w => ?_) readers w
  refine pendingLoop_rule H (I := Walk.Ok chainKey loaded limit) (examine_answer H chainKey)
    (fun _ h => h.offers) (fun _ _ _ h => ⟨h.offers, h.short, h.seen⟩) (fun walk id m h hm => ?_)
    _ _ _ cursor w ⟨hz, hl, fun id => by simp⟩
  obtain ⟨ho, hs⟩ := h.add hm.1 hm.2
  refine ⟨ho, fun hne => ⟨ho, ?_, hs⟩⟩
  have hshort := h.short
  show (walk.messages ++ [m]).length < limit
  rw [List.length_append, List.length_singleton] at hne ⊢
  omega

end WorkStore

/-- The store as another task sees it: a call runs its operation on the cursors and the files. -/
def storeEnv {W : Type} (H : Env FsCall FsCall.Answer W) :
    Env WorkCall WorkCall.Answer (Readers × W) := fun w c a w' =>
  Exec H (c.body.run.run w.1) w.2 w'.2 (a, w'.1)

theorem storeEnv_pending {W : Type} {H : Env FsCall FsCall.Answer W} {w w' : Readers × W}
    {chainKey : ChainKey} {loaded : List B256} {limit : Nat} {ms : List IndexedMessage}
    (h : storeEnv H w (.pending chainKey loaded limit) (.ok ms) w') :
    WorkStore.Offers chainKey loaded limit ms :=
  h.post (WorkStore.pending_answer H chainKey loaded limit w.1 w.2) ms rfl

end MessageRelayer

import Mathlib.Logic.Basic

/-!
# Programs that ask

A program over questions `E` (`Prog`): it computes, and asks its surroundings,
each question `e` with its own type of answers `A e`. A network read, a disk
write and a store to a cell that other code sees are all questions. The
surroundings (`Env`) are a relation: from world `w`, the question `e` may be
answered `a`, leaving the world `w'`; they may be as unreliable as needed.

A run is complete (`Exec`) or cut at some question (`Cut`: a crash, or a
future that is dropped). What holds after every complete run is `wp`, what
holds wherever a run is cut is `cutWp`, what holds of every question at the
moment it is asked is `asks`; each is computed by recursion on the program and
composes along `bind`. Surroundings that answer anything and only remember it
are `heard`: their world is what was said so far.
-/

/-- A program over the questions `E`, with answers `A e`. -/
inductive Prog (E : Type) (A : E → Type) (α : Type) : Type where
  | ret (a : α) : Prog E A α
  | ask (e : E) (k : A e → Prog E A α) : Prog E A α

/-- From `w`, the question `e` may be answered `a`, leading to `w'`. -/
abbrev Env (E : Type) (A : E → Type) (W : Type) := W → (e : E) → A e → W → Prop

namespace Prog

variable {E : Type} {A : E → Type} {W α β : Type}

/-- `p`, then `f` of its result. -/
def bind : Prog E A α → (α → Prog E A β) → Prog E A β
  | ret a, f => f a
  | ask e k, f => ask e fun a => (k a).bind f

instance : Monad (Prog E A) where
  pure := ret
  bind := bind

/-- A single question. -/
def call (e : E) : Prog E A (A e) := ask e ret

theorem bind_eq (p : Prog E A α) (f : α → Prog E A β) : p >>= f = p.bind f := rfl

instance : LawfulMonad (Prog E A) :=
  have hid : ∀ {α : Type} (p : Prog E A α), p.bind ret = p := fun p => by
    induction p with
    | ret => rfl
    | ask e k ih => exact congrArg (ask e) (funext ih)
  have hassoc : ∀ {α β γ : Type} (p : Prog E A α) (f : α → Prog E A β) (g : β → Prog E A γ),
      (p.bind f).bind g = p.bind fun a => (f a).bind g := fun p f g => by
    induction p with
    | ret => rfl
    | ask e k ih => exact congrArg (ask e) (funext ih)
  LawfulMonad.mk' (Prog E A) hid (fun _ _ => rfl) hassoc

/-! ## Runs -/

/-- A complete run of the program, from one world to another. -/
inductive Exec (H : Env E A W) : Prog E A α → W → W → α → Prop where
  | ret {w : W} {a : α} : Exec H (ret a) w w a
  | ask {e : E} {k : A e → Prog E A α} {w w₁ w' : W} {a : A e} {r : α} :
      H w e a w₁ → Exec H (k a) w₁ w' r → Exec H (ask e k) w w' r

/-- A run of the program cut at some point: a crash, or a dropped future. -/
inductive Cut (H : Env E A W) : Prog E A α → W → W → Prop where
  | here {p : Prog E A α} {w : W} : Cut H p w w
  | ask {e : E} {k : A e → Prog E A α} {w w₁ w' : W} {a : A e} :
      H w e a w₁ → Cut H (k a) w₁ w' → Cut H (ask e k) w w'

/-- A complete run, cut at its end. -/
theorem Exec.cut {H : Env E A W} {p : Prog E A α} {w w' : W} {r : α} (h : Exec H p w w' r) :
    Cut H p w w' := by
  induction h with
  | ret => exact .here
  | ask ha _ ih => exact .ask ha ih

/-- What every answer keeps, every run keeps wherever it is cut. -/
theorem Cut.inv {H : Env E A W} {I : W → Prop} (hI : ∀ w e a w', H w e a w' → I w → I w')
    {p : Prog E A α} {w w' : W} (h : Cut H p w w') (hw : I w) : I w' := by
  induction h with
  | here => exact hw
  | ask ha _ ih => exact ih (hI _ _ _ _ ha hw)

theorem Exec.inv {H : Env E A W} {I : W → Prop} (hI : ∀ w e a w', H w e a w' → I w → I w')
    {p : Prog E A α} {w w' : W} {r : α} (h : Exec H p w w' r) (hw : I w) : I w' :=
  h.cut.inv hI hw

/-- What relates the two sides of every answer relates the two sides of every run. -/
theorem Cut.rel {H : Env E A W} {R : W → W → Prop} (hr : ∀ w, R w w)
    (ht : ∀ w w₁ w₂, R w w₁ → R w₁ w₂ → R w w₂) (hH : ∀ w e a w', H w e a w' → R w w')
    {p : Prog E A α} {w w' : W} (h : Cut H p w w') : R w w' := by
  induction h with
  | here => exact hr _
  | ask ha _ ih => exact ht _ _ _ (hH _ _ _ _ ha) ih

/-- A run, seen in a world that tells less. -/
theorem Exec.map {W' : Type} {H : Env E A W} {H' : Env E A W'} {f : W → W'}
    (hf : ∀ w e a w', H w e a w' → H' (f w) e a (f w')) {p : Prog E A α} {w w' : W} {r : α}
    (h : Exec H p w w' r) : Exec H' p (f w) (f w') r := by
  induction h with
  | ret => exact .ret
  | ask ha _ ih => exact .ask (hf _ _ _ _ ha) ih

theorem Cut.map {W' : Type} {H : Env E A W} {H' : Env E A W'} {f : W → W'}
    (hf : ∀ w e a w', H w e a w' → H' (f w) e a (f w')) {p : Prog E A α} {w w' : W}
    (h : Cut H p w w') : Cut H' p (f w) (f w') := by
  induction h with
  | here => exact .here
  | ask ha _ ih => exact .ask (hf _ _ _ _ ha) ih

theorem Exec.of_bind {H : Env E A W} {p : Prog E A α} {f : α → Prog E A β} {w w' : W} {r : β}
    (h : Exec H (p >>= f) w w' r) : ∃ w₁ a, Exec H p w w₁ a ∧ Exec H (f a) w₁ w' r := by
  rw [bind_eq] at h
  induction p generalizing w with
  | ret a => exact ⟨w, a, .ret, h⟩
  | ask e k ih =>
    cases h with
    | ask ha hx =>
      obtain ⟨w₁, b, hk, hf⟩ := ih _ hx
      exact ⟨w₁, b, .ask ha hk, hf⟩

theorem Exec.bind {H : Env E A W} {p : Prog E A α} {f : α → Prog E A β} {w w₁ w' : W} {a : α} {r : β}
    (hp : Exec H p w w₁ a) (hf : Exec H (f a) w₁ w' r) : Exec H (p >>= f) w w' r := by
  rw [bind_eq]
  induction hp with
  | ret => exact hf
  | ask ha _ ih => exact .ask ha (ih hf)

/-- A run of `p` and then `f`, cut in `p` or in `f`. -/
theorem Cut.of_bind {H : Env E A W} {p : Prog E A α} {f : α → Prog E A β} {w w' : W}
    (h : Cut H (p >>= f) w w') :
    Cut H p w w' ∨ ∃ w₁ a, Exec H p w w₁ a ∧ Cut H (f a) w₁ w' := by
  rw [bind_eq] at h
  induction p generalizing w with
  | ret a => exact .inr ⟨w, a, .ret, h⟩
  | ask e k ih =>
    cases h with
    | here => exact .inl .here
    | ask ha hx =>
      rcases ih _ hx with hk | ⟨w₁, b, hk, hf⟩
      · exact .inl (.ask ha hk)
      · exact .inr ⟨w₁, b, .ask ha hk, hf⟩

/-- Running against surroundings that answer by a function. -/
def run (h : W → (e : E) → A e × W) : Prog E A α → W → W × α
  | ret a, w => (w, a)
  | ask e k, w => (k (h w e).1).run h (h w e).2

theorem exec_run {H : Env E A W} {h : W → (e : E) → A e × W}
    (hh : ∀ w e, H w e (h w e).1 (h w e).2) :
    ∀ (p : Prog E A α) (w : W), Exec H p w (p.run h w).1 (p.run h w).2
  | .ret _, _ => .ret
  | .ask e k, w => .ask (hh w e) (exec_run hh (k (h w e).1) (h w e).2)

/-! ## What holds after a complete run -/

/-- `Q` holds after every complete run of the program from `w`. -/
def wp (H : Env E A W) : Prog E A α → W → (W → α → Prop) → Prop
  | ret a, w, Q => Q w a
  | ask e k, w, Q => ∀ a w', H w e a w' → wp H (k a) w' Q

theorem wp_iff {H : Env E A W} {p : Prog E A α} {w : W} {Q : W → α → Prop} :
    wp H p w Q ↔ ∀ w' r, Exec H p w w' r → Q w' r := by
  induction p generalizing w with
  | ret a => exact ⟨fun h _ _ hx => by cases hx; exact h, fun h => h _ _ .ret⟩
  | ask e k ih =>
    constructor
    · intro h w' r hx
      cases hx with
      | ask ha hx => exact (ih _).mp (h _ _ ha) _ _ hx
    · exact fun h a w₁ ha => (ih a).mpr fun w' r hx => h w' r (.ask ha hx)

theorem Exec.post {H : Env E A W} {p : Prog E A α} {w w' : W} {r : α} {Q : W → α → Prop}
    (hx : Exec H p w w' r) (h : wp H p w Q) : Q w' r := wp_iff.mp h w' r hx

@[simp] theorem wp_ret (H : Env E A W) (a : α) (w : W) (Q : W → α → Prop) :
    wp H (ret a) w Q ↔ Q w a := Iff.rfl

@[simp] theorem wp_pure (H : Env E A W) (a : α) (w : W) (Q : W → α → Prop) :
    wp H (pure a) w Q ↔ Q w a := Iff.rfl

@[simp] theorem wp_call (H : Env E A W) (e : E) (w : W) (Q : W → A e → Prop) :
    wp H (call e) w Q ↔ ∀ a w', H w e a w' → Q w' a := Iff.rfl

@[simp] theorem wp_bind (H : Env E A W) (p : Prog E A α) (f : α → Prog E A β) (w : W)
    (Q : W → β → Prop) : wp H (p >>= f) w Q ↔ wp H p w fun w' a => wp H (f a) w' Q := by
  rw [bind_eq]
  induction p generalizing w with
  | ret a => exact Iff.rfl
  | ask e k ih => exact forall_congr' fun a => forall_congr' fun w' => imp_congr Iff.rfl (ih a w')

@[simp] theorem wp_map (H : Env E A W) (p : Prog E A α) (f : α → β) (w : W) (Q : W → β → Prop) :
    wp H (f <$> p) w Q ↔ wp H p w fun w' a => Q w' (f a) := wp_bind H p (fun a => ret (f a)) w Q

theorem wp_mono {H : Env E A W} {p : Prog E A α} {w : W} {Q Q' : W → α → Prop} (h : wp H p w Q)
    (hQ : ∀ w' a, Q w' a → Q' w' a) : wp H p w Q' :=
  wp_iff.mpr fun w' r hx => hQ w' r (hx.post h)

theorem wp_congr {H : Env E A W} {p : Prog E A α} {w : W} {Q Q' : W → α → Prop}
    (hQ : ∀ w' a, Q w' a ↔ Q' w' a) : wp H p w Q ↔ wp H p w Q' :=
  ⟨fun h => wp_mono h fun w' a => (hQ w' a).mp, fun h => wp_mono h fun w' a => (hQ w' a).mpr⟩

/-- The run itself. -/
theorem wp_exec (H : Env E A W) (p : Prog E A α) (w : W) : wp H p w fun w' a => Exec H p w w' a :=
  wp_iff.mpr fun _ _ hx => hx

theorem wp_true (H : Env E A W) (p : Prog E A α) (w : W) : wp H p w fun _ _ => True :=
  wp_iff.mpr fun _ _ _ => trivial

theorem wp_and {H : Env E A W} {p : Prog E A α} {w : W} {Q Q' : W → α → Prop} (h : wp H p w Q)
    (h' : wp H p w Q') : wp H p w fun w' a => Q w' a ∧ Q' w' a :=
  wp_iff.mpr fun _ _ hx => ⟨hx.post h, hx.post h'⟩

/-- A postcondition, along with what every answer keeps. -/
theorem wp_inv {H : Env E A W} {I : W → Prop} (hI : ∀ w e a w', H w e a w' → I w → I w')
    {p : Prog E A α} {w : W} (hw : I w) : wp H p w fun w' _ => I w' :=
  wp_iff.mpr fun _ _ hx => hx.inv hI hw

/-- The postcondition of a program whose errors end it early. -/
@[simp] theorem wp_run_bind {ε : Type} (H : Env E A W) (p : ExceptT ε (Prog E A) α)
    (f : α → ExceptT ε (Prog E A) β) (w : W) (Q : W → Except ε β → Prop) :
    wp H (p >>= f).run w Q ↔ wp H p.run w fun w' r =>
      match r with
      | .ok a => wp H (f a).run w' Q
      | .error e => Q w' (.error e) := by
  rw [ExceptT.run_bind, wp_bind]
  refine ⟨fun h => wp_mono h fun w' r => ?_, fun h => wp_mono h fun w' r => ?_⟩ <;>
    cases r <;> exact id

@[simp] theorem wp_run_lift {ε : Type} (H : Env E A W) (p : Prog E A α) (w : W)
    (Q : W → Except ε α → Prop) :
    wp H (ExceptT.lift p : ExceptT ε (Prog E A) α).run w Q ↔ wp H p w fun w' a => Q w' (.ok a) :=
  wp_map H p Except.ok w Q

@[simp] theorem wp_run_monadLift {ε : Type} (H : Env E A W) (p : Prog E A α) (w : W)
    (Q : W → Except ε α → Prop) :
    wp H (monadLift p : ExceptT ε (Prog E A) α).run w Q ↔ wp H p w fun w' a => Q w' (.ok a) :=
  wp_map H p Except.ok w Q

@[simp] theorem wp_run_pure {ε : Type} (H : Env E A W) (a : α) (w : W)
    (Q : W → Except ε α → Prop) :
    wp H (pure a : ExceptT ε (Prog E A) α).run w Q ↔ Q w (.ok a) := Iff.rfl

@[simp] theorem wp_run_throw {ε : Type} (H : Env E A W) (e : ε) (w : W)
    (Q : W → Except ε α → Prop) :
    wp H (throw e : ExceptT ε (Prog E A) α).run w Q ↔ Q w (.error e) := Iff.rfl

@[simp] theorem wp_run_mk {ε : Type} (H : Env E A W) (p : Prog E A (Except ε α)) (w : W)
    (Q : W → Except ε α → Prop) : wp H (ExceptT.mk p).run w Q ↔ wp H p w Q := Iff.rfl

/-- The same of a program with a state that its errors keep. -/
theorem wp_runState_bind {ε σ : Type} (H : Env E A W) (p : ExceptT ε (StateT σ (Prog E A)) α)
    (f : α → ExceptT ε (StateT σ (Prog E A)) β) (s : σ) (w : W)
    (Q : W → Except ε β × σ → Prop) :
    wp H ((p >>= f).run.run s) w Q ↔ wp H (p.run.run s) w fun w' r =>
      match r.1 with
      | .ok a => wp H ((f a).run.run r.2) w' Q
      | .error e => Q w' (.error e, r.2) := by
  rw [ExceptT.run_bind, StateT.run_bind, wp_bind]
  refine ⟨fun h => wp_mono h fun w' r => ?_, fun h => wp_mono h fun w' r => ?_⟩ <;>
    obtain ⟨_ | _, _⟩ := r <;> exact id

/-- The postcondition of a program with a state. -/
@[simp] theorem wp_state_bind {σ : Type} (H : Env E A W) (p : StateT σ (Prog E A) α)
    (f : α → StateT σ (Prog E A) β) (s : σ) (w : W) (Q : W → β × σ → Prop) :
    wp H ((p >>= f).run s) w Q ↔ wp H (p.run s) w fun w' r => wp H ((f r.1).run r.2) w' Q := by
  rw [StateT.run_bind, wp_bind]

@[simp] theorem wp_state_pure {σ : Type} (H : Env E A W) (a : α) (s : σ) (w : W)
    (Q : W → α × σ → Prop) : wp H ((pure a : StateT σ (Prog E A) α).run s) w Q ↔ Q w (a, s) := Iff.rfl

@[simp] theorem wp_state_lift {σ : Type} (H : Env E A W) (p : Prog E A α) (s : σ) (w : W)
    (Q : W → α × σ → Prop) :
    wp H ((StateT.lift p : StateT σ (Prog E A) α).run s) w Q ↔ wp H p w fun w' a => Q w' (a, s) := by
  rw [StateT.run_lift, wp_bind]
  rfl

@[simp] theorem wp_state_get {σ : Type} (H : Env E A W) (s : σ) (w : W) (Q : W → σ × σ → Prop) :
    wp H ((StateT.get : StateT σ (Prog E A) σ).run s) w Q ↔ Q w (s, s) := Iff.rfl

/-! ## Programs over fewer questions -/

/-- A program, with its questions put as questions of another kind. -/
def embed {E' : Type} {A' : E' → Type} (f : E → E') (g : (e : E) → A' (f e) → A e) :
    Prog E A α → Prog E' A' α
  | ret a => ret a
  | ask e k => ask (f e) fun a => (k (g e a)).embed f g

section
variable {E' : Type} {A' : E' → Type} {f : E → E'} {g : (e : E) → A' (f e) → A e}

/-- Surroundings, as the embedded program sees them. -/
def Env.pull (H : Env E' A' W) (f : E → E') (g : (e : E) → A' (f e) → A e) : Env E A W :=
  fun w e a w' => ∃ a', H w (f e) a' w' ∧ g e a' = a

theorem exec_embed {H : Env E' A' W} {p : Prog E A α} {w w' : W} {r : α} :
    Exec H (p.embed f g) w w' r ↔ Exec (Env.pull H f g) p w w' r := by
  induction p generalizing w with
  | ret a =>
    refine ⟨fun h => ?_, fun h => ?_⟩ <;>
    · cases h; exact .ret
  | ask e k ih =>
    constructor
    · intro h
      cases h with
      | ask ha hx => exact .ask ⟨_, ha, rfl⟩ ((ih _).mp hx)
    · intro h
      cases h with
      | ask ha hx =>
        obtain ⟨a', ha, rfl⟩ := ha
        exact .ask ha ((ih _).mpr hx)

theorem wp_embed {H : Env E' A' W} {p : Prog E A α} {w : W} {Q : W → α → Prop} :
    wp H (p.embed f g) w Q ↔ wp (Env.pull H f g) p w Q := by
  rw [wp_iff, wp_iff]
  exact forall₂_congr fun _ _ => imp_congr exec_embed Iff.rfl

end

/-! ## What holds wherever a run is cut -/

/-- `C` holds at every point at which a run of the program from `w` may be cut. -/
def cutWp (H : Env E A W) : Prog E A α → W → (W → Prop) → Prop
  | ret _, w, C => C w
  | ask e k, w, C => C w ∧ ∀ a w', H w e a w' → cutWp H (k a) w' C

theorem cutWp_iff {H : Env E A W} {p : Prog E A α} {w : W} {C : W → Prop} :
    cutWp H p w C ↔ ∀ w', Cut H p w w' → C w' := by
  induction p generalizing w with
  | ret a => exact ⟨fun h _ hx => by cases hx; exact h, fun h => h _ .here⟩
  | ask e k ih =>
    constructor
    · intro h w' hx
      cases hx with
      | here => exact h.1
      | ask ha hx => exact (ih _).mp (h.2 _ _ ha) _ hx
    · exact fun h => ⟨h _ .here, fun a w₁ ha => (ih a).mpr fun w' hx => h w' (.ask ha hx)⟩

theorem Cut.post {H : Env E A W} {p : Prog E A α} {w w' : W} {C : W → Prop}
    (hx : Cut H p w w') (h : cutWp H p w C) : C w' := cutWp_iff.mp h w' hx

/-! ## What holds of every question -/

/-- `G` holds of every question of the program, in the world in which it is asked. -/
def asks (H : Env E A W) (G : W → E → Prop) : Prog E A α → W → Prop
  | ret _, _ => True
  | ask e k, w => G w e ∧ ∀ a w', H w e a w' → asks H G (k a) w'

variable {H : Env E A W} {G : W → E → Prop}

@[simp] theorem asks_ret (a : α) (w : W) : asks H G (ret a : Prog E A α) w := trivial

@[simp] theorem asks_pure (a : α) (w : W) : asks H G (pure a : Prog E A α) w := trivial

@[simp] theorem asks_run_pure {ε : Type} (a : α) (w : W) :
    asks H G (pure a : ExceptT ε (Prog E A) α).run w := trivial

@[simp] theorem asks_run_throw {ε : Type} (e : ε) (w : W) :
    asks H G (throw e : ExceptT ε (Prog E A) α).run w := trivial

@[simp] theorem asks_call (e : E) (w : W) : asks H G (call e) w ↔ G w e :=
  ⟨And.left, fun h => ⟨h, fun _ _ _ => trivial⟩⟩

theorem asks_bind_iff {p : Prog E A α} {f : α → Prog E A β} {w : W} : asks H G (p >>= f) w ↔
    asks H G p w ∧ wp H p w fun w' a => asks H G (f a) w' := by
  rw [bind_eq]
  induction p generalizing w with
  | ret a => exact ⟨fun h => ⟨trivial, h⟩, And.right⟩
  | ask e k ih =>
    refine ⟨fun h => ⟨⟨h.1, fun a w' ha => ((ih a).mp (h.2 a w' ha)).1⟩,
      fun a w' ha => ((ih a).mp (h.2 a w' ha)).2⟩, fun h => ⟨h.1.1, fun a w' ha => ?_⟩⟩
    exact (ih a).mpr ⟨h.1.2 a w' ha, h.2 a w' ha⟩

theorem asks_bind {p : Prog E A α} {f : α → Prog E A β} {w : W} (hp : asks H G p w)
    (hf : wp H p w fun w' a => asks H G (f a) w') : asks H G (p >>= f) w :=
  asks_bind_iff.mpr ⟨hp, hf⟩

/-- The questions of a program with a state. -/
theorem asks_state_bind {σ : Type} {p : StateT σ (Prog E A) α} {f : α → StateT σ (Prog E A) β}
    {s : σ} {w : W} (hp : asks H G (p.run s) w)
    (hf : wp H (p.run s) w fun w' r => asks H G ((f r.1).run r.2) w') :
    asks H G ((p >>= f).run s) w := by
  rw [StateT.run_bind]
  exact asks_bind hp hf

@[simp] theorem asks_run_lift {ε : Type} (p : Prog E A α) (w : W) :
    asks H G (ExceptT.lift p : ExceptT ε (Prog E A) α).run w ↔ asks H G p w :=
  asks_bind_iff.trans (and_iff_left (wp_iff.mpr fun _ _ _ => trivial))

theorem asks_run_bind_iff {ε : Type} {p : ExceptT ε (Prog E A) α}
    {f : α → ExceptT ε (Prog E A) β} {w : W} : asks H G (p >>= f).run w ↔
    asks H G p.run w ∧ wp H p.run w fun w' r => match r with
      | .ok a => asks H G (f a).run w'
      | .error _ => True := by
  rw [ExceptT.run_bind, asks_bind_iff]
  refine and_congr_right fun _ => ⟨fun h => wp_mono h fun w' r => ?_, fun h => wp_mono h fun w' r => ?_⟩ <;>
    cases r <;> exact fun h => h

theorem asks_run_bind {ε : Type} {p : ExceptT ε (Prog E A) α} {f : α → ExceptT ε (Prog E A) β}
    {w : W} (hp : asks H G p.run w) (hf : wp H p.run w fun w' r => match r with
      | .ok a => asks H G (f a).run w'
      | .error _ => True) : asks H G (p >>= f).run w := asks_run_bind_iff.mpr ⟨hp, hf⟩

/-- Where `G` does not depend on what was answered, the parts of a program can be checked apart. -/
theorem asks_bind_all {p : Prog E A α} {f : α → Prog E A β} (hp : ∀ w, asks H G p w)
    (hf : ∀ a w, asks H G (f a) w) (w : W) : asks H G (p >>= f) w :=
  asks_bind (hp w) (wp_iff.mpr fun w' a _ => hf a w')

theorem asks_run_bind_all {ε : Type} {p : ExceptT ε (Prog E A) α}
    {f : α → ExceptT ε (Prog E A) β} (hp : ∀ w, asks H G p.run w)
    (hf : ∀ a w, asks H G (f a).run w) (w : W) : asks H G (p >>= f).run w :=
  asks_run_bind (hp w) (wp_iff.mpr fun w' r _ => by cases r with
    | ok a => exact hf a w'
    | error e => trivial)

/-- The questions of a program over fewer questions. -/
theorem asks_embed {E' : Type} {A' : E' → Type} {f : E → E'} {g : (e : E) → A' (f e) → A e}
    {H : Env E' A' W} {G : W → E' → Prop} {p : Prog E A α} {w : W}
    (h : asks (Env.pull H f g) (fun w e => G w (f e)) p w) : asks H G (p.embed f g) w := by
  induction p generalizing w with
  | ret a => trivial
  | ask e k ih => exact ⟨h.1, fun a w' ha => ih (g e a) (h.2 _ w' ⟨a, ha, rfl⟩)⟩

/-- What the answers to allowed questions keep, a program that asks no others keeps. -/
theorem Cut.asked {I : W → Prop} (hI : ∀ w e a w', G w e → H w e a w' → I w → I w')
    {p : Prog E A α} {w w' : W} (h : Cut H p w w') (hp : asks H G p w) (hw : I w) : I w' := by
  induction h with
  | here => exact hw
  | ask ha _ ih => exact ih (hp.2 _ _ ha) (hI _ _ _ _ hp.1 ha hw)

/-- A run of the program up to a question that it is about to ask. -/
inductive Reaches (H : Env E A W) : Prog E A α → W → W → E → Prop where
  | here {e : E} {k : A e → Prog E A α} {w : W} : Reaches H (ask e k) w w e
  | ask {e e' : E} {k : A e → Prog E A α} {w w₁ w' : W} {a : A e} :
      H w e a w₁ → Reaches H (k a) w₁ w' e' → Reaches H (ask e k) w w' e'

theorem Reaches.asked {p : Prog E A α} {w w' : W} {e : E} (h : Reaches H p w w' e)
    (hp : asks H G p w) : G w' e := by
  induction h with
  | here => exact hp.1
  | ask ha _ ih => exact ih (hp.2 _ _ ha)

theorem asks_mono {G' : W → E → Prop} {p : Prog E A α} {w : W} (h : asks H G p w)
    (hG : ∀ w e, G w e → G' w e) : asks H G' p w := by
  induction p generalizing w with
  | ret a => trivial
  | ask e k ih => exact ⟨hG _ _ h.1, fun a w' ha => ih a (h.2 a w' ha)⟩

/-- Every question of the program, whatever was answered before it, satisfies `P`. -/
def Only (P : E → Prop) : Prog E A α → Prop
  | ret _ => True
  | ask e k => P e ∧ ∀ a, Only P (k a)

theorem Only.bind {P : E → Prop} {p : Prog E A α} {f : α → Prog E A β} (hp : Only P p)
    (hf : ∀ a, Only P (f a)) : Only P (p >>= f) := by
  rw [bind_eq]
  induction p with
  | ret a => exact hf a
  | ask e k ih => exact ⟨hp.1, fun a => ih a (hp.2 a)⟩

theorem Only.run_bind {ε : Type} {P : E → Prop} {p : ExceptT ε (Prog E A) α}
    {f : α → ExceptT ε (Prog E A) β} (hp : Only P p.run) (hf : ∀ a, Only P (f a).run) :
    Only P (p >>= f).run := by
  rw [ExceptT.run_bind]
  refine hp.bind fun r => ?_
  cases r with
  | ok a => exact hf a
  | error => trivial

theorem Only.state_bind {σ : Type} {P : E → Prop} {p : StateT σ (Prog E A) α}
    {f : α → StateT σ (Prog E A) β} {s : σ} (hp : Only P (p.run s))
    (hf : ∀ a s', Only P ((f a).run s')) : Only P ((p >>= f).run s) := by
  rw [StateT.run_bind]
  exact hp.bind fun r => hf r.1 r.2

theorem Only.mono {P P' : E → Prop} {p : Prog E A α} (h : Only P p) (hP : ∀ e, P e → P' e) :
    Only P' p := by
  induction p with
  | ret a => trivial
  | ask e k ih => exact ⟨hP e h.1, fun a => ih a (h.2 a)⟩

theorem Only.embed {E' : Type} {A' : E' → Type} {f : E → E'} {g : (e : E) → A' (f e) → A e}
    {P : E' → Prop} (hP : ∀ e, P (f e)) : (p : Prog E A α) → Only P (p.embed f g)
  | ret _ => trivial
  | ask e k => ⟨hP e, fun a => Only.embed hP (k (g e a))⟩

theorem Only.asks {P : E → Prop} {p : Prog E A α} (h : Only P p) (w : W) :
    Prog.asks H (fun _ e => P e) p w := by
  induction p generalizing w with
  | ret a => trivial
  | ask e k ih => exact ⟨h.1, fun a w' _ => ih a (h.2 a) w'⟩

/-- What the answers to allowed questions keep. -/
theorem Exec.only {I : W → Prop} {P : E → Prop} (hI : ∀ w e a w', P e → H w e a w' → I w → I w')
    {p : Prog E A α} {w w' : W} {r : α} (h : Exec H p w w' r) (hp : Only P p) (hw : I w) : I w' :=
  h.cut.asked hI (hp.asks w) hw

/-- What answers to allowed questions keep related on two sides, a run keeps related. -/
theorem Exec.sim {W' : Type} {H' : Env E A W'} {R : W → W' → Prop} {P : E → Prop}
    (hR : ∀ w e a w₁ v, P e → H w e a w₁ → R w v → ∃ v₁, H' v e a v₁ ∧ R w₁ v₁)
    {p : Prog E A α} {w w' : W} {r : α} (h : Exec H p w w' r) (hp : Only P p) {v : W'}
    (hv : R w v) : ∃ v', Exec H' p v v' r ∧ R w' v' := by
  induction h generalizing v with
  | ret => exact ⟨v, .ret, hv⟩
  | ask ha _ ih =>
    obtain ⟨v₁, hb, hv₁⟩ := hR _ _ _ _ v hp.1 ha hv
    obtain ⟨v', hx, hv'⟩ := ih (hp.2 _) hv₁
    exact ⟨v', .ask hb hx, hv'⟩

/-- Questions that are allowed in a world that tells more are allowed where it tells less. -/
theorem asks_map {W' : Type} {H' : Env E A W'} {G' : W' → E → Prop} {f : W → W'} {I : W → Prop}
    (hH : ∀ w e a w', H w e a w' → I w → H' (f w) e a (f w') ∧ I w')
    (hG : ∀ w e, I w → G' (f w) e → G w e) {p : Prog E A α} {w : W} (h : asks H' G' p (f w))
    (hw : I w) : asks H G p w := by
  induction p generalizing w with
  | ret a => trivial
  | ask e k ih =>
    refine ⟨hG w e hw h.1, fun a w' ha => ?_⟩
    obtain ⟨ha', hw'⟩ := hH w e a w' ha hw
    exact ih a (h.2 a _ ha') hw'

/-! ## Questions and result together -/

/-- Every question of the program satisfies `G`, and `Q` holds after every complete run. -/
def safe (H : Env E A W) (G : W → E → Prop) (p : Prog E A α) (w : W) (Q : W → α → Prop) : Prop :=
  asks H G p w ∧ wp H p w Q

theorem safe_mono {p : Prog E A α} {w : W} {Q Q' : W → α → Prop} (h : safe H G p w Q)
    (hQ : ∀ w' a, Q w' a → Q' w' a) : safe H G p w Q' := ⟨h.1, wp_mono h.2 hQ⟩

@[simp] theorem safe_pure (a : α) (w : W) (Q : W → α → Prop) :
    safe H G (pure a : Prog E A α) w Q ↔ Q w a := ⟨And.right, fun h => ⟨trivial, h⟩⟩

@[simp] theorem safe_call (e : E) (w : W) (Q : W → A e → Prop) :
    safe H G (call e) w Q ↔ G w e ∧ ∀ a w', H w e a w' → Q w' a :=
  and_congr (asks_call e w) (wp_call H e w Q)

@[simp] theorem safe_bind (p : Prog E A α) (f : α → Prog E A β) (w : W) (Q : W → β → Prop) :
    safe H G (p >>= f) w Q ↔ safe H G p w fun w' a => safe H G (f a) w' Q := by
  rw [safe, asks_bind_iff, wp_bind, and_assoc]
  refine and_congr_right fun _ => ⟨fun h => wp_and h.1 h.2, fun h => ⟨?_, ?_⟩⟩
  · exact wp_mono h fun _ _ => And.left
  · exact wp_mono h fun _ _ => And.right

@[simp] theorem safe_state_bind {σ : Type} (p : StateT σ (Prog E A) α)
    (f : α → StateT σ (Prog E A) β) (s : σ) (w : W) (Q : W → β × σ → Prop) :
    safe H G ((p >>= f).run s) w Q ↔
      safe H G (p.run s) w fun w' r => safe H G ((f r.1).run r.2) w' Q := by
  rw [StateT.run_bind, safe_bind]

@[simp] theorem safe_state_pure {σ : Type} (a : α) (s : σ) (w : W) (Q : W → α × σ → Prop) :
    safe H G ((pure a : StateT σ (Prog E A) α).run s) w Q ↔ Q w (a, s) := safe_pure (a, s) w Q

@[simp] theorem safe_state_lift {σ : Type} (p : Prog E A α) (s : σ) (w : W)
    (Q : W → α × σ → Prop) : safe H G ((StateT.lift p : StateT σ (Prog E A) α).run s) w Q ↔
      safe H G p w fun w' a => Q w' (a, s) := by
  rw [StateT.run_lift, safe_bind]
  exact ⟨fun h => safe_mono h fun _ _ => (safe_pure _ _ _).mp,
    fun h => safe_mono h fun _ _ => (safe_pure _ _ _).mpr⟩

/-! ## Worlds that grow -/

section
variable {grow : W → W → Prop}
  (hH : ∀ w w₁ e a w', grow w w₁ → H w₁ e a w' → H w e a w')
include hH

/-- Surroundings that let the world grow at any time: a program need not be asked at once. -/
theorem wp_grow {Q : W → α → Prop} (hQ : ∀ w w' a, grow w w' → Q w a → Q w' a)
    {p : Prog E A α} {w w' : W} (hw : grow w w') (h : wp H p w Q) : wp H p w' Q := by
  cases p with
  | ret a => exact hQ _ _ _ hw h
  | ask e k => exact fun a w₁ ha => h a w₁ (hH _ _ _ _ _ hw ha)

theorem asks_grow (hG : ∀ w w' e, grow w w' → G w e → G w' e) {p : Prog E A α} {w w' : W}
    (hw : grow w w') (h : asks H G p w) : asks H G p w' := by
  cases p with
  | ret a => trivial
  | ask e k => exact ⟨hG _ _ _ hw h.1, fun a w₁ ha => h.2 a w₁ (hH _ _ _ _ _ hw ha)⟩

end

/-- Surroundings that answer anything. -/
def anything : Env E A Unit := fun _ _ _ _ => True

/-- A run in which the first question is answered `a`. -/
theorem exec_answer {e : E} {k : A e → Prog E A α} (a : A e) {r : α}
    (h : Exec anything (k a) () () r) : Exec anything (ask e k) () () r :=
  .ask (show anything () e a () from trivial) h

/-- Programs may differ in what they do after results that `p` never has. -/
theorem bind_congr_wp {p : Prog E A α} {f g : α → Prog E A β}
    (h : wp anything p () fun _ a => f a = g a) : p >>= f = p >>= g := by
  rw [bind_eq, bind_eq]
  induction p with
  | ret a => exact h
  | ask e k ih => exact congrArg (ask e) (funext fun a => ih a (h a () trivial))

theorem only_of_asks {P : E → Prop} {p : Prog E A α}
    (h : Prog.asks anything (fun _ e => P e) p ()) : Only P p := by
  induction p with
  | ret a => trivial
  | ask e k ih => exact ⟨h.1, fun a => ih a (h.2 a () trivial)⟩

/-! ## What was said -/

/-- Questions with their answers, in the order in which they were asked. -/
abbrev Said (E : Type) (A : E → Type) := List ((e : E) × A e)

/-- Surroundings that answer anything, and remember it. -/
def heard : Env E A (Said E A) := fun said e a said' => said' = said ++ [⟨e, a⟩]

@[simp] theorem heard_iff {said said' : Said E A} {e : E} {a : A e} :
    heard said e a said' ↔ said' = said ++ [⟨e, a⟩] := Iff.rfl

/-- Surroundings that remember what was said in them. -/
def Env.logged (H : Env E A W) : Env E A (W × Said E A) := fun w e a w' =>
  H w.1 e a w'.1 ∧ w'.2 = w.2 ++ [⟨e, a⟩]

/-- Every question that was said, and was not said before, was asked in its turn. -/
theorem Cut.guarded {G : Said E A → E → Prop} {p : Prog E A α} {said said' : Said E A}
    (h : Cut heard p said said') (hp : asks heard G p said) :
    ∃ new, said' = said ++ new ∧ ∀ l x r, new = l ++ x :: r → G (said ++ l) x.1 := by
  induction h with
  | here => exact ⟨[], (List.append_nil _).symm, fun l x r e => by simp at e⟩
  | @ask e k said said₁ said' a ha _ ih =>
    obtain ⟨new, hn, hg⟩ := ih (hp.2 a _ ha)
    rw [heard_iff.mp ha] at hn hg
    refine ⟨⟨e, a⟩ :: new, by rw [hn, List.append_assoc, List.singleton_append], fun l x r hl => ?_⟩
    cases l with
    | nil =>
      obtain ⟨rfl, -⟩ := List.cons.inj hl
      rw [List.append_nil]; exact hp.1
    | cons y l =>
      obtain ⟨rfl, hn⟩ := List.cons.inj hl
      have := hg l x r hn
      rwa [List.append_assoc, List.singleton_append] at this

/-- What holds of every question that is asked holds of every question that was not said before. -/
theorem cutWp_asked {P : E → Prop} {p : Prog E A α} {said : Said E A}
    (h : asks heard (fun _ e => P e) p said) :
    cutWp heard p said fun said' => ∀ x ∈ said', x ∈ said ∨ P x.1 := by
  refine cutWp_iff.mpr fun said' hx x hm => ?_
  obtain ⟨new, rfl, hg⟩ := hx.guarded h
  refine (List.mem_append.mp hm).imp_right fun hm => ?_
  obtain ⟨l, r, e⟩ := List.append_of_mem hm
  exact hg l x r e

theorem wp_asked {P : E → Prop} {p : Prog E A α} {said : Said E A}
    (h : asks heard (fun _ e => P e) p said) :
    wp heard p said fun said' _ => ∀ x ∈ said', x ∈ said ∨ P x.1 :=
  wp_iff.mpr fun _ _ hx => hx.cut.post (cutWp_asked h)

/-- What a program says asks only its questions. -/
theorem wp_only {P : E → Prop} {p : Prog E A α} (h : Only P p) (said : Said E A) :
    wp heard p said fun said' _ => ∃ new, said' = said ++ new ∧ ∀ x ∈ new, P x.1 := by
  refine wp_iff.mpr fun said' r hx => ?_
  obtain ⟨new, hn, hg⟩ := hx.cut.guarded (h.asks said)
  refine ⟨new, hn, fun x hm => ?_⟩
  obtain ⟨l, r, e⟩ := List.append_of_mem hm
  exact hg l x r e

/-- The last question of a kind, with its answer. -/
def LastSaid (K : E → Prop) (said : Said E A) (e : E) (a : A e) : Prop :=
  ∃ l r, said = l ++ ⟨e, a⟩ :: r ∧ ∀ x ∈ r, ¬ K x.1

section
variable {K : E → Prop} {said : Said E A} {e : E} {a : A e}

theorem LastSaid.concat (K : E → Prop) (said : Said E A) (e : E) (a : A e) :
    LastSaid K (said ++ [⟨e, a⟩]) e a := ⟨said, [], rfl, fun _ h => absurd h List.not_mem_nil⟩

/-- It stays the last one while none of its kind is asked. -/
theorem LastSaid.append (h : LastSaid K said e a) {new : Said E A} (hn : ∀ x ∈ new, ¬ K x.1) :
    LastSaid K (said ++ new) e a := by
  obtain ⟨l, r, rfl, hr⟩ := h
  refine ⟨l, r ++ new, by simp, fun x hx => ?_⟩
  exact (List.mem_append.mp hx).elim (hr x) (hn x)

end

/-- What was said stays said. -/
theorem wp_heard {p : Prog E A α} {said : Said E A} {Q : Said E A → α → Prop}
    (h : wp heard p said Q) : wp heard p said fun said' a => said <+: said' ∧ Q said' a := by
  refine wp_and (wp_inv (I := fun s => said <+: s) (fun s e a s' ha hs => ?_) (List.prefix_refl _)) h
  rw [heard_iff.mp ha]
  exact hs.trans (List.prefix_append _ _)

end Prog

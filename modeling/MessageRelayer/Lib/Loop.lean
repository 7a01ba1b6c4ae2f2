import Mathlib.Data.List.Induction
import Mathlib.Tactic.Common

/-!
# Loops that report

A loop (`Loop`) takes a turn for each event, with a reading of the clock, and
reports on some of its turns whether it got on. Its turns are paced
(`Loop.Paced`) when no wait for the next of them is longer than the state
allows. The rules: an invariant of the state and of the turns so far holds
after all turns (`Loop.inv`); and an invariant that has the time of the last
turn and of the last report bounds how long the loop is silent
(`Loop.silence`).
-/

/-- `turn` is one turn; a report is whether the loop got on. -/
structure Loop (σ ε : Type) where
  turn : σ → Nat → ε → σ × Option Bool

namespace Loop

variable {σ ε : Type} (L : Loop σ ε)

/-- The state after the turns. -/
def state (s : σ) (l : List (Nat × ε)) : σ := l.foldl (fun s t => (L.turn s t.1 t.2).1) s

/-- The turns of a loop from `start`: in the order of their readings, and none later than `wait` allows
after the turn before; the last is at `last`. -/
inductive Paced (wait : σ → Nat) (s : σ) (start : Nat) : List (Nat × ε) → Nat → Prop where
  | nil : Paced wait s start [] start
  | snoc {l : List (Nat × ε)} {last now : Nat} {e : ε} (h : Paced wait s start l last)
      (hl : last ≤ now) (hw : now ≤ last + wait (L.state s l)) :
      Paced wait s start (l ++ [(now, e)]) now

/-- What is seen of the turns, each with its reading. -/
def trace {ω : Type} (f : σ → Nat → ε → Option ω) (s : σ) : List (Nat × ε) → List (Nat × ω)
  | [] => []
  | t :: l => (f s t.1 t.2).toList.map (t.1, ·) ++ trace f (L.turn s t.1 t.2).1 l

/-- The reports. -/
def reports (s : σ) (l : List (Nat × ε)) : List (Nat × Bool) :=
  L.trace (fun s now e => (L.turn s now e).2) s l

variable {L} {s : σ} {l l' : List (Nat × ε)} {wait : σ → Nat} {start last : Nat}

@[simp] theorem state_nil : L.state s [] = s := rfl

@[simp] theorem state_concat (t : Nat × ε) :
    L.state s (l ++ [t]) = (L.turn (L.state s l) t.1 t.2).1 := by simp [state]

section
variable {ω : Type} (f : σ → Nat → ε → Option ω)

theorem trace_append :
    L.trace f s (l ++ l') = L.trace f s l ++ L.trace f (L.state s l) l' := by
  induction l generalizing s with
  | nil => rfl
  | cons t l ih => simp [trace, state, ih]

theorem trace_concat (t : Nat × ε) : L.trace f s (l ++ [t]) =
    L.trace f s l ++ (f (L.state s l) t.1 t.2).toList.map (t.1, ·) := by
  simp [trace_append, trace]

end

@[simp] theorem reports_nil : L.reports s [] = [] := rfl

theorem reports_concat (t : Nat × ε) : L.reports s (l ++ [t]) =
    L.reports s l ++ (L.turn (L.state s l) t.1 t.2).2.toList.map (t.1, ·) := trace_concat _ t

/-- An invariant of the state and of the turns so far. -/
theorem inv {I : List (Nat × ε) → σ → Prop} (hs : I [] s)
    (hI : ∀ l now e, I l (L.state s l) →
      I (l ++ [(now, e)]) (L.turn (L.state s l) now e).1) (l : List (Nat × ε)) :
    I l (L.state s l) := by
  induction l using List.reverseRecOn with
  | nil => exact hs
  | append_singleton l t ih =>
    rw [state_concat]
    exact hI l t.1 t.2 ih

/-- An invariant of the state, of the last turn and of the last report, which is made at `start`
before the first turn. -/
theorem silence {I : σ → Nat → Nat → Prop} (hs : I s start start)
    (hI : ∀ s last r now e, I s last r → last ≤ now → now ≤ last + wait s →
      I (L.turn s now e).1 now (if (L.turn s now e).2.isSome then now else r))
    (hp : L.Paced wait s start l last) :
    ∃ r, r ≤ last ∧ (r = start ∨ ∃ ok, (r, ok) ∈ L.reports s l) ∧ I (L.state s l) last r := by
  induction hp with
  | nil => exact ⟨start, Nat.le_refl _, .inl rfl, hs⟩
  | @snoc l last now e _ hl hw ih =>
    obtain ⟨r, hr, hmem, hinv⟩ := ih
    have hnext := hI _ _ _ now e hinv hl hw
    rw [state_concat, reports_concat]
    cases ho : (L.turn (L.state s l) now e).2 with
    | none =>
      rw [ho] at hnext
      exact ⟨r, Nat.le_trans hr hl,
        hmem.imp_right fun ⟨ok, hm⟩ => ⟨ok, List.mem_append_left _ hm⟩, hnext⟩
    | some ok =>
      rw [ho] at hnext
      exact ⟨now, Nat.le_refl _, .inr ⟨ok, List.mem_append_right _ (by simp)⟩, hnext⟩

end Loop

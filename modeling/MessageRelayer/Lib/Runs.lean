import Mathlib.Tactic.Common

/-!
# Runs of a step relation

A run (`Run`) of a labelled step relation from a state, with the labels of its
steps in order. The rules: an invariant kept by every step holds after every
run (`Run.inv`), and so does an invariant of the state and the labels so far
(`Run.hist`); what relates the two sides of every step relates the two sides
of every run (`Run.rel`); and where every step is a run of another relation, so is
every run (`Run.simulate`). What is kept by the steps taken before something
happens holds, or that has happened in between (`Run.kept_until`). The labels
since the last of a kind are `since`.
-/

/-- A run from `s` to `t`, with the labels of its steps. -/
inductive Run {σ α : Type} (step : σ → α → σ → Prop) : σ → List α → σ → Prop where
  | nil {s : σ} : Run step s [] s
  | snoc {s t u : σ} {l : List α} {a : α} : Run step s l t → step t a u → Run step s (l ++ [a]) u

namespace Run

variable {σ α : Type} {step : σ → α → σ → Prop} {s t u : σ} {l l' : List α}

theorem inv {I : σ → Prop} (hI : ∀ s a t, step s a t → I s → I t) (h : Run step s l t) (hs : I s) :
    I t := by
  induction h with
  | nil => exact hs
  | snoc _ ha ih => exact hI _ _ _ ha ih

/-- An invariant of the state and of the labels of the steps so far. -/
theorem hist {I : List α → σ → Prop} (hI : ∀ l s a t, step s a t → I l s → I (l ++ [a]) t)
    (h : Run step s l t) (hs : I [] s) : I l t := by
  induction h with
  | nil => exact hs
  | snoc _ ha ih => exact hI _ _ _ _ ha ih

theorem rel {R : σ → σ → Prop} (hr : ∀ s, R s s) (ht : ∀ s t u, R s t → R t u → R s u)
    (hR : ∀ s a t, step s a t → R s t) (h : Run step s l t) : R s t := by
  induction h with
  | nil => exact hr _
  | snoc _ ha ih => exact ht _ _ _ ih (hR _ _ _ ha)

/-- A run of a relation that allows more. -/
theorem mono {step' : σ → α → σ → Prop} (hs : ∀ s a t, step s a t → step' s a t)
    (h : Run step s l t) : Run step' s l t := by
  induction h with
  | nil => exact .nil
  | snoc _ ha ih => exact .snoc ih (hs _ _ _ ha)

theorem eq_of_nil (h : Run step s [] t) : t = s := by
  generalize e : ([] : List α) = m at h
  cases h with
  | nil => rfl
  | snoc => simp at e

theorem append (h : Run step s l t) (h' : Run step t l' u) : Run step s (l ++ l') u := by
  induction h' with
  | nil => rwa [List.append_nil]
  | snoc _ ha ih => rw [← List.append_assoc]; exact .snoc ih ha

/-- A run up to a label, the step with the label, and the run after it. -/
theorem split {a : α} (h : Run step s (l ++ a :: l') u) :
    ∃ t t', Run step s l t ∧ step t a t' ∧ Run step t' l' u := by
  generalize e : l ++ a :: l' = m at h
  induction h generalizing l' with
  | nil => simp at e
  | @snoc t u l₁ b h hb ih =>
    rcases List.eq_nil_or_concat l' with rfl | ⟨l'', c, rfl⟩
    · obtain ⟨rfl, e⟩ := List.append_inj' e rfl
      obtain rfl : a = b := by simpa using e
      exact ⟨_, _, h, hb, .nil⟩
    · have e' : (l ++ a :: l'') ++ [c] = l₁ ++ [b] := by simpa using e
      obtain ⟨el, ec⟩ := List.append_inj' e' rfl
      obtain rfl : c = b := by simpa using ec
      obtain ⟨t₁, t₂, h₁, ha, h₂⟩ := ih el
      exact ⟨t₁, t₂, h₁, ha, by rw [List.concat_eq_append]; exact .snoc h₂ hb⟩

/-- A run in two parts. -/
theorem parts (h : Run step s (l ++ l') u) : ∃ t, Run step s l t ∧ Run step t l' u := by
  rcases l' with _ | ⟨a, l'⟩
  · rw [List.append_nil] at h
    exact ⟨u, h, .nil⟩
  · obtain ⟨t, t', h₁, ha, h₂⟩ := h.split
    exact ⟨t, h₁, (Run.snoc .nil ha).append h₂⟩

/-- A run of steps each of which is a run of another relation. -/
theorem simulate {τ β : Type} {step' : τ → β → τ → Prop} (f : σ → τ) (g : α → List β)
    (hg : ∀ s a t, step s a t → Run step' (f s) (g a) (f t)) (h : Run step s l t) :
    Run step' (f s) (l.flatMap g) (f t) := by
  induction h with
  | nil => exact .nil
  | snoc _ ha ih =>
    rw [List.flatMap_append, List.flatMap_singleton]
    exact ih.append (hg _ _ _ ha)

theorem single {a : α} (h : step s a t) : Run step s [a] t := .snoc .nil h

theorem of_single {a : α} (h : Run step s [a] t) : step s a t := by
  obtain ⟨u, v, hu, ha, hv⟩ := h.split (l := [])
  rw [hu.eq_of_nil] at ha
  rwa [hv.eq_of_nil]

/-- What every step keeps that is taken before `Q` holds. -/
theorem kept_until {P Q : σ → Prop} (hP : ∀ s a t, step s a t → P s → ¬Q s → P t)
    (h : Run step s l t) (hs : P s) :
    P t ∨ ∃ l₁ l₂ u, l = l₁ ++ l₂ ∧ Run step s l₁ u ∧ Q u ∧ Run step u l₂ t := by
  induction h with
  | nil => exact .inl hs
  | @snoc t u l a h ha ih =>
    rcases ih with ht | ⟨l₁, l₂, v, rfl, h₁, hq, h₂⟩
    · by_cases hq : Q t
      · exact .inr ⟨l, [a], t, rfl, h, hq, .single ha⟩
      · exact .inl (hP _ _ _ ha ht hq)
    · exact .inr ⟨l₁, l₂ ++ [a], v, List.append_assoc .., h₁, hq, .snoc h₂ ha⟩

end Run

/-- The labels from the last that `start` holds of. -/
def since {α : Type} (start : α → Bool) (l : List α) : List α :=
  l.foldl (fun acc a => if start a then [a] else acc ++ [a]) []

theorem since_concat {α : Type} (start : α → Bool) (l : List α) (a : α) :
    since start (l ++ [a]) = if start a then [a] else since start l ++ [a] := by
  rw [since, List.foldl_append]
  rfl

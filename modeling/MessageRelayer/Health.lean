import MessageRelayer.Basic

/-!
# Liveness of the workers

`health`: each worker reports by name that an iteration succeeded
(`Health.heartbeat`) or that it failed (`Health.error`), and a probe judges
every registered worker against a deadline (`Health.status`): stale when it is
silent, degraded when it only fails.

The state keeps two times of a worker, with zero for never. What they say of
all that the worker has reported is `Component.Dated`: they date its last
success, or its first report when there is none, except that a report made
while the clock reads zero is dated again by the next error. So the verdict is
what the reports say (`Judged`) if and only if no such date is in the way
(`Redated`, `health_verdict`).
-/

namespace MessageRelayer

/-- Nanoseconds since the Unix epoch, or before it. -/
abbrev SystemTime := Int

/-- The clock of the reports: milliseconds since the epoch, and zero before it. -/
def nowUnixMs (t : SystemTime) : Nat := min (t.toNat / 10 ^ 6) u64Max

theorem nowUnixMs_mono {t t' : SystemTime} (h : t ≤ t') : nowUnixMs t ≤ nowUnixMs t' := by
  have hd : t.toNat / 10 ^ 6 ≤ t'.toNat / 10 ^ 6 := Nat.div_le_div_right (Int.toNat_le_toNat h)
  simp only [nowUnixMs]
  omega

/-- The reporting history of a worker. -/
structure Component where
  /-- The last success (or the registration). -/
  lastOk : Nat
  /-- Zero until the first failure. -/
  lastErr : Nat
  deriving DecidableEq

/-- `Component::default`. -/
def Component.zero : Component := ⟨0, 0⟩

/-- The verdict, by names. -/
structure Report where
  stale : List String
  degraded : List String
  deriving DecidableEq

structure Health where
  components : Map String Component
  deadlineMs : Nat

namespace Health

def new (deadline : Duration) : Health := ⟨∅, min (deadline / 10 ^ 6) u64Max⟩

/-- `components.entry(name).or_default()`. -/
def entry (h : Health) (name : String) : Component := h.components[name]?.getD .zero

def heartbeat (h : Health) (name : String) (now : SystemTime) : Health :=
  let entry := { h.entry name with lastOk := nowUnixMs now }
  { h with components := h.components.insert name entry }

/-- The first report of all dates the registration, if it is an error. -/
def error (h : Health) (name : String) (now : SystemTime) : Health :=
  let entry := h.entry name
  let entry := if entry.lastOk = 0 then { entry with lastOk := nowUnixMs now } else entry
  let entry := { entry with lastErr := nowUnixMs now }
  { h with components := h.components.insert name entry }

def okOverdue (deadlineMs now : Nat) (c : Component) : Bool := decide (now - c.lastOk > deadlineMs)

def errRecent (deadlineMs now : Nat) (c : Component) : Bool :=
  decide (c.lastErr ≠ 0) && decide (now - c.lastErr ≤ deadlineMs)

/-- One worker of the loop of `status`. -/
def classify (deadlineMs now : Nat) (report : Report) (worker : String × Component) : Report :=
  if !okOverdue deadlineMs now worker.2 then report
  else if errRecent deadlineMs now worker.2 then
    { report with degraded := report.degraded ++ [worker.1] }
  else { report with stale := report.stale ++ [worker.1] }

/-- The workers judged, as an iteration over them comes. -/
def status (h : Health) (now : SystemTime) (order : Map.Iteration h.components) : Report :=
  let report := order.entries.foldl (classify h.deadlineMs (nowUnixMs now)) ⟨[], []⟩
  { stale := report.stale.mergeSort fun a b => decide (a ≤ b)
    degraded := report.degraded.mergeSort fun a b => decide (a ≤ b) }

end Health

/-! ## The reports of a worker -/

/-- One call of a worker. -/
inductive HealthCall where
  | heartbeat (name : String)
  | error (name : String)
  deriving DecidableEq

/-- What a call says of a worker: when, by the clock of the reports, and whether it succeeded. -/
structure Beat where
  time : Nat
  ok : Bool
  deriving DecidableEq

def HealthCall.beat (name : String) (now : SystemTime) : HealthCall → Option Beat
  | heartbeat n => if n = name then some ⟨nowUnixMs now, true⟩ else none
  | error n => if n = name then some ⟨nowUnixMs now, false⟩ else none

theorem HealthCall.beat_time {name : String} {now : SystemTime} {c : HealthCall} {b : Beat}
    (h : c.beat name now = some b) : b.time = nowUnixMs now := by
  cases c <;>
  · simp only [beat] at h
    split at h
    · cases h
      rfl
    · cases h

/-- The reports of a worker among all calls. -/
def beats (name : String) (l : List (SystemTime × HealthCall)) : List Beat :=
  l.filterMap fun c => c.2.beat name c.1

theorem beats_concat (name : String) (l : List (SystemTime × HealthCall))
    (c : SystemTime × HealthCall) :
    beats name (l ++ [c]) = beats name l ++ (c.2.beat name c.1).toList := by
  rw [beats, List.filterMap_append, List.filterMap_cons]
  split
  · rename_i e
    rw [e]
    rfl
  · rename_i b e
    rw [e]
    rfl

def Health.call (h : Health) : SystemTime × HealthCall → Health
  | (now, .heartbeat name) => h.heartbeat name now
  | (now, .error name) => h.error name now

/-- The registry after the calls. -/
def Health.after (deadline : Duration) (l : List (SystemTime × HealthCall)) : Health :=
  l.foldl .call (.new deadline)

/-- A worker's history after one more report. -/
def Component.beat (c : Component) (b : Beat) : Component :=
  if b.ok then { c with lastOk := b.time }
  else { lastOk := if c.lastOk = 0 then b.time else c.lastOk, lastErr := b.time }

namespace Health

variable {h : Health} {name : String} {deadline : Duration} {l : List (SystemTime × HealthCall)}

theorem call_deadline (h : Health) (c : SystemTime × HealthCall) :
    (h.call c).deadlineMs = h.deadlineMs := by
  obtain ⟨now, n | n⟩ := c <;> rfl

theorem call_components (h : Health) (c : SystemTime × HealthCall) (name : String) :
    (h.call c).components[name]? =
      match c.2.beat name c.1 with
      | some b => some ((h.entry name).beat b)
      | none => h.components[name]? := by
  obtain ⟨now, n | n⟩ := c
  · by_cases e : n = name
    · simp [call, heartbeat, HealthCall.beat, Component.beat, e]
    · simp [call, heartbeat, HealthCall.beat, Map.get_insert, e, Ne.symm e]
  · by_cases e : n = name
    · subst e
      simp only [call, error, HealthCall.beat, Component.beat, Map.get_insert_self, if_true,
        Bool.false_eq_true, if_false]
      split <;> rfl
    · simp [call, error, HealthCall.beat, Map.get_insert, e, Ne.symm e]

theorem after_concat (deadline : Duration) (l : List (SystemTime × HealthCall))
    (c : SystemTime × HealthCall) : after deadline (l ++ [c]) = (after deadline l).call c := by
  rw [after, List.foldl_append]
  rfl

theorem after_deadline (deadline : Duration) (l : List (SystemTime × HealthCall)) :
    (after deadline l).deadlineMs = min (deadline / 10 ^ 6) u64Max := by
  induction l using List.reverseRecOn with
  | nil => rfl
  | append_singleton l c ih => rw [after_concat, call_deadline, ih]

/-- A worker is registered by its first report, and its history is that of its own reports. -/
theorem after_components (deadline : Duration) (l : List (SystemTime × HealthCall)) (name : String) :
    (after deadline l).components[name]? =
      if beats name l = [] then none else some ((beats name l).foldl .beat .zero) := by
  induction l using List.reverseRecOn with
  | nil => rfl
  | append_singleton l c ih =>
    have hentry : (after deadline l).entry name = (beats name l).foldl .beat .zero := by
      rw [entry, ih]
      split
      · rename_i e
        rw [e]
        rfl
      · rfl
    rw [after_concat, call_components, hentry, ih, beats_concat]
    split
    · rename_i b e
      rw [e, if_neg (by simp), Option.toList_some, List.foldl_append]
      rfl
    · rename_i e
      rw [e, Option.toList_none, List.append_nil]

/-- The loop of `status` sorts the workers by two tests. -/
theorem foldl_classify (deadlineMs now : Nat) (l : List (String × Component)) (report : Report) :
    l.foldl (classify deadlineMs now) report =
      { stale := report.stale ++ (l.filter fun w =>
          okOverdue deadlineMs now w.2 && !errRecent deadlineMs now w.2).map (·.1)
        degraded := report.degraded ++ (l.filter fun w =>
          okOverdue deadlineMs now w.2 && errRecent deadlineMs now w.2).map (·.1) } := by
  induction l generalizing report with
  | nil => simp
  | cons w l ih =>
    rw [List.foldl_cons, ih]
    cases ho : okOverdue deadlineMs now w.2 <;> cases he : errRecent deadlineMs now w.2 <;>
      simp [classify, ho, he]

theorem mem_stale (h : Health) (now : SystemTime) (order : Map.Iteration h.components)
    (name : String) :
    name ∈ (h.status now order).stale ↔ ∃ c, h.components[name]? = some c ∧
      okOverdue h.deadlineMs (nowUnixMs now) c = true ∧
      errRecent h.deadlineMs (nowUnixMs now) c = false := by
  simp only [status, List.mem_mergeSort, foldl_classify]
  simp [order.mem_entries]

theorem mem_degraded (h : Health) (now : SystemTime) (order : Map.Iteration h.components)
    (name : String) :
    name ∈ (h.status now order).degraded ↔ ∃ c, h.components[name]? = some c ∧
      okOverdue h.deadlineMs (nowUnixMs now) c = true ∧
      errRecent h.deadlineMs (nowUnixMs now) c = true := by
  simp only [status, List.mem_mergeSort, foldl_classify]
  simp [order.mem_entries]

end Health

/-! ## What a worker's history says of its reports -/

/-- The last success; the first report, if there was none. -/
def lastSuccess (rs : List Beat) : Nat :=
  match (rs.filter (·.ok)).getLast?, rs.head? with
  | some b, _ => b.time
  | none, some b => b.time
  | none, none => 0

/-- How a history comes from the reports: the last success is the one that was reported, unless that
was at zero; then it is the first report after zero, if there is one. -/
structure Component.Dated (c : Component) (rs : List Beat) : Prop where
  ok_mem : ∃ b ∈ rs, b.time = c.lastOk
  ok_le : ∀ b ∈ rs, b.ok = true → b.time ≤ c.lastOk
  ok_eq : c.lastOk = lastSuccess rs ∧ (c.lastOk = 0 → ∀ b ∈ rs, b.time = 0) ∨
    lastSuccess rs = 0 ∧ 0 < c.lastOk ∧ ∀ b ∈ rs, 0 < b.time → b.ok = false ∧ c.lastOk ≤ b.time
  err_le : ∀ b ∈ rs, b.ok = false → b.time ≤ c.lastErr
  err_mem : c.lastErr ≠ 0 → ∃ b ∈ rs, b.ok = false ∧ b.time = c.lastErr

theorem lastSuccess_concat (rs : List Beat) (b : Beat) :
    lastSuccess (rs ++ [b]) = if b.ok = true ∨ rs = [] then b.time else lastSuccess rs := by
  simp only [lastSuccess, List.filter_append, List.head?_append]
  cases hb : b.ok with
  | true => simp [hb]
  | false => rcases rs with _ | ⟨a, rs⟩ <;> simp [hb]

/-- A success more, by a clock that does not run backwards. -/
theorem Component.Dated.success {c : Component} {rs : List Beat} (h : c.Dated rs) {b : Beat}
    (hb : ∀ a ∈ rs, a.time ≤ b.time) (hok : b.ok = true) : (c.beat b).Dated (rs ++ [b]) := by
  have hc : c.beat b = { c with lastOk := b.time } := if_pos hok
  have hle : ∀ a ∈ rs ++ [b], a.time ≤ b.time :=
    List.forall_mem_append.mpr ⟨hb, List.forall_mem_singleton.mpr (Nat.le_refl _)⟩
  rw [hc]
  refine ⟨⟨b, by simp, rfl⟩, fun a ha _ => hle a ha, .inl ⟨?_, fun h0 a ha => ?_⟩, ?_, fun h0 => ?_⟩
  · rw [lastSuccess_concat, if_pos (.inl hok)]
  · have := hle a ha
    simp only at h0
    omega
  · exact List.forall_mem_append.mpr ⟨h.err_le, List.forall_mem_singleton.mpr fun hno => by simp_all⟩
  · obtain ⟨a, ha, hno, ht⟩ := h.err_mem h0
    exact ⟨a, List.mem_append_left _ ha, hno, ht⟩

/-- An error more: it dates again what was dated at zero. -/
theorem Component.Dated.failure {c : Component} {rs : List Beat} (h : c.Dated rs) {b : Beat}
    (hb : ∀ a ∈ rs, a.time ≤ b.time) (hno : b.ok = false) : (c.beat b).Dated (rs ++ [b]) := by
  obtain ⟨a₀, ha₀, ht₀⟩ := h.ok_mem
  have hc : c.beat b = { lastOk := if c.lastOk = 0 then b.time else c.lastOk, lastErr := b.time } :=
    if_neg (by simp [hno])
  have hlast : lastSuccess (rs ++ [b]) = lastSuccess rs := by
    rw [lastSuccess_concat, if_neg]
    simp [hno, List.ne_nil_of_mem ha₀]
  have herr : ∀ a ∈ rs ++ [b], a.ok = false → a.time ≤ b.time := List.forall_mem_append.mpr
    ⟨fun a ha _ => hb a ha, List.forall_mem_singleton.mpr fun _ => Nat.le_refl _⟩
  have hok : ∀ {P : Beat → Prop}, (∀ a ∈ rs, a.ok = true → P a) → ∀ a ∈ rs ++ [b], a.ok = true → P a :=
    fun hp => List.forall_mem_append.mpr ⟨hp, List.forall_mem_singleton.mpr fun h => by simp_all⟩
  rw [hc]
  by_cases h0 : c.lastOk = 0
  · rw [if_pos h0]
    refine ⟨⟨b, by simp, rfl⟩, hok fun a ha _ => hb a ha, ?_, herr, fun _ => ⟨b, by simp, hno, rfl⟩⟩
    obtain ⟨heq, hall⟩ | ⟨_, hpos, _⟩ := h.ok_eq
    · have hall' : ∀ a ∈ rs, a.time = 0 := hall h0
      rw [hlast, ← heq, h0]
      rcases Nat.eq_zero_or_pos b.time with hz | hz
      · exact .inl ⟨hz, fun _ =>
          List.forall_mem_append.mpr ⟨hall', List.forall_mem_singleton.mpr hz⟩⟩
      · refine .inr ⟨rfl, hz, List.forall_mem_append.mpr ⟨fun a ha hp => ?_, ?_⟩⟩
        · have := hall' a ha
          omega
        · exact List.forall_mem_singleton.mpr fun _ => ⟨hno, Nat.le_refl _⟩
    · omega
  · rw [if_neg h0]
    refine ⟨⟨a₀, List.mem_append_left _ ha₀, ht₀⟩, hok h.ok_le, ?_, herr,
      fun _ => ⟨b, by simp, hno, rfl⟩⟩
    have hle : c.lastOk ≤ b.time := ht₀ ▸ hb a₀ ha₀
    rw [hlast]
    refine h.ok_eq.imp (fun ⟨heq, _⟩ => ⟨heq, fun hz => absurd hz h0⟩)
      fun ⟨hz, hpos, hfirst⟩ => ⟨hz, hpos, List.forall_mem_append.mpr ⟨hfirst, ?_⟩⟩
    exact List.forall_mem_singleton.mpr fun _ => ⟨hno, hle⟩

theorem Component.dated_first (b : Beat) : (Component.zero.beat b).Dated [b] := by
  have hlast : lastSuccess [b] = b.time := by
    rw [show [b] = [] ++ [b] from rfl, lastSuccess_concat, if_pos (.inr rfl)]
  cases hb : b.ok with
  | true =>
    have hc : Component.zero.beat b = ⟨b.time, 0⟩ := if_pos hb
    rw [hc]
    refine ⟨⟨b, by simp, rfl⟩, ?_, .inl ⟨hlast.symm, ?_⟩, ?_, fun h => absurd rfl h⟩ <;> simp [hb]
  | false =>
    have hc : Component.zero.beat b = ⟨b.time, b.time⟩ := if_neg (by rw [hb]; exact Bool.false_ne_true)
    rw [hc]
    refine ⟨⟨b, by simp, rfl⟩, ?_, .inl ⟨hlast.symm, ?_⟩, ?_, fun _ => ⟨b, by simp, hb, rfl⟩⟩ <;>
      simp [hb]

theorem Component.dated {rs : List Beat} (hne : rs ≠ [])
    (hm : (rs.map (·.time)).Pairwise (· ≤ ·)) : (rs.foldl Component.beat .zero).Dated rs := by
  induction rs using List.reverseRecOn with
  | nil => exact absurd rfl hne
  | append_singleton rs b ih =>
    rw [List.foldl_append]
    rw [List.map_append, List.pairwise_append] at hm
    rcases List.eq_nil_or_concat rs with rfl | ⟨rs', a, rfl⟩
    · exact dated_first b
    · have hle : ∀ x ∈ rs'.concat a, x.time ≤ b.time := fun x hx =>
        hm.2.2 _ (List.mem_map_of_mem hx) _ (List.mem_singleton.mpr rfl)
      have hd := ih (by simp) hm.1
      cases hb : b.ok with
      | true => exact hd.success hle hb
      | false => exact hd.failure hle hb

/-! ## The verdict -/

/-- A report at `time` is no older than the deadline. -/
def Within (deadline : Duration) (now time : Nat) : Prop := (now - time) * 10 ^ 6 ≤ deadline

theorem within_iff {deadline : Duration} {now : Nat} (hn : now ≤ u64Max) (time : Nat) :
    Within deadline now time ↔ now - time ≤ min (deadline / 10 ^ 6) u64Max := by
  have hle : now - time ≤ u64Max := Nat.le_trans (Nat.sub_le _ _) hn
  rw [Within, Nat.le_min, and_iff_left hle, Nat.le_div_iff_mul_le (by decide)]

theorem Within.mono {deadline : Duration} {now t t' : Nat} (h : Within deadline now t) (ht : t ≤ t') :
    Within deadline now t' :=
  Nat.le_trans (Nat.mul_le_mul_right _ (Nat.sub_le_sub_left ht now)) h

/-- The verdict on a worker is what its reports say. -/
structure Judged (deadline : Duration) (rs : List Beat) (now : Nat) (stale degraded : Prop) :
    Prop where
  stale_iff : stale ↔ ∀ b ∈ rs, ¬Within deadline now b.time
  degraded_iff : degraded ↔ ¬Within deadline now (lastSuccess rs) ∧
    ∃ b ∈ rs, b.ok = false ∧ Within deadline now b.time
  not_both : ¬(stale ∧ degraded)
  /-- A worker that only fails is not stale while it reports, nor healthy past its deadline. -/
  failing : (∀ b ∈ rs, b.ok = false) →
    ((∃ b ∈ rs, Within deadline now b.time) → ¬stale) ∧
    (¬Within deadline now (lastSuccess rs) → stale ∨ degraded)

/-- The last success was reported at zero and is overdue, and errors were reported since, none of them
too long ago. -/
def Redated (deadline : Duration) (rs : List Beat) (now : Nat) : Prop :=
  lastSuccess rs = 0 ∧ ¬Within deadline now 0 ∧ (∃ b ∈ rs, 0 < b.time) ∧
    ∀ b ∈ rs, 0 < b.time → Within deadline now b.time

section
variable {deadline : Duration} {now : Nat} {c : Component} {rs : List Beat}

/-- Silence is told exactly. -/
theorem Component.Dated.silent (h : c.Dated rs) :
    (¬Within deadline now c.lastOk ∧ ¬(c.lastErr ≠ 0 ∧ Within deadline now c.lastErr)) ↔
      ∀ b ∈ rs, ¬Within deadline now b.time := by
  refine ⟨fun ⟨hok, herr⟩ b hb hw => ?_, fun hall => ⟨?_, ?_⟩⟩
  · cases hbo : b.ok with
    | true => exact hok (hw.mono (h.ok_le b hb hbo))
    | false =>
      have hw' : Within deadline now c.lastErr := hw.mono (h.err_le b hb hbo)
      refine herr ⟨fun hz => hok (hw'.mono ?_), hw'⟩
      rw [hz]
      exact Nat.zero_le _
  · obtain ⟨b, hb, ht⟩ := h.ok_mem
    exact ht ▸ hall b hb
  · rintro ⟨hz, hw⟩
    obtain ⟨b, hb, -, ht⟩ := h.err_mem hz
    exact hall b hb (ht ▸ hw)

/-- When the last success is overdue, a recent error is told exactly. -/
theorem Component.Dated.recent (h : c.Dated rs) (ho : ¬Within deadline now c.lastOk) :
    (c.lastErr ≠ 0 ∧ Within deadline now c.lastErr) ↔
      ∃ b ∈ rs, b.ok = false ∧ Within deadline now b.time := by
  refine ⟨fun ⟨hz, hw⟩ => ?_, fun ⟨b, hb, hno, hw⟩ => ?_⟩
  · obtain ⟨b, hb, hno, ht⟩ := h.err_mem hz
    exact ⟨b, hb, hno, ht ▸ hw⟩
  · have hw' : Within deadline now c.lastErr := hw.mono (h.err_le b hb hno)
    refine ⟨fun hz => ho (hw'.mono ?_), hw'⟩
    rw [hz]
    exact Nat.zero_le _

/-- The history and the reports agree on whether the last success is overdue, unless it was dated
again. -/
theorem Component.Dated.overdue (h : c.Dated rs) (hr : ¬Redated deadline rs now) :
    ¬Within deadline now c.lastOk ↔ ¬Within deadline now (lastSuccess rs) := by
  obtain ⟨heq, _⟩ | ⟨hz, hpos, hfirst⟩ := h.ok_eq
  · rw [heq]
  · rw [hz]
    refine ⟨fun ho hw => ho (hw.mono (Nat.zero_le _)), fun ho hw => hr ⟨hz, ho, ?_, fun b hb hp => ?_⟩⟩
    · obtain ⟨b, hb, ht⟩ := h.ok_mem
      exact ⟨b, hb, by omega⟩
    · exact hw.mono (hfirst b hb hp).2

/-- What was dated again is not overdue, although an error was reported since. -/
theorem Component.Dated.redated (h : c.Dated rs) (hr : Redated deadline rs now) :
    Within deadline now c.lastOk ∧ ∃ b ∈ rs, b.ok = false ∧ Within deadline now b.time := by
  obtain ⟨hz, -, ⟨a, ha, hp⟩, hall⟩ := hr
  obtain ⟨heq, hzero⟩ | ⟨-, hpos, hfirst⟩ := h.ok_eq
  · have := hzero (heq.trans hz) a ha
    omega
  · obtain ⟨b, hb, ht⟩ := h.ok_mem
    have hw : Within deadline now b.time := hall b hb (by omega)
    exact ⟨ht ▸ hw, b, hb, (hfirst b hb (by omega)).1, hw⟩

/-- The verdict on a history is what the reports say, unless it was dated again. -/
theorem Component.Dated.judged_iff (h : c.Dated rs) :
    Judged deadline rs now
      (¬Within deadline now c.lastOk ∧ ¬(c.lastErr ≠ 0 ∧ Within deadline now c.lastErr))
      (¬Within deadline now c.lastOk ∧ (c.lastErr ≠ 0 ∧ Within deadline now c.lastErr)) ↔
    ¬Redated deadline rs now := by
  refine ⟨fun hj hr => ?_, fun hr => ⟨h.silent, ?_, fun ⟨hs, hd⟩ => hs.2 hd.2, fun _ => ⟨?_, ?_⟩⟩⟩
  · obtain ⟨hw, hrecent⟩ := h.redated hr
    have hover : ¬Within deadline now (lastSuccess rs) := hr.1 ▸ hr.2.1
    exact (hj.degraded_iff.mpr ⟨hover, hrecent⟩).1 hw
  · rw [← h.overdue hr]
    exact and_congr_right fun ho => h.recent ho
  · rintro ⟨b, hb, hw⟩ hs
    exact h.silent.mp hs b hb hw
  · intro ho
    rw [← h.overdue hr] at ho
    by_cases he : c.lastErr ≠ 0 ∧ Within deadline now c.lastErr
    · exact .inr ⟨ho, he⟩
    · exact .inl ⟨ho, he⟩

end

/-- A worker's history after the calls, by a clock that does not run backwards. -/
theorem Health.after_dated (deadline : Duration) {l : List (SystemTime × HealthCall)}
    (hm : (l.map (·.1)).Pairwise (· ≤ ·)) {name : String} (hr : beats name l ≠ []) :
    ∃ c, (after deadline l).components[name]? = some c ∧ c.Dated (beats name l) := by
  refine ⟨_, by rw [after_components, if_neg hr], Component.dated hr ?_⟩
  rw [beats, List.pairwise_map, List.pairwise_filterMap]
  refine (List.pairwise_map.mp hm).imp fun hle b hb b' hb' => ?_
  rw [HealthCall.beat_time hb, HealthCall.beat_time hb']
  exact nowUnixMs_mono hle

/-- The verdict on a registered worker is what its reports say, if and only if it is not the case that
its last success, or its first report, was made while the clock read zero and is overdue, and it has
reported errors since, none of them too long ago. -/
theorem health_verdict (deadline : Duration) (l : List (SystemTime × HealthCall)) (now : SystemTime)
    (order : Map.Iteration (Health.after deadline l).components) (name : String)
    (hm : (l.map (·.1)).Pairwise (· ≤ ·)) (hr : beats name l ≠ []) :
    Judged deadline (beats name l) (nowUnixMs now)
      (name ∈ ((Health.after deadline l).status now order).stale)
      (name ∈ ((Health.after deadline l).status now order).degraded) ↔
    ¬Redated deadline (beats name l) (nowUnixMs now) := by
  obtain ⟨c, hc, hd⟩ := Health.after_dated deadline hm hr
  have hn : nowUnixMs now ≤ u64Max := Nat.min_le_right _ _
  have hover : Health.okOverdue (Health.after deadline l).deadlineMs (nowUnixMs now) c = true ↔
      ¬Within deadline (nowUnixMs now) c.lastOk := by
    rw [within_iff hn, Health.okOverdue, Health.after_deadline, decide_eq_true_iff, Nat.not_le]
  have hrec : Health.errRecent (Health.after deadline l).deadlineMs (nowUnixMs now) c = true ↔
      c.lastErr ≠ 0 ∧ Within deadline (nowUnixMs now) c.lastErr := by
    rw [within_iff hn, Health.errRecent, Health.after_deadline, Bool.and_eq_true, decide_eq_true_iff,
      decide_eq_true_iff]
  have hs : name ∈ ((Health.after deadline l).status now order).stale ↔
      ¬Within deadline (nowUnixMs now) c.lastOk ∧
        ¬(c.lastErr ≠ 0 ∧ Within deadline (nowUnixMs now) c.lastErr) := by
    rw [Health.mem_stale, hc, ← hrec, ← hover, Bool.not_eq_true]
    simp
  have hdeg : name ∈ ((Health.after deadline l).status now order).degraded ↔
      ¬Within deadline (nowUnixMs now) c.lastOk ∧
        (c.lastErr ≠ 0 ∧ Within deadline (nowUnixMs now) c.lastErr) := by
    rw [Health.mem_degraded, hc, ← hrec, ← hover]
    simp
  rw [hs, hdeg]
  exact hd.judged_iff

/-- Six minutes. -/
def progressDeadline : Duration := fromSecs (6 * 60)

/-- A worker that failed five minutes ago, and succeeded a minute before, is healthy. -/
theorem health_verdict_healthy :
    let l : List (SystemTime × HealthCall) :=
      [(60 * 10 ^ 9, .heartbeat "pool"), (120 * 10 ^ 9, .error "pool")]
    let h := Health.after progressDeadline l
    Judged progressDeadline (beats "pool" l) (nowUnixMs (420 * 10 ^ 9))
      ("pool" ∈ (h.status (420 * 10 ^ 9) ⟨h.components.toList, .refl _⟩).stale)
      ("pool" ∈ (h.status (420 * 10 ^ 9) ⟨h.components.toList, .refl _⟩).degraded) := by
  intro l h
  refine (health_verdict _ _ _ _ _ (by decide) (by decide)).mpr fun hr => ?_
  have hlast : lastSuccess (beats "pool" l) = 60000 := by decide
  rw [hr.1] at hlast
  cases hlast

/-- A worker succeeds at the epoch, and fails six minutes later: a millisecond after that it is judged
healthy. -/
theorem health_redated : ¬ ∀ (deadline : Duration) (l : List (SystemTime × HealthCall))
    (now : SystemTime) (order : Map.Iteration (Health.after deadline l).components) (name : String),
    (l.map (·.1) ++ [now]).Pairwise (· ≤ ·) → beats name l ≠ [] →
    Judged deadline (beats name l) (nowUnixMs now)
      (name ∈ ((Health.after deadline l).status now order).stale)
      (name ∈ ((Health.after deadline l).status now order).degraded) := by
  intro h
  let l : List (SystemTime × HealthCall) := [(0, .heartbeat "pool"), (360 * 10 ^ 9, .error "pool")]
  have hj := h progressDeadline l (360001 * 10 ^ 6) ⟨_, .refl _⟩ "pool" (by decide) (by decide)
  have hover : ¬Within progressDeadline (nowUnixMs (360001 * 10 ^ 6)) (lastSuccess (beats "pool" l)) := by
    simp only [Within]
    decide
  have herr : ∃ b ∈ beats "pool" l, b.ok = false ∧
      Within progressDeadline (nowUnixMs (360001 * 10 ^ 6)) b.time := by
    refine ⟨⟨360000, false⟩, by decide, rfl, ?_⟩
    simp only [Within]
    decide
  have hd := hj.degraded_iff.mpr ⟨hover, herr⟩
  revert hd
  decide +kernel

end MessageRelayer

import MessageRelayer.Liveness
import MessageRelayer.Pool.State

/-!
# The heartbeat of a delivery worker

A delivery worker reports each job that it ran, and beats on a ticker while it
is idle; the ticker stands down after a failed job for as long as its retry may
take (`idleTickerShouldHeartbeat`). So the worker is never silent for longer
than that grace and one wait of its loop, and the probe does not find it stale
(`delivery_not_stale`).

A turn of the loop has one reading of the clock, at its end. A job fails here
where `handle_job` returns an error. The loop provides for it, but `handle_job`
has no such return: a delivery that does not succeed is one of its outcomes, and
the worker reports it as progress.
-/

namespace MessageRelayer

/-! ## The loop of the worker -/

/-- `HEALTH_TICK`. -/
def healthTick : Duration := fromSecs 15

/-- `PRUNE_TICK_INTERVAL` of the pool. -/
def pruneTickInterval : Duration := fromSecs 30

/-- How long the retry of a failed job may take. -/
def errorGracePeriod : Duration := fromSecs deliveryRetryMax + pruneTickInterval

/-- Whether the ticker beats, by the times since the last job and since the last failure. -/
def idleTickerShouldHeartbeat (elapsedSinceLastJob elapsedSinceLastError : Option Duration)
    (tickInterval errorGracePeriod : Duration) : Bool :=
  let pastErrorGrace := elapsedSinceLastError.all fun elapsed => decide (errorGracePeriod ≤ elapsed)
  match elapsedSinceLastJob with
  | none => true
  | some elapsed => pastErrorGrace && decide (tickInterval ≤ elapsed)

/-- What the loop keeps. -/
structure DeliveryPulse where
  lastJobAt : Option Instant
  lastErrorAt : Option Instant
  deriving DecidableEq

/-- A turn: the ticker, or a job that ended, in an outcome or in an error. -/
inductive DeliveryTurn where
  | tick
  | job (ok : Bool)
  deriving DecidableEq

/-- The loop of a delivery worker, as its health sees it. -/
def deliveryLoop : Loop DeliveryPulse DeliveryTurn where
  turn
    | s, now, .tick =>
      (s, if idleTickerShouldHeartbeat (s.lastJobAt.map (now - ·)) (s.lastErrorAt.map (now - ·))
          healthTick errorGracePeriod then some true else none)
    | _, now, .job ok => (⟨some now, if ok then none else some now⟩, some ok)

def DeliveryPulse.new : DeliveryPulse := ⟨none, none⟩

/-- What the loop reports: that it starts, and then turn by turn. -/
def deliveryReports (start : Instant) (turns : List (Instant × DeliveryTurn)) :
    List (Instant × Bool) :=
  (start, true) :: deliveryLoop.reports .new turns

/-! ## It is never silent for long -/

/-- The last turn was at `last` and the last report at `r`: without a job the last turn has reported;
else the report is no older than the last job, and the turns since are within the grace after it. -/
def DeliveryPulse.Beats (s : DeliveryPulse) (last r : Instant) : Prop :=
  match s.lastJobAt with
  | none => r = last
  | some j => j ≤ r ∧ r ≤ last ∧ (s.lastErrorAt = none ∨ s.lastErrorAt = some j) ∧
      (r = last ∨ last < j + errorGracePeriod)

/-- The ticker is silent within the grace after the last job alone. -/
theorem idleTicker_silent {s : DeliveryPulse} {j now : Instant} (hj : s.lastJobAt = some j)
    (he : s.lastErrorAt = none ∨ s.lastErrorAt = some j)
    (ho : idleTickerShouldHeartbeat (s.lastJobAt.map (now - ·)) (s.lastErrorAt.map (now - ·))
      healthTick errorGracePeriod = false) : now < j + errorGracePeriod := by
  have hgrace : healthTick ≤ errorGracePeriod := by decide
  by_contra hlt
  have hpast : errorGracePeriod ≤ now - j := by
    simp only [Instant, Duration] at *
    omega
  have htick : healthTick ≤ now - j := Nat.le_trans hgrace hpast
  rcases he with he | he <;> simp [idleTickerShouldHeartbeat, hj, he, hpast, htick] at ho

theorem DeliveryPulse.Beats.tick {s : DeliveryPulse} {last r now : Instant} (h : s.Beats last r)
    (hl : last ≤ now) :
    s.Beats now (if (deliveryLoop.turn s now .tick).2.isSome then now else r) := by
  have hsome : (deliveryLoop.turn s now .tick).2.isSome =
      idleTickerShouldHeartbeat (s.lastJobAt.map (now - ·)) (s.lastErrorAt.map (now - ·))
        healthTick errorGracePeriod := by
    simp only [deliveryLoop]
    split <;> simp_all
  obtain ⟨job, err⟩ := s
  rw [hsome]
  match job with
  | none => exact if_pos rfl
  | some j =>
    obtain ⟨hr, hrl, he, -⟩ : j ≤ r ∧ r ≤ last ∧ (err = none ∨ err = some j) ∧ _ := h
    cases ho : idleTickerShouldHeartbeat _ _ healthTick errorGracePeriod with
    | false => exact ⟨hr, Nat.le_trans hrl hl, he, .inr (idleTicker_silent rfl he ho)⟩
    | true => exact ⟨Nat.le_trans (Nat.le_trans hr hrl) hl, Nat.le_refl _, he, .inl rfl⟩

theorem DeliveryPulse.Beats.job {s : DeliveryPulse} (now : Instant) (ok : Bool) :
    (deliveryLoop.turn s now (.job ok)).1.Beats now now := by
  cases ok with
  | true => exact ⟨Nat.le_refl _, Nat.le_refl _, .inl rfl, .inl rfl⟩
  | false => exact ⟨Nat.le_refl _, Nat.le_refl _, .inr rfl, .inl rfl⟩

theorem DeliveryPulse.Beats.last_le {s : DeliveryPulse} {last r : Instant} (h : s.Beats last r) :
    last ≤ r + errorGracePeriod := by
  obtain ⟨job, err⟩ := s
  match job with
  | none =>
    have hr : r = last := h
    simp only [Instant, Duration] at *
    omega
  | some j =>
    obtain ⟨hr, -, -, hlast⟩ : j ≤ r ∧ _ ∧ _ ∧ (r = last ∨ last < j + errorGracePeriod) := h
    simp only [Instant, Duration] at *
    omega

section
variable {wait start last t : Nat} {turns : List (Instant × DeliveryTurn)} {epoch : SystemTime}
  {calls : List (SystemTime × HealthCall)} {name : String}

/-- The last report of a worker is no older than the grace, at its last turn. -/
theorem delivery_silence (hp : deliveryLoop.Paced (fun _ => wait) .new start turns last) :
    ∃ r ok, (r, ok) ∈ deliveryReports start turns ∧ last ≤ r + errorGracePeriod := by
  have hs : DeliveryPulse.new.Beats start start := rfl
  obtain ⟨r, -, hmem, hinv⟩ := deliveryLoop.silence (I := DeliveryPulse.Beats) hs
    (fun s last r now e h hl _ => by
      match e with
      | .tick => exact h.tick hl
      | .job ok => exact .job now ok) hp
  rcases hmem with rfl | ⟨ok, hmem⟩
  · exact ⟨r, true, by simp [deliveryReports], hinv.last_le⟩
  · exact ⟨r, ok, List.mem_cons_of_mem _ hmem, hinv.last_le⟩

/-- Whatever the jobs of a delivery worker come to, and when they come, the probe never finds the
worker stale, if no wait of its loop is longer than what the deadline leaves over the grace. -/
theorem delivery_not_stale (hw : errorGracePeriod + wait ≤ progressDeadline)
    (hp : deliveryLoop.Paced (fun _ => wait) .new start turns last) (ht : t ≤ last + wait)
    (hm : (calls.map (·.1)).Pairwise (· ≤ ·))
    (hb : beats name calls = beatsOf epoch (deliveryReports start turns))
    (order : Map.Iteration (Health.after progressDeadline calls).components) :
    name ∉ ((Health.after progressDeadline calls).status (epoch + t) order).stale := by
  obtain ⟨r, ok, hmem, hlast⟩ := delivery_silence hp
  have hbeat : ⟨nowUnixMs (epoch + r), ok⟩ ∈ beats name calls := by
    rw [hb]
    exact mem_beatsOf epoch hmem
  have hle : t ≤ r + progressDeadline := by
    simp only [Instant, Duration] at *
    omega
  exact Health.not_stale hm order hbeat (within_of_le (by decide) hle)

end

/-- A worker whose job failed, and whose ticker is silent since. -/
theorem delivery_not_stale_failed :
    let calls : List (SystemTime × HealthCall) :=
      [(fromSecs 1, .heartbeat "delivery:7"), (fromSecs 21, .error "delivery:7")]
    let h := Health.after progressDeadline calls
    "delivery:7" ∉ (h.status (fromSecs 76) ⟨h.components.toList, .refl _⟩).stale := by
  intro calls h
  have hp : deliveryLoop.Paced (fun _ => fromSecs 30) .new 0
      [(fromSecs 20, .job false), (fromSecs 45, .tick)] (fromSecs 45) :=
    .snoc (.snoc .nil (by decide) (by decide)) (by decide) (by decide)
  have ht : fromSecs 75 ≤ fromSecs 45 + fromSecs 30 := by decide
  have hb : beats "delivery:7" calls = beatsOf (fromSecs 1)
      (deliveryReports 0 [(fromSecs 20, .job false), (fromSecs 45, .tick)]) := by decide
  exact delivery_not_stale (by decide) hp ht (by decide) hb _

end MessageRelayer

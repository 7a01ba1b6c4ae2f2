import MessageRelayer.Polling

/-!
# The loops that read attestor sets

Two loops read the attestor sets of validators: the watcher of a route (every
30 seconds), and the aggregator of set updates, which reads the sets of its
routes in turn (every 60 seconds). Both dial anew for each read, report each
under the name of its route, and skip a tick after a sweep that the provider
limited; the watcher sweeps over one route.

A route without a readable set is dead: the pool rejects its votes. So the
probe has to name it, and must not find it stale, which would restart the
process: a route is degraded if and only if the last of its successful reads
is overdue (`sweep_verdict`).
-/

namespace MessageRelayer

/-- `ATTESTOR_SET_POLL_SECS`. -/
def attestorSetPoll : Duration := fromSecs 30

/-- `REFRESH_SECS`. -/
def setUpdateRefresh : Duration := fromSecs 60

/-! ## The loop -/

/-- A loop waits for a tick, or it is in a sweep, with the routes to read and whether a read was limited. -/
inductive SweepPhase where
  | waiting
  | reading (todo : List ChainKey) (rateLimited : Bool)
  deriving DecidableEq

structure SweepState where
  pacer : RateLimitPacer
  phase : SweepPhase
  deriving DecidableEq

def SweepState.new : SweepState := ⟨.zero, .waiting⟩

/-- The loop over the routes, as the health of `chainKey` sees it: a turn is a tick, a read with its
result, or the end of a sweep, whichever the phase has next. -/
def sweepLoop (toLowercase : String → String) (routes : List ChainKey) (chainKey : ChainKey) :
    Loop SweepState (Except Error Unit) where
  turn s now result :=
    match s.phase with
    | .waiting =>
      if (s.pacer.deferring now).isSome then (s, none)
      else ({ s with phase := .reading routes false }, none)
    | .reading [] rateLimited => (⟨s.pacer.after rateLimited now, .waiting⟩, none)
    | .reading (route :: todo) rateLimited =>
      let (ok, limited) := match result with
        | .ok () => (true, false)
        | .error err => (false, looksRateLimited toLowercase err)
      ({ s with phase := .reading todo (rateLimited || limited) },
        if route = chainKey then some ok else none)

/-- What the loop reports of the route: that it starts, and then turn by turn. -/
def sweepReports (toLowercase : String → String) (routes : List ChainKey) (chainKey : ChainKey)
    (start : Instant) (turns : List (Instant × Except Error Unit)) : List (Instant × Bool) :=
  (start, true) :: (sweepLoop toLowercase routes chainKey).reports .new turns

/-- How long a turn of each phase may be awaited: a tick, with what is done between two sweeps, for
`interval`, and a read for `read`. -/
def SweepPhase.wait (interval read : Duration) : SweepPhase → Duration
  | .waiting => interval
  | .reading [] _ => 0
  | .reading (_ :: _) _ => read

/-- The loop from its start, in time. -/
abbrev SweepPaced (toLowercase : String → String) (routes : List ChainKey) (chainKey : ChainKey)
    (interval read : Duration) (start : Instant) (turns : List (Instant × Except Error Unit))
    (last : Instant) : Prop :=
  (sweepLoop toLowercase routes chainKey).Paced (fun s => s.phase.wait interval read) .new start turns
    last

/-! ## It is never silent for long -/

section
variable {toLowercase : String → String} {before after : List ChainKey} {chainKey : ChainKey}
  {interval read : Duration} {s : SweepState} {now : Instant} {result : Except Error Unit}

/-- How long after the last report of the route a turn of each phase may have been: `after` are read
after the route, `count` are read in all. -/
def SweepPhase.lag (interval read : Duration) (after count : Nat) : SweepPhase → Duration
  | .waiting => after * read + maxDeferral
  | .reading todo _ =>
    if after < todo.length then after * read + maxDeferral + interval + (count - todo.length) * read
    else (after - todo.length) * read

/-- The last turn was at `last` and the last report of the route at `r`, and no deferral is left that
is not from the sweep since. -/
structure SweepState.Beats (before after : List ChainKey) (chainKey : ChainKey)
    (interval read : Duration) (s : SweepState) (last r : Instant) : Prop where
  report_le : r ≤ last
  defer_le : ∀ limit, s.pacer.deferUntil = some limit →
    limit ≤ r + (after.length * read + maxDeferral)
  todo : ∀ todo limited, s.phase = .reading todo limited → todo <:+ before ++ chainKey :: after
  last_le : last ≤ r + s.phase.lag interval read after.length (before ++ chainKey :: after).length

/-- What is left of a sweep when there is one route more to read than after this one. -/
theorem head_of_suffix {route : ChainKey} {todo : List ChainKey}
    (h : route :: todo <:+ before ++ chainKey :: after) (hl : todo.length = after.length) :
    route = chainKey := by
  obtain ⟨l, hl'⟩ := h
  have hparts := List.append_inj' hl' (by simp [hl])
  exact (List.cons.inj hparts.2).1

theorem sweepLoop_deferred {routes : List ChainKey} (hp : s.phase = .waiting)
    (hd : (s.pacer.deferring now).isSome = true) :
    (sweepLoop toLowercase routes chainKey).turn s now result = (s, none) := by
  simp [sweepLoop, hp, hd]

theorem sweepLoop_tick {routes : List ChainKey} (hp : s.phase = .waiting)
    (hd : (s.pacer.deferring now).isSome = false) :
    (sweepLoop toLowercase routes chainKey).turn s now result =
      ({ s with phase := .reading routes false }, none) := by
  simp [sweepLoop, hp, hd]

theorem sweepLoop_swept {routes : List ChainKey} {limited : Bool}
    (hp : s.phase = .reading [] limited) :
    (sweepLoop toLowercase routes chainKey).turn s now result =
      (⟨s.pacer.after limited now, .waiting⟩, none) := by
  simp [sweepLoop, hp]

/-- A read is reported if it is of the route. -/
theorem sweepLoop_read (toLowercase : String → String) (routes : List ChainKey)
    (chainKey : ChainKey) (now : Instant) (result : Except Error Unit) {route : ChainKey}
    {todo : List ChainKey} {limited : Bool} (hp : s.phase = .reading (route :: todo) limited) :
    ∃ limited' ok, (sweepLoop toLowercase routes chainKey).turn s now result =
      ({ s with phase := .reading todo limited' }, if route = chainKey then some ok else none) := by
  cases result with
  | ok u => exact ⟨limited, true, by simp [sweepLoop, hp]⟩
  | error err => exact ⟨limited || looksRateLimited toLowercase err, false, by simp [sweepLoop, hp]⟩

/-- One read less is left of a sweep of `n`. -/
theorem reads_succ {n k : Nat} (h : k + 1 ≤ n) (read : Nat) :
    (n - (k + 1)) * read + read = (n - k) * read := by
  have hsucc : n - k = n - (k + 1) + 1 := by omega
  rw [hsucc, Nat.succ_mul]

/-- One turn, within the wait of its phase. -/
theorem SweepState.Beats.turn {last r : Instant}
    (h : s.Beats before after chainKey interval read last r) (hl : last ≤ now)
    (hw : now ≤ last + s.phase.wait interval read) :
    let next := (sweepLoop toLowercase (before ++ chainKey :: after) chainKey).turn s now result
    next.1.Beats before after chainKey interval read now (if next.2.isSome then now else r) := by
  obtain ⟨hr, hd, hs, hlast⟩ := h
  have hrn : r ≤ now := Nat.le_trans hr hl
  cases hp : s.phase with
  | waiting =>
    have hlag : last ≤ r + (after.length * read + maxDeferral) := by rwa [hp] at hlast
    have hwait : now ≤ last + interval := by rwa [hp] at hw
    cases hdef : (s.pacer.deferring now).isSome with
    | true =>
      obtain ⟨limit, hlimit, hlt⟩ := RateLimitPacer.deferring_isSome hdef
      have hnow : now ≤ r + (after.length * read + maxDeferral) :=
        Nat.le_trans (Nat.le_of_lt hlt) (hd limit hlimit)
      rw [sweepLoop_deferred hp hdef]
      exact ⟨hrn, hd, hs, by rwa [hp]⟩
    | false =>
      rw [sweepLoop_tick hp hdef]
      refine ⟨hrn, hd, fun todo limited e => ?_, ?_⟩
      · cases e
        exact List.suffix_refl _
      · have hlt : after.length < (before ++ chainKey :: after).length := by
          simp
          omega
        simp only [SweepPhase.lag, if_pos hlt, Option.isSome_none, Bool.false_eq_true, if_false,
          Nat.sub_self, Nat.zero_mul]
        simp only [Instant, Duration] at *
        omega
  | reading todo limited =>
    cases todo with
    | nil =>
      have hlag : last ≤ r + after.length * read := by simpa [hp, SweepPhase.lag] using hlast
      have hwait : now ≤ last := by simpa [hp, SweepPhase.wait] using hw
      rw [sweepLoop_swept hp]
      refine ⟨hrn, fun limit hlimit => ?_, fun todo limited e => (by cases e), ?_⟩
      · rcases RateLimitPacer.after_limit hlimit with hlimit | hle
        · exact hd limit hlimit
        · simp only [Option.isSome_none, Bool.false_eq_true, if_false]
          simp only [Instant, Duration] at *
          omega
      · simp only [SweepPhase.lag, Option.isSome_none, Bool.false_eq_true, if_false]
        simp only [Instant, Duration] at *
        omega
    | cons route todo =>
      have hsuffix := hs _ _ hp
      have hwait : now ≤ last + read := by rwa [hp] at hw
      obtain ⟨limited', ok, ht⟩ := sweepLoop_read toLowercase (before ++ chainKey :: after) chainKey
        now result hp
      have htodo : ∀ todo' limited'', SweepPhase.reading todo limited' = .reading todo' limited'' →
          todo' <:+ before ++ chainKey :: after := by
        intro todo' limited'' e
        cases e
        exact (List.suffix_cons route todo).trans hsuffix
      rw [ht]
      by_cases hroute : route = chainKey
      · -- the report is now, and what is left of deferrals is older
        rw [if_pos hroute]
        have hmono : r + (after.length * read + maxDeferral) ≤
            now + (after.length * read + maxDeferral) := Nat.add_le_add_right hrn _
        exact ⟨Nat.le_refl _, fun limit hlimit => Nat.le_trans (hd limit hlimit) hmono, htodo,
          Nat.le_add_right _ _⟩
      · rw [if_neg hroute]
        refine ⟨hrn, hd, htodo, ?_⟩
        have hne : todo.length ≠ after.length := fun e => hroute (head_of_suffix hsuffix e)
        have hcount : todo.length + 1 ≤ (before ++ chainKey :: after).length := by
          simpa using hsuffix.length_le
        have hlag : last ≤ r + SweepPhase.lag interval read after.length
            (before ++ chainKey :: after).length (.reading (route :: todo) limited) := by
          rwa [hp] at hlast
        show now ≤ r + SweepPhase.lag interval read after.length
          (before ++ chainKey :: after).length (.reading todo limited')
        by_cases hlt : after.length < todo.length
        · have hone := reads_succ hcount read
          rw [SweepPhase.lag, List.length_cons, if_pos (by omega)] at hlag
          rw [SweepPhase.lag, if_pos hlt]
          simp only [Instant, Duration] at *
          omega
        · have hone := reads_succ (show todo.length + 1 ≤ after.length by omega) read
          rw [SweepPhase.lag, List.length_cons, if_neg (by omega)] at hlag
          rw [SweepPhase.lag, if_neg hlt]
          simp only [Instant, Duration] at *
          omega

end

/-! ## What the probe finds -/

section
variable {toLowercase : String → String} {routes before after : List ChainKey} {chainKey : ChainKey}
  {interval read : Duration} {start last t : Nat} {turns : List (Instant × Except Error Unit)}
  {epoch : SystemTime} {calls : List (SystemTime × HealthCall)} {name : String}

/-- The last report of the route is within the bound of its phase, at the last turn of the loop. -/
theorem sweep_silence (hp : SweepPaced toLowercase (before ++ chainKey :: after) chainKey interval
      read start turns last) :
    ∃ r ok, (r, ok) ∈ sweepReports toLowercase (before ++ chainKey :: after) chainKey start turns ∧
      ((sweepLoop toLowercase (before ++ chainKey :: after) chainKey).state .new turns).Beats before
        after chainKey interval read last r := by
  have hs : SweepState.new.Beats before after chainKey interval read start start :=
    ⟨Nat.le_refl _, fun limit h => (by cases h), fun todo limited h => (by cases h),
      Nat.le_add_right _ _⟩
  obtain ⟨r, -, hmem, hinv⟩ := Loop.silence
    (I := SweepState.Beats before after chainKey interval read) hs
    (fun s last r now e h hl hw => h.turn hl hw) hp
  rcases hmem with rfl | ⟨ok, hmem⟩
  · exact ⟨r, true, List.mem_cons_self, hinv⟩
  · exact ⟨r, ok, List.mem_cons_of_mem _ hmem, hinv⟩

/-- A report of the route is never older than the longest deferral, an interval and a sweep. -/
theorem sweep_recent (hc : chainKey ∈ routes)
    (hp : SweepPaced toLowercase routes chainKey interval read start turns last)
    (ht : t ≤ last +
      ((sweepLoop toLowercase routes chainKey).state .new turns).phase.wait interval read) :
    ∃ r ok, (r, ok) ∈ sweepReports toLowercase routes chainKey start turns ∧
      t ≤ r + (maxDeferral + interval + routes.length * read) := by
  obtain ⟨before, after, rfl⟩ := List.append_of_mem hc
  obtain ⟨r, ok, hmem, hinv⟩ := sweep_silence hp
  have hlast := hinv.last_le
  have hsuffix := hinv.todo
  have hsweep : ∀ {k : Nat}, k + 1 ≤ (before ++ chainKey :: after).length →
      k * read + read ≤ (before ++ chainKey :: after).length * read := by
    intro k hk
    rw [← Nat.succ_mul]
    exact Nat.mul_le_mul_right _ hk
  have hafter : after.length + 1 ≤ (before ++ chainKey :: after).length := by
    simp
  refine ⟨r, ok, hmem, ?_⟩
  cases hph : ((sweepLoop toLowercase (before ++ chainKey :: after) chainKey).state .new turns).phase with
  | waiting =>
    have hone := hsweep hafter
    rw [hph] at hlast ht
    simp only [SweepPhase.lag, SweepPhase.wait, Instant, Duration] at *
    omega
  | reading todo limited =>
    cases todo with
    | nil =>
      have hone := hsweep hafter
      rw [hph] at hlast ht
      simp only [SweepPhase.lag, SweepPhase.wait, List.length_nil, Nat.not_lt_zero, if_false,
        Nat.sub_zero, Instant, Duration] at *
      omega
    | cons route todo =>
      have hle : (route :: todo).length ≤ (before ++ chainKey :: after).length :=
        (hsuffix _ _ hph).length_le
      rw [hph] at hlast ht
      have hwait : t ≤ last + read := ht
      simp only [SweepPhase.lag, List.length_cons] at hlast hle
      generalize (before ++ chainKey :: after).length = n at *
      by_cases hlt : after.length < todo.length + 1
      · have hmul : (after.length + (n - (todo.length + 1))) * read + read ≤ n * read :=
          hsweep (by omega)
        rw [Nat.add_mul] at hmul
        rw [if_pos hlt] at hlast
        simp only [Instant, Duration] at *
        omega
      · have hmul : (after.length - (todo.length + 1)) * read + read ≤ n * read := hsweep (by omega)
        rw [if_neg hlt] at hlast
        simp only [Instant, Duration] at *
        omega

/-- Whatever the reads come to, and however often the provider limits them, the probe never finds the
route stale, and finds it degraded if and only if no success is within the deadline, if a sweep takes no
longer than the deadline leaves over the longest deferral and the interval. -/
theorem sweep_verdict (hc : chainKey ∈ routes)
    (hw : maxDeferral + interval + routes.length * read ≤ progressDeadline)
    (hp : SweepPaced toLowercase routes chainKey interval read start turns last)
    (ht : t ≤ last +
      ((sweepLoop toLowercase routes chainKey).state .new turns).phase.wait interval read)
    (hz : nowUnixMs (epoch + start) ≠ 0) (hm : (calls.map (·.1)).Pairwise (· ≤ ·))
    (hb : beats name calls = beatsOf epoch (sweepReports toLowercase routes chainKey start turns))
    (order : Map.Iteration (Health.after progressDeadline calls).components) :
    let status := (Health.after progressDeadline calls).status (epoch + t) order
    name ∉ status.stale ∧ (name ∈ status.degraded ↔
      ∀ r, (r, true) ∈ sweepReports toLowercase routes chainKey start turns →
        ¬Within progressDeadline (nowUnixMs (epoch + t)) (nowUnixMs (epoch + r))) := by
  intro status
  obtain ⟨r, ok, hr, hle⟩ := sweep_recent hc hp ht
  have hwithin : Within progressDeadline (nowUnixMs (epoch + t)) (nowUnixMs (epoch + r)) :=
    within_of_le (by decide) (Nat.le_trans hle (Nat.add_le_add_left hw r))
  have hbeat : ⟨nowUnixMs (epoch + r), ok⟩ ∈ beats name calls := by
    rw [hb]
    exact mem_beatsOf epoch hr
  exact ⟨Health.not_stale hm order hbeat hwithin, Health.degraded_iff hm order hz hb hr hwithin⟩

end

/-- Reads of a watcher that fail. -/
def unreadPolls : List (Instant × Except Error Unit) :=
  [(fromSecs 30, .ok ()), (fromSecs 230, .error ["timeout"]), (fromSecs 230, .ok ()),
    (fromSecs 260, .ok ()), (fromSecs 421, .error ["timeout"]), (fromSecs 421, .ok ())]

/-- Sweeps of the aggregator over two routes, of which the second cannot be read. -/
def unreadSweeps : List (Instant × Except Error Unit) :=
  [(fromSecs 60, .ok ()), (fromSecs 160, .ok ()), (fromSecs 260, .error ["timeout"]),
    (fromSecs 260, .ok ()), (fromSecs 320, .ok ()), (fromSecs 330, .ok ()),
    (fromSecs 420, .error ["timeout"]), (fromSecs 420, .ok ())]

/-- The two loops, with ticks every 30 seconds and every 60. -/
theorem sweep_verdict_dead :
    let calls : List (SystemTime × HealthCall) :=
      [(fromSecs 1, .heartbeat "attestor-set:7"), (fromSecs 1, .heartbeat "attestor-set-update:7"),
        (fromSecs 231, .error "attestor-set:7"), (fromSecs 261, .error "attestor-set-update:7"),
        (fromSecs 421, .error "attestor-set-update:7"), (fromSecs 422, .error "attestor-set:7")]
    let h := Health.after progressDeadline calls
    let status := h.status (fromSecs 423) ⟨h.components.toList, .refl _⟩
    "attestor-set:7" ∈ status.degraded ∧ "attestor-set-update:7" ∈ status.degraded := by
  intro calls h status
  have hreads : SweepPaced id [7] 7 attestorSetPoll (fromSecs 200) 0 unreadPolls (fromSecs 421) := by
    refine .snoc (.snoc (.snoc (.snoc (.snoc (.snoc .nil ?_ ?_) ?_ ?_) ?_ ?_) ?_ ?_) ?_ ?_) ?_ ?_ <;>
      decide +kernel
  have hsweeps : SweepPaced id [3, 7] 7 setUpdateRefresh (fromSecs 100) 0 unreadSweeps
      (fromSecs 420) := by
    refine .snoc (.snoc (.snoc (.snoc (.snoc (.snoc (.snoc (.snoc .nil ?_ ?_) ?_ ?_) ?_ ?_) ?_ ?_)
      ?_ ?_) ?_ ?_) ?_ ?_) ?_ ?_ <;> decide +kernel
  have hbreads : beats "attestor-set:7" calls =
      beatsOf (fromSecs 1) (sweepReports id [7] 7 0 unreadPolls) := by decide +kernel
  have hbsweeps : beats "attestor-set-update:7" calls =
      beatsOf (fromSecs 1) (sweepReports id [3, 7] 7 0 unreadSweeps) := by decide +kernel
  have htreads : fromSecs 422 ≤ fromSecs 421 +
      ((sweepLoop id [7] 7).state .new unreadPolls).phase.wait attestorSetPoll (fromSecs 200) := by
    decide +kernel
  have htsweeps : fromSecs 422 ≤ fromSecs 420 +
      ((sweepLoop id [3, 7] 7).state .new unreadSweeps).phase.wait setUpdateRefresh (fromSecs 100) := by
    decide +kernel
  have hover : ¬Within progressDeadline (nowUnixMs (fromSecs 1 + fromSecs 422))
      (nowUnixMs (fromSecs 1 + 0)) := by
    simp only [Within]
    decide +kernel
  have honly : ∀ rs : List (Instant × Bool), (rs.filter (·.2)).map (·.1) = [0] →
      ∀ r, (r, true) ∈ rs → ¬Within progressDeadline (nowUnixMs (fromSecs 1 + fromSecs 422))
        (nowUnixMs (fromSecs 1 + r)) := by
    intro rs hrs r hr
    have hmem : r ∈ (rs.filter (·.2)).map (·.1) :=
      List.mem_map.mpr ⟨_, List.mem_filter.mpr ⟨hr, rfl⟩, rfl⟩
    rw [hrs, List.mem_singleton] at hmem
    rw [hmem]
    exact hover
  have hwatcher := sweep_verdict (by decide) (by decide) hreads htreads (by decide) (by decide)
    hbreads ⟨h.components.toList, .refl _⟩
  have hupdates := sweep_verdict (by decide) (by decide) hsweeps htsweeps (by decide) (by decide)
    hbsweeps ⟨h.components.toList, .refl _⟩
  exact ⟨hwatcher.2.mpr (honly _ (by decide +kernel)), hupdates.2.mpr (honly _ (by decide +kernel))⟩

end MessageRelayer

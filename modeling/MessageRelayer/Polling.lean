import MessageRelayer.Liveness
import MessageRelayer.Pacing

/-!
# The loops that poll

The loops that poll a chain take one provider, and dial it again after
repeated failures (`rpc::Reconnecting`); they report each scan to the health
watchdog, and defer their scans after the provider limited one (`pacing`). Here
is the loop that the acknowledgment and the claim workers share: on a tick that
is not deferred it connects and scans, and then it processes what is pending.

The provider is dropped by every third of consecutive failures, and by nothing
else (`provider_dropped_iff`). A scan comes no sooner than the rate limits
before it have it (`scan_backs_off`), and yet the probe never finds the worker
stale (`poll_not_stale`).
-/

namespace MessageRelayer

variable {P : Type}

/-! ## The provider -/

def rebuildAfterFailures : Nat := 3

/-- A worker's long-lived provider slot. -/
structure Reconnecting (P : Type) where
  label : String
  url : String
  provider : Option P
  consecutiveFailures : Nat
  rebuilds : Nat

namespace Reconnecting

def new (label url : String) : Reconnecting P := ⟨label, url, none, 0, 0⟩

/-- The live provider, or what dialing gives if the slot is empty. -/
def connect (r : Reconnecting P) (dial : Except Error P) : Except Error P × Reconnecting P :=
  match r.provider with
  | some provider => (.ok provider, r)
  | none =>
    match dial with
    | .ok provider => (.ok provider, { r with provider := some provider })
    | .error err => (.error (s!"{r.label}: failed to connect to RPC at {r.url}" :: err), r)

def noteOk (r : Reconnecting P) : Reconnecting P := { r with consecutiveFailures := 0 }

/-- Whether the failure completed a streak, and the slot after it. -/
def noteErr (r : Reconnecting P) : Bool × Reconnecting P :=
  let r := { r with consecutiveFailures := satAdd32 r.consecutiveFailures 1 }
  if r.consecutiveFailures < rebuildAfterFailures then (false, r)
  else (true, { r with consecutiveFailures := 0, rebuilds := satAdd64 r.rebuilds 1, provider := none })

end Reconnecting

/-! ## The loop -/

/-- The text of an error with its causes. -/
def errorText (err : Error) : String := ": ".intercalate err

/-- What the search answers; it answers for every text (`errorLooksRateLimited_iff`). -/
def looksRateLimited (toLowercase : String → String) (err : Error) : Bool :=
  errorLooksRateLimited toLowercase (errorText err) == some true

/-- Where an iteration is: it waits for a tick, or it scans, or it processes what is pending, after a
scan that was limited or not. -/
inductive PollPhase where
  | waiting
  | scanning
  | processing (rateLimited : Bool)
  deriving DecidableEq

structure PollState (P : Type) where
  rpc : Reconnecting P
  pacer : RateLimitPacer
  phase : PollPhase

/-- What the world has for a turn: what dialing gives, and what a scan with a provider comes to. -/
structure PollTurn (P : Type) where
  dial : Except Error P
  scan : P → Except Error Unit

/-- The loop of a worker that polls: a turn is a tick, the end of a scan, or the end of the processing,
whichever the phase has next. -/
def pollLoop (toLowercase : String → String) : Loop (PollState P) (PollTurn P) where
  turn s now e :=
    match s.phase with
    | .waiting =>
      if (s.pacer.deferring now).isSome then (s, none) else ({ s with phase := .scanning }, none)
    | .scanning =>
      let (provider, rpc) := s.rpc.connect e.dial
      match provider.bind e.scan with
      | .ok () => ({ s with rpc := rpc.noteOk, phase := .processing false }, some true)
      | .error err =>
        ({ s with rpc := rpc.noteErr.2, phase := .processing (looksRateLimited toLowercase err) },
          some false)
    | .processing rateLimited =>
      ({ s with pacer := s.pacer.after rateLimited now, phase := .waiting }, none)

/-- The state in which the loop starts, connected. -/
def PollState.new (label url : String) (provider : P) : PollState P :=
  ⟨((Reconnecting.new label url).connect (.ok provider)).2, .zero, .waiting⟩

/-- What the loop reports: that it starts, and then turn by turn. -/
def pollReports (toLowercase : String → String) (s : PollState P) (start : Instant)
    (turns : List (Instant × PollTurn P)) : List (Instant × Bool) :=
  (start, true) :: (pollLoop toLowercase).reports s turns

/-! ## It is never silent for long -/

/-- `POLL_OVERRIDE_MAX_SECS`. -/
def pollOverrideMaxSecs : Nat := 120

/-- The interval of the ticks: a variable of the environment, if it is set and if it is a positive
number, up to a maximum. -/
def pollSecsOverride (var : Option (Option Nat)) (defaultSecs : Nat) : Nat :=
  match var with
  | some (some secs) => if 0 < secs then min secs pollOverrideMaxSecs else defaultSecs
  | _ => defaultSecs

theorem pollSecsOverride_le (var : Option (Option Nat)) {defaultSecs : Nat}
    (h : defaultSecs ≤ pollOverrideMaxSecs) :
    pollSecsOverride var defaultSecs ≤ pollOverrideMaxSecs := by
  simp only [pollSecsOverride]
  split
  · split
    · exact Nat.min_le_right _ _
    · exact h
  · exact h

/-- How long a turn of each phase may be awaited. -/
def PollPhase.wait (interval scan process : Duration) : PollPhase → Duration
  | .waiting => interval
  | .scanning => scan
  | .processing _ => process

/-- The longest deferral. -/
def maxDeferral : Duration := pacerBase * 2 ^ (levelCap - 1)

/-- How long after the last report a turn of each phase may have been. -/
def PollPhase.lag (interval process : Duration) : PollPhase → Duration
  | .waiting => process + maxDeferral
  | .scanning => process + maxDeferral + interval
  | .processing _ => 0

/-- The last turn was at `last` and the last report at `r`, and no deferral is left that is not from the
processing since. -/
structure PollState.Beats (interval process : Duration) (s : PollState P) (last r : Instant) : Prop where
  report_le : r ≤ last
  defer_le : ∀ limit, s.pacer.deferUntil = some limit → limit ≤ r + (process + maxDeferral)
  last_le : last ≤ r + s.phase.lag interval process

theorem RateLimitPacer.after_limit {p : RateLimitPacer} {limited : Bool} {now limit : Instant}
    (h : (p.after limited now).deferUntil = some limit) :
    p.deferUntil = some limit ∨ limit ≤ now + maxDeferral := by
  cases limited with
  | false => exact .inl h
  | true =>
    right
    simp only [after, Option.some.injEq, if_true] at h
    rw [← h]
    have hlevel : min (p.level + 1) levelCap - 1 ≤ levelCap - 1 := by omega
    exact Nat.add_le_add_left (Nat.mul_le_mul_left _ (Nat.pow_le_pow_right (by decide) hlevel)) _

theorem RateLimitPacer.deferring_isSome {p : RateLimitPacer} {now : Instant}
    (h : (p.deferring now).isSome = true) : ∃ limit, p.deferUntil = some limit ∧ now < limit := by
  simp only [deferring, Option.isSome_bind, Option.any_eq_true] at h
  obtain ⟨limit, hlimit, h⟩ := h
  refine ⟨limit, hlimit, ?_⟩
  by_contra hlt
  simp [hlt] at h

theorem RateLimitPacer.le_of_not_deferring {p : RateLimitPacer} {now limit : Instant}
    (h : p.deferUntil = some limit) (hd : (p.deferring now).isSome = false) : limit ≤ now := by
  by_contra hlt
  simp [deferring, h, Nat.not_le.mp hlt] at hd

/-! ### What a turn does -/

section
variable {toLowercase : String → String} {s : PollState P} {now : Instant} {e : PollTurn P}

theorem pollLoop_deferred (hp : s.phase = .waiting) (hd : (s.pacer.deferring now).isSome = true) :
    (pollLoop toLowercase).turn s now e = (s, none) := by
  simp [pollLoop, hp, hd]

theorem pollLoop_tick (hp : s.phase = .waiting) (hd : (s.pacer.deferring now).isSome = false) :
    (pollLoop toLowercase).turn s now e = ({ s with phase := .scanning }, none) := by
  simp [pollLoop, hp, hd]

/-- A scan is reported; what it does to the slot depends on how it ended. -/
theorem pollLoop_scan (toLowercase : String → String) (now : Instant) (e : PollTurn P)
    (hp : s.phase = .scanning) : ∃ limited ok,
    (pollLoop toLowercase).turn s now e =
      ({ s with
          rpc := if ok then (s.rpc.connect e.dial).2.noteOk else (s.rpc.connect e.dial).2.noteErr.2
          phase := .processing limited }, some ok) := by
  cases hs : (s.rpc.connect e.dial).1.bind e.scan with
  | ok u => exact ⟨false, true, by simp [pollLoop, hp, hs]⟩
  | error err => exact ⟨looksRateLimited toLowercase err, false, by simp [pollLoop, hp, hs]⟩

theorem pollLoop_processed {limited : Bool} (hp : s.phase = .processing limited) :
    (pollLoop toLowercase).turn s now e =
      ({ s with pacer := s.pacer.after limited now, phase := .waiting }, none) := by
  simp [pollLoop, hp]

/-- One turn, within the wait of its phase. -/
theorem PollState.Beats.turn {interval scan process : Duration} {last r : Instant}
    (h : s.Beats interval process last r) (hl : last ≤ now)
    (hw : now ≤ last + s.phase.wait interval scan process) :
    ((pollLoop toLowercase).turn s now e).1.Beats interval process now
      (if ((pollLoop toLowercase).turn s now e).2.isSome then now else r) := by
  obtain ⟨hr, hd, hlast⟩ := h
  have hrn : r ≤ now := Nat.le_trans hr hl
  cases hp : s.phase with
  | waiting =>
    have hlag : last ≤ r + (process + maxDeferral) := by rwa [hp] at hlast
    have hwait : now ≤ last + interval := by rwa [hp] at hw
    cases hdef : (s.pacer.deferring now).isSome with
    | true =>
      obtain ⟨limit, hlimit, hlt⟩ := RateLimitPacer.deferring_isSome hdef
      have hle : limit ≤ r + (process + maxDeferral) := hd limit hlimit
      have hnow : now ≤ r + (process + maxDeferral) := Nat.le_trans (Nat.le_of_lt hlt) hle
      rw [pollLoop_deferred hp hdef]
      exact ⟨hrn, hd, by rwa [hp]⟩
    | false =>
      have hnow : now ≤ r + (process + maxDeferral + interval) := by
        simp only [Instant, Duration] at *
        omega
      rw [pollLoop_tick hp hdef]
      exact ⟨hrn, hd, hnow⟩
  | scanning =>
    obtain ⟨limited, ok, ht⟩ := pollLoop_scan toLowercase now e hp
    have hmono : r + (process + maxDeferral) ≤ now + (process + maxDeferral) :=
      Nat.add_le_add_right hrn _
    rw [ht]
    exact ⟨Nat.le_refl _, fun limit hlimit => Nat.le_trans (hd limit hlimit) hmono, Nat.le_refl _⟩
  | processing limited =>
    have hlag : last ≤ r := by rwa [hp] at hlast
    have hwait : now ≤ last + process := by rwa [hp] at hw
    have hnow : now + maxDeferral ≤ r + (process + maxDeferral) := by
      simp only [Instant, Duration] at *
      omega
    rw [pollLoop_processed hp]
    refine ⟨hrn, fun limit hlimit => ?_, Nat.le_trans (Nat.le_add_right _ _) hnow⟩
    rcases RateLimitPacer.after_limit hlimit with hlimit | hle
    · exact hd limit hlimit
    · exact Nat.le_trans hle hnow

end

section
variable {toLowercase : String → String} {interval scan process : Duration} {label url : String}
  {provider : P} {start last t : Nat} {turns : List (Instant × PollTurn P)} {epoch : SystemTime}
  {calls : List (SystemTime × HealthCall)} {name : String}

/-- The loop from its start, in time. -/
abbrev PollPaced (toLowercase : String → String) (interval scan process : Duration) (s : PollState P)
    (start : Instant) (turns : List (Instant × PollTurn P)) (last : Instant) : Prop :=
  (pollLoop toLowercase).Paced (fun s => s.phase.wait interval scan process) s start turns last

/-- The last report of the loop is within the bound of its phase, at its last turn. -/
theorem poll_silence
    (hp : PollPaced toLowercase interval scan process (.new label url provider) start turns last) :
    ∃ r ok, (r, ok) ∈ pollReports toLowercase (.new label url provider) start turns ∧
      ((pollLoop toLowercase).state (.new label url provider) turns).Beats interval process last r := by
  have hs : (PollState.new label url provider).Beats interval process start start :=
    ⟨Nat.le_refl _, fun limit h => (by cases h), Nat.le_add_right _ _⟩
  obtain ⟨r, -, hmem, hinv⟩ := (pollLoop toLowercase).silence (I := PollState.Beats interval process)
    hs (fun s last r now e h hl hw => h.turn hl hw) hp
  rcases hmem with rfl | ⟨ok, hmem⟩
  · exact ⟨r, true, List.mem_cons_self, hinv⟩
  · exact ⟨r, ok, List.mem_cons_of_mem _ hmem, hinv⟩

/-- Whatever its scans come to and however often the provider limits them, the probe never finds a
worker that polls stale, if a scan and the processing after it take no longer than the deadline leaves
over the longest deferral and the longest interval that can be configured. -/
theorem poll_not_stale {var : Option (Option Nat)} {defaultSecs : Nat}
    (hd : defaultSecs ≤ pollOverrideMaxSecs)
    (hw : scan + process + maxDeferral + fromSecs pollOverrideMaxSecs ≤ progressDeadline)
    (hp : PollPaced toLowercase (fromSecs (pollSecsOverride var defaultSecs)) scan process
      (.new label url provider) start turns last)
    (ht : t ≤ last + ((pollLoop toLowercase).state (.new label url provider) turns).phase.wait
      (fromSecs (pollSecsOverride var defaultSecs)) scan process)
    (hm : (calls.map (·.1)).Pairwise (· ≤ ·))
    (hb : beats name calls =
      beatsOf epoch (pollReports toLowercase (.new label url provider) start turns))
    (order : Map.Iteration (Health.after progressDeadline calls).components) :
    name ∉ ((Health.after progressDeadline calls).status (epoch + t) order).stale := by
  obtain ⟨r, ok, hmem, hinv⟩ := poll_silence hp
  have hlast := hinv.last_le
  have hinterval : fromSecs (pollSecsOverride var defaultSecs) ≤ fromSecs pollOverrideMaxSecs :=
    Nat.mul_le_mul_right _ (pollSecsOverride_le var hd)
  have hle : t ≤ r + progressDeadline := by
    cases hph : ((pollLoop toLowercase).state (.new label url provider) turns).phase <;>
    · rw [hph] at hlast ht
      simp only [PollPhase.lag, PollPhase.wait, Instant, Duration] at *
      omega
  have hbeat : ⟨nowUnixMs (epoch + r), ok⟩ ∈ beats name calls := by
    rw [hb]
    exact mem_beatsOf epoch hmem
  exact Health.not_stale hm order hbeat (within_of_le (by decide) hle)

end

def demoTurn : PollTurn Unit := ⟨.ok (), fun _ => .error ["HTTP error 429"]⟩

/-- A worker whose scans the provider limits. -/
def demoPolls : List (Instant × PollTurn Unit) :=
  [(fromSecs 6, demoTurn), (fromSecs 7, demoTurn), (fromSecs 8, demoTurn), (fromSecs 12, demoTurn)]

def demoPolling : PollState Unit := .new "ack:7 destination" "http://node" ()

/-- A worker that defers its scans. -/
theorem poll_not_stale_limited :
    let calls : List (SystemTime × HealthCall) :=
      [(fromSecs 1, .heartbeat "ack:7"), (fromSecs 8, .error "ack:7")]
    let h := Health.after progressDeadline calls
    "ack:7" ∉ (h.status (fromSecs 18) ⟨h.components.toList, .refl _⟩).stale := by
  intro calls h
  have hp : PollPaced id (fromSecs (pollSecsOverride none 6)) (fromSecs 60) (fromSecs 60) demoPolling 0
      demoPolls (fromSecs 12) := by
    refine .snoc (.snoc (.snoc (.snoc .nil ?_ ?_) ?_ ?_) ?_ ?_) ?_ ?_ <;> decide
  have hb : beats "ack:7" calls = beatsOf (fromSecs 1) (pollReports id demoPolling 0 demoPolls) := by
    decide +kernel
  have ht : fromSecs 17 ≤ fromSecs 12 + ((pollLoop id).state demoPolling demoPolls).phase.wait
      (fromSecs (pollSecsOverride none 6)) (fromSecs 60) (fromSecs 60) := by decide +kernel
  exact poll_not_stale (by decide) (by decide) hp ht (by decide) hb _

/-! ## What drops the provider -/

/-- How many of the last outcomes are failures. -/
def failuresSince (outcomes : List Bool) : Nat := (outcomes.reverse.takeWhile (!·)).length

theorem failuresSince_concat (outcomes : List Bool) (ok : Bool) :
    failuresSince (outcomes ++ [ok]) = if ok then 0 else failuresSince outcomes + 1 := by
  cases ok <;> simp [failuresSince]

/-- The failed scans since the last one that succeeded. -/
def pollFailures (toLowercase : String → String) (s : PollState P)
    (turns : List (Instant × PollTurn P)) : Nat :=
  failuresSince (((pollLoop toLowercase).reports s turns).map (·.2))

theorem Reconnecting.connect_failures (r : Reconnecting P) (dial : Except Error P) :
    (r.connect dial).2.consecutiveFailures = r.consecutiveFailures := by
  simp only [connect]
  split
  · rfl
  · split <;> rfl

theorem Reconnecting.connect_full {r : Reconnecting P} {p : P} (h : r.provider = some p)
    (dial : Except Error P) : r.connect dial = (.ok p, r) := by
  simp [connect, h]

/-- A failure counts to three, and the third drops the provider. -/
theorem Reconnecting.noteErr_spec {r : Reconnecting P} {k : Nat}
    (h : r.consecutiveFailures = k % rebuildAfterFailures) :
    r.noteErr.2.consecutiveFailures = (k + 1) % rebuildAfterFailures ∧
      r.noteErr.2.provider = if rebuildAfterFailures ∣ k + 1 then none else r.provider := by
  have hk : r.consecutiveFailures = k % 3 := h
  have hsat : satAdd32 (k % 3) 1 = k % 3 + 1 := Nat.min_eq_left (by simp only [u32Max]; omega)
  have hdvd : rebuildAfterFailures ∣ k + 1 ↔ ¬k % 3 + 1 < 3 := by
    show 3 ∣ k + 1 ↔ _
    omega
  by_cases h3 : k % 3 + 1 < 3
  · have hmod : (k + 1) % rebuildAfterFailures = k % 3 + 1 := by
      show (k + 1) % 3 = _
      omega
    have herr : r.noteErr = (false, { r with consecutiveFailures := k % 3 + 1 }) := by
      rw [noteErr, hk, hsat]
      exact if_pos h3
    rw [herr, hmod, if_neg (by rwa [hdvd, not_not])]
    exact ⟨rfl, rfl⟩
  · have hmod : (k + 1) % rebuildAfterFailures = 0 := by
      show (k + 1) % 3 = _
      omega
    have herr : r.noteErr = (true, { r with
        consecutiveFailures := 0
        rebuilds := satAdd64 r.rebuilds 1
        provider := none }) := by
      rw [noteErr, hk, hsat]
      exact if_neg h3
    rw [herr, hmod, if_pos (by rwa [hdvd])]
    exact ⟨rfl, rfl⟩

section
variable {toLowercase : String → String} {s : PollState P} {now : Instant} {e : PollTurn P}
  {turns : List (Instant × PollTurn P)}

/-- What a turn does to the slot, and to the number of failures. -/
theorem pollLoop_slot (toLowercase : String → String) (s : PollState P) (now : Instant)
    (e : PollTurn P) :
    let next := (pollLoop toLowercase).turn s now e
    (next.2 = none ∧ next.1.rpc = s.rpc) ∨
      (next.2 = some true ∧ next.1.rpc = (s.rpc.connect e.dial).2.noteOk) ∨
      (next.2 = some false ∧ next.1.rpc = (s.rpc.connect e.dial).2.noteErr.2) := by
  cases hp : s.phase with
  | waiting =>
    left
    cases hd : (s.pacer.deferring now).isSome with
    | true =>
      rw [pollLoop_deferred hp hd]
      exact ⟨rfl, rfl⟩
    | false =>
      rw [pollLoop_tick hp hd]
      exact ⟨rfl, rfl⟩
  | scanning =>
    right
    obtain ⟨limited, ok, ht⟩ := pollLoop_scan toLowercase now e hp
    rw [ht]
    cases ok with
    | true => exact .inl ⟨rfl, rfl⟩
    | false => exact .inr ⟨rfl, rfl⟩
  | processing limited =>
    left
    rw [pollLoop_processed hp]
    exact ⟨rfl, rfl⟩

theorem pollFailures_concat : pollFailures toLowercase s (turns ++ [(now, e)]) =
    match ((pollLoop toLowercase).turn ((pollLoop toLowercase).state s turns) now e).2 with
    | none => pollFailures toLowercase s turns
    | some true => 0
    | some false => pollFailures toLowercase s turns + 1 := by
  rw [pollFailures, Loop.reports_concat, List.map_append]
  split <;> rename_i h <;> simp [h, failuresSince_concat, pollFailures]

/-- The count of the slot is that of the failed scans since the last success, by threes. -/
theorem poll_failures (h : s.rpc.consecutiveFailures = 0) (turns : List (Instant × PollTurn P)) :
    ((pollLoop toLowercase).state s turns).rpc.consecutiveFailures =
      pollFailures toLowercase s turns % rebuildAfterFailures := by
  refine (pollLoop toLowercase).inv (I := fun turns s' => s'.rpc.consecutiveFailures =
    pollFailures toLowercase s turns % rebuildAfterFailures) h (fun turns now e ih => ?_) turns
  have hconn := Reconnecting.connect_failures ((pollLoop toLowercase).state s turns).rpc e.dial
  rw [pollFailures_concat]
  rcases pollLoop_slot toLowercase ((pollLoop toLowercase).state s turns) now e with
    ⟨ho, hrpc⟩ | ⟨ho, hrpc⟩ | ⟨ho, hrpc⟩
  · rw [ho, hrpc]
    exact ih
  · rw [ho, hrpc]
    rfl
  · rw [ho, hrpc]
    exact (Reconnecting.noteErr_spec (hconn.trans ih)).1

/-- In every run, a turn drops the provider if and only if it is a failed scan, and the failed scans
since the last success are a multiple of three with it; else the provider stays. -/
theorem provider_dropped_iff (label url : String) (provider : P) {p : P}
    (h : ((pollLoop toLowercase).state (.new label url provider) turns).rpc.provider = some p) :
    let next := ((pollLoop toLowercase).state (.new label url provider) (turns ++ [(now, e)])).rpc
    let failures := pollFailures toLowercase (.new label url provider) turns
    let failures' := pollFailures toLowercase (.new label url provider) (turns ++ [(now, e)])
    (next.provider = none ↔ failures' = failures + 1 ∧ rebuildAfterFailures ∣ failures') ∧
      (next.provider = none ∨ next.provider = some p) := by
  intro next failures failures'
  have hcount : _ = failures % rebuildAfterFailures :=
    poll_failures (s := .new label url provider) rfl turns
  have hfull := Reconnecting.connect_full h e.dial
  have hfailures : failures' = _ := pollFailures_concat
  rcases pollLoop_slot toLowercase ((pollLoop toLowercase).state (.new label url provider) turns)
    now e with ⟨ho, hrpc⟩ | ⟨ho, hrpc⟩ | ⟨ho, hrpc⟩
  · have hsame : next.provider = some p := by
      simp only [next, Loop.state_concat, hrpc, h]
    have heq : failures' = failures := by rw [hfailures, ho]
    exact ⟨by simp [hsame, heq], .inr hsame⟩
  · have hsame : next.provider = some p := by
      simp only [next, Loop.state_concat, hrpc, hfull]
      exact h
    have heq : failures' = 0 := by rw [hfailures, ho]
    exact ⟨by simp [hsame, heq], .inr hsame⟩
  · have hspec : next.provider = if rebuildAfterFailures ∣ failures + 1 then none else some p := by
      simp only [next, Loop.state_concat, hrpc, hfull]
      rw [(Reconnecting.noteErr_spec hcount).2, h]
    have heq : failures' = failures + 1 := by rw [hfailures, ho]
    rw [hspec, heq]
    by_cases hd : rebuildAfterFailures ∣ failures + 1 <;> simp [hd]

end

/-- The third failed scan in a row drops the provider. -/
theorem provider_dropped_third :
    let turns := demoPolls.take 3 ++ [(fromSecs 13, demoTurn), (fromSecs 14, demoTurn),
      (fromSecs 15, demoTurn), (fromSecs 25, demoTurn)]
    let next := ((pollLoop id).state demoPolling (turns ++ [(fromSecs 26, demoTurn)])).rpc
    let failures := pollFailures id demoPolling turns
    let failures' := pollFailures id demoPolling (turns ++ [(fromSecs 26, demoTurn)])
    (next.provider = none ↔ failures' = failures + 1 ∧ rebuildAfterFailures ∣ failures') ∧
      (next.provider = none ∨ next.provider = some ()) :=
  provider_dropped_iff _ _ _ (by decide +kernel)

/-! ## What defers a scan -/

namespace RateLimitPacer

theorem run_concat (iterations : List (Bool × Instant)) (iteration : Bool × Instant) :
    run (iterations ++ [iteration]) = (run iterations).after iteration.1 iteration.2 := by
  rw [run, List.foldl_append]
  rfl

/-- Each limited iteration raises the level, up to the cap. -/
theorem run_limited (earlier : List (Bool × Instant)) {limited : List (Bool × Instant)}
    (h : ∀ iteration ∈ limited, iteration.1 = true) :
    min limited.length levelCap ≤ (run (earlier ++ limited)).level := by
  induction limited using List.reverseRecOn with
  | nil => exact Nat.le_trans (Nat.min_le_left _ _) (Nat.zero_le _)
  | append_singleton limited iteration ih =>
    rw [List.forall_mem_append, List.forall_mem_singleton] at h
    have hle := ih h.1
    rw [← List.append_assoc, run_concat, h.2, List.length_append, List.length_singleton]
    show _ ≤ min ((run (earlier ++ limited)).level + 1) levelCap
    omega

/-- Each clean iteration lowers it by one. -/
theorem run_clean (earlier : List (Bool × Instant)) {clean : List (Bool × Instant)}
    (h : ∀ iteration ∈ clean, iteration.1 = false) :
    (run earlier).level - clean.length ≤ (run (earlier ++ clean)).level := by
  induction clean using List.reverseRecOn with
  | nil => simp
  | append_singleton clean iteration ih =>
    rw [List.forall_mem_append, List.forall_mem_singleton] at h
    have hle := ih h.1
    rw [← List.append_assoc, run_concat, h.2, List.length_append, List.length_singleton]
    show _ ≤ (run (earlier ++ clean)).level - 1
    omega

/-- A limited iteration arms a deferral that the limited iterations before it double, each, and the
clean ones since halve. -/
theorem run_deferred (earlier : List (Bool × Instant)) {limited clean : List (Bool × Instant)}
    (hl : ∀ iteration ∈ limited, iteration.1 = true) (hc : ∀ iteration ∈ clean, iteration.1 = false)
    (now : Instant) : ∃ limit,
      (run (earlier ++ limited ++ clean ++ [(true, now)])).deferUntil = some limit ∧
      now + pacerBase * 2 ^ min (min limited.length levelCap - clean.length) (levelCap - 1) ≤ limit := by
  have hlimited := run_limited earlier hl
  have hclean := run_clean (earlier ++ limited) hc
  rw [run_concat]
  refine ⟨_, rfl, Nat.add_le_add_left (Nat.mul_le_mul_left _ (Nat.pow_le_pow_right (by decide) ?_)) _⟩
  omega

end RateLimitPacer

/-- The iterations that ended: when, and whether the provider limited them. -/
def pollIterations (toLowercase : String → String) (s : PollState P)
    (turns : List (Instant × PollTurn P)) : List (Instant × Bool) :=
  (pollLoop toLowercase).trace (fun s _ _ =>
    match s.phase with
    | .processing rateLimited => some rateLimited
    | _ => none) s turns

section
variable {toLowercase : String → String} {s : PollState P} {now : Instant} {e : PollTurn P}
  {turns : List (Instant × PollTurn P)}

/-- The pacer is that of the iterations that ended. -/
theorem poll_pacer (h : s.pacer = .zero) (turns : List (Instant × PollTurn P)) :
    ((pollLoop toLowercase).state s turns).pacer =
      .run ((pollIterations toLowercase s turns).map Prod.swap) := by
  refine (pollLoop toLowercase).inv (I := fun turns s' => s'.pacer =
    .run ((pollIterations toLowercase s turns).map Prod.swap)) h (fun turns now e ih => ?_) turns
  rw [pollIterations, Loop.trace_concat, List.map_append, ← pollIterations]
  cases hp : ((pollLoop toLowercase).state s turns).phase with
  | waiting =>
    have hpacer : ((pollLoop toLowercase).turn ((pollLoop toLowercase).state s turns) now e).1.pacer =
        ((pollLoop toLowercase).state s turns).pacer := by
      cases hd : (((pollLoop toLowercase).state s turns).pacer.deferring now).isSome with
      | true => rw [pollLoop_deferred hp hd]
      | false => rw [pollLoop_tick hp hd]
    rw [hpacer]
    simpa using ih
  | scanning =>
    obtain ⟨limited, ok, ht⟩ := pollLoop_scan toLowercase now e hp
    rw [ht]
    simpa using ih
  | processing limited =>
    rw [pollLoop_processed hp]
    simp [RateLimitPacer.run_concat, ih]

/-- In every run, a scan comes no sooner after an iteration that the provider limited than five seconds,
doubled by each limited iteration in a row before it and halved by each clean one since, up to eighty;
and a tick that does not scan comes within eighty seconds of a limited iteration. -/
theorem scan_backs_off (label url : String) (provider : P)
    (hp : ((pollLoop toLowercase).state (.new label url provider) turns).phase = .waiting) :
    let next := (pollLoop toLowercase).state (.new label url provider) (turns ++ [(now, e)])
    let ended := pollIterations toLowercase (.new label url provider) turns
    (next.phase = .scanning → ∀ earlier limited clean a,
      ended = earlier ++ limited ++ clean ++ [(a, true)] →
      (∀ iteration ∈ limited, iteration.2 = true) → (∀ iteration ∈ clean, iteration.2 = false) →
      a + pacerBase * 2 ^ min (min limited.length levelCap - clean.length) (levelCap - 1) ≤ now) ∧
    (next.phase ≠ .scanning → ∃ a, (a, true) ∈ ended ∧ now < a + maxDeferral) := by
  intro next ended
  have hpacer : _ = RateLimitPacer.run (ended.map Prod.swap) :=
    poll_pacer (s := .new label url provider) rfl turns
  have hnext : next = _ := Loop.state_concat (now, e)
  cases hd : (((pollLoop toLowercase).state (.new label url provider) turns).pacer.deferring
    now).isSome with
  | true =>
    obtain ⟨limit, hlimit, hlt⟩ := RateLimitPacer.deferring_isSome hd
    rw [hpacer] at hlimit
    obtain ⟨a, ha, hle⟩ := (RateLimitPacer.run_spec _).2 limit hlimit
    rw [pollLoop_deferred hp hd] at hnext
    refine ⟨fun hscan => ?_, fun _ => ⟨a, ?_, Nat.lt_of_lt_of_le hlt hle⟩⟩
    · rw [hnext, hp] at hscan
      cases hscan
    · obtain ⟨⟨a', limited⟩, hmem, heq⟩ := List.mem_map.mp ha
      cases heq
      exact hmem
  | false =>
    rw [pollLoop_tick hp hd] at hnext
    refine ⟨fun _ earlier limited clean a hended hl hc => ?_, fun hscan => absurd (by rw [hnext]) hscan⟩
    have hl' : ∀ iteration ∈ limited.map Prod.swap, iteration.1 = true := by simpa using hl
    have hc' : ∀ iteration ∈ clean.map Prod.swap, iteration.1 = false := by simpa using hc
    obtain ⟨limit, hlimit, hle⟩ := RateLimitPacer.run_deferred (earlier.map Prod.swap) hl' hc' a
    rw [hpacer, hended] at hd
    simp only [List.map_append, List.map_cons, List.map_nil, Prod.swap_prod_mk] at hd
    have hpast : limit ≤ now := RateLimitPacer.le_of_not_deferring hlimit hd
    simp only [List.length_map] at hle
    exact Nat.le_trans hle hpast

end

/-- The tick after a limited scan is skipped. -/
theorem scan_backs_off_limited :
    let e : PollTurn Unit := ⟨.ok (), fun _ => .ok ()⟩
    let next := (pollLoop id).state demoPolling (demoPolls.take 3 ++ [(fromSecs 12, e)])
    next.phase ≠ .scanning → ∃ a, (a, true) ∈ pollIterations id demoPolling (demoPolls.take 3) ∧
      fromSecs 12 < a + maxDeferral :=
  (scan_backs_off _ _ _ (by decide)).2

end MessageRelayer

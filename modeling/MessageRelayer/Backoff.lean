import MessageRelayer.Delivery.Job
import MessageRelayer.Pending

/-!
# Delays before another attempt

Two delays that are computed from times: that before a proof which is not
ready is asked for again (`pending::NotReadyPolicy::next_delay`), and that
before an accepted message is reconciled again
(`delivery::pending_retry_delay`), here with the additions that panic when
they overflow. The first doubles from 30 seconds to ten minutes and never
panics (`not_ready_ladder`). The second panics only for a timestamp that lies
within five seconds of `u64::MAX` ahead, and is otherwise what its callers take
it to be (`pending_retry_bounds`).
-/

namespace MessageRelayer

/-! ## Arithmetic of durations -/

/-- `Duration::MAX`, a nanosecond less than `2 ^ 64` seconds. -/
def durationMax : Duration := 2 ^ 64 * 10 ^ 9 - 1

/-- `Duration::as_secs`. -/
def asSecs (d : Duration) : Nat := d / 10 ^ 9

/-- The sum of two durations, which panics when it overflows. -/
def addDuration (a b : Duration) : Option Duration :=
  if a + b ≤ durationMax then some (a + b) else none

/-- The sum of two `u64`s, which panics when it overflows. -/
def add64 (a b : Nat) : Option Nat := if a + b ≤ u64Max then some (a + b) else none

/-- `u64::ilog2`, which panics of zero. -/
def ilog2 (n : Nat) : Option Nat := if n = 0 then none else some n.log2

/-- `u32::saturating_pow`. -/
def satPow32 (b e : Nat) : Nat := min (b ^ e) u32Max

/-- `Duration::saturating_mul`. -/
def satMulDuration (d : Duration) (n : Nat) : Duration := min (d * n) durationMax

theorem addDuration_eq {a b : Duration} (h : a + b ≤ durationMax) :
    addDuration a b = some (a + b) := if_pos h

/-! ## A proof that is not ready -/

/-- How often a proof is asked for again: at one interval within a window, then ever more seldom. -/
structure NotReadyPolicy where
  pollInterval : Duration
  pollWindow : Duration
  interval_fits : pollInterval ≤ durationMax
  window_fits : pollWindow ≤ durationMax

namespace NotReadyPolicy

variable {policy : NotReadyPolicy} {waited waited' : Duration}

/-- The delay for a transaction that has waited so long; none where the computation panics. -/
def nextDelay (policy : NotReadyPolicy) (waited : Duration) : Option Duration :=
  if waited < policy.pollWindow then some policy.pollInterval
  else do
    let excess := waited - policy.pollWindow
    let steps ← add64 (asSecs excess / max (asSecs transientBackoffBase) 1) 1
    let exp ← ilog2 steps
    some (min (satMulDuration transientBackoffBase (satPow32 2 (min exp 31))) transientBackoffMax)

/-- The delay doubles `k` times from 30 seconds, up to ten minutes. -/
def rung (k : Nat) : Duration := min (fromSecs (30 * 2 ^ k)) (fromSecs 600)

theorem rung_mono {k l : Nat} (h : k ≤ l) : rung k ≤ rung l := by
  have hp : 2 ^ k ≤ 2 ^ l := Nat.pow_le_pow_right (by decide) h
  simp only [rung, fromSecs, Duration]
  omega

theorem rung_top {k : Nat} (h : 5 ≤ k) : rung k = fromSecs 600 := by
  have hp : 2 ^ 5 ≤ 2 ^ k := Nat.pow_le_pow_right (by decide) h
  simp only [rung, fromSecs, Duration]
  omega

theorem rung_le (k : Nat) : rung k ≤ fromSecs 600 := Nat.min_le_right _ _

theorem le_rung (k : Nat) : fromSecs 30 ≤ rung k := rung_mono (Nat.zero_le k)

/-- The saturations and the bound on the exponent lie past the cap. -/
theorem saturated_rung (e : Nat) :
    min (satMulDuration transientBackoffBase (satPow32 2 (min e 31))) transientBackoffMax = rung e := by
  have hpow : 2 ^ min e 31 ≤ 2 ^ 31 := Nat.pow_le_pow_right (by decide) (Nat.min_le_right e 31)
  have hsat : satPow32 2 (min e 31) = 2 ^ min e 31 := Nat.min_eq_left (Nat.le_trans hpow (by decide))
  have hr : min (satMulDuration transientBackoffBase (2 ^ min e 31)) transientBackoffMax =
      rung (min e 31) := by
    simp only [satMulDuration, transientBackoffBase, transientBackoffMax, durationMax, rung,
      fromSecs, Duration]
    omega
  rw [hsat, hr]
  rcases Nat.le_total e 31 with he | he
  · rw [Nat.min_eq_left he]
  · rw [Nat.min_eq_right he, rung_top (by decide), rung_top (by omega)]

/-- Past the window, the number of doublings is read off the time past it. -/
theorem nextDelay_past (h : policy.pollWindow ≤ waited) (hd : waited ≤ durationMax) :
    policy.nextDelay waited = some (rung ((waited - policy.pollWindow) / fromSecs 30 + 1).log2) := by
  have hbase : max (asSecs transientBackoffBase) 1 = 30 := by decide
  have hsteps : asSecs (waited - policy.pollWindow) / 30 =
      (waited - policy.pollWindow) / fromSecs 30 := by
    rw [asSecs, Nat.div_div_eq_div_mul, fromSecs, Nat.mul_comm]
  have hfits : (waited - policy.pollWindow) / fromSecs 30 + 1 ≤ u64Max := by
    simp only [durationMax, u64Max, fromSecs, Duration] at hd ⊢
    omega
  rw [nextDelay, if_neg (Nat.not_lt.mpr h)]
  simp only [hbase, hsteps, add64, if_pos hfits, ilog2, Nat.succ_ne_zero, if_false, Option.bind_eq_bind,
    Option.bind_some, saturated_rung]

/-- How long a transaction has waited at its poll `k` past the window, when each poll comes exactly
at the delay that the last one was told; none where that is no duration. -/
def waitedAt (policy : NotReadyPolicy) : Nat → Option Duration
  | 0 => some policy.pollWindow
  | k + 1 => do
    let waited ← policy.waitedAt k
    let delay ← policy.nextDelay waited
    addDuration waited delay

/-- The first `k` rungs together. -/
def climbed (k : Nat) : Duration := ((List.range k).map rung).sum

theorem climbed_succ (k : Nat) : climbed (k + 1) = climbed k + rung k := by
  rw [climbed, List.range_succ, List.map_append, List.sum_append, List.map_singleton,
    List.sum_singleton]
  rfl

/-- The rungs up to the cap sum to one less than the next power of two, and those after it are of ten
minutes each. -/
theorem climbed_eq (k : Nat) :
    climbed k = if k ≤ 5 then fromSecs (30 * (2 ^ k - 1)) else fromSecs (930 + 600 * (k - 5)) := by
  induction k with
  | zero => rfl
  | succ k ih =>
    rw [climbed_succ, ih]
    by_cases h : k < 5
    · obtain rfl | rfl | rfl | rfl | rfl : k = 0 ∨ k = 1 ∨ k = 2 ∨ k = 3 ∨ k = 4 := by omega
      all_goals decide
    · rw [rung_top (by omega), if_neg (show ¬k + 1 ≤ 5 by omega)]
      split
      · obtain rfl : k = 5 := by omega
        decide
      · simp only [fromSecs, Duration]
        omega

/-- The number of doublings comes back out of the time that the polls have taken. -/
theorem log2_climbed (k : Nat) : rung (climbed k / fromSecs 30 + 1).log2 = rung k := by
  rw [climbed_eq]
  split
  · rename_i h
    obtain rfl | rfl | rfl | rfl | rfl | rfl :
      k = 0 ∨ k = 1 ∨ k = 2 ∨ k = 3 ∨ k = 4 ∨ k = 5 := by omega
    all_goals decide
  · rename_i h
    have hlog : 5 ≤ (fromSecs (930 + 600 * (k - 5)) / fromSecs 30 + 1).log2 := by
      rw [Nat.le_log2 (Nat.succ_ne_zero _)]
      simp only [fromSecs, Duration]
      omega
    rw [rung_top hlog, rung_top (by omega)]

theorem waitedAt_eq (policy : NotReadyPolicy) (k : Nat) :
    policy.waitedAt k = addDuration policy.pollWindow (climbed k) := by
  induction k with
  | zero =>
    have h : climbed 0 = 0 := rfl
    rw [h, addDuration_eq policy.window_fits, Nat.add_zero, waitedAt]
  | succ k ih =>
    rw [waitedAt, ih, climbed_succ]
    by_cases h : policy.pollWindow + climbed k ≤ durationMax
    · have hr : policy.nextDelay (policy.pollWindow + climbed k) = some (rung k) := by
        rw [nextDelay_past (Nat.le_add_right _ _) h, Nat.add_sub_cancel_left, log2_climbed]
      rw [addDuration_eq h, Option.bind_eq_bind, Option.bind_some, hr, Option.bind_some,
        addDuration, addDuration, Nat.add_assoc]
    · have h' : ¬policy.pollWindow + (climbed k + rung k) ≤ durationMax := fun hle =>
        h (Nat.le_trans (Nat.add_le_add_left (Nat.le_add_right _ _) _) hle)
      rw [addDuration, if_neg h, addDuration, if_neg h', Option.bind_eq_bind, Option.bind_none]

end NotReadyPolicy

open NotReadyPolicy in
/-- The delay is computed without a panic for every time waited. Past the window it is between 30
seconds and ten minutes, and grows with the time. Who polls at the delays returned is told 30
seconds, doubled each time up to ten minutes, for as long as the time waited is a duration. -/
theorem not_ready_ladder (policy : NotReadyPolicy) :
    (∀ waited ≤ durationMax, ∃ d, policy.nextDelay waited = some d ∧
      (policy.pollWindow ≤ waited → fromSecs 30 ≤ d ∧ d ≤ fromSecs 600)) ∧
    (∀ waited waited' d d', policy.pollWindow ≤ waited → waited ≤ waited' → waited' ≤ durationMax →
      policy.nextDelay waited = some d → policy.nextDelay waited' = some d' → d ≤ d') ∧
    (∀ k waited, policy.waitedAt k = some waited →
      policy.nextDelay waited = some (min (fromSecs (30 * 2 ^ k)) (fromSecs 600))) ∧
    ∀ k, policy.waitedAt k = addDuration policy.pollWindow
      ((List.range k).map fun i => min (fromSecs (30 * 2 ^ i)) (fromSecs 600)).sum := by
  refine ⟨fun waited hd => ?_, fun waited waited' d d' hw hle hd h h' => ?_, fun k waited h => ?_,
    fun k => policy.waitedAt_eq k⟩
  · by_cases hw : waited < policy.pollWindow
    · exact ⟨policy.pollInterval, if_pos hw, fun h => absurd hw (Nat.not_lt.mpr h)⟩
    · exact ⟨_, nextDelay_past (Nat.not_lt.mp hw) hd, fun _ => ⟨le_rung _, rung_le _⟩⟩
  · have hle' : waited ≤ durationMax := Nat.le_trans hle hd
    rw [nextDelay_past hw hle'] at h
    rw [nextDelay_past (Nat.le_trans hw hle) hd] at h'
    cases h
    cases h'
    have hsteps := Nat.succ_le_succ (Nat.div_le_div_right (c := fromSecs 30)
      (Nat.sub_le_sub_right hle policy.pollWindow))
    refine rung_mono ((Nat.le_log2 (Nat.succ_ne_zero _)).mpr (Nat.le_trans ?_ hsteps))
    exact Nat.log2_self_le (Nat.succ_ne_zero _)
  · rw [waitedAt_eq, addDuration] at h
    split at h
    · rename_i hfits
      cases h
      rw [nextDelay_past (Nat.le_add_right _ _) hfits, Nat.add_sub_cancel_left, log2_climbed]
      rfl
    · cases h

/-! ## An accepted message -/

namespace Checked

/-- `pending_retry_delay`; none where it panics. -/
def pendingRetryDelay (attempt : Nat) (retryAfter now : Option Nat) : Option Duration := do
  let fixed ← pendingRetryDelays[min attempt (pendingRetryDelays.length - 1)]?
  match retryAfter, now with
  | some ts, some now =>
    if ts > now then
      (addDuration (fromSecs (ts - now)) retryDeferredMargin).map (min · maxRetryDeferredWait)
    else some fixed
  | _, _ => some fixed

variable {attempt : Nat} {retryAfter now : Option Nat}

/-- The distance to the timestamp, with the margin, is a duration. -/
def Addable (retryAfter now : Option Nat) : Prop :=
  ∀ ts n, retryAfter = some ts → now = some n → ts - n + 5 ≤ u64Max

theorem addDuration_margin (n : Nat) : addDuration (fromSecs n) retryDeferredMargin =
    if n + 5 ≤ u64Max then some (fromSecs n + retryDeferredMargin) else none := by
  have hiff : fromSecs n + retryDeferredMargin ≤ durationMax ↔ n + 5 ≤ u64Max := by
    simp only [fromSecs, retryDeferredMargin, durationMax, u64Max, Duration]
    omega
  rw [addDuration]
  exact if_congr hiff rfl rfl

/-- Where it does not panic, it is the delay that the pool waits. -/
theorem pendingRetryDelay_eq (h : Addable retryAfter now) :
    pendingRetryDelay attempt retryAfter now =
      some (MessageRelayer.pendingRetryDelay attempt retryAfter now) := by
  have hi : min attempt (pendingRetryDelays.length - 1) < pendingRetryDelays.length := by
    simp only [pendingRetryDelays, List.length_cons, List.length_nil]
    omega
  simp only [pendingRetryDelay, List.getElem?_eq_getElem hi, Option.bind_eq_bind, Option.bind_some,
    MessageRelayer.pendingRetryDelay, ← List.getElem_eq_getD (h := hi)]
  rcases retryAfter with _ | ts
  · rfl
  rcases now with _ | n
  · rfl
  by_cases hahead : ts > n
  · simp only [if_pos hahead, addDuration_margin, if_pos (h ts n rfl rfl), Option.map_some]
  · simp only [if_neg hahead]

/-- It panics where the distance to the timestamp cannot be added to. -/
theorem pendingRetryDelay_panics (h : ¬Addable retryAfter now) :
    pendingRetryDelay attempt retryAfter now = none := by
  simp only [Addable, not_forall] at h
  obtain ⟨ts, n, rfl, rfl, hfar⟩ := h
  have hahead : ts > n := by
    simp only [u64Max] at hfar
    omega
  simp only [pendingRetryDelay, if_pos hahead, addDuration_margin, if_neg hfar, Option.map_none,
    Option.bind_eq_bind]
  exact Option.bind_eq_none_iff.mpr fun _ _ => rfl

end Checked

theorem pendingRetryDelay_le (attempt : Nat) (retryAfter now : Option Nat) :
    pendingRetryDelay attempt retryAfter now ≤ maxRetryDeferredWait := by
  have hfixed : ∀ i, pendingRetryDelays.getD i 0 ≤ maxRetryDeferredWait := by
    intro i
    rcases i with _ | _ | _ | i
    · decide
    · decide
    · decide
    · exact Nat.zero_le _
  rcases retryAfter with _ | ts
  · exact hfixed _
  rcases now with _ | n
  · exact hfixed _
  by_cases h : ts > n
  · simp only [pendingRetryDelay, if_pos h]
    exact Nat.min_le_right _ _
  · simp only [pendingRetryDelay, if_neg h]
    exact hfixed _

/-- Up to the cap, the delay reaches to a timestamp that lies ahead. -/
theorem le_pendingRetryDelay (attempt : Nat) {ts n : Nat} (h : n < ts) :
    min (fromSecs (ts - n)) maxRetryDeferredWait ≤ pendingRetryDelay attempt (some ts) (some n) := by
  simp only [pendingRetryDelay, if_pos (show ts > n from h), Duration]
  omega

/-- The delay is computed without a panic, is at most six hours, and reaches to a timestamp that lies
ahead unless the cap of six hours cuts in, if and only if the distance to the timestamp is at least
five seconds less than `u64::MAX`. -/
theorem pending_retry_bounds (attempt : Nat) (retryAfter now : Option Nat) :
    (∃ d, Checked.pendingRetryDelay attempt retryAfter now = some d ∧ d ≤ fromSecs (6 * 3600) ∧
      ∀ ts n, retryAfter = some ts → now = some n → n < ts →
        min (fromSecs (ts - n)) (fromSecs (6 * 3600)) ≤ d) ↔
    ∀ ts n, retryAfter = some ts → now = some n → ts - n + 5 ≤ u64Max := by
  refine ⟨fun ⟨d, hd, _⟩ => ?_, fun h => ?_⟩
  · by_contra hfar
    rw [Checked.pendingRetryDelay_panics hfar] at hd
    cases hd
  · refine ⟨_, Checked.pendingRetryDelay_eq h, pendingRetryDelay_le _ _ _, ?_⟩
    rintro ts n rfl rfl hahead
    exact le_pendingRetryDelay attempt hahead

/-- The last timestamp, when the clock is at the epoch. -/
theorem pending_retry_panics : ¬ ∀ (attempt : Nat) (retryAfter now : Option Nat),
    (∀ ts, retryAfter = some ts → ts ≤ u64Max) →
    ∃ d, Checked.pendingRetryDelay attempt retryAfter now = some d := by
  intro h
  obtain ⟨d, hd⟩ := h 0 (some u64Max) (some 0) fun ts e => by cases e; exact Nat.le_refl _
  have hp : Checked.pendingRetryDelay 0 (some u64Max) (some 0) = none := by decide
  rw [hp] at hd
  cases hd

end MessageRelayer

import MessageRelayer.Health
import MessageRelayer.Lib.Loop

/-!
# Loops and the probe

What the health probe makes of a loop that reports by its own clock: it is not
stale when its last report is recent (`Health.not_stale`), and then it is
degraded if and only if its successes are all overdue (`Health.degraded_iff`).

The clock of the loop and the clock of the reports differ by a constant,
`epoch`.
-/

namespace MessageRelayer

/-- The reports of a loop, as the registry dates them. -/
def beatsOf (epoch : SystemTime) (rs : List (Instant × Bool)) : List Beat :=
  rs.map fun r => ⟨nowUnixMs (epoch + r.1), r.2⟩

theorem mem_beatsOf (epoch : SystemTime) {rs : List (Instant × Bool)} {t : Instant} {ok : Bool}
    (h : (t, ok) ∈ rs) : ⟨nowUnixMs (epoch + t), ok⟩ ∈ beatsOf epoch rs := List.mem_map_of_mem h

/-- A report is within the deadline by the clock of the reports if it is by the loop's. -/
theorem within_of_le {epoch : SystemTime} {deadline : Duration} {r t : Instant}
    (hd : 10 ^ 6 ∣ deadline) (h : t ≤ r + deadline) :
    Within deadline (nowUnixMs (epoch + t)) (nowUnixMs (epoch + r)) := by
  obtain ⟨ms, rfl⟩ := hd
  have hto : (epoch + t).toNat ≤ (epoch + r).toNat + 10 ^ 6 * ms := by
    simp only [SystemTime, Instant] at *
    omega
  have hdiv : (epoch + t).toNat / 10 ^ 6 ≤ (epoch + r).toNat / 10 ^ 6 + ms := by
    rw [← Nat.add_mul_div_left _ _ (by decide)]
    exact Nat.div_le_div_right hto
  have hsub : nowUnixMs (epoch + t) - nowUnixMs (epoch + r) ≤ ms := by
    simp only [nowUnixMs]
    omega
  rw [Within, Nat.mul_comm]
  exact Nat.mul_le_mul_left _ hsub

section
variable {deadline : Duration} {calls : List (SystemTime × HealthCall)} {now : SystemTime}
  {name : String}

theorem beats_sorted (hm : (calls.map (·.1)).Pairwise (· ≤ ·)) :
    ((beats name calls).map (·.time)).Pairwise (· ≤ ·) := by
  rw [beats, List.pairwise_map, List.pairwise_filterMap]
  refine (List.pairwise_map.mp hm).imp fun hle b hb b' hb' => ?_
  rw [HealthCall.beat_time hb, HealthCall.beat_time hb']
  exact nowUnixMs_mono hle

/-- The two tests of the probe, on a worker that has reported by a clock that does not run
backwards. -/
theorem Health.judges (now : SystemTime) (hm : (calls.map (·.1)).Pairwise (· ≤ ·))
    (hr : beats name calls ≠ []) (order : Map.Iteration (Health.after deadline calls).components) :
    ∃ c : Component, c.Dated (beats name calls) ∧
      (name ∈ ((Health.after deadline calls).status now order).stale ↔
        ¬Within deadline (nowUnixMs now) c.lastOk ∧
          ¬(c.lastErr ≠ 0 ∧ Within deadline (nowUnixMs now) c.lastErr)) ∧
      (name ∈ ((Health.after deadline calls).status now order).degraded ↔
        ¬Within deadline (nowUnixMs now) c.lastOk ∧
          (c.lastErr ≠ 0 ∧ Within deadline (nowUnixMs now) c.lastErr)) := by
  obtain ⟨c, hc, hd⟩ := Health.after_dated deadline hm hr
  have hn : nowUnixMs now ≤ u64Max := Nat.min_le_right _ _
  have hover : okOverdue (after deadline calls).deadlineMs (nowUnixMs now) c = true ↔
      ¬Within deadline (nowUnixMs now) c.lastOk := by
    rw [within_iff hn, okOverdue, after_deadline, decide_eq_true_iff, Nat.not_le]
  have hrec : errRecent (after deadline calls).deadlineMs (nowUnixMs now) c = true ↔
      c.lastErr ≠ 0 ∧ Within deadline (nowUnixMs now) c.lastErr := by
    rw [within_iff hn, errRecent, after_deadline, Bool.and_eq_true, decide_eq_true_iff,
      decide_eq_true_iff]
  refine ⟨c, hd, ?_, ?_⟩
  · rw [mem_stale, hc, ← hrec, ← hover, Bool.not_eq_true]
    simp
  · rw [mem_degraded, hc, ← hrec, ← hover]
    simp

/-- A worker with a recent report of any kind is not stale. -/
theorem Health.not_stale (hm : (calls.map (·.1)).Pairwise (· ≤ ·))
    (order : Map.Iteration (Health.after deadline calls).components) {b : Beat}
    (hb : b ∈ beats name calls) (hw : Within deadline (nowUnixMs now) b.time) :
    name ∉ ((Health.after deadline calls).status now order).stale := by
  obtain ⟨c, hd, hs, -⟩ := Health.judges now hm (List.ne_nil_of_mem hb) order
  rw [hs, hd.silent]
  exact fun hall => hall b hb hw

end

/-- The last success is one, when there is any. -/
theorem lastSuccess_mem {rs : List Beat} (h : ∃ b ∈ rs, b.ok = true) :
    ∃ b ∈ rs, b.ok = true ∧ b.time = lastSuccess rs := by
  obtain ⟨b, hb, hok⟩ := h
  have hne : rs.filter (·.ok) ≠ [] := List.ne_nil_of_mem (List.mem_filter.mpr ⟨hb, hok⟩)
  obtain ⟨hmem, hlast⟩ := List.mem_filter.mp (List.getLast_mem hne)
  refine ⟨(rs.filter (·.ok)).getLast hne, hmem, hlast, ?_⟩
  rw [lastSuccess, List.getLast?_eq_some_getLast hne]

section
variable {deadline : Duration} {calls : List (SystemTime × HealthCall)} {now epoch : SystemTime}
  {name : String} {start r : Instant} {reports : List (Instant × Bool)} {ok : Bool}

/-- A loop that reported its start, and not while the clock read zero, is degraded if and only if its
successes are all overdue, when any of its reports is recent. -/
theorem Health.degraded_iff (hm : (calls.map (·.1)).Pairwise (· ≤ ·))
    (order : Map.Iteration (Health.after deadline calls).components)
    (hz : nowUnixMs (epoch + start) ≠ 0)
    (hb : beats name calls = beatsOf epoch ((start, true) :: reports))
    (hr : (r, ok) ∈ (start, true) :: reports)
    (hw : Within deadline (nowUnixMs now) (nowUnixMs (epoch + r))) :
    name ∈ ((Health.after deadline calls).status now order).degraded ↔
      ∀ r, (r, true) ∈ (start, true) :: reports →
        ¬Within deadline (nowUnixMs now) (nowUnixMs (epoch + r)) := by
  have hstart : (⟨nowUnixMs (epoch + start), true⟩ : Beat) ∈ beats name calls := by
    rw [hb]
    exact mem_beatsOf epoch List.mem_cons_self
  have hbeat : (⟨nowUnixMs (epoch + r), ok⟩ : Beat) ∈ beats name calls := by
    rw [hb]
    exact mem_beatsOf epoch hr
  obtain ⟨c, hd, -, hdeg⟩ := Health.judges now hm (List.ne_nil_of_mem hstart) order
  obtain ⟨last, hlast, hlastok, hlasteq⟩ := lastSuccess_mem ⟨_, hstart, rfl⟩
  have hsorted : ((beats name calls).map (·.time)).Pairwise (· ≤ ·) := beats_sorted hm
  have hpos : nowUnixMs (epoch + start) ≤ last.time := by
    rw [hb] at hlast hsorted
    rcases List.mem_cons.mp hlast with rfl | htail
    · exact Nat.le_refl _
    · exact (List.pairwise_cons.mp hsorted).1 _ (List.mem_map_of_mem htail)
  have hredated : ¬Redated deadline (beats name calls) (nowUnixMs now) := fun hr => by
    have hzero : lastSuccess (beats name calls) = 0 := hr.1
    omega
  rw [hdeg]
  refine ⟨fun ⟨hover, _⟩ r' hr' hw' => ?_, fun hall => ?_⟩
  · have hok : (⟨nowUnixMs (epoch + r'), true⟩ : Beat) ∈ beats name calls := by
      rw [hb]
      exact mem_beatsOf epoch hr'
    exact hover (hw'.mono (hd.ok_le _ hok rfl))
  · have hover : ¬Within deadline (nowUnixMs now) c.lastOk := by
      rw [hd.overdue hredated, ← hlasteq]
      rw [hb] at hlast
      obtain ⟨⟨r', ok'⟩, hr', rfl⟩ := List.mem_map.mp hlast
      obtain rfl : ok' = true := hlastok
      exact hall r' hr'
    have hno : ok = false := by
      by_contra hok
      rw [Bool.not_eq_false] at hok
      exact hall r (hok ▸ hr) hw
    exact ⟨hover, (hd.recent hover).mpr ⟨_, hbeat, hno, hw⟩⟩

end

end MessageRelayer

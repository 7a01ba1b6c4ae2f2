import MessageRelayer.Pool.Quorum

/-!
# Invalid votes

A vote that fails validation on its route (`State.Rejects`) leaves the state
of the pool as it is and returns no job, whether its message is indexed or
not. So a run in which such votes arrive, at any points, is a run without
them, with the same states and the same jobs (`invalid_votes_inert`).
-/

namespace MessageRelayer

variable {ecrecover : Ecrecover}

/-- The vote fails validation: its claimed signer is not an attestor of the route, or its signature
is not canonical, recovers to nobody, or recovers to someone else. -/
def RouteState.Rejects (ecrecover : Ecrecover) (route : RouteState) (vote : MessageVote) : Prop :=
  vote.signer ∉ route.attestors ∨ ¬ Canonical vote.signature ∨
    (∃ e, ecrecover vote.messageId vote.signature = .error e) ∨
    ∃ a, ecrecover vote.messageId vote.signature = .ok a ∧ a ≠ vote.signer

/-- The vote fails validation on its route, or there is no such route. -/
def State.Rejects (ecrecover : Ecrecover) (s : State) (vote : MessageVote) : Prop :=
  ∀ route : RouteState, s.byRoute[vote.chainKey]? = some route → route.Rejects ecrecover vote

/-- A valid vote is one by an attestor with a verified signature. -/
theorem RouteState.voter_iff {route : RouteState} {hash : B256} {vote : MessageVote} {a : Address} :
    route.voter ecrecover hash vote = some a ↔
      a = vote.signer ∧ a ∈ route.attestors ∧ Verified ecrecover hash a vote.signature := by
  constructor
  · intro h
    refine ⟨?_, voter_some h⟩
    unfold voter at h
    split at h
    · cases h
    · split at h
      · cases h
      · split at h
        · cases h
        · rename_i hne
          rw [not_not] at hne
          rw [← Option.some.inj h, hne]
  · rintro ⟨rfl, hm, hv⟩
    have hc : ¬ (sigV vote.signature ≠ 27 ∧ sigV vote.signature ≠ 28) := fun hc =>
      hv.canonical.1.elim hc.1 hc.2
    have hs : ¬ sigS vote.signature > beNat secp256k1HalfOrderBe := Nat.not_lt.mpr hv.canonical.2
    simp [voter, recoverSigner, hm, hc, hs, hv.recovers]

theorem RouteState.voter_rejected {route : RouteState} {vote : MessageVote}
    (h : route.Rejects ecrecover vote) : route.voter ecrecover vote.messageId vote = none := by
  cases hv : route.voter ecrecover vote.messageId vote with
  | none => rfl
  | some a =>
    exfalso
    obtain ⟨rfl, hm, hs⟩ := voter_iff.mp hv
    rcases h with h | h | ⟨e, h⟩ | ⟨a, h, hne⟩
    · exact h hm
    · exact h hs.canonical
    · rw [hs.recovers] at h
      cases h
    · rw [hs.recovers] at h
      exact hne (Except.ok.inj h).symm

theorem RouteState.noteVote_rejected {route : RouteState} {vote : MessageVote}
    (h : route.Rejects ecrecover vote) (chainKey : ChainKey) (now : Instant) :
    route.noteVote ecrecover chainKey vote now = (route, none) := by
  have hv := voter_rejected h
  unfold noteVote
  dsimp only
  split
  · rw [bufferEarlyVote, hv]
  · split
    · rfl
    · rw [hv]

/-- A vote that fails validation changes nothing. -/
theorem State.noteVote_rejected {s : State} {vote : MessageVote} (h : s.Rejects ecrecover vote)
    (now : Instant) : s.noteVote ecrecover vote now = (s, none) := by
  unfold noteVote onRoute
  split
  · rfl
  · rename_i route hr
    dsimp only
    rw [RouteState.noteVote_rejected (h route hr), Map.insert_get hr]

/-! ## Runs -/

/-- An operation of the pool, which is marked when it is an inserted vote that fails validation. -/
inductive PaddedStep (ecrecover : Ecrecover) :
    State → Bool × PoolOp × List DeliveryJob → State → Prop where
  | own {s t : State} {a : PoolOp × List DeliveryJob} (h : PoolStep ecrecover s a t) :
      PaddedStep ecrecover s (false, a) t
  | inserted {s t : State} {vote : MessageVote} {now : Instant} {jobs : List DeliveryJob}
      (hv : s.Rejects ecrecover vote) (h : PoolStep ecrecover s (.noteVote vote now, jobs) t) :
      PaddedStep ecrecover s (true, .noteVote vote now, jobs) t

/-- The operations of a run without the insertions. -/
def ownSteps (l : List (Bool × PoolOp × List DeliveryJob)) : List (PoolOp × List DeliveryJob) :=
  (l.filter fun a => !a.1).map (·.2)

theorem PoolStep.noteVote_rejected {s t : State} {vote : MessageVote} {now : Instant}
    {jobs : List DeliveryJob} (hv : s.Rejects ecrecover vote)
    (h : PoolStep ecrecover s (.noteVote vote now, jobs) t) : t = s ∧ jobs = [] := by
  have hn := State.noteVote_rejected hv now
  cases h with
  | apply => simp only [PoolOp.apply, hn, Option.toList_none, and_self]

/-- A run with insertions is one without them, to the same state and with the same jobs, and the
insertions return none; and they can be made anywhere in a run. -/
theorem invalid_votes_inert {s t : State} :
    (∀ l, Run (PaddedStep ecrecover) s l t →
      Run (PoolStep ecrecover) s (ownSteps l) t ∧ ∀ a ∈ l, a.1 = true → a.2.2 = []) ∧
    ∀ l₁ l₂ m vote now, Run (PoolStep ecrecover) s l₁ m → Run (PoolStep ecrecover) m l₂ t →
      m.Rejects ecrecover vote →
      Run (PoolStep ecrecover) s (l₁ ++ (.noteVote vote now, []) :: l₂) t := by
  refine ⟨fun l h => ?_, fun l₁ l₂ m vote now h₁ h₂ hv => ?_⟩
  · induction h with
    | nil => exact ⟨.nil, fun _ ha => absurd ha List.not_mem_nil⟩
    | @snoc m t l a _ ha ih =>
      obtain ⟨hr, hj⟩ := ih
      rw [ownSteps, List.filter_append, List.map_append]
      cases ha with
      | own h =>
        refine ⟨.snoc hr h, fun b hb hf => ?_⟩
        rcases List.mem_append.mp hb with hb | hb
        · exact hj b hb hf
        · rw [List.mem_singleton.mp hb] at hf
          cases hf
      | inserted hv h =>
        obtain ⟨rfl, rfl⟩ := PoolStep.noteVote_rejected hv h
        refine ⟨by simpa [ownSteps] using hr, fun b hb hf => ?_⟩
        rcases List.mem_append.mp hb with hb | hb
        · exact hj b hb hf
        · rw [List.mem_singleton.mp hb]
  · have hn := State.noteVote_rejected hv now
    have hs : PoolStep ecrecover m (.noteVote vote now, []) m := by
      have hs : PoolStep ecrecover m
          (.noteVote vote now, ((PoolOp.noteVote vote now).apply ecrecover m).2)
          ((PoolOp.noteVote vote now).apply ecrecover m).1 := .apply nofun
      simpa only [PoolOp.apply, hn, Option.toList_none] using hs
    rw [← List.singleton_append, ← List.append_assoc]
    exact (Run.snoc h₁ hs).append h₂

/-- A vote that 9 signed, in the name of 8. -/
def forgedVote : MessageVote := { sampleVote with signer := 8 }

theorem invalid_votes_inert_forged : Run (PoolStep fun _ _ => .ok 9) sampleIndexed []
    ((PoolOp.noteVote forgedVote 2).apply (fun _ _ => .ok 9) sampleIndexed).1 := by
  have hv : sampleIndexed.Rejects (fun _ _ => .ok 9) forgedVote := fun _ _ =>
    .inr (.inr (.inr ⟨9, rfl, by decide⟩))
  have hs : PaddedStep (fun _ _ => .ok 9) sampleIndexed (true, .noteVote forgedVote 2, _) _ :=
    .inserted hv (.apply nofun)
  exact (invalid_votes_inert.1 _ (.single hs)).1

end MessageRelayer

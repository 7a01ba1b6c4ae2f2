import MessageRelayer.SetUpdate.State

/-!
# Runs of the set-update aggregator

Refreshes and votes in any order (`Step`), whatever the node answers. What a
vote does to its route is said once, by cases (`Noted`), and so is what a step
does (`Step.route`).
-/

namespace MessageRelayer.SetUpdate

open Prog

variable {crypto : Crypto}

/-! ## Steps -/

abbrev Submits := Said SubmitCall SubmitCall.Answer
abbrev Calls := Said RpcCall RpcCall.Answer

/-- Submissions, with the calls on the node that they make; the node answers anything. -/
def submitEnv (crypto : Crypto) : Env SubmitCall SubmitCall.Answer (Submits × Calls) :=
  fun w c a w' => w'.1 = w.1 ++ [⟨c, a⟩] ∧ Exec heard (c.body crypto) w.2 w'.2 a

/-- What `verify_vote` says of a vote. -/
def States.verified (crypto : Crypto) (states : States) (vote : SetUpdateVote) :
    Option (List Address × B256 × Address) :=
  states[vote.chainKey]?.bind fun state => state.verified crypto vote

inductive Label where
  | refreshed (chainKey : ChainKey) (view : OnChain)
  | refreshFailed (chainKey : ChainKey)
  /-- With what `verify_vote` says, the submissions and the calls on the node. -/
  | voted (vote : SetUpdateVote) (verified : Option (List Address × B256 × Address))
      (submits : Submits) (calls : Calls)

/-- A turn of `run`. -/
inductive Step (crypto : Crypto) : States → Label → States → Prop where
  | refreshed {states : States} {chainKey : ChainKey} {state state' : RouteState} {view : OnChain}
      {calls : Calls} (hs : states[chainKey]? = some state)
      (hx : Exec heard (refresh state).run [] calls (.ok state')) (hv : state'.current = some view) :
      Step crypto states (.refreshed chainKey view) (states.insert chainKey state')
  | refreshFailed {states : States} {chainKey : ChainKey} {state : RouteState} {e : Error}
      {calls : Calls} (hs : states[chainKey]? = some state)
      (hx : Exec heard (refresh state).run [] calls (.error e)) :
      Step crypto states (.refreshFailed chainKey) states
  | voted {states states' : States} {vote : SetUpdateVote} {submits : Submits} {calls : Calls}
      (hx : Exec (submitEnv crypto) (handleVote crypto states vote) ([], []) (submits, calls) states') :
      Step crypto states (.voted vote (states.verified crypto vote) submits calls) states'

/-! ## Refreshes -/

theorem RouteState.refreshed_current (state : RouteState) (view : OnChain) :
    (state.refreshed view).current = some view := by
  unfold refreshed; split <;> rfl

/-- A view with the nonce of the last one, or the first view, keeps what was collected. -/
theorem RouteState.refreshed_same {state : RouteState} {view : OnChain}
    (h : ∀ c, state.current = some c → c.nonce = view.nonce) :
    state.refreshed view = { state with current := some view } := by
  unfold refreshed
  rw [if_neg]
  cases hc : state.current with
  | none => simp
  | some c => simp [h c hc]

/-- Another view drops it. -/
theorem RouteState.refreshed_other {state : RouteState} {view c : OnChain}
    (hc : state.current = some c) (h : c.nonce ≠ view.nonce) :
    state.refreshed view = { state with current := some view, votes := ∅, inFlight := [] } := by
  unfold refreshed
  rw [if_pos (by simp [hc, h])]

theorem refresh_ok {state state' : RouteState} {calls calls' : Calls}
    (h : Exec heard (refresh state).run calls calls' (.ok state')) :
    ∃ view, state' = state.refreshed view := by
  have hw : wp heard (refresh state).run calls fun _ r => ∀ state', r = .ok state' →
      ∃ view, state' = state.refreshed view := by
    rw [refresh, wp_run_bind]
    refine wp_iff.mpr fun w r _ => ?_
    cases r with
    | error => exact fun state' e => by cases e
    | ok view => exact fun state' e => by cases e; exact ⟨view, rfl⟩
  exact h.post hw state' rfl

/-- Any view can be read whose numbers have their widths. -/
theorem refresh_reads (state : RouteState) (attestors : List Address) {threshold : Nat}
    (ht : threshold ≤ u64Max) (nonce : B256) (chainId : Nat) :
    ∃ calls, Exec heard (refresh state).run [] calls
      (.ok (state.refreshed ⟨attestors, threshold, nonce, .ofNat 256 chainId⟩)) := by
  have hm : min (BitVec.ofNat 256 threshold).toNat u64Max = threshold := by
    rw [BitVec.toNat_ofNat, Nat.mod_eq_of_lt (Nat.lt_of_le_of_lt ht (by decide)), Nat.min_eq_left ht]
  have h : Exec heard (refresh state).run [] _
      (.ok (state.refreshed ⟨attestors, min (BitVec.ofNat 256 threshold).toNat u64Max, nonce,
        .ofNat 256 chainId⟩)) :=
    .ask (a := (Except.ok () : Except String Unit)) rfl <|
      .ask (a := (Except.ok attestors : Except String (List Address))) rfl <|
      .ask (a := (Except.ok (.ofNat 256 threshold) : Except String B256)) rfl <|
      .ask (a := (Except.ok nonce : Except String B256)) rfl <|
      .ask (a := (Except.ok chainId : Except String Nat)) rfl (by exact .ret)
  exact ⟨_, hm ▸ h⟩

/-! ## Votes -/

/-- What a verified vote says. -/
theorem verifyVote_some {vote : SetUpdateVote} {validator : Address} {current : OnChain}
    {canonical : List Address} {digest : B256} {signer : Address}
    (h : verifyVote crypto vote validator current = some (canonical, digest, signer)) :
    canonical = canonicalAttestorOrder vote.newAttestors ∧
      digest = attestorSetUpdateDigest crypto.keccak256 validator canonical current.chainId
        current.nonce ∧
      signer ∈ current.attestors ∧ Verified crypto.ecrecover digest signer vote.signature := by
  unfold verifyVote at h
  split at h
  · cases h
  · rename_i hn
    dsimp only at h
    split at h
    · cases h
    · rename_i signer' hr
      split at h
      · rename_i hm
        cases h
        rw [Decidable.not_not.mp hn] at hr ⊢
        exact ⟨rfl, rfl, by simpa using hm, recoverSigner_ok hr⟩
      · cases h

/-- What a vote does to the state of its route, and what it submits. -/
inductive Noted (crypto : Crypto) (state : RouteState) (vote : SetUpdateVote) :
    RouteState → Option Submission → Prop where
  | dropped (h : state.verified crypto vote = none) : Noted crypto state vote state none
  /-- A transaction for the update was sent already. -/
  | marked {canonical : List Address} {digest : B256} {signer : Address}
      (h : state.verified crypto vote = some (canonical, digest, signer))
      (hm : digest ∈ state.inFlight) : Noted crypto state vote state none
  | stored {current : OnChain} {canonical : List Address} {digest : B256} {signer : Address}
      (hc : state.current = some current)
      (h : state.verified crypto vote = some (canonical, digest, signer))
      (hm : digest ∉ state.inFlight)
      (hs : (state.slot digest).contains signer = true ∨
        ((state.slot digest).insert signer vote.signature).size < current.threshold) :
      Noted crypto state vote
        { state with
          votes := state.votes.insert digest ((state.slot digest).insert signer vote.signature) } none
  | reached {current : OnChain} {canonical : List Address} {digest : B256} {signer : Address}
      (hc : state.current = some current)
      (h : state.verified crypto vote = some (canonical, digest, signer))
      (hm : digest ∉ state.inFlight) (hn : (state.slot digest).contains signer = false)
      (hs : current.threshold ≤ ((state.slot digest).insert signer vote.signature).size) :
      Noted crypto state vote
        { state with
          votes := state.votes.erase digest
          inFlight := digest :: state.inFlight }
        (some
          { digest, newAttestors := canonical,
            signatures := Map.vals ((state.slot digest).insert signer vote.signature) })

theorem RouteState.note_cases (state : RouteState) (vote : SetUpdateVote) :
    Noted crypto state vote (state.note crypto vote).1 (state.note crypto vote).2 := by
  rw [note]
  split
  · rename_i hc
    exact .dropped (by rw [verified, hc]; rfl)
  · rename_i current hc
    have hv : state.verified crypto vote = verifyVote crypto vote state.validator current := by
      rw [verified, hc]; rfl
    split
    · rename_i h
      exact .dropped (hv.trans h)
    · rename_i canonical digest signer h
      split
      · rename_i hm
        exact .marked (hv.trans h) (by simpa using hm)
      · rename_i hm
        have hm : digest ∉ state.inFlight := by simpa using hm
        dsimp only
        split
        · rename_i hs
          exact .stored hc (hv.trans h) hm (by simpa using hs)
        · rename_i hs
          rw [Bool.or_eq_true, not_or, decide_eq_true_iff] at hs
          exact .reached hc (hv.trans h) hm (Bool.eq_false_iff.mpr hs.1) (Nat.le_of_not_lt hs.2)

/-- What a vote does to the routes. -/
inductive Voted (crypto : Crypto) (s : States) (vote : SetUpdateVote) :
    Submits → Calls → States → Prop where
  | unknown (h : s[vote.chainKey]? = none) : Voted crypto s vote [] [] s
  | noted {state state' : RouteState} (hs : s[vote.chainKey]? = some state)
      (hn : Noted crypto state vote state' none) :
      Voted crypto s vote [] [] (s.insert vote.chainKey state')
  | submitted {state state' : RouteState} {submission : Submission} {a : Except Error Unit}
      {calls : Calls} (hs : s[vote.chainKey]? = some state)
      (hn : Noted crypto state vote state' (some submission))
      (hx : Exec heard (submit crypto state' submission).run [] calls a) :
      Voted crypto s vote [⟨.submit state' submission, a⟩] calls
        (s.insert vote.chainKey (state'.submitted submission.digest a))

theorem Step.voted_cases {s t : States} {vote : SetUpdateVote}
    {verified : Option (List Address × B256 × Address)} {submits : Submits} {calls : Calls}
    (h : Step crypto s (.voted vote verified submits calls) t) :
    verified = s.verified crypto vote ∧ Voted crypto s vote submits calls t := by
  cases h with
  | voted hx =>
    refine ⟨rfl, ?_⟩
    unfold handleVote at hx
    split at hx
    · rename_i hs
      cases hx
      exact .unknown hs
    · rename_i state hs
      have hn : Noted crypto state vote _ _ := state.note_cases vote
      split at hx
      · rename_i state' e
        rw [e] at hn
        cases hx
        exact .noted hs hn
      · rename_i state' submission e
        rw [e] at hn
        obtain ⟨⟨submits', calls'⟩, a, ha, hx⟩ := hx.of_bind
        cases hx
        cases ha with
        | ask ha hx =>
          cases hx
          obtain ⟨rfl, hb⟩ := ha
          exact .submitted hs hn hb

end MessageRelayer.SetUpdate

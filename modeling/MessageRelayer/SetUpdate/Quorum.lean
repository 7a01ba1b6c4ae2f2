import MessageRelayer.SetUpdate.Steps

/-!
# The quorum of a set update

What the aggregator collects for an update over a run of refreshes and votes.
What is stored is always verified (`RouteState.Sound`); that it comes from
attestors of the view that is held (`RouteState.Members`), and that less than
a quorum of it waits (`RouteState.Open`), is kept by votes, but not by every
refresh: a view with the nonce of the last one keeps all that is stored, even
where its attestors or its threshold have changed. The results are for the
runs whose refreshes keep it, `set_update_bundle_sound` and
`no_quorum_overlooked`; a sample run after each shows what happens in others.
-/

namespace MessageRelayer.SetUpdate

open Prog

variable {crypto : Crypto}

/-! ## Slots -/

theorem RouteState.slot_of {state : RouteState} {digest : B256} {slot : Slot}
    (h : state.votes[digest]? = some slot) : state.slot digest = slot := by
  rw [RouteState.slot, h, Option.getD_some]

theorem RouteState.slot_contains {state : RouteState} {digest : B256} {signer : Address}
    (h : (state.slot digest).contains signer = true) :
    state.votes[digest]? = some (state.slot digest) := by
  cases hs : state.votes[digest]? with
  | some slot => rw [RouteState.slot_of hs]
  | none =>
    rw [RouteState.slot, hs, Option.getD_none] at h
    simp at h

/-- The attestors of the view that is held whose signature is stored for an update. -/
def RouteState.holders (state : RouteState) (current : OnChain) (digest : B256) : List Address :=
  (state.slot digest).keys.filter current.attestors.contains

theorem RouteState.length_holders (state : RouteState) (current : OnChain) (digest : B256) :
    (state.holders current digest).length ≤ (state.slot digest).size := by
  rw [← Std.ExtTreeMap.length_keys]
  exact List.length_filter_le ..

/-- What is stored for every update fits the view that is held. -/
def RouteState.Fits (P : OnChain → Slot → Prop) (state : RouteState) : Prop :=
  ∀ (digest : B256) (slot : Slot), state.votes[digest]? = some slot →
    ∃ current, state.current = some current ∧ P current slot

/-- What is stored fits a new view too, unless the view's nonce is another. -/
def RouteState.FitsView (P : OnChain → Slot → Prop) (state : RouteState) (view : OnChain) : Prop :=
  ∀ current, state.current = some current → current.nonce = view.nonce →
    ∀ (digest : B256) (slot : Slot), state.votes[digest]? = some slot → P view slot

theorem RouteState.Fits.refreshed {P : OnChain → Slot → Prop} {state : RouteState} {view : OnChain}
    (h : state.Fits P) (hv : state.FitsView P view) : (state.refreshed view).Fits P := by
  intro digest slot hs
  refine ⟨view, state.refreshed_current view, ?_⟩
  cases hc : state.current with
  | none =>
    rw [RouteState.refreshed_same (by simp [hc])] at hs
    obtain ⟨current, hc', -⟩ := h digest slot hs
    rw [hc] at hc'; cases hc'
  | some current =>
    by_cases hn : current.nonce = view.nonce
    · rw [RouteState.refreshed_same (by simp [hc, hn])] at hs
      exact hv current hc hn digest slot hs
    · rw [RouteState.refreshed_other hc hn] at hs
      simp at hs

/-! ## What is kept of every route -/

def States.All (I : RouteState → Prop) (s : States) : Prop :=
  ∀ (chainKey : ChainKey) (state : RouteState), s[chainKey]? = some state → I state

theorem States.All.insert {I : RouteState → Prop} {s : States} (h : s.All I) {chainKey : ChainKey}
    {state : RouteState} (hs : I state) : States.All I (Std.ExtTreeMap.insert s chainKey state) := by
  intro c st hc
  rw [Map.get_insert] at hc
  split at hc
  · cases hc; exact hs
  · exact h c st hc

theorem startStates_all {I : RouteState → Prop} (h : ∀ validator signerKey destRpcUrl,
    I { validator, signerKey, destRpcUrl, current := none, votes := ∅, inFlight := [] })
    (routes : List ChainRoute) : (startStates routes).All I := by
  refine List.foldlRecOn routes _ (fun c st hc => by simp at hc) fun s hs route _ => ?_
  split
  · exact hs.insert (h _ _ _)
  · exact hs

/-- A refresh step is one that `P` allows in the state of its route. -/
def Label.Allows (P : RouteState → OnChain → Prop) (s : States) : Label → Prop
  | refreshed chainKey view => ∀ state, s[chainKey]? = some state → P state view
  | refreshFailed _ | voted .. => True

/-- What refreshes, votes and submissions keep of a route, a step keeps of all. -/
theorem Step.all {I : RouteState → Prop} {P : RouteState → OnChain → Prop} {s t : States} {e : Label}
    (hr : ∀ state view, P state view → I state → I (state.refreshed view))
    (hv : ∀ state vote state' submission, Noted crypto state vote state' submission → I state →
      I state')
    (hd : ∀ state digest a, I state → I (state.submitted digest a))
    (h : Step crypto s e t) (hp : e.Allows P s) (hs : s.All I) : t.All I := by
  cases h with
  | refreshed hs' hx hc =>
    obtain ⟨view', rfl⟩ := refresh_ok hx
    rw [RouteState.refreshed_current] at hc
    obtain rfl := Option.some.inj hc
    exact hs.insert (hr _ _ (hp _ hs') (hs _ _ hs'))
  | refreshFailed => exact hs
  | voted hx =>
    cases (Step.voted hx).voted_cases.2 with
    | unknown => exact hs
    | noted hs' hn => exact hs.insert (hv _ _ _ _ hn (hs _ _ hs'))
    | submitted hs' hn => exact hs.insert (hd _ _ _ (hv _ _ _ _ hn (hs _ _ hs')))

theorem RouteState.submitted_votes (state : RouteState) (digest : B256) (a : Except Error Unit) :
    (state.submitted digest a).votes = state.votes ∧
      (state.submitted digest a).current = state.current := by
  cases a <;> exact ⟨rfl, rfl⟩

/-- Votes keep that what is stored fits the view, where every slot that a vote is stored in does. -/
theorem Noted.fits {P : OnChain → Slot → Prop} {state state' : RouteState} {vote : SetUpdateVote}
    {submission : Option Submission} (h : Noted crypto state vote state' submission)
    (hf : state.Fits P) (hP : ∀ current canonical digest signer, state.current = some current →
      state.verified crypto vote = some (canonical, digest, signer) →
      ((state.slot digest).contains signer = true ∨
        ((state.slot digest).insert signer vote.signature).size < current.threshold) →
      P current ((state.slot digest).insert signer vote.signature)) : state'.Fits P := by
  cases h with
  | dropped | marked => exact hf
  | stored hc h hm hs =>
    intro digest slot hd
    rw [Map.get_insert] at hd
    split at hd
    · cases hd; exact ⟨_, hc, hP _ _ _ _ hc h hs⟩
    · exact hf digest slot hd
  | reached =>
    intro digest slot hd
    rw [Map.get_erase] at hd
    split at hd
    · cases hd
    · exact hf digest slot hd

/-! ## What is stored is verified -/

/-- Each stored signature is its signer's, for the update that it is stored for. -/
def RouteState.Sound (crypto : Crypto) (state : RouteState) : Prop :=
  ∀ (digest : B256) (slot : Slot), state.votes[digest]? = some slot → AllVerified crypto.ecrecover digest slot

theorem RouteState.Sound.slot {state : RouteState} (h : state.Sound crypto) (digest : B256) :
    AllVerified crypto.ecrecover digest (state.slot digest) := by
  cases hs : state.votes[digest]? with
  | some slot => rw [RouteState.slot_of hs]; exact h digest slot hs
  | none =>
    rw [RouteState.slot, hs, Option.getD_none]
    exact fun a raw ha => by simp at ha

theorem RouteState.verified_some {state : RouteState} {current : OnChain} {vote : SetUpdateVote}
    {canonical : List Address} {digest : B256} {signer : Address}
    (hc : state.current = some current)
    (h : state.verified crypto vote = some (canonical, digest, signer)) :
    verifyVote crypto vote state.validator current = some (canonical, digest, signer) := by
  rwa [RouteState.verified, hc, Option.bind_some] at h

theorem Noted.sound {state state' : RouteState} {vote : SetUpdateVote}
    {submission : Option Submission} (h : Noted crypto state vote state' submission)
    (hs : state.Sound crypto) : state'.Sound crypto := by
  cases h with
  | dropped | marked => exact hs
  | stored hc h hm _ =>
    intro digest slot hd
    rw [Map.get_insert] at hd
    split at hd
    · rename_i e
      cases hd; cases e
      exact (hs.slot _).insert (verifyVote_some (RouteState.verified_some hc h)).2.2.2
    · exact hs digest slot hd
  | reached =>
    intro digest slot hd
    rw [Map.get_erase] at hd
    split at hd
    · cases hd
    · exact hs digest slot hd

theorem RouteState.Sound.refreshed {state : RouteState} (h : state.Sound crypto) (view : OnChain) :
    (state.refreshed view).Sound crypto := by
  intro digest slot hs
  cases hc : state.current with
  | none =>
    rw [RouteState.refreshed_same (by simp [hc])] at hs
    exact h digest slot hs
  | some current =>
    by_cases hn : current.nonce = view.nonce
    · rw [RouteState.refreshed_same (by simp [hc, hn])] at hs
      exact h digest slot hs
    · rw [RouteState.refreshed_other hc hn] at hs
      simp at hs

/-! ## The bundle of a submission -/

/-- The validator, the new attestors and the votes of a call that submits them. -/
def RpcCall.bundle : RpcCall → Option (Address × List Address × Bytes)
  | simulate validator newAttestors calldata | broadcast _ validator newAttestors calldata =>
    some (validator, newAttestors, calldata)
  | connect _ | attestors _ | threshold _ | attestorSetUpdateNonce _ | getChainId => none

@[simp] theorem wp_orFail {α W : Type} {H : Env RpcCall RpcCall.Answer W} (context : Error)
    (r : Except String α) (w : W) (Q : W → Except Error α → Prop) :
    wp H (orFail context r).run w Q ↔
      match r with
      | .ok a => Q w (.ok a)
      | .error e => Q w (.error (context ++ [e])) := by
  cases r <;> exact Iff.rfl

/-- A call of a submission that ended with `a`: it simulates and broadcasts its own bundle, and it
succeeds just if its broadcast did. -/
structure Submission.Made (submission : Submission) (state : RouteState) (a : Except Error Unit)
    (x : (e : RpcCall) × e.Answer) : Prop where
  bundle : ∀ b, x.1.bundle = some b →
    b = (state.validator, submission.newAttestors, encodeVotes submission.signatures)
  sent : ∀ submitter validator newAttestors calldata b,
    x = ⟨.broadcast submitter validator newAttestors calldata, b⟩ →
    ((∃ txHash, b = .sent txHash) ↔ a = .ok ())

theorem submit_calls {state : RouteState} {submission : Submission} {calls : Calls}
    {a : Except Error Unit} (h : Exec heard (submit crypto state submission).run [] calls a) :
    ∀ x ∈ calls, submission.Made state a x := by
  revert h
  suffices hw : wp heard (submit crypto state submission).run [] fun calls a =>
      ∀ x ∈ calls, submission.Made state a x from fun h => h.post hw
  have hc : ∀ (a : Except Error Unit) b, submission.Made state a ⟨.connect state.destRpcUrl, b⟩ :=
    fun _ _ => ⟨fun _ h => (by cases h), fun _ _ _ _ _ h => (by cases h)⟩
  have hs : ∀ (a : Except Error Unit) b, submission.Made state a
      ⟨.simulate state.validator submission.newAttestors (encodeVotes submission.signatures), b⟩ :=
    fun _ _ => ⟨fun _ h => (by cases h; rfl), fun _ _ _ _ _ h => (by cases h)⟩
  rw [submit]
  simp only [wp_run_bind, wp_orFail]
  cases crypto.signerOf state.signerKey with
  | error e => simp
  | ok submitter =>
    simp only [wp_run_lift, wp_call, heard_iff]
    rintro (e | _) _ rfl
    · simp [hc]
    rintro (e | _) _ rfl
    · simp [hc, hs]
    rintro b _ rfl
    have hb : ∀ a : Except Error Unit, ((∃ txHash, b = .sent txHash) ↔ a = .ok ()) →
        submission.Made state a ⟨.broadcast submitter state.validator submission.newAttestors
          (encodeVotes submission.signatures), b⟩ :=
      fun a ha => ⟨fun _ h => (by cases h; rfl), fun _ _ _ _ _ h => (by cases h; exact ha)⟩
    cases b with
    | stalled reason => simp [hc, hs, hb]
    | failed err => simp [hc, hs, hb]
    | sent txHash => simp [hc, hs, hb]

/-! ## What is stored comes from attestors -/

/-- Every stored signer is an attestor. -/
def AllHeld (current : OnChain) (slot : Slot) : Prop := AllMembers current.attestors slot

/-- A view with a threshold, whose attestors, if its nonce is the last one, include every signer that
is stored. -/
def KeepsMembers (state : RouteState) (view : OnChain) : Prop :=
  0 < view.threshold ∧ state.FitsView AllHeld view

/-- What is kept of a route whose views keep its members. -/
structure RouteState.Vouched (crypto : Crypto) (state : RouteState) : Prop where
  sound : state.Sound crypto
  members : state.Fits AllHeld
  threshold : ∀ current, state.current = some current → 0 < current.threshold

theorem AllHeld.insert {state : RouteState} {current : OnChain} {vote : SetUpdateVote}
    {canonical : List Address} {digest : B256} {signer : Address} (hm : state.Fits AllHeld)
    (hc : state.current = some current)
    (h : state.verified crypto vote = some (canonical, digest, signer)) :
    AllHeld current ((state.slot digest).insert signer vote.signature) := by
  refine AllMembers.insert (fun a raw ha => ?_)
    (verifyVote_some (RouteState.verified_some hc h)).2.2.1
  have hs := RouteState.slot_contains (Map.contains_iff.mpr ⟨raw, ha⟩)
  obtain ⟨current', hc', hh⟩ := hm digest _ hs
  obtain rfl := Option.some.inj (hc.symm.trans hc')
  exact hh a raw ha

theorem Step.vouched {s t : States} {e : Label} (h : Step crypto s e t)
    (hp : e.Allows KeepsMembers s) (hs : s.All (RouteState.Vouched crypto)) :
    t.All (RouteState.Vouched crypto) := by
  refine h.all (fun state view hk hi => ?_) (fun state vote state' submission hn hi => ?_)
    (fun state digest a hi => ?_) hp hs
  · refine ⟨hi.sound.refreshed view, hi.members.refreshed hk.2, fun current hc => ?_⟩
    rw [RouteState.refreshed_current] at hc
    obtain rfl := Option.some.inj hc
    exact hk.1
  · refine ⟨hn.sound hi.sound, hn.fits hi.members fun _ _ _ _ hc h _ => ?_, ?_⟩
    · exact AllHeld.insert hi.members hc h
    · cases hn <;> exact hi.threshold
  · cases a <;> exact ⟨hi.sound, hi.members, hi.threshold⟩

/-- The bundle of a set update is one that the view that is held accepts: the canonical signatures of
distinct attestors, as many as its threshold, which is not 0, over the digest of the canonical new
set. -/
def States.Accepts (crypto : Crypto) (s : States) (vote : SetUpdateVote)
    (b : Address × List Address × Bytes) : Prop :=
  ∃ state current, s[vote.chainKey]? = some state ∧ state.current = some current ∧
    b.1 = state.validator ∧ b.2.1 = canonicalAttestorOrder vote.newAttestors ∧
    b.2.1.Pairwise (· < ·) ∧ 0 < current.threshold ∧
    ∃ votes : List (Address × RawSignature), b.2.2 = encodeVotes (votes.map (·.2)) ∧
      current.threshold ≤ votes.length ∧ (votes.map (·.1)).Nodup ∧
      ∀ v ∈ votes, v.1 ∈ current.attestors ∧ Canonical v.2 ∧
        crypto.ecrecover (attestorSetUpdateDigest crypto.keccak256 state.validator b.2.1
          current.chainId current.nonce) v.2 = .ok v.1

theorem vouched_run {routes : List ChainRoute} {l : List Label} {s : States}
    (hr : Run (fun s e t => Step crypto s e t ∧ e.Allows KeepsMembers s) (startStates routes) l s) :
    s.All (RouteState.Vouched crypto) :=
  hr.inv (fun _ _ _ h => h.1.vouched h.2)
    (startStates_all (fun _ _ _ => ⟨fun d slot h => by simp at h, fun d slot h => by simp at h,
      fun _ h => by cases h⟩) routes)

/-- In a run whose refreshes keep the members, a set update that is simulated or broadcast carries a
bundle that the view that is held accepts. -/
theorem set_update_bundle_sound {routes : List ChainRoute} {l : List Label} {s t : States}
    (hr : Run (fun s e t => Step crypto s e t ∧ e.Allows KeepsMembers s) (startStates routes) l s)
    {vote : SetUpdateVote} {verified : Option (List Address × B256 × Address)} {submits : Submits}
    {calls : Calls} (hs : Step crypto s (.voted vote verified submits calls) t)
    {x : (e : RpcCall) × e.Answer} (hx : x ∈ calls) {b : Address × List Address × Bytes}
    (hb : x.1.bundle = some b) : s.Accepts crypto vote b := by
  have hi := vouched_run hr
  cases hs.voted_cases.2 with
  | unknown | noted => exact absurd hx List.not_mem_nil
  | @submitted state state' submission a _ hs' hn hc =>
    have hv := hi _ _ hs'
    obtain rfl := (submit_calls hc x hx).bundle _ hb
    cases hn with
    | @reached current canonical digest signer hcur h _ _ ht =>
      obtain ⟨rfl, hd, -, hver⟩ := verifyVote_some (RouteState.verified_some hcur h)
      obtain ⟨votes, hvotes, hl, hnd, hall⟩ := bundle_votes
        ((hv.sound.slot digest).insert hver) (AllHeld.insert hv.members hcur h)
      refine ⟨state, current, hs', hcur, rfl, rfl, canonicalAttestorOrder_sorted _,
        hv.threshold _ hcur, votes, congrArg encodeVotes hvotes, hl ▸ ht, hnd, ?_⟩
      rwa [← hd]

/-! ## Sample runs -/

/-- Signatures whose first byte is their signer. -/
def sampleCrypto : Crypto where
  ecrecover := fun _ raw => .ok (.ofNat 160 (raw[0] : Byte).toNat)
  keccak256 := fun _ => 7
  signerOf := fun _ => .ok 99

def sampleSignature (signer : Byte) : RawSignature := ((Vector.replicate 64 0).set 0 signer).push 27

def sampleVote (signer : Byte) : SetUpdateVote where
  chainKey := 2
  newAttestors := [8]
  nonce := 5
  signer := .ofNat 160 signer.toNat
  signature := sampleSignature signer

def sampleRoute : ChainRoute where
  chainKey := 2
  validator := some 6
  signerKey := some "key"
  destinationRpcUrl := "url"

/-- A view with the nonce of the sample votes. -/
def sampleView (attestors : List Address) (threshold : Nat) : OnChain := ⟨attestors, threshold, 5, 1⟩

theorem Step.refresh_sample {s : States} {state : RouteState} (hs : s[(2 : ChainKey)]? = some state)
    (attestors : List Address) (threshold : Nat) (ht : threshold ≤ u64Max) :
    Step crypto s (.refreshed 2 (sampleView attestors threshold))
      (s.insert 2 (state.refreshed (sampleView attestors threshold))) := by
  obtain ⟨calls, hx⟩ := refresh_reads state attestors ht 5 1
  exact .refreshed hs hx (state.refreshed_current _)

theorem Step.note_quiet {s : States} {state : RouteState} (vote : SetUpdateVote)
    (hs : s[vote.chainKey]? = some state) (hn : (state.note crypto vote).2 = none) :
    Step crypto s (.voted vote (s.verified crypto vote) [] [])
      (s.insert vote.chainKey (state.note crypto vote).1) := by
  refine .voted ?_
  have hh : handleVote crypto s vote = pure (s.insert vote.chainKey (state.note crypto vote).1) := by
    unfold handleVote
    rw [hs]
    dsimp only
    rw [show state.note crypto vote = ((state.note crypto vote).1, none) from Prod.ext rfl hn]
  rw [hh]
  exact .ret

/-- The broadcast of a submission may end in any way. -/
theorem submit_ends (state : RouteState) (submission : Submission) (b : Broadcast) :
    ∃ a calls, Exec heard (submit sampleCrypto state submission).run [] calls a ∧
      ⟨.broadcast 99 state.validator submission.newAttestors
        (encodeVotes submission.signatures), b⟩ ∈ calls ∧
      ((∃ txHash, b = .sent txHash) ↔ a = .ok ()) := by
  have hx : ∃ a calls, Exec heard (submit sampleCrypto state submission).run [] calls a ∧
      ⟨.broadcast 99 state.validator submission.newAttestors
        (encodeVotes submission.signatures), b⟩ ∈ calls := by
    cases b with
    | stalled reason =>
      have hx : Exec heard (submit sampleCrypto state submission).run [] _ _ :=
        .ask (a := (Except.ok () : Except String Unit)) rfl <|
          .ask (a := (Except.ok () : Except String Unit)) rfl <|
          .ask (a := Broadcast.stalled reason) rfl (by exact .ret)
      exact ⟨_, _, hx, by simp⟩
    | failed err =>
      have hx : Exec heard (submit sampleCrypto state submission).run [] _ _ :=
        .ask (a := (Except.ok () : Except String Unit)) rfl <|
          .ask (a := (Except.ok () : Except String Unit)) rfl <|
          .ask (a := Broadcast.failed err) rfl (by exact .ret)
      exact ⟨_, _, hx, by simp⟩
    | sent txHash =>
      have hx : Exec heard (submit sampleCrypto state submission).run [] _ _ :=
        .ask (a := (Except.ok () : Except String Unit)) rfl <|
          .ask (a := (Except.ok () : Except String Unit)) rfl <|
          .ask (a := Broadcast.sent txHash) rfl (by exact .ret)
      exact ⟨_, _, hx, by simp⟩
  obtain ⟨a, calls, hx, hb⟩ := hx
  exact ⟨a, calls, hx, hb, (submit_calls hx _ hb).sent _ _ _ _ _ rfl⟩

theorem Step.note_submit {s : States} {state : RouteState} {vote : SetUpdateVote}
    {submission : Submission} (hs : s[vote.chainKey]? = some state)
    (hn : (state.note crypto vote).2 = some submission) {a : Except Error Unit} {calls : Calls}
    (hx : Exec heard (submit crypto (state.note crypto vote).1 submission).run [] calls a) :
    Step crypto s (.voted vote (s.verified crypto vote)
        [⟨.submit (state.note crypto vote).1 submission, a⟩] calls)
      (s.insert vote.chainKey ((state.note crypto vote).1.submitted submission.digest a)) := by
  refine .voted ?_
  have hh : handleVote crypto s vote = (do
      let answer ← call (SubmitCall.submit (state.note crypto vote).1 submission)
      pure (s.insert vote.chainKey
        ((state.note crypto vote).1.submitted submission.digest answer))) := by
    unfold handleVote
    rw [hs]
    dsimp only
    rw [show state.note crypto vote = ((state.note crypto vote).1, some submission) from
      Prod.ext rfl hn]
  have ha : submitEnv crypto ([], []) (.submit (state.note crypto vote).1 submission) a
      ([⟨.submit (state.note crypto vote).1 submission, a⟩], calls) := ⟨rfl, hx⟩
  rw [hh]
  exact .ask ha .ret

/-- The route of the samples, before its first refresh. -/
def startRoute : RouteState where
  validator := 6
  signerKey := "key"
  destRpcUrl := "url"
  current := none
  votes := ∅
  inFlight := []

/-! ## The members are not kept by every refresh -/

/-- Attestor 1 of 1 and 2 has voted. -/
def halfVoted : RouteState :=
  ((startRoute.refreshed (sampleView [1, 2] 2)).note sampleCrypto (sampleVote 1)).1

/-- Then 3 has taken the place of 1. -/
def replaced : RouteState := halfVoted.refreshed (sampleView [2, 3] 2)

theorem replaced_run : ∃ l s, Run (Step sampleCrypto) (startStates [sampleRoute]) l s ∧
    s[(2 : ChainKey)]? = some replaced := by
  have hr : Run (Step sampleCrypto) (startStates [sampleRoute]) _ _ :=
    .snoc (.snoc (.snoc .nil
      (.refresh_sample (Map.get_insert_self _ _ startRoute) [1, 2] 2 (by decide)))
      (.note_quiet (sampleVote 1) (Map.get_insert_self _ _ _) (by decide)))
      (.refresh_sample (Map.get_insert_self _ _ halfVoted) [2, 3] 2 (by decide))
  exact ⟨_, _, hr, Map.get_insert_self _ _ _⟩

/-- A refresh that reads other attestors under the same nonce leaves the vote of a former one, which
the next vote then submits. -/
theorem set_update_bundle_stale : ¬ ∀ (crypto : Crypto) (routes : List ChainRoute) (l : List Label)
    (s t : States), Run (Step crypto) (startStates routes) l s →
    ∀ (vote : SetUpdateVote) (verified : Option (List Address × B256 × Address))
      (submits : Submits) (calls : Calls), Step crypto s (.voted vote verified submits calls) t →
    ∀ x ∈ calls, ∀ b, x.1.bundle = some b → s.Accepts crypto vote b := by
  intro h
  obtain ⟨l, s, hr, hs⟩ := replaced_run
  obtain ⟨submission, hn, hsig⟩ : ∃ submission,
      (replaced.note sampleCrypto (sampleVote 2)).2 = some submission ∧
        submission.signatures = [sampleSignature 1, sampleSignature 2] :=
    Option.map_eq_some_iff.mp (by decide)
  obtain ⟨a, calls, hx, hb, -⟩ := submit_ends (replaced.note sampleCrypto (sampleVote 2)).1
    submission (.sent 9)
  obtain ⟨state, current, hs', hc, -, -, -, -, votes, hv, -, -, hall⟩ :=
    h _ _ _ _ _ hr _ _ _ _ (Step.note_submit hs hn hx) _ hb _ rfl
  obtain rfl := Option.some.inj (hs.symm.trans hs')
  obtain rfl : sampleView [2, 3] 2 = current := Option.some.inj hc
  have hm : sampleSignature 1 ∈ votes.map (·.2) := by
    rw [← encodeVotes_inj hv, hsig]
    exact List.mem_cons_self
  obtain ⟨v, hv, e⟩ := List.mem_map.mp hm
  obtain ⟨hmem, -, hrec⟩ := hall v hv
  rw [e] at hrec
  have h1 : v.1 = 1 := (Except.ok.inj hrec).symm.trans (by decide)
  rw [h1] at hmem
  exact absurd hmem (by decide)

/-- Or 3 has joined 1 and 2. -/
def joined : RouteState := halfVoted.refreshed (sampleView [1, 2, 3] 2)

theorem joined_run : ∃ l s,
    Run (fun s e t => Step sampleCrypto s e t ∧ e.Allows KeepsMembers s) (startStates [sampleRoute])
      l s ∧ s[(2 : ChainKey)]? = some joined := by
  have hview : Run (fun s e t => Step sampleCrypto s e t ∧ e.Allows KeepsMembers s)
      (startStates [sampleRoute]) _ _ :=
    .snoc .nil ⟨.refresh_sample (Map.get_insert_self _ _ startRoute) [1, 2] 2 (by decide),
      fun st hst => ⟨by decide, fun c hc => by
        obtain rfl := Option.some.inj ((Map.get_insert_self _ _ startRoute).symm.trans hst)
        cases hc⟩⟩
  have hvote := hview.snoc
    ⟨.note_quiet (sampleVote 1) (Map.get_insert_self _ _ _) (by decide), trivial⟩
  have hhalf := Map.get_insert_self ((startStates [sampleRoute]).insert (2 : ChainKey)
    (startRoute.refreshed (sampleView [1, 2] 2))) (2 : ChainKey) halfVoted
  refine ⟨_, _, hvote.snoc ⟨.refresh_sample hhalf [1, 2, 3] 2 (by decide), fun st hst => ?_⟩,
    Map.get_insert_self _ _ _⟩
  obtain rfl := Option.some.inj (hhalf.symm.trans hst)
  refine ⟨by decide, fun _ _ _ digest slot hslot signer raw hs => ?_⟩
  obtain ⟨current, hc, hheld⟩ := (vouched_run hvote _ _ hhalf).members digest slot hslot
  obtain rfl : sampleView [1, 2] 2 = current := Option.some.inj hc
  have hsub : [1, 2] ⊆ ([1, 2, 3] : List Address) := by decide
  exact hsub (hheld signer raw hs)

/-- Attestors 1 and 2 vote, and 3 joins in between. -/
theorem set_update_bundle_sound_vote : ∃ s b, s[(2 : ChainKey)]? = some joined ∧
    States.Accepts sampleCrypto s (sampleVote 2) b := by
  obtain ⟨l, s, hr, hs⟩ := joined_run
  obtain ⟨submission, hn⟩ : ∃ submission,
      (joined.note sampleCrypto (sampleVote 2)).2 = some submission :=
    Option.isSome_iff_exists.mp (by decide)
  obtain ⟨a, calls, hx, hb, -⟩ := submit_ends _ submission (.sent 9)
  exact ⟨s, _, hs, set_update_bundle_sound hr (Step.note_submit hs hn hx) hb rfl⟩

/-! ## No quorum waits -/

/-- Less is stored than the threshold. -/
def Short (current : OnChain) (slot : Slot) : Prop := slot.size < current.threshold

/-- A vote that is stored leaves its slot short. -/
theorem Noted.short {state state' : RouteState} {vote : SetUpdateVote}
    {submission : Option Submission} (h : Noted crypto state vote state' submission)
    (hf : state.Fits Short) : state'.Fits Short := by
  refine h.fits hf fun current canonical digest signer hc _ hs => ?_
  refine hs.elim (fun hs => ?_) id
  obtain ⟨current', hc', hh⟩ := hf digest _ (RouteState.slot_contains hs)
  obtain rfl := Option.some.inj (hc.symm.trans hc')
  rwa [Short, Std.ExtTreeMap.size_insert, if_pos hs]

theorem Step.short {s t : States} {e : Label} (h : Step crypto s e t)
    (hp : e.Allows (RouteState.FitsView Short) s) (hs : s.All (RouteState.Fits Short)) :
    t.All (RouteState.Fits Short) :=
  h.all (fun _ _ hk hi => hi.refreshed hk) (fun _ _ _ _ hn hi => hn.short hi)
    (fun _ _ a hi => by cases a <;> exact hi) hp hs

/-- After a vote for an update: it is in flight, or was submitted for the vote, or too few of the
attestors of the view have a signature stored for it. -/
def States.Decided (t : States) (chainKey : ChainKey) (digest : B256) (submits : Submits) : Prop :=
  ∃ state current, t[chainKey]? = some state ∧ state.current = some current ∧
    (digest ∈ state.inFlight ∨
      (∃ st submission a, ⟨.submit st submission, a⟩ ∈ submits ∧ submission.digest = digest) ∨
      (state.holders current digest).length < current.threshold)

/-- In a run where no refresh under the same nonce lowers the threshold to what is stored, no quorum
is overlooked. -/
theorem no_quorum_overlooked {routes : List ChainRoute} {l : List Label} {s t : States}
    (hr : Run (fun s e t => Step crypto s e t ∧ e.Allows (RouteState.FitsView Short) s)
      (startStates routes) l s)
    {vote : SetUpdateVote} {canonical : List Address} {digest : B256} {signer : Address}
    {submits : Submits} {calls : Calls}
    (hs : Step crypto s (.voted vote (some (canonical, digest, signer)) submits calls) t) :
    t.Decided vote.chainKey digest submits := by
  have hi : s.All (RouteState.Fits Short) := hr.inv (fun _ _ _ h => h.1.short h.2)
    (startStates_all (fun _ _ _ d slot h => by simp at h) routes)
  obtain ⟨hv, hc⟩ := hs.voted_cases
  cases hc with
  | unknown hu => rw [States.verified, hu] at hv; cases hv
  | @noted state state' hs' hn =>
    rw [States.verified, hs', Option.bind_some] at hv
    have hf := hn.short (hi _ _ hs')
    cases hn with
    | dropped h => rw [h] at hv; cases hv
    | marked h hm =>
      obtain ⟨rfl, rfl, rfl⟩ : canonical = _ ∧ digest = _ ∧ signer = _ := by
        simpa using hv.trans h
      obtain ⟨current, hcur, -⟩ := Option.bind_eq_some_iff.mp h
      exact ⟨_, current, Map.get_insert_self _ _ _, hcur, .inl hm⟩
    | @stored current _ _ _ hcur h hm _ =>
      obtain ⟨rfl, rfl, rfl⟩ : canonical = _ ∧ digest = _ ∧ signer = _ := by
        simpa using hv.trans h
      refine ⟨_, current, Map.get_insert_self _ _ _, hcur, .inr (.inr ?_)⟩
      obtain ⟨current', hc', hh⟩ := hf digest _ (Map.get_insert_self _ _ _)
      obtain rfl := Option.some.inj (hcur.symm.trans hc')
      refine Nat.lt_of_le_of_lt (RouteState.length_holders _ _ _) ?_
      rwa [RouteState.slot_of (Map.get_insert_self _ _ _)]
  | @submitted state state' _ a _ hs' hn hx =>
    rw [States.verified, hs', Option.bind_some] at hv
    cases hn with
    | @reached current _ _ _ hcur h =>
      obtain ⟨rfl, rfl, rfl⟩ : canonical = _ ∧ digest = _ ∧ signer = _ := by
        simpa using hv.trans h
      exact ⟨_, current, Map.get_insert_self _ _ _, (RouteState.submitted_votes _ _ a).2.trans hcur,
        .inr (.inl ⟨_, _, _, List.mem_singleton_self _, rfl⟩)⟩

/-! ## A lowered threshold is not seen -/

/-- Attestors 1 and 2 have voted under the threshold 3, which was then lowered to 2. -/
def lowered : RouteState :=
  ((((startRoute.refreshed (sampleView [1, 2, 3] 3)).note sampleCrypto (sampleVote 1)).1.note
    sampleCrypto (sampleVote 2)).1).refreshed (sampleView [1, 2, 3] 2)

theorem lowered_run : ∃ l s, Run (Step sampleCrypto) (startStates [sampleRoute]) l s ∧
    s[(2 : ChainKey)]? = some lowered := by
  have hr : Run (Step sampleCrypto) (startStates [sampleRoute]) _ _ :=
    .snoc (.snoc (.snoc (.snoc .nil
      (.refresh_sample (Map.get_insert_self _ _ startRoute) [1, 2, 3] 3 (by decide)))
      (.note_quiet (sampleVote 1) (Map.get_insert_self _ _ _) (by decide)))
      (.note_quiet (sampleVote 2) (Map.get_insert_self _ _ _) (by decide)))
      (.refresh_sample (Map.get_insert_self _ _ _) [1, 2, 3] 2 (by decide))
  exact ⟨_, _, hr, Map.get_insert_self _ _ _⟩

/-- The vote of attestor 1 comes again, and is a repetition. -/
theorem no_quorum_overlooked_lowered : ¬ ∀ (crypto : Crypto) (routes : List ChainRoute)
    (l : List Label) (s t : States), Run (Step crypto) (startStates routes) l s →
    ∀ (vote : SetUpdateVote) (canonical : List Address) (digest : B256) (signer : Address)
      (submits : Submits) (calls : Calls),
      Step crypto s (.voted vote (some (canonical, digest, signer)) submits calls) t →
      t.Decided vote.chainKey digest submits := by
  intro h
  obtain ⟨l, s, hr, hs⟩ := lowered_run
  have hv : States.verified sampleCrypto s (sampleVote 1) = some ([8], 7, 1) := by
    rw [States.verified, show s[(sampleVote 1).chainKey]? = some lowered from hs, Option.bind_some]
    decide
  have hstep : Step sampleCrypto _ _ _ := .note_quiet (sampleVote 1) hs (by decide)
  rw [hv] at hstep
  obtain ⟨state, current, hs', hc, hd⟩ := h _ _ _ _ _ hr _ _ _ _ _ _ hstep
  obtain rfl := Option.some.inj ((Map.get_insert_self _ _ _).symm.trans hs')
  obtain rfl : sampleView [1, 2, 3] 2 = current := Option.some.inj hc
  rcases hd with hd | ⟨_, _, _, hd, -⟩ | hd
  · exact absurd hd (by decide)
  · cases hd
  · exact absurd hd (by decide)

/-- The first vote of two that are needed. -/
theorem no_quorum_overlooked_vote :
    States.Decided (((startStates [sampleRoute]).insert 2
      (startRoute.refreshed (sampleView [1, 2] 2))).insert 2 halfVoted) 2 7 [] := by
  have hr : Run (fun s e t => Step sampleCrypto s e t ∧ e.Allows (RouteState.FitsView Short) s)
      (startStates [sampleRoute]) _ _ :=
    .snoc .nil ⟨.refresh_sample (Map.get_insert_self _ _ startRoute) [1, 2] 2 (by decide),
      fun st hst c hc => by
        obtain rfl := Option.some.inj ((Map.get_insert_self _ _ startRoute).symm.trans hst)
        cases hc⟩
  have hs := Map.get_insert_self (startStates [sampleRoute]) (2 : ChainKey)
    (startRoute.refreshed (sampleView [1, 2] 2))
  have hv : States.verified sampleCrypto _ (sampleVote 1) = some ([8], 7, 1) :=
    (congrArg (Option.bind · _) hs).trans (by decide)
  have hstep : Step sampleCrypto _ _ _ := .note_quiet (sampleVote 1) hs (by decide)
  rw [hv] at hstep
  exact no_quorum_overlooked hr hstep

end MessageRelayer.SetUpdate

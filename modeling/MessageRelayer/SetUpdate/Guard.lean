import MessageRelayer.SetUpdate.Quorum

/-!
# The guard of a set update in flight

A submission whose broadcast was sent leaves its digest marked, and only a
refresh with another nonce takes the mark away. While the nonce stays, the
update is therefore never submitted again, also when its transaction reverted
or was dropped; where the broadcast failed instead, a quorum that votes anew
is submitted anew (`in_flight_guard`).
-/

namespace MessageRelayer.SetUpdate

open Prog

variable {crypto : Crypto}

/-! ## After a submission -/

/-- The nonce of a route is read as it was. -/
def Label.SameNonce (chainKey : ChainKey) (s : States) : Label → Prop
  | refreshed c view => c = chainKey → ∀ state current, s[c]? = some state →
      state.current = some current → current.nonce = view.nonce
  | refreshFailed _ | voted .. => True

/-- The steps submit the update again. -/
def Resubmitted (chainKey : ChainKey) (digest : B256) (l : List Label) : Prop :=
  ∃ vote verified submits calls state submission a, .voted vote verified submits calls ∈ l ∧
    vote.chainKey = chainKey ∧ ⟨.submit state submission, a⟩ ∈ submits ∧ submission.digest = digest

/-- In the steps, valid votes for the update came from `signer`. -/
def Heard (chainKey : ChainKey) (digest : B256) (l : List Label) (signer : Address) : Prop :=
  ∃ vote canonical submits calls, .voted vote (some (canonical, digest, signer)) submits calls ∈ l ∧
    vote.chainKey = chainKey

/-- In the steps, valid votes for the update came from as many distinct attestors of the view as its
threshold asks for. -/
def Arrived (chainKey : ChainKey) (digest : B256) (current : OnChain) (l : List Label) : Prop :=
  ∃ signers : List Address, signers ≠ [] ∧ signers.Nodup ∧ current.threshold ≤ signers.length ∧
    ∀ a ∈ signers, a ∈ current.attestors ∧ Heard chainKey digest l a

theorem Resubmitted.append {chainKey : ChainKey} {digest : B256} {l : List Label} {e : Label} :
    Resubmitted chainKey digest (l ++ [e]) ↔
      Resubmitted chainKey digest l ∨ Resubmitted chainKey digest [e] := by
  simp only [Resubmitted, List.mem_append, or_and_right, exists_or]

theorem Heard.append {chainKey : ChainKey} {digest : B256} {l : List Label} {e : Label}
    {signer : Address} : Heard chainKey digest (l ++ [e]) signer ↔
      Heard chainKey digest l signer ∨ Heard chainKey digest [e] signer := by
  simp only [Heard, List.mem_append, or_and_right, exists_or]

/-! ## One route -/

/-- What a step does on a route, whose state is given before and after. -/
inductive OnRoute (crypto : Crypto) (chainKey : ChainKey) (state : RouteState) :
    Label → RouteState → Prop where
  | failed (c : ChainKey) : OnRoute crypto chainKey state (.refreshFailed c) state
  | otherRefreshed {c : ChainKey} (view : OnChain) (hc : c ≠ chainKey) :
      OnRoute crypto chainKey state (.refreshed c view) state
  | otherVoted {vote : SetUpdateVote} (verified : Option (List Address × B256 × Address))
      (submits : Submits) (calls : Calls) (hc : vote.chainKey ≠ chainKey) :
      OnRoute crypto chainKey state (.voted vote verified submits calls) state
  | refreshed (view : OnChain) :
      OnRoute crypto chainKey state (.refreshed chainKey view) (state.refreshed view)
  | noted {vote : SetUpdateVote} {state' : RouteState} (hc : vote.chainKey = chainKey)
      (hn : Noted crypto state vote state' none) :
      OnRoute crypto chainKey state (.voted vote (state.verified crypto vote) [] []) state'
  | submitted {vote : SetUpdateVote} {state' : RouteState} {submission : Submission}
      {a : Except Error Unit} {calls : Calls} (hc : vote.chainKey = chainKey)
      (hn : Noted crypto state vote state' (some submission)) :
      OnRoute crypto chainKey state
        (.voted vote (state.verified crypto vote) [⟨.submit state' submission, a⟩] calls)
        (state'.submitted submission.digest a)

theorem Step.onRoute {chainKey : ChainKey} {s t : States} {e : Label} {state : RouteState}
    (h : Step crypto s e t) (hs : s[chainKey]? = some state) :
    ∃ state', t[chainKey]? = some state' ∧ OnRoute crypto chainKey state e state' := by
  cases h with
  | @refreshed c st st' view _ hs' hx hv =>
    obtain ⟨view', rfl⟩ := refresh_ok hx
    rw [RouteState.refreshed_current] at hv
    obtain rfl := Option.some.inj hv
    by_cases hc : c = chainKey
    · subst hc
      obtain rfl := Option.some.inj (hs'.symm.trans hs)
      exact ⟨_, Map.get_insert_self _ _ _, .refreshed _⟩
    · exact ⟨state, (Map.get_insert_ne (Ne.symm hc)).trans hs, .otherRefreshed _ hc⟩
  | refreshFailed => exact ⟨state, hs, .failed _⟩
  | @voted _ vote submits calls hx =>
    by_cases hc : vote.chainKey = chainKey
    · subst hc
      have hv : s.verified crypto vote = state.verified crypto vote := by
        rw [States.verified, hs, Option.bind_some]
      rw [hv]
      cases (Step.voted hx).voted_cases.2 with
      | unknown hu => rw [hs] at hu; cases hu
      | noted hs' hn =>
        obtain rfl := Option.some.inj (hs'.symm.trans hs)
        exact ⟨_, Map.get_insert_self _ _ _, .noted rfl hn⟩
      | submitted hs' hn =>
        obtain rfl := Option.some.inj (hs'.symm.trans hs)
        exact ⟨_, Map.get_insert_self _ _ _, .submitted rfl hn⟩
    · refine ⟨state, ?_, .otherVoted _ _ _ hc⟩
      cases (Step.voted hx).voted_cases.2 with
      | unknown => exact hs
      | noted | submitted => exact (Map.get_insert_ne (Ne.symm hc)).trans hs

/-- A step submits an update again only in answer to a vote for it. -/
theorem OnRoute.resubmitted {chainKey : ChainKey} {digest : B256} {state state' : RouteState}
    {e : Label} (h : OnRoute crypto chainKey state e state') (hr : Resubmitted chainKey digest [e]) :
    digest ∉ state.inFlight := by
  obtain ⟨vote, verified, submits, calls, st, submission, a, he, hk, hm, rfl⟩ := hr
  rw [List.mem_singleton] at he
  subst he
  cases h with
  | otherVoted _ _ _ hc => exact absurd hk hc
  | noted => cases hm
  | submitted hc hn =>
    rw [List.mem_singleton] at hm
    cases hm
    cases hn with
    | reached _ _ hm => exact hm

/-! ## In flight -/

/-- While the nonce is read as it was, an update stays in flight. -/
theorem OnRoute.inFlight {chainKey : ChainKey} {digest : B256} {s : States} {state state' : RouteState}
    {e : Label} (h : OnRoute crypto chainKey state e state') (hs : s[chainKey]? = some state)
    (hsame : e.SameNonce chainKey s) (hm : digest ∈ state.inFlight) : digest ∈ state'.inFlight := by
  cases h with
  | failed | otherRefreshed | otherVoted => exact hm
  | refreshed view =>
    rw [RouteState.refreshed_same fun c hc => hsame rfl state c hs hc]
    exact hm
  | noted hc hn => cases hn <;> exact hm
  | @submitted _ _ _ a _ hc hn =>
    cases hn with
    | reached _ _ hd =>
      cases a with
      | ok => exact List.mem_cons_of_mem _ hm
      | error =>
        refine List.mem_filter.mpr ⟨List.mem_cons_of_mem _ hm, ?_⟩
        exact decide_eq_true fun e => hd (by cases e; exact hm)

/-! ## Not in flight -/

/-- Refreshes of a route read a threshold above what is stored for the update. -/
def Label.Above (chainKey : ChainKey) (digest : B256) (s : States) : Label → Prop
  | refreshed c view => c = chainKey → ∀ (state : RouteState) (slot : Slot), s[c]? = some state →
      state.votes[digest]? = some slot → slot.size < view.threshold
  | refreshFailed _ | voted .. => True

/-- An update that is not in flight waits for more votes than were heard, all of which are stored. -/
structure Waits (chainKey : ChainKey) (digest : B256) (l : List Label) (state : RouteState) :
    Prop where
  free : digest ∉ state.inFlight
  stored : ∀ a, Heard chainKey digest l a → (state.slot digest).contains a = true
  short : ∀ (current : OnChain) (slot : Slot), state.current = some current →
    state.votes[digest]? = some slot → slot.size < current.threshold

theorem Waits.mono {chainKey : ChainKey} {digest : B256} {l l' : List Label} {state : RouteState}
    (h : Waits chainKey digest l state)
    (hl : ∀ a, Heard chainKey digest l' a → Heard chainKey digest l a) :
    Waits chainKey digest l' state :=
  ⟨h.free, fun a ha => h.stored a (hl a ha), h.short⟩

/-- A route that changed only for other updates. -/
theorem Waits.other {chainKey : ChainKey} {digest : B256} {l : List Label} {state state' : RouteState}
    (h : Waits chainKey digest l state) (hc : state'.current = state.current)
    (hv : state'.votes[digest]? = state.votes[digest]?) (hf : digest ∉ state'.inFlight) :
    Waits chainKey digest l state' := by
  refine ⟨hf, fun a ha => ?_, fun current slot hcur hs => h.short current slot (hc ▸ hcur) (hv ▸ hs)⟩
  rw [RouteState.slot, hv]
  exact h.stored a ha

/-- Nothing is heard from a step that is not a vote for the update. -/
theorem heard_of_append {chainKey : ChainKey} {digest : B256} {l : List Label} {e : Label}
    (he : ∀ a, ¬ Heard chainKey digest [e] a) (a : Address)
    (h : Heard chainKey digest (l ++ [e]) a) : Heard chainKey digest l a :=
  (Heard.append.mp h).resolve_right (he a)

theorem heard_voted {chainKey : ChainKey} {digest : B256} {vote : SetUpdateVote}
    {verified : Option (List Address × B256 × Address)} {submits : Submits} {calls : Calls}
    {a : Address} (h : Heard chainKey digest [.voted vote verified submits calls] a) :
    vote.chainKey = chainKey ∧ ∃ canonical, verified = some (canonical, digest, a) := by
  obtain ⟨vote', canonical, submits', calls', he, hc⟩ := h
  rw [List.mem_singleton] at he
  cases he
  exact ⟨hc, canonical, rfl⟩

theorem OnRoute.waits {chainKey : ChainKey} {digest : B256} {s : States} {state state' : RouteState}
    {l : List Label} {e : Label} (h : OnRoute crypto chainKey state e state')
    (hs : s[chainKey]? = some state) (hsame : e.SameNonce chainKey s)
    (habove : e.Above chainKey digest s) (hw : Waits chainKey digest l state)
    (hr : ¬ Resubmitted chainKey digest [e]) : Waits chainKey digest (l ++ [e]) state' := by
  cases h with
  | failed =>
    exact hw.mono (heard_of_append fun a ⟨_, _, _, _, he, _⟩ => by simp at he)
  | otherRefreshed =>
    exact hw.mono (heard_of_append fun a ⟨_, _, _, _, he, _⟩ => by simp at he)
  | otherVoted _ _ _ hc =>
    exact hw.mono (heard_of_append fun a ha => hc (heard_voted ha).1)
  | refreshed view =>
    rw [RouteState.refreshed_same fun c hc => hsame rfl state c hs hc]
    have hw' := hw.mono (heard_of_append (l := l) (e := .refreshed chainKey view)
      fun a ⟨_, _, _, _, he, _⟩ => by simp at he)
    exact ⟨hw'.free, hw'.stored, fun current slot hc hsl => by
      obtain rfl := Option.some.inj hc
      exact habove rfl state slot hs hsl⟩
  | @noted vote state' hc hn =>
    cases hn with
    | dropped h =>
      refine hw.mono (heard_of_append fun a ha => ?_)
      obtain ⟨-, canonical, hv⟩ := heard_voted ha
      rw [h] at hv; cases hv
    | marked h hm =>
      refine hw.mono (heard_of_append fun a ha => ?_)
      obtain ⟨-, canonical, hv⟩ := heard_voted ha
      rw [h] at hv
      cases hv
      exact hw.free hm
    | @stored current canonical digest' signer hcur h hm hsz =>
      by_cases hd : digest = digest'
      · subst hd
        refine ⟨hm, fun a ha => ?_, fun current' slot hcur' hslot => ?_⟩
        · rw [RouteState.slot_of (Map.get_insert_self _ _ _), Std.ExtTreeMap.contains_insert,
            Bool.or_eq_true]
          refine (Heard.append.mp ha).symm.imp (fun ha => ?_) (hw.stored a)
          obtain ⟨-, canonical', hv⟩ := heard_voted ha
          rw [h] at hv
          cases hv
          exact beq_iff_eq.mpr (Map.cmp_eq.mpr rfl)
        · obtain rfl := Option.some.inj (hcur.symm.trans hcur')
          obtain rfl := Option.some.inj ((Map.get_insert_self _ _ _).symm.trans hslot)
          refine hsz.elim (fun hsg => ?_) id
          rw [Std.ExtTreeMap.size_insert, if_pos hsg]
          exact hw.short current _ hcur (RouteState.slot_contains hsg)
      · refine (hw.mono (heard_of_append fun a ha => ?_)).other rfl (Map.get_insert_ne hd) hw.free
        obtain ⟨-, canonical', hv⟩ := heard_voted ha
        rw [h] at hv
        cases hv
        exact hd rfl
  | @submitted vote state' submission a calls hc hn =>
    cases hn with
    | @reached current canonical digest' signer hcur h hm =>
      have hd : digest ≠ digest' := fun e => hr
        ⟨vote, _, _, _, _, _, _, List.mem_singleton_self _, hc, List.mem_singleton_self _, e.symm⟩
      have hf : digest ∉ digest' :: state.inFlight := by
        rw [List.mem_cons, not_or]; exact ⟨hd, hw.free⟩
      refine (hw.mono (heard_of_append fun a ha => ?_)).other
        (RouteState.submitted_votes _ _ a).2
        ((congrArg (·[digest]?) (RouteState.submitted_votes _ _ a).1).trans (Map.get_erase_ne hd)) ?_
      · obtain ⟨-, canonical', hv⟩ := heard_voted ha
        rw [h] at hv
        cases hv
        exact hd rfl
      · cases a with
        | ok => exact hf
        | error => exact fun hmem => hf (List.mem_filter.mp hmem).1

/-- As many votes as the threshold asks for do not wait. -/
theorem Waits.not_arrived {chainKey : ChainKey} {digest : B256} {l : List Label} {state : RouteState}
    {current : OnChain} (h : Waits chainKey digest l state) (hc : state.current = some current) :
    ¬ Arrived chainKey digest current l := by
  rintro ⟨signers, hne, hnd, ht, hall⟩
  obtain ⟨a, ha⟩ := List.exists_mem_of_ne_nil signers hne
  have hs := h.short current _ hc (RouteState.slot_contains (h.stored a (hall a ha).2))
  have hl : signers.length ≤ (state.slot digest).keys.length :=
    (List.subperm_of_subset hnd fun b hb => by
      rw [Std.ExtTreeMap.mem_keys]
      exact h.stored b (hall b hb).2).length_le
  rw [Std.ExtTreeMap.length_keys] at hl
  omega

/-! ## The guard -/

/-- The state of a route after an update was submitted on it. -/
theorem Step.submitted_cases {s t : States} {vote : SetUpdateVote}
    {verified : Option (List Address × B256 × Address)} {submits : Submits} {calls : Calls}
    (hs : Step crypto s (.voted vote verified submits calls) t) {state : RouteState}
    {submission : Submission} {a : Except Error Unit}
    (hm : ⟨.submit state submission, a⟩ ∈ submits) :
    t[vote.chainKey]? = some (state.submitted submission.digest a) ∧
      submission.digest ∈ state.inFlight ∧ state.votes[submission.digest]? = none ∧
      ∀ x ∈ calls, submission.Made state a x := by
  cases hs.voted_cases.2 with
  | unknown | noted => cases hm
  | submitted hs' hn hx =>
    rw [List.mem_singleton] at hm
    cases hm
    refine ⟨Map.get_insert_self _ _ _, ?_, ?_, submit_calls hx⟩
    · cases hn; exact List.mem_cons_self
    · cases hn; rw [Map.get_erase, if_pos rfl]

/-- After an update was broadcast, and while its nonce is read as it was: if the broadcast was sent,
the update is not submitted again; and if it failed, then a quorum that votes for the update anew is
submitted anew, unless a refresh lowers the threshold to what is stored. -/
theorem in_flight_guard {s t : States} {vote : SetUpdateVote}
    {verified : Option (List Address × B256 × Address)} {submits : Submits} {calls : Calls}
    (hs : Step crypto s (.voted vote verified submits calls) t) {state : RouteState}
    {submission : Submission} {a : Except Error Unit}
    (hm : ⟨.submit state submission, a⟩ ∈ submits) {submitter validator : Address}
    {newAttestors : List Address} {calldata : Bytes} {b : Broadcast}
    (hb : ⟨.broadcast submitter validator newAttestors calldata, b⟩ ∈ calls) {l : List Label}
    {u : States} :
    (Run (fun s e t => Step crypto s e t ∧ e.SameNonce vote.chainKey s) t l u →
      (∃ txHash, b = .sent txHash) → ¬ Resubmitted vote.chainKey submission.digest l) ∧
    (Run (fun s e t => Step crypto s e t ∧ e.SameNonce vote.chainKey s ∧
        e.Above vote.chainKey submission.digest s) t l u →
      (¬ ∃ txHash, b = .sent txHash) → ∀ (state' : RouteState) (current : OnChain),
        u[vote.chainKey]? = some state' → state'.current = some current →
        Arrived vote.chainKey submission.digest current l →
        Resubmitted vote.chainKey submission.digest l) := by
  obtain ⟨ht, hin, hv, hmade⟩ := hs.submitted_cases hm
  have hsent := (hmade _ hb).sent _ _ _ _ _ rfl
  refine ⟨fun hr hok => ?_, fun hr hfail state' current hu hc harr => ?_⟩
  · rw [hsent.mp hok] at ht
    have hi : ∃ st, u[vote.chainKey]? = some st ∧ submission.digest ∈ st.inFlight ∧
        ¬ Resubmitted vote.chainKey submission.digest l := by
      refine hr.hist (I := fun l u => ∃ st, u[vote.chainKey]? = some st ∧
        submission.digest ∈ st.inFlight ∧ ¬ Resubmitted vote.chainKey submission.digest l)
        (fun l s e t h hi => ?_) ⟨_, ht, hin, fun ⟨_, _, _, _, _, _, _, he, _⟩ => by simp at he⟩
      obtain ⟨st, hst, hf, hn⟩ := hi
      obtain ⟨st', hst', ho⟩ := h.1.onRoute hst
      refine ⟨st', hst', ho.inFlight hst h.2 hf, fun hres => ?_⟩
      exact (Resubmitted.append.mp hres).elim hn fun hres => ho.resubmitted hres hf
    exact hi.choose_spec.2.2
  · have ha : ∃ e, a = .error e := by
      cases a with
      | ok => exact absurd (hsent.mpr rfl) hfail
      | error e => exact ⟨e, rfl⟩
    obtain ⟨e, rfl⟩ := ha
    have hstart : Waits vote.chainKey submission.digest []
        (state.submitted submission.digest (.error e)) :=
      ⟨fun h => by simpa using (List.mem_filter.mp h).2,
        fun a ⟨_, _, _, _, he, _⟩ => by simp at he,
        fun current slot _ hslot => by cases hv.symm.trans hslot⟩
    have hi : Resubmitted vote.chainKey submission.digest l ∨
        ∃ st, u[vote.chainKey]? = some st ∧ Waits vote.chainKey submission.digest l st := by
      refine hr.hist (I := fun l u => Resubmitted vote.chainKey submission.digest l ∨
        ∃ st, u[vote.chainKey]? = some st ∧ Waits vote.chainKey submission.digest l st)
        (fun l s e t h hi => ?_) (.inr ⟨_, ht, hstart⟩)
      rcases hi with hi | ⟨st, hst, hw⟩
      · exact .inl (Resubmitted.append.mpr (.inl hi))
      · obtain ⟨st', hst', ho⟩ := h.1.onRoute hst
        by_cases hres : Resubmitted vote.chainKey submission.digest [e]
        · exact .inl (Resubmitted.append.mpr (.inr hres))
        · exact .inr ⟨st', hst', ho.waits hst h.2.1 h.2.2 hw hres⟩
    refine hi.resolve_right fun ⟨st, hst, hw⟩ => ?_
    obtain rfl := Option.some.inj (hst.symm.trans hu)
    exact hw.not_arrived hc harr

/-! ## A transaction that is lost -/

/-- The route of the samples, where attestor 1 alone makes a quorum. -/
def single : RouteState := startRoute.refreshed (sampleView [1] 1)

/-- The same, once the update is in flight. -/
def sent : RouteState := (single.note sampleCrypto (sampleVote 1)).1

/-- The vote of attestor 1 is submitted, and the broadcast ends with `b`. -/
theorem single_submits (b : Broadcast) : ∃ l s t submission a calls,
    Run (Step sampleCrypto) (startStates [sampleRoute]) l s ∧
    Step sampleCrypto s (.voted (sampleVote 1) (some ([8], 7, 1))
      [⟨.submit sent submission, a⟩] calls) t ∧
    submission.digest = 7 ∧ t[(2 : ChainKey)]? = some (sent.submitted 7 a) ∧
    ((∃ txHash, b = .sent txHash) ↔ a = .ok ()) ∧
    ⟨.broadcast 99 6 submission.newAttestors (encodeVotes submission.signatures), b⟩ ∈ calls := by
  have hr : Run (Step sampleCrypto) (startStates [sampleRoute]) _ _ :=
    .snoc .nil (.refresh_sample (Map.get_insert_self _ _ startRoute) [1] 1 (by decide))
  obtain ⟨submission, hn, hd⟩ : ∃ submission,
      (single.note sampleCrypto (sampleVote 1)).2 = some submission ∧ submission.digest = 7 :=
    Option.map_eq_some_iff.mp (by decide)
  obtain ⟨a, calls, hx, hb, hok⟩ := submit_ends sent submission b
  have hs := Map.get_insert_self (startStates [sampleRoute]) (2 : ChainKey) single
  have hv : States.verified sampleCrypto _ (sampleVote 1) = some ([8], 7, 1) :=
    (congrArg (Option.bind · _) hs).trans (by decide)
  have hstep : Step sampleCrypto _ (.voted (sampleVote 1) _ _ _) _ := .note_submit hs hn hx
  rw [hv, hd] at hstep
  exact ⟨_, _, _, submission, a, calls, hr, hstep, hd, Map.get_insert_self _ _ _, hok, hb⟩

/-- The vote of attestor 1 comes again. -/
theorem arrived_again (submits : Submits) (calls : Calls) : Arrived 2 7 (sampleView [1] 1)
    [.voted (sampleVote 1) (some ([8], 7, 1)) submits calls] :=
  ⟨[1], by decide, by decide, by decide, fun a ha => by
    rw [List.mem_singleton] at ha
    subst ha
    exact ⟨by decide, _, _, _, _, List.mem_singleton_self _, rfl⟩⟩

/-- The broadcast of an update was sent and the nonce never changes: the votes for it that come again
are not submitted. -/
theorem in_flight_guard_sent : ¬ ∀ (crypto : Crypto) (routes : List ChainRoute) (l : List Label)
    (s t : States), Run (Step crypto) (startStates routes) l s →
    ∀ (vote : SetUpdateVote) (verified : Option (List Address × B256 × Address))
      (submits : Submits) (calls : Calls), Step crypto s (.voted vote verified submits calls) t →
    ∀ state submission a, ⟨.submit state submission, a⟩ ∈ submits →
    ∀ submitter validator newAttestors calldata b,
      ⟨.broadcast submitter validator newAttestors calldata, b⟩ ∈ calls →
    ∀ (l' : List Label) (u : States),
      Run (fun s e t => Step crypto s e t ∧ e.SameNonce vote.chainKey s) t l' u →
    ∀ (state' : RouteState) (current : OnChain), u[vote.chainKey]? = some state' →
      state'.current = some current → Arrived vote.chainKey submission.digest current l' →
      Resubmitted vote.chainKey submission.digest l' := by
  intro h
  obtain ⟨l, s, t, submission, a, calls, hr, hstep, hd, ht, hok, hb⟩ := single_submits (.sent 9)
  obtain rfl : a = .ok () := hok.mp ⟨9, rfl⟩
  have hagain : Step sampleCrypto _ _ _ := .note_quiet (sampleVote 1) ht (by decide)
  have hv : States.verified sampleCrypto t (sampleVote 1) = some ([8], 7, 1) :=
    (congrArg (Option.bind · _) ht).trans (by decide)
  rw [hv] at hagain
  have harr : Arrived 2 submission.digest (sampleView [1] 1)
      [.voted (sampleVote 1) (some ([8], 7, 1)) [] []] := by
    rw [hd]; exact arrived_again [] []
  obtain ⟨vote, verified, submits, calls', st, sub, a, he, -, hm, -⟩ :=
    h _ _ _ _ _ hr _ _ _ _ hstep _ _ _ (List.mem_singleton_self _) _ _ _ _ _ hb _ _
      (.snoc .nil ⟨hagain, trivial⟩) _ (sampleView [1] 1) (Map.get_insert_self _ _ _)
      (by decide) harr
  rw [List.nil_append, List.mem_singleton] at he
  cases he
  cases hm

/-- The broadcast failed: the same vote is submitted again. -/
theorem in_flight_guard_failed : ∃ l, Arrived 2 7 (sampleView [1] 1) l ∧ Resubmitted 2 7 l := by
  obtain ⟨l, s, t, submission, a, calls, hr, hstep, hd, ht, hok, hb⟩ :=
    single_submits (.failed "refused")
  have hfail : ¬ ∃ txHash, Broadcast.failed "refused" = .sent txHash := fun ⟨_, e⟩ => by cases e
  obtain ⟨e, rfl⟩ : ∃ e, a = .error e := by
    cases a with
    | ok => exact absurd (hok.mpr rfl) hfail
    | error e => exact ⟨e, rfl⟩
  have ht : t[(2 : ChainKey)]? = some (sent.submitted 7 (.error [])) := ht
  obtain ⟨again, hn⟩ : ∃ again,
      ((sent.submitted 7 (.error [])).note sampleCrypto (sampleVote 1)).2 = some again :=
    Option.isSome_iff_exists.mp (by decide)
  obtain ⟨a', calls', hx, -, -⟩ :=
    submit_ends ((sent.submitted 7 (.error [])).note sampleCrypto (sampleVote 1)).1 again (.sent 9)
  have hagain : Step sampleCrypto _ (.voted (sampleVote 1) _ _ _) _ := .note_submit ht hn hx
  have hv : States.verified sampleCrypto t (sampleVote 1) = some ([8], 7, 1) :=
    (congrArg (Option.bind · _) ht).trans (by decide)
  rw [hv] at hagain
  have hcur : (((sent.submitted 7 (.error [])).note sampleCrypto (sampleVote 1)).1.submitted
      again.digest a').current = some (sampleView [1] 1) :=
    (RouteState.submitted_votes _ _ a').2.trans (by decide)
  have harr := arrived_again
    [⟨.submit ((sent.submitted 7 (.error [])).note sampleCrypto (sampleVote 1)).1 again, a'⟩] calls'
  refine ⟨_, harr, ?_⟩
  have hres := (in_flight_guard hstep (List.mem_singleton_self _) hb).2
    (.snoc .nil ⟨hagain, trivial, trivial⟩) hfail _ (sampleView [1] 1) (Map.get_insert_self _ _ _)
    hcur (by rw [hd]; exact harr)
  rwa [hd] at hres

end MessageRelayer.SetUpdate

import Mathlib.Data.Set.Function
import MessageRelayer.SetUpdate.Quorum

/-!
# The canonical order of a proposed set

Attestors may send the set that they propose in any order, and with
repetitions. `canonicalAttestorOrder` of it depends on nothing but the set
(`canonicalAttestorOrder_eq_iff`), and the digest of an update determines its
canonical set, as far as keccak does not map the encodings of two proposals to
one hash (`digest_eq_iff`). So the slots in which votes are collected
(`RouteState.CountsIn`) are those of the proposed sets:
`set_update_slots`.
-/

namespace MessageRelayer.SetUpdate

variable {crypto : Crypto}

/-! ## The order -/

@[simp] theorem mem_canonicalAttestorOrder {addrs : List Address} {a : Address} :
    a ∈ canonicalAttestorOrder addrs ↔ a ∈ addrs := by
  have hs : (addrs.insertionSort (· ≤ ·)).Pairwise (· ≤ ·) := List.pairwise_insertionSort _ addrs
  rw [canonicalAttestorOrder, hs.destutter_eq_dedup, List.mem_dedup, List.mem_insertionSort]

/-- Two lists have one canonical order where they have the same members, as a reordering and a
list with repetitions have. -/
theorem canonicalAttestorOrder_eq_iff {addrs addrs' : List Address} :
    canonicalAttestorOrder addrs = canonicalAttestorOrder addrs' ↔
      ∀ a, a ∈ addrs ↔ a ∈ addrs' := by
  refine ⟨fun h a => ?_, fun h => ?_⟩
  · rw [← mem_canonicalAttestorOrder, h, mem_canonicalAttestorOrder]
  · refine (canonicalAttestorOrder_sorted addrs).eq_of_mem_iff
      (canonicalAttestorOrder_sorted addrs') fun {a} => ?_
    simp only [mem_canonicalAttestorOrder, h a]

theorem canonicalAttestorOrder_idem (addrs : List Address) :
    canonicalAttestorOrder (canonicalAttestorOrder addrs) = canonicalAttestorOrder addrs :=
  canonicalAttestorOrder_eq_iff.mpr fun _ => mem_canonicalAttestorOrder

/-- A vote is verified as any other with the same members. -/
theorem verifyVote_congr (crypto : Crypto) (vote : SetUpdateVote) (validator : Address)
    (current : OnChain) {addrs : List Address} (h : ∀ a, a ∈ addrs ↔ a ∈ vote.newAttestors) :
    verifyVote crypto { vote with newAttestors := addrs } validator current =
      verifyVote crypto vote validator current := by
  unfold verifyVote
  rw [canonicalAttestorOrder_eq_iff.mpr h]

/-! ## The digest -/

/-- What is hashed for an update. -/
def updateEncoding (validator : Address) (newAttestors : List Address) (chainId nonce : B256) :
    Bytes :=
  word validator.toNat ++ word 0x80 ++ word chainId.toNat ++ word nonce.toNat ++
    word newAttestors.length ++ newAttestors.flatMap fun a => word a.toNat

theorem word_address_inj {a b : Address} (h : word a.toNat = word b.toNat) : a = b := by
  have hw (a : Address) : beNat (word a.toNat) = a.toNat :=
    beNat_beBytes 32 _ (Nat.lt_of_lt_of_le a.isLt (by decide))
  rw [← BitVec.toNat_inj, ← hw a, h, hw b]

theorem flatMap_word_inj : ∀ {l l' : List Address},
    (l.flatMap fun a => word a.toNat) = l'.flatMap (fun a => word a.toNat) → l = l'
  | [], [] => fun _ => rfl
  | [], a :: l' | a :: l', [] => fun h => by
    have hl := congrArg List.length h
    simp only [List.flatMap_cons, List.flatMap_nil, List.length_append, List.length_nil,
      length_word] at hl
    omega
  | a :: l, b :: l' => fun h => by
    rw [List.flatMap_cons, List.flatMap_cons] at h
    obtain ⟨ha, hl⟩ := List.append_inj h (by rw [length_word, length_word])
    rw [word_address_inj ha, flatMap_word_inj hl]

/-- The heads of two encodings have one length, so that the lists can be read off. -/
theorem updateEncoding_inj {validator : Address} {chainId nonce : B256} {l l' : List Address}
    (h : updateEncoding validator l chainId nonce = updateEncoding validator l' chainId nonce) :
    l = l' :=
  flatMap_word_inj (List.append_inj h (by simp [length_word])).2

/-- Updates of one validator under one nonce have the same digest where they propose the same
set. -/
theorem digest_eq_iff {keccak256 : Bytes → B256} {validator : Address} {chainId nonce : B256}
    {addrs addrs' : List Address}
    (hk : Set.InjOn keccak256
      {updateEncoding validator (canonicalAttestorOrder addrs) chainId nonce,
        updateEncoding validator (canonicalAttestorOrder addrs') chainId nonce}) :
    attestorSetUpdateDigest keccak256 validator (canonicalAttestorOrder addrs) chainId nonce =
        attestorSetUpdateDigest keccak256 validator (canonicalAttestorOrder addrs') chainId nonce ↔
      ∀ a, a ∈ addrs ↔ a ∈ addrs' := by
  rw [← canonicalAttestorOrder_eq_iff]
  refine ⟨fun h => updateEncoding_inj (hk (.inl rfl) (.inr rfl) h), fun h => by rw [h]⟩

/-! ## Slots -/

/-- A vote counts for one digest: its signature joins those of the digest's slot, which is stored
again or handed to the submission for the digest, and no other slot is changed. -/
def RouteState.CountsIn (crypto : Crypto) (state : RouteState) (vote : SetUpdateVote)
    (digest : B256) : Prop :=
  (∀ d, d ≠ digest → (state.note crypto vote).1.votes[d]? = state.votes[d]?) ∧
    (digest ∉ state.inFlight → ∃ signer,
      (state.note crypto vote).1.votes[digest]? =
          some ((state.slot digest).insert signer vote.signature) ∨
        ∃ submission, (state.note crypto vote).2 = some submission ∧ submission.digest = digest ∧
          submission.signatures = Map.vals ((state.slot digest).insert signer vote.signature))

/-- A verified vote counts for the digest that `verify_vote` returns. -/
theorem RouteState.verified_countsIn {state : RouteState} {vote : SetUpdateVote}
    {canonical : List Address} {digest : B256} {signer : Address}
    (h : state.verified crypto vote = some (canonical, digest, signer)) :
    state.CountsIn crypto vote digest := by
  have hn : Noted crypto state vote _ _ := state.note_cases vote
  unfold CountsIn
  generalize state.note crypto vote = noted at hn ⊢
  obtain ⟨state', submission⟩ := noted
  dsimp only at hn ⊢
  have same {v : List Address × B256 × Address} (hv : state.verified crypto vote = some v) :
      v = (canonical, digest, signer) := Option.some.inj (hv.symm.trans h)
  cases hn with
  | dropped hv => rw [hv] at h; cases h
  | marked hv hm =>
    cases same hv
    exact ⟨fun _ _ => rfl, fun hn => absurd hm hn⟩
  | stored hc hv hm hs =>
    cases same hv
    exact ⟨fun d hd => Map.get_insert_ne hd, fun _ => ⟨_, .inl (Map.get_insert_self _ _ _)⟩⟩
  | reached hc hv hm hn hs =>
    cases same hv
    exact ⟨fun d hd => Map.get_erase_ne hd, fun _ => ⟨_, .inr ⟨_, rfl, rfl, rfl⟩⟩⟩

/-! ## Proposals and slots -/

/-- What a verified vote in the state of its route says, with the view that it was verified in. -/
theorem RouteState.verified_digest {state : RouteState} {vote : SetUpdateVote}
    {v : List Address × B256 × Address} (h : state.verified crypto vote = some v) :
    ∃ current, state.current = some current ∧
      v.2.1 = attestorSetUpdateDigest crypto.keccak256 state.validator
        (canonicalAttestorOrder vote.newAttestors) current.chainId vote.nonce := by
  obtain ⟨current, hc, hv⟩ := Option.bind_eq_some_iff.mp h
  obtain ⟨canonical, digest, signer⟩ := v
  obtain ⟨rfl, rfl, -⟩ := verifyVote_some hv
  refine ⟨current, hc, ?_⟩
  unfold verifyVote at hv
  split at hv
  · cases hv
  · rename_i hn
    rw [Decidable.not_not.mp hn]

/-- The canonical order is ascending, has the members of the list, and depends on nothing else; so
does the verdict on a vote. Of two votes that are verified in states of a route (with views that may
differ in their attestors and threshold), each counts in one slot, and that slot is the same exactly
where they propose the same set. -/
theorem set_update_slots (crypto : Crypto) :
    (∀ addrs, (canonicalAttestorOrder addrs).Pairwise (· < ·) ∧
      (∀ a, a ∈ canonicalAttestorOrder addrs ↔ a ∈ addrs) ∧
      canonicalAttestorOrder (canonicalAttestorOrder addrs) = canonicalAttestorOrder addrs) ∧
    (∀ addrs addrs' : List Address, (∀ a, a ∈ addrs' ↔ a ∈ addrs) →
      canonicalAttestorOrder addrs' = canonicalAttestorOrder addrs ∧
      ∀ (vote : SetUpdateVote) (validator : Address) (current : OnChain),
        verifyVote crypto { vote with newAttestors := addrs' } validator current =
          verifyVote crypto { vote with newAttestors := addrs } validator current) ∧
    ∀ (state state' : RouteState) (vote vote' : SetUpdateVote)
      (v v' : List Address × B256 × Address),
      state.verified crypto vote = some v → state'.verified crypto vote' = some v' →
      state.validator = state'.validator →
      state.current.map OnChain.chainId = state'.current.map OnChain.chainId →
      vote.nonce = vote'.nonce →
      state.CountsIn crypto vote v.2.1 ∧ state'.CountsIn crypto vote' v'.2.1 ∧
      ((∀ a, a ∈ vote.newAttestors ↔ a ∈ vote'.newAttestors) → v.2.1 = v'.2.1) ∧
      ((∀ current, state.current = some current → Set.InjOn crypto.keccak256
          {updateEncoding state.validator (canonicalAttestorOrder vote.newAttestors)
              current.chainId vote.nonce,
            updateEncoding state.validator (canonicalAttestorOrder vote'.newAttestors)
              current.chainId vote.nonce}) →
        v.2.1 = v'.2.1 → ∀ a, a ∈ vote.newAttestors ↔ a ∈ vote'.newAttestors) := by
  refine ⟨fun addrs => ⟨canonicalAttestorOrder_sorted addrs, fun _ => mem_canonicalAttestorOrder,
    canonicalAttestorOrder_idem addrs⟩, fun addrs addrs' h =>
    ⟨canonicalAttestorOrder_eq_iff.mpr h, fun vote validator current =>
      verifyVote_congr crypto { vote with newAttestors := addrs } validator current h⟩, ?_⟩
  intro state state' vote vote' v v' h h' hval hchain hnonce
  obtain ⟨current, hc, hd⟩ := RouteState.verified_digest h
  obtain ⟨current', hc', hd'⟩ := RouteState.verified_digest h'
  rw [hc, hc', Option.map_some, Option.map_some, Option.some.injEq] at hchain
  rw [← hval, ← hchain, ← hnonce] at hd'
  refine ⟨RouteState.verified_countsIn h, RouteState.verified_countsIn h', fun hs => ?_,
    fun hk he => ?_⟩
  · rw [hd, hd', canonicalAttestorOrder_eq_iff.mpr hs]
  · rw [hd, hd'] at he
    exact (digest_eq_iff (hk current hc)).mp he

/-- A crypto library whose hash is the last word of what is hashed, and the state of a route with
the attestors 1 and 2. -/
def lastWordCrypto : Crypto := { sampleCrypto with keccak256 := fun bs => .ofNat 256 (beNat bs) }

def proposedRoute : RouteState := startRoute.refreshed (sampleView [1, 2] 2)

def proposal (signer : Byte) (newAttestors : List Address) : SetUpdateVote :=
  { sampleVote signer with newAttestors }

/-- Attestor 1 proposes 8 and 9, attestor 2 proposes 8. -/
theorem set_update_slots_two :
    proposedRoute.CountsIn lastWordCrypto (proposal 1 [9, 8, 9]) 9 ∧
      proposedRoute.CountsIn lastWordCrypto (proposal 2 [8]) 8 ∧
      ((9 : B256) = 8 → ∀ a, a ∈ [(9 : Address), 8, 9] ↔ a ∈ [(8 : Address)]) := by
  obtain ⟨h, h', -, hs⟩ := (set_update_slots lastWordCrypto).2.2 proposedRoute proposedRoute
    (proposal 1 [9, 8, 9]) (proposal 2 [8]) ([8, 9], 9, 1) ([8], 8, 2) (by decide +kernel)
    (by decide +kernel) rfl rfl rfl
  refine ⟨h, h', hs fun current hc => ?_⟩
  obtain rfl : sampleView [1, 2] 2 = current := Option.some.inj hc
  rw [Set.injOn_pair]
  exact fun he => absurd he (by decide +kernel)

end MessageRelayer.SetUpdate

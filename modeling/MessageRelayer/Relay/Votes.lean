import Mathlib.Data.Fintype.BigOperators
import MessageRelayer.Lib.Abi
import MessageRelayer.Relay.Provenance

/-!
# The votes at the validator

The validator contract of a destination is not part of the repository. What the
source relies on of it (`ValidatorLaws`): it reads the `votes` of a delivery with
`abi.decode`, recovers the signers under the rules that `recover_signer` repeats,
and accepts as many of its attestors as its threshold. `encode_votes` writes what
the ABI prescribes for `bytes[]` (`encodeVotes_argument`). So such a contract
accepts the votes of every delivery that the relayer broadcasts, if its set is
one that was supplied for the route, also once attestors have joined or the
threshold was lowered (`votes_accepted`).
-/

namespace MessageRelayer

/-! ## Writing the votes -/

def abiWords : Abi.Words where
  encode := word
  decode := beNat
  length_encode := length_word
  decode_encode v hv := beNat_beBytes 32 v (by rwa [show (256 : Nat) ^ 32 = 2 ^ 256 by decide])

/-- The type of the argument: `bytes[]`. -/
def votesType : Abi.Dynamic (List Bytes) := Abi.array abiWords (Abi.bytes abiWords)

theorem encodeTails_fst (bss : List Bytes) : ∀ start,
    (encodeTails start bss).1 = (Abi.bytes abiWords).heads abiWords start bss := by
  induction bss with
  | nil => exact fun _ => rfl
  | cons b bss ih =>
    intro start
    rw [encodeTails, Abi.Dynamic.heads, ← ih]
    rfl

theorem encodeVotes_argument (signatures : List RawSignature) :
    encodeVotes signatures = votesType.argument abiWords (signatures.map Vector.toList) := by
  have htails : (encodeTails (32 * (signatures.map Vector.toList).length)
      (signatures.map Vector.toList)).2 =
        (signatures.map Vector.toList).flatMap (Abi.bytes abiWords).encode := encodeTails_snd _ _
  simp only [encodeVotes, htails, encodeTails_fst]
  simp [votesType, Abi.array, Abi.Dynamic.argument, Abi.Dynamic.encodeMany, Abi.Dynamic.heads,
    abiWords]

theorem length_encodeVotes (signatures : List RawSignature) :
    (encodeVotes signatures).length = 64 + 160 * signatures.length := by
  simp only [encodeVotes, encodeTails_snd, List.length_append, length_word, length_encodeTails_fst,
    length_flatMap_encodeBytes, List.length_map]
  omega

/-- The signatures can be written, as long as their encoding has a length that a word can hold. -/
theorem votesType_valid {signatures : List RawSignature}
    (hlt : 64 + 160 * signatures.length < 2 ^ 256) :
    votesType.Valid (signatures.map Vector.toList) := by
  have hlen := length_encodeVotes signatures
  rw [encodeVotes_argument] at hlen
  refine ⟨fun bs hbs => ?_, ?_⟩
  · obtain ⟨raw, -, rfl⟩ := List.mem_map.mp hbs
    show raw.toList.length < 2 ^ 256
    rw [Vector.length_toList]
    decide
  · have harray : (votesType.encode (signatures.map Vector.toList)).length =
        32 + ((Abi.bytes abiWords).encodeMany abiWords (signatures.map Vector.toList)).length := by
      rw [← length_word (signatures.map Vector.toList).length, ← List.length_append]
      rfl
    rw [Abi.Dynamic.length_argument] at hlen
    omega

/-! ## The contract -/

/-- The signer of 65 bytes, by the rules of the contract that `recover_signer` repeats. -/
def recoverChecked (ecrecover : Ecrecover) (digest : B256) (signature : Bytes) : Option Address :=
  if h : signature.length = 65 then
    (recoverSigner ecrecover digest ⟨signature.toArray, h⟩).toOption
  else none

/-- What is relied on of a contract that reads the votes with `decode`, and validates those for a
digest against its set with `validate`. -/
structure ValidatorLaws (ecrecover : Ecrecover) (decode : Bytes → Option (List Bytes))
    (validate : RouteAttestors → B256 → Bytes → Bool) : Prop where
  /-- `abi.decode(votes, (bytes[]))` reads an argument that is laid out as the ABI prescribes. -/
  decodes : ∀ signatures, votesType.Valid signatures →
    (votesType.argument abiWords signatures).length < 2 ^ 256 →
    decode (votesType.argument abiWords signatures) = some signatures
  /-- Signatures by the rules, of different attestors and as many as the threshold, are accepted. -/
  accepts : ∀ set digest votes signatures signers, decode votes = some signatures →
    signatures.mapM (recoverChecked ecrecover digest) = some signers →
    signers ⊆ set.attestors → signers.Nodup → set.threshold ≤ signers.length →
    validate set digest votes = true

section
variable {ecrecover : Ecrecover} {digest : B256}

theorem Canonical.recoverSigner {raw : RawSignature} {a : Address} (hc : Canonical raw)
    (h : ecrecover digest raw = .ok a) : recoverSigner ecrecover digest raw = .ok a := by
  have hv : ¬(sigV raw ≠ 27 ∧ sigV raw ≠ 28) := by
    rcases hc.1 with h | h <;> simp [h]
  rw [MessageRelayer.recoverSigner, if_neg hv, if_neg (Nat.not_lt.mpr hc.2), h]

theorem recoverChecked_toList {raw : RawSignature} {a : Address} (hc : Canonical raw)
    (h : ecrecover digest raw = .ok a) : recoverChecked ecrecover digest raw.toList = some a := by
  have hlen : raw.toList.length = 65 := Vector.length_toList
  have hraw : (⟨raw.toList.toArray, hlen⟩ : RawSignature) = raw := by
    apply Vector.toList_inj.mp
    rfl
  rw [recoverChecked, dif_pos hlen, hraw, hc.recoverSigner h]
  rfl

theorem recoverChecked_votes {votes : List (Address × RawSignature)}
    (h : ∀ v ∈ votes, Canonical v.2 ∧ ecrecover digest v.2 = .ok v.1) :
    ((votes.map (·.2)).map Vector.toList).mapM (recoverChecked ecrecover digest) =
      some (votes.map (·.1)) := by
  induction votes with
  | nil => rfl
  | cons v votes ih =>
    obtain ⟨hc, hr⟩ := h v List.mem_cons_self
    have hrest := ih fun u hu => h u (List.mem_cons_of_mem _ hu)
    simp only [List.map_cons, List.mapM_cons, recoverChecked_toList hc hr, hrest]
    rfl

/-- There are not more addresses than that. -/
theorem length_addresses {addrs : List Address} (hn : addrs.Nodup) : addrs.length ≤ 2 ^ 160 := by
  have hfin : (addrs.map BitVec.toFin).Nodup := hn.map fun _ _ => BitVec.toFin_inj.mp
  have hcard := hfin.length_le_card
  rwa [List.length_map, Fintype.card_fin] at hcard

/-- The contract accepts the encoded signatures of a quorum of its attestors. -/
theorem ValidatorLaws.encodeVotes {decode : Bytes → Option (List Bytes)}
    {validate : RouteAttestors → B256 → Bytes → Bool} (hv : ValidatorLaws ecrecover decode validate)
    {set : RouteAttestors} {votes : List (Address × RawSignature)}
    (ht : set.threshold ≤ votes.length) (hn : (votes.map (·.1)).Nodup)
    (h : ∀ v ∈ votes, v.1 ∈ set.attestors ∧ Canonical v.2 ∧ ecrecover digest v.2 = .ok v.1) :
    validate set digest (encodeVotes (votes.map (·.2))) = true := by
  have hlen : votes.length ≤ 2 ^ 160 := by
    have hcard := length_addresses hn
    rwa [List.length_map] at hcard
  have hlt : 64 + 160 * (votes.map (·.2)).length < 2 ^ 256 := by
    rw [List.length_map]
    omega
  have hread : decode (MessageRelayer.encodeVotes (votes.map (·.2))) =
      some ((votes.map (·.2)).map Vector.toList) := by
    have hlength := length_encodeVotes (votes.map (·.2))
    rw [encodeVotes_argument] at hlength ⊢
    exact hv.decodes _ (votesType_valid hlt) (by rw [hlength]; exact hlt)
  have hmembers : votes.map (·.1) ⊆ set.attestors := by
    intro a ha
    obtain ⟨v, hv, rfl⟩ := List.mem_map.mp ha
    exact (h v hv).1
  have hsigners := recoverChecked_votes fun v hv => (h v hv).2
  exact hv.accepts _ _ _ _ _ hread hsigners hmembers hn (by rwa [List.length_map])

end

/-! ## Deliveries -/

/-- In every run, the validator accepts the votes of a `deliverMessage` that a worker broadcasts, if it
still has the attestors of the set that was supplied for the route, and no greater threshold. -/
theorem votes_accepted {config : FleetConfig} {codec : SourceCodec} {chain : SourceChain codec}
    {reported : Log → Prop} {watched : Watched} {decode : Bytes → Option (List Bytes)}
    {validate : RouteAttestors → B256 → Bytes → Bool}
    (hv : ValidatorLaws config.ecrecover decode validate) {d : Disk} {l : List FleetEvent}
    {s t : Fleet} (hd : GenuineDisk chain reported watched d)
    (hr : Run (FleetStep config chain reported watched) ⟨d, none⟩ l s) {job : DeliveryJob}
    {tx : DeliverTx}
    (hs : FleetStep config chain reported watched s (.asked job (.sendDeliver tx)) t) :
    ∃ set : RouteAttestors, config.sets set ∧ set.chainKey = job.chainKey ∧ 0 < set.threshold ∧
      ∀ current : RouteAttestors, set.attestors ⊆ current.attestors →
        current.threshold ≤ set.threshold → validate current tx.messageId tx.votes = true := by
  have hok := FleetOk.run hd hr
  cases hs with
  | @answer d p chainKey run _ k a hw =>
    have hrun := (hok.process p rfl).workers chainKey _ _ hw
    have hc : DeliverChecked config.inbox (config.routes chainKey) run.job config.delivery
        run.funding tx run.said := hrun.asks.1
    obtain ⟨set, hset, hkey, hpos, votes, hvotes, hlen, hnodup, hall⟩ :=
      hrun.job.admissible.quorate hc.votes
    refine ⟨set, hset, hkey, hpos, fun current hmembers hthreshold => ?_⟩
    have htx : tx.votes = encodeVotes (votes.map (·.2)) := by
      rw [hc.terms]
      exact hvotes
    have hid : tx.messageId = run.job.messageId := by
      rw [hc.terms]
      rfl
    rw [htx, hid]
    apply hv.encodeVotes (Nat.le_trans hthreshold hlen) hnodup
    intro v hv
    exact ⟨hmembers (hall v hv).1, (hall v hv).2⟩

/-- A validator that checks just that. -/
def sampleValidate (ecrecover : Ecrecover) (set : RouteAttestors) (digest : B256) (votes : Bytes) :
    Bool :=
  match (votesType.readArgument abiWords votes).bind (List.mapM (recoverChecked ecrecover digest)) with
  | none => false
  | some signers =>
    signers.all set.attestors.contains && decide signers.Nodup &&
      decide (set.threshold ≤ signers.length)

theorem sampleValidate_laws (ecrecover : Ecrecover) :
    ValidatorLaws ecrecover (votesType.readArgument abiWords) (sampleValidate ecrecover) where
  decodes signatures hvalid hlt :=
    votesType.readArgument_argument abiWords hvalid hlt (List.prefix_refl _)
  accepts set digest votes signatures signers hread hsigners hsub hn ht := by
    have hmembers : signers.all set.attestors.contains = true :=
      List.all_eq_true.mpr fun a ha => List.contains_iff_mem.mpr (hsub ha)
    rw [sampleValidate, hread, Option.bind_some, hsigners]
    simp [hmembers, hn, ht]

/-- The first delivery, at a validator that one more attestor has joined. -/
theorem votes_accepted_joined :
    sampleValidate (fun _ _ => .ok 9) { sampleRoute with attestors := [8, 9] } 7
      (encodeVotes [firstVote.signature]) = true := by
  obtain ⟨l, q, hr⟩ := demo_voted demoInbox
  have htake := hr.snoc (demo_take demoInbox q)
  have hsimulated := htake.snoc (.answer (Reply.done true) (rfl : FleetProcess.workers _ 2 = _))
  have hcalled := hsimulated.snoc (.answer (Reply.done true) (rfl : FleetProcess.workers _ 2 = _))
  obtain ⟨set, hset, -, -, haccept⟩ := votes_accepted (sampleValidate_laws _)
    (fun _ _ _ hd => by cases hd) hcalled
    (.answer (Broadcast.sent 9) (rfl : FleetProcess.workers _ 2 = _))
  obtain rfl : set = sampleRoute := hset
  exact haccept { sampleRoute with attestors := [8, 9] } (by simp [sampleRoute]) (Nat.le_refl _)

end MessageRelayer

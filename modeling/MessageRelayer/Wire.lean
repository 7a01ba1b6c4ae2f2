import MessageRelayer.Basic
import MessageRelayer.Lib.Codec

/-!
# The envelopes on the wire

`write_ability::envelope`: the votes and requests as attestors and relayers
gossip them, in SCALE. The codecs of the fields' types are those of
`parity_scale_codec` (`Scale`, and as its documentation has them `scale`); the
derived codec of an envelope is that of its fields in order. `decode_bytes`
reads an envelope off the front of the bytes and drops the rest. So every
envelope is read back from its encoding, and nothing is read that does not
begin with the encoding of what is read; but an encoding with more bytes after
it is read as well (`wire_codec`, `wire_codec_trailing`).
-/

namespace MessageRelayer

/-- The codecs of the fields. -/
structure Scale where
  u64 : Codec Nat
  /-- `[u8; N]` -/
  array : (n : Nat) → Codec (Vector Byte n)
  /-- `Compact<u32>`, before the items of a vector. -/
  len : Codec Nat
  u64_valid : ∀ v, u64.Valid v ↔ v ≤ u64Max
  array_valid : ∀ n v, (array n).Valid v
  len_valid : ∀ v, len.Valid v ↔ v ≤ u32Max

/-- The codecs as they are documented. -/
def scale : Scale where
  u64 := .uintLE 8
  array := .array
  len := .compact
  u64_valid v := Nat.lt_iff_le_pred (by decide)
  array_valid _ _ := trivial
  len_valid v := Nat.lt_iff_le_pred (by decide)

/-- The bytes of a word, most significant first. -/
def toBe {n : Nat} (x : BitVec (8 * n)) : Vector Byte n :=
  ⟨(beBytes n x.toNat).toArray, by rw [List.size_toArray, length_beBytes]⟩

def ofBe {n : Nat} (bs : Vector Byte n) : BitVec (8 * n) := BitVec.ofNat _ (beNat bs.toList)

theorem ofBe_toBe {n : Nat} (x : BitVec (8 * n)) : ofBe (toBe x) = x := by
  have hx : x.toNat < 256 ^ n := by
    rw [show 256 = 2 ^ 8 from rfl, ← Nat.pow_mul]
    exact x.isLt
  show BitVec.ofNat _ (beNat (beBytes n x.toNat)) = x
  rw [beNat_beBytes n _ hx, BitVec.ofNat_toNat, BitVec.setWidth_eq]

theorem toBe_ofBe {n : Nat} (bs : Vector Byte n) : toBe (ofBe bs) = bs := by
  obtain ⟨he, hlt⟩ := beBytes_beNat bs.toList
  rw [bs.length_toList] at he hlt
  rw [show 256 = 2 ^ 8 from rfl, ← Nat.pow_mul] at hlt
  refine Vector.toList_inj.mp ?_
  show beBytes n (BitVec.ofNat _ (beNat bs.toList)).toNat = bs.toList
  rw [BitVec.toNat_ofNat, Nat.mod_eq_of_lt hlt, he]

/-- Words are written as their bytes. -/
def Scale.word (S : Scale) (n : Nat) : Codec (BitVec (8 * n)) :=
  (S.array n).iso ofBe toBe ofBe_toBe fun bs _ => toBe_ofBe bs

theorem Scale.word_valid (S : Scale) (n : Nat) (x : BitVec (8 * n)) : (S.word n).Valid x :=
  S.array_valid n (toBe x)

/-! ## The envelopes -/

/-- `T::decode(&mut &bytes[..])`: what is left of the bytes is dropped. -/
def decodeFront {α : Type} (c : Codec α) (bs : Bytes) : Option α := (c.decode bs).map (·.1)

namespace MessageVote

def codec (S : Scale) : Codec MessageVote :=
  (S.u64.seq ((S.word 32).seq ((S.word 20).seq (S.array 65)))).iso
    (fun (chainKey, messageId, signer, signature) => { chainKey, messageId, signer, signature })
    (fun v => (v.chainKey, v.messageId, v.signer, v.signature)) (fun _ => rfl) (fun _ _ => rfl)

def decodeBytes (S : Scale) (bs : Bytes) : Option MessageVote := decodeFront (codec S) bs

def encodeBytes (S : Scale) (v : MessageVote) : Bytes := (codec S).encode v

end MessageVote

namespace ReobservationRequest

def codec (S : Scale) : Codec ReobservationRequest :=
  (S.u64.seq ((S.word 32).seq ((S.word 32).seq S.u64))).iso
    (fun (chainKey, messageId, txHash, blockHeight) => { chainKey, messageId, txHash, blockHeight })
    (fun v => (v.chainKey, v.messageId, v.txHash, v.blockHeight)) (fun _ => rfl) (fun _ _ => rfl)

def decodeBytes (S : Scale) (bs : Bytes) : Option ReobservationRequest := decodeFront (codec S) bs

def encodeBytes (S : Scale) (v : ReobservationRequest) : Bytes := (codec S).encode v

end ReobservationRequest

namespace SetUpdateVote

def codec (S : Scale) : Codec SetUpdateVote :=
  (S.u64.seq ((Codec.vec S.len (S.word 20)).seq ((S.word 32).seq ((S.word 20).seq (S.array 65))))).iso
    (fun (chainKey, newAttestors, nonce, signer, signature) =>
      { chainKey, newAttestors, nonce, signer, signature })
    (fun v => (v.chainKey, v.newAttestors, v.nonce, v.signer, v.signature)) (fun _ => rfl)
    (fun _ _ => rfl)

def decodeBytes (S : Scale) (bs : Bytes) : Option SetUpdateVote := decodeFront (codec S) bs

/-- The codec panics when it cannot count the attestors. -/
def encodeBytes (S : Scale) (v : SetUpdateVote) : Option Bytes :=
  if v.newAttestors.length ≤ u32Max then some ((codec S).encode v) else none

end SetUpdateVote

/-! ## One encoding for each envelope -/

/-- The envelopes that fit the types of their fields have one encoding each: it is read back, in
front of anything; what is read begins with it; and cut short, it is not read. -/
structure WireCodec {α : Type} (fits : α → Prop) (encode : α → Option Bytes)
    (decode : Bytes → Option α) : Prop where
  read : ∀ v e rest, fits v → encode v = some e → decode (e ++ rest) = some v
  only : ∀ b v, decode b = some v → fits v ∧ ∃ e rest, encode v = some e ∧ b = e ++ rest
  truncated : ∀ v e b, fits v → encode v = some e → b <+: e → b ≠ e → decode b = none

theorem decodeFront_valid {α : Type} {c : Codec α} {b : Bytes} {v : α} (h : decodeFront c b = some v) :
    c.Valid v := by
  obtain ⟨⟨_, rest⟩, hc, rfl⟩ := Option.map_eq_some_iff.mp h
  exact (c.encode_decode _ _ _ hc).1

theorem decodeFront_wireCodec {α : Type} (c : Codec α) {fits : α → Prop} {encode : α → Option Bytes}
    (he : ∀ v e, fits v → encode v = some e → c.Valid v ∧ c.encode v = e)
    (hv : ∀ v, c.Valid v → fits v ∧ encode v = some (c.encode v)) :
    WireCodec fits encode (decodeFront c) where
  read v e rest hf hs := by
    obtain ⟨hval, rfl⟩ := he v e hf hs
    rw [decodeFront, c.decode_encode v rest hval, Option.map_some]
  only b v hd := by
    obtain ⟨⟨_, rest⟩, hc, rfl⟩ := Option.map_eq_some_iff.mp hd
    obtain ⟨hval, rfl⟩ := c.encode_decode _ _ _ hc
    exact ⟨(hv _ hval).1, _, rest, (hv _ hval).2, rfl⟩
  truncated v e b hf hs hp hne := by
    obtain ⟨hval, rfl⟩ := he v e hf hs
    rw [decodeFront, c.decode_truncated hval hp hne, Option.map_none]

section
variable {S : Scale}

theorem MessageVote.codec_valid (v : MessageVote) : (codec S).Valid v ↔ v.chainKey ≤ u64Max := by
  refine Iff.trans ?_ (S.u64_valid v.chainKey)
  exact ⟨And.left, fun h => ⟨h, S.word_valid 32 _, S.word_valid 20 _, S.array_valid 65 _⟩⟩

theorem ReobservationRequest.codec_valid (v : ReobservationRequest) :
    (codec S).Valid v ↔ v.chainKey ≤ u64Max ∧ v.blockHeight ≤ u64Max := by
  rw [← S.u64_valid, ← S.u64_valid]
  exact ⟨fun h => ⟨h.1, h.2.2.2⟩, fun h => ⟨h.1, S.word_valid 32 _, S.word_valid 32 _, h.2⟩⟩

theorem SetUpdateVote.codec_valid (v : SetUpdateVote) :
    (codec S).Valid v ↔ v.chainKey ≤ u64Max ∧ v.newAttestors.length ≤ u32Max := by
  rw [← S.u64_valid, ← S.len_valid]
  refine ⟨fun h => ⟨h.1, h.2.1.1⟩, fun h => ⟨h.1, ⟨h.2, fun a _ => S.word_valid 20 a⟩, ?_⟩⟩
  exact ⟨S.word_valid 32 _, S.word_valid 20 _, S.array_valid 65 _⟩

end

/-- Each envelope is read back from its encoding in front of anything, only what begins with an
encoding is read, and no truncated encoding is. -/
theorem wire_codec (S : Scale) :
    WireCodec (fun v : MessageVote => v.chainKey ≤ u64Max)
      (fun v => some (v.encodeBytes S)) (MessageVote.decodeBytes S) ∧
    WireCodec (fun v : ReobservationRequest => v.chainKey ≤ u64Max ∧ v.blockHeight ≤ u64Max)
      (fun v => some (v.encodeBytes S)) (ReobservationRequest.decodeBytes S) ∧
    WireCodec (fun v : SetUpdateVote => v.chainKey ≤ u64Max) (fun v => v.encodeBytes S)
      (SetUpdateVote.decodeBytes S) ∧
    ∀ v : SetUpdateVote, (v.encodeBytes S).isSome ↔ v.newAttestors.length ≤ u32Max := by
  refine ⟨decodeFront_wireCodec _ (fun v e hf hs => ?_) fun v hv => ?_,
    decodeFront_wireCodec _ (fun v e hf hs => ?_) fun v hv => ?_,
    decodeFront_wireCodec _ (fun v e hf hs => ?_) fun v hv => ?_, fun v => ?_⟩
  · exact ⟨v.codec_valid.mpr hf, Option.some.inj hs⟩
  · exact ⟨v.codec_valid.mp hv, rfl⟩
  · exact ⟨v.codec_valid.mpr hf, Option.some.inj hs⟩
  · exact ⟨v.codec_valid.mp hv, rfl⟩
  · rw [SetUpdateVote.encodeBytes] at hs
    split at hs
    · rename_i hl
      exact ⟨v.codec_valid.mpr ⟨hf, hl⟩, Option.some.inj hs⟩
    · cases hs
  · obtain ⟨hf, hl⟩ := v.codec_valid.mp hv
    exact ⟨hf, if_pos hl⟩
  · rw [SetUpdateVote.encodeBytes]
    split <;> simp_all

/-- A vote for two attestors, whole and cut short. -/
theorem wire_codec_set_update :
    let v : SetUpdateVote := ⟨2, [7, 8], 5, 3, .replicate 65 4⟩
    ∃ e, v.encodeBytes scale = some e ∧ SetUpdateVote.decodeBytes scale e = some v ∧
      SetUpdateVote.decodeBytes scale e.dropLast = none := by
  intro v
  have h := (wire_codec scale).2.2.1
  obtain ⟨e, he⟩ := Option.isSome_iff_exists.mp (((wire_codec scale).2.2.2 v).mpr (by decide))
  have hne : e.dropLast ≠ e := by
    have hl : e.dropLast.length = e.length - 1 := List.length_dropLast
    have hpos : 0 < e.length := by
      cases he
      decide +kernel
    intro hc
    rw [hc] at hl
    omega
  have hr := h.read v e [] (by decide) he
  rw [List.append_nil] at hr
  exact ⟨e, he, hr, h.truncated v e _ (by decide) he (List.dropLast_prefix e) hne⟩

/-- A vote is read from its encoding and from its encoding with a byte more. -/
theorem wire_codec_trailing :
    let v : MessageVote := ⟨2, 1, 3, .replicate 65 4⟩
    MessageVote.decodeBytes scale (v.encodeBytes scale ++ [0]) = some v ∧
      ¬∀ b v, MessageVote.decodeBytes scale b = some v → v.encodeBytes scale = b := by
  intro v
  have hd : MessageVote.decodeBytes scale (v.encodeBytes scale ++ [0]) = some v := by decide +kernel
  refine ⟨hd, fun h => ?_⟩
  have := congrArg List.length (h _ v hd)
  rw [List.length_append, List.length_singleton] at this
  omega

end MessageRelayer

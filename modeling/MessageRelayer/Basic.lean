import Mathlib.Data.List.Induction
import MessageRelayer.Lib.Map

/-!
# Values of the relayer

The types that the relayer's tasks exchange, and the arithmetic of the fixed
widths they rely on. Addresses and 32-byte words are bit vectors (the maps of
the source are keyed by them in their big-endian order), byte strings are
lists, and the counters are naturals whose bound is stated where the source
saturates.
-/

namespace MessageRelayer

abbrev Byte := UInt8
abbrev Bytes := List Byte
abbrev Address := BitVec 160
abbrev B256 := BitVec 256
abbrev ChainKey := Nat

instance : Std.TransOrd Address := inferInstanceAs (Std.TransOrd (BitVec 160))
instance : Std.TransOrd B256 := inferInstanceAs (Std.TransOrd (BitVec 256))

/-- An ECDSA signature `r || s || v`. -/
abbrev RawSignature := Vector Byte 65

/-- Nanoseconds of the monotonic clock. -/
abbrev Instant := Nat
abbrev Duration := Nat

/-- `Duration::from_secs`. -/
def fromSecs (n : Nat) : Duration := n * 10 ^ 9

def u32Max : Nat := 2 ^ 32 - 1
def u64Max : Nat := 2 ^ 64 - 1

theorem one_le_u32Max : 1 ≤ u32Max := by decide

/-- `u32::saturating_add`. -/
def satAdd32 (a b : Nat) : Nat := min (a + b) u32Max

/-- `u64::saturating_add`. -/
def satAdd64 (a b : Nat) : Nat := min (a + b) u64Max

/-- `u64::saturating_mul`. -/
def satMul64 (a b : Nat) : Nat := min (a * b) u64Max

/-- An error with its contexts, outermost first. -/
abbrev Error := List String

/-- The number that bytes spell, most significant first. -/
def beNat (bs : Bytes) : Nat := bs.foldl (fun n b => 256 * n + b.toNat) 0

/-- The `n` bytes of a number, most significant first. -/
def beBytes (n v : Nat) : Bytes := (List.range n).map fun i => UInt8.ofNat (v / 256 ^ (n - 1 - i))

/-- A 32-byte word. -/
def word (v : Nat) : Bytes := beBytes 32 v

theorem length_beBytes (n v : Nat) : (beBytes n v).length = n := by
  rw [beBytes, List.length_map, List.length_range]

theorem length_word (v : Nat) : (word v).length = 32 := length_beBytes 32 v

theorem beBytes_succ (n v : Nat) : beBytes (n + 1) v = beBytes n (v / 256) ++ [UInt8.ofNat v] := by
  rw [beBytes, beBytes, List.range_succ, List.map_append, List.map_singleton]
  congr 1
  · refine List.map_congr_left fun i hi => ?_
    have hi := List.mem_range.mp hi
    rw [Nat.div_div_eq_div_mul, ← Nat.pow_succ', show n + 1 - 1 - i = n - 1 - i + 1 by omega]
  · rw [Nat.add_sub_cancel, Nat.sub_self, Nat.pow_zero, Nat.div_one]

theorem beNat_concat (bs : Bytes) (b : Byte) : beNat (bs ++ [b]) = 256 * beNat bs + b.toNat := by
  rw [beNat, List.foldl_append]
  rfl

theorem beNat_beBytes (n : Nat) : ∀ v, v < 256 ^ n → beNat (beBytes n v) = v := by
  induction n with
  | zero =>
    intro v h
    simp only [Nat.pow_zero, Nat.lt_one_iff] at h
    rw [h]
    rfl
  | succ n ih =>
    intro v h
    rw [beBytes_succ, beNat_concat, ih (v / 256) (Nat.div_lt_of_lt_mul (by rwa [Nat.pow_succ'] at h)),
      UInt8.toNat_ofNat']
    omega

theorem beBytes_beNat (bs : Bytes) :
    beBytes bs.length (beNat bs) = bs ∧ beNat bs < 256 ^ bs.length := by
  induction bs using List.reverseRecOn with
  | nil => exact ⟨rfl, Nat.one_pos⟩
  | append_singleton bs b ih =>
    have hb : b.toNat < 256 := b.toNat_lt
    have hd : (256 * beNat bs + b.toNat) / 256 = beNat bs := by omega
    have hm : UInt8.ofNat (256 * beNat bs + b.toNat) = b := by
      apply UInt8.toNat_inj.mp
      rw [UInt8.toNat_ofNat']
      omega
    rw [List.length_append, List.length_singleton, beNat_concat, beBytes_succ, hd, ih.1, hm,
      Nat.pow_succ']
    exact ⟨rfl, by omega⟩

/-- A finalized publication of a source Outbox (`events::IndexedMessage`). -/
structure IndexedMessage where
  chainKey : ChainKey
  messageId : B256
  emitter : Address
  outbox : Address
  sequence : Nat
  destinationChainKey : B256
  creditcoinChainId : Nat
  payload : Bytes
  txHash : B256
  blockHeight : Nat
  deriving DecidableEq

/-- An attestor's vote, as gossiped (`write_ability::envelope::MessageVote`). -/
structure MessageVote where
  chainKey : ChainKey
  messageId : B256
  signer : Address
  signature : RawSignature
  deriving DecidableEq

/-- An attestor's vote for a new attestor set (`write_ability::envelope::SetUpdateVote`). -/
structure SetUpdateVote where
  chainKey : ChainKey
  newAttestors : List Address
  nonce : B256
  signer : Address
  signature : RawSignature
  deriving DecidableEq

/-- A request that attestors sign a message again (`write_ability::envelope`). -/
structure ReobservationRequest where
  chainKey : ChainKey
  messageId : B256
  txHash : B256
  blockHeight : Nat
  deriving DecidableEq

end MessageRelayer

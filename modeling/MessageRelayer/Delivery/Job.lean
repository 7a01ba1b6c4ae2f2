import MessageRelayer.Basic

/-!
# Delivery jobs and their results

What passes between the vote pool and the delivery workers
(`delivery::DeliveryJob`, `delivery::DeliveryResult`), the encoding of a job's
votes (`delivery::encode::encode_votes`) and the delay before an accepted
message is reconciled again (`delivery::pending_retry_delay`).
-/

namespace MessageRelayer

/-- A delivery dispatched by the pool. -/
structure DeliveryJob where
  chainKey : ChainKey
  messageId : B256
  emitter : Address
  outbox : Address
  sequence : Nat
  payload : Bytes
  votesCalldata : Bytes
  signerCount : Nat
  indexedAt : Instant
  /-- Reconcile an earlier acceptance, or probe restored work, without submitting votes. -/
  reconcileOnly : Bool
  deriving DecidableEq

inductive DeliveryResultKind where
  | delivered
  | terminal
  | retryable
  /-- No acceptance was found on chain. -/
  | awaitingVotes
  /-- The votes are accepted; only the execution is missing. -/
  | awaitingExecution (retryAfter : Option Nat)
  deriving DecidableEq

/-- The results after which a message's durable record is removed. -/
def DeliveryResultKind.final : DeliveryResultKind → Bool
  | delivered | terminal => true
  | retryable | awaitingVotes | awaitingExecution _ => false

structure DeliveryResult where
  chainKey : ChainKey
  messageId : B256
  outcome : DeliveryResultKind
  deriving DecidableEq

/-! ## The votes of a job -/

/-- Zeros up to a whole number of words. -/
def padWord (bs : Bytes) : Bytes := bs ++ List.replicate ((32 - bs.length % 32) % 32) 0

/-- The tail of a `bytes` argument: its length, then its padded contents. -/
def encodeBytes (bs : Bytes) : Bytes := word bs.length ++ padWord bs

/-- The tails of an array of `bytes`, preceded by the offset of each from the start of the
offsets; `start` is the offset of the first. -/
def encodeTails (start : Nat) : List Bytes → Bytes × Bytes
  | [] => ([], [])
  | b :: bs =>
    let tail := encodeBytes b
    let (heads, tails) := encodeTails (start + tail.length) bs
    (word start ++ heads, tail ++ tails)

/-- `abi.encode(bytes[])`, the `votes` argument of `deliverMessage`. -/
def encodeVotes (signatures : List RawSignature) : Bytes :=
  let sigs := signatures.map Vector.toList
  let (heads, tails) := encodeTails (32 * sigs.length) sigs
  word 32 ++ word sigs.length ++ heads ++ tails

theorem encodeTails_snd (start : Nat) (bss : List Bytes) :
    (encodeTails start bss).2 = bss.flatMap encodeBytes := by
  induction bss generalizing start with
  | nil => rfl
  | cons b bs ih => rw [encodeTails, List.flatMap_cons, ← ih]

theorem length_encodeTails_fst (start : Nat) (bss : List Bytes) :
    (encodeTails start bss).1.length = 32 * bss.length := by
  induction bss generalizing start with
  | nil => rfl
  | cons b bs ih =>
    rw [encodeTails, List.length_append, length_word, ih, List.length_cons]
    omega

theorem length_encodeBytes (raw : RawSignature) : (encodeBytes raw.toList).length = 128 := by
  simp [encodeBytes, padWord, length_word]

theorem encodeBytes_inj {a b : RawSignature} (h : encodeBytes a.toList = encodeBytes b.toList) :
    a = b := by
  rw [encodeBytes, encodeBytes, padWord, padWord, Vector.length_toList, Vector.length_toList] at h
  exact Vector.toList_inj.mp (List.append_cancel_right (List.append_cancel_left h))

theorem flatMap_encodeBytes_inj : ∀ {a b : List RawSignature},
    (a.map Vector.toList).flatMap encodeBytes = (b.map Vector.toList).flatMap encodeBytes → a = b
  | [], [], _ => rfl
  | [], y :: b, h | y :: b, [], h => by
    have := congrArg List.length h
    simp only [List.map_nil, List.map_cons, List.flatMap_nil, List.flatMap_cons, List.length_nil,
      List.length_append, length_encodeBytes] at this
    omega
  | x :: a, y :: b, h => by
    simp only [List.map_cons, List.flatMap_cons] at h
    obtain ⟨hx, hr⟩ :=
      List.append_inj h ((length_encodeBytes x).trans (length_encodeBytes y).symm)
    rw [encodeBytes_inj hx, flatMap_encodeBytes_inj hr]

theorem length_flatMap_encodeBytes (a : List RawSignature) :
    ((a.map Vector.toList).flatMap encodeBytes).length = 128 * a.length := by
  induction a with
  | nil => rfl
  | cons x a ih =>
    rw [List.map_cons, List.flatMap_cons, List.length_append, length_encodeBytes, ih,
      List.length_cons]
    omega

/-- The encoding determines the signatures. -/
theorem encodeVotes_inj {a b : List RawSignature} (h : encodeVotes a = encodeVotes b) : a = b := by
  simp only [encodeVotes, encodeTails_snd] at h
  have hl := congrArg List.length h
  simp only [List.length_append, length_word, length_encodeTails_fst, List.length_map,
    length_flatMap_encodeBytes] at hl
  refine flatMap_encodeBytes_inj (List.append_inj h ?_).2
  simp only [List.length_append, length_word, length_encodeTails_fst, List.length_map]
  omega

/-! ## Reconciling an accepted message again -/

def pendingRetryDelays : List Duration := [fromSecs 15, fromSecs 60, fromSecs 240]

def retryDeferredMargin : Duration := fromSecs 5

def maxRetryDeferredWait : Duration := fromSecs (6 * 3600)

/-- How long before an accepted message is reconciled again: the dispatcher's hint
`retryAfter` when it lies ahead of the wall clock `now` (both in seconds), else a fixed
ladder over the attempts. -/
def pendingRetryDelay (attempt : Nat) (retryAfter now : Option Nat) : Duration :=
  let fixed := pendingRetryDelays.getD (min attempt (pendingRetryDelays.length - 1)) 0
  match retryAfter, now with
  | some ts, some now =>
    if ts > now then min (fromSecs (ts - now) + retryDeferredMargin) maxRetryDeferredWait
    else fixed
  | _, _ => fixed

end MessageRelayer

import MessageRelayer.Chain

/-!
# Reverts and receipts

What a node's error says (`revert`): the custom-error selector and the revert
data, which some clients give as data and others only in the text of the error,
and the class of a `deliverMessage` revert (`delivery::DeliveryRevert`). What
the logs of a successful receipt say (`delivery::classify_success_logs`).

The ABI of the Inbox is a parameter (`InboxCodec`).
-/

namespace MessageRelayer

/-! ## The text of an error -/

/-- The text from the first occurrence of `needle`. -/
def findFrom (needle : List Char) : List Char → Option (List Char)
  | [] => if needle = [] then some [] else none
  | c :: s => if needle.isPrefixOf (c :: s) then some (c :: s) else findFrom needle s

/-- `str::contains`. -/
def containsText (s needle : String) : Bool := (findFrom needle.toList s.toList).isSome

/-- `char::is_ascii_hexdigit`. -/
def isHexDigit (c : Char) : Bool :=
  c.isDigit || ('a' ≤ c && c ≤ 'f') || ('A' ≤ c && c ≤ 'F')

def hexValue (c : Char) : Nat :=
  if c.isDigit then c.toNat - '0'.toNat else c.toLower.toNat - 'a'.toNat + 10

/-- `hex::decode` of an even number of digits. -/
def decodeHex : List Char → Bytes
  | hi :: lo :: cs => UInt8.ofNat (16 * hexValue hi + hexValue lo) :: decodeHex cs
  | _ => []

/-- The hex digits after the first `0x` that follows the first `data`. -/
def dataDigits (s : String) : Option (List Char) := do
  let data ← findFrom "data".toList s.toList
  let hex ← findFrom "0x".toList data
  pure ((hex.drop 2).takeWhile isHexDigit)

/-- The revert payload that an error's text carries. -/
def revertData (s : String) : Option Bytes := do
  let hex ← dataDigits s
  if hex.length < 8 ∨ hex.length % 2 ≠ 0 then none else pure (decodeHex hex)

/-- The custom-error selector that an error's text carries. -/
def revertSelector (s : String) : Option Bytes := do
  let hex ← dataDigits s
  if (hex.take 8).length < 8 then none else pure (decodeHex (hex.take 8))

/-- Whether the error reads as a contract's revert, in any node's dialect. -/
def isRevert (s : String) : Bool :=
  let lower := String.ofList (s.toList.map Char.toLower)
  containsText lower "execution reverted" ||
    containsText lower "vm exception while processing transaction" ||
    containsText lower "transaction reverted"

/-! ## The class of a revert -/

/-- A failed call on a contract. -/
structure CallError where
  text : String
  /-- The revert data, where the node gives it as data. -/
  data : Option Bytes
  deriving DecidableEq

/-- The ABI of the Inbox and of what it calls, as the generated bindings have it. -/
structure InboxCodec where
  destinationFailed : B256
  messageQueued : B256
  messageDeferred : B256
  messageExecuted : B256
  /-- The dispatcher of a `DestinationFailed`. -/
  decodeDestinationFailed : Log → Except String Address
  decodeMessageExecuted : Log → Except String Unit
  messageAlreadyValidated : Bytes
  messageAlreadyProcessed : Bytes
  validationFailedWithNativeValue : Bytes
  invalidMessageDispatcher : Bytes
  insufficientGasForDestination : Bytes
  /-- The `retryAfter` of a `RetryDeferred`. -/
  decodeRetryDeferred : Bytes → Option Nat
  /-- The `nativeCoinValue` and the `gasLimit` of the four-field envelope. -/
  decodeEnvelope : Bytes → Option (Nat × Nat)

inductive DeliveryRevert where
  /-- The Inbox or the receiver already processed the message. -/
  | duplicate
  | validationFailedWithNativeValue
  | invalidMessageDispatcher
  | insufficientGasForDestination
  | other
  deriving DecidableEq

section
variable (codec : InboxCodec)

/-- Whether the error means that the message was accepted before. -/
def revertDuplicateDelivery (s : String) : Bool :=
  let sel := revertSelector s
  containsText s "Already validated" || containsText s "MessageAlreadyValidated" ||
    sel == some codec.messageAlreadyValidated || containsText s "MessageAlreadyProcessed" ||
    sel == some codec.messageAlreadyProcessed

def classifyRevertStr (s : String) (sel : Option Bytes) : Option DeliveryRevert :=
  let sel := sel.or (revertSelector s)
  let named (selector : Bytes) (name : String) : Bool := sel == some selector || containsText s name
  if revertDuplicateDelivery codec s then some .duplicate
  else if named codec.validationFailedWithNativeValue "ValidationFailedWithNativeValue" then
    some .validationFailedWithNativeValue
  else if named codec.invalidMessageDispatcher "InvalidMessageDispatcher" then
    some .invalidMessageDispatcher
  else if named codec.insufficientGasForDestination "InsufficientGasForDestination" then
    some .insufficientGasForDestination
  else if isRevert s || sel.isSome then some .other
  else none

/-- The class of a failed `deliverMessage`; none is not a revert at all. -/
def classifyDeliveryRevert (err : CallError) : Option DeliveryRevert :=
  classifyRevertStr codec err.text
    ((err.data.filter fun data => decide (4 ≤ data.length)).map (List.take 4))

/-- The time that a `RetryDeferred` revert names. -/
def decodeRetryDeferred (err : CallError) : Option Nat :=
  (err.data.bind codec.decodeRetryDeferred).or
    ((revertData err.text).bind codec.decodeRetryDeferred)

/-! ## The logs of a receipt -/

/-- What the logs of a successful receipt say of a message. -/
inductive ReceiptClass where
  | delivered
  | destinationFailed (dispatcher : Address)
  | pending
  | unknown
  deriving DecidableEq

/-- A log of the Inbox for the message, with the given first topic. -/
def Log.isFor (log : Log) (inbox : Address) (messageId topic : B256) : Prop :=
  log.address = inbox ∧ log.topics[1]? = some messageId ∧ log.topics.head? = some topic

/-- `classify_success_logs`, from the flags of the logs before. -/
def classifyLogs (inbox : Address) (messageId : B256) (pending executed : Bool) :
    List Log → ReceiptClass
  | [] => if pending then .pending else if executed then .delivered else .unknown
  | log :: logs =>
    if log.address ≠ inbox ∨ log.topics[1]? ≠ some messageId then
      classifyLogs inbox messageId pending executed logs
    else if log.topics.head? = some codec.destinationFailed then
      .destinationFailed ((codec.decodeDestinationFailed log).toOption.getD 0)
    else if log.topics.head? = some codec.messageQueued ∨
        log.topics.head? = some codec.messageDeferred then
      classifyLogs inbox messageId true executed logs
    else if log.topics.head? = some codec.messageExecuted then
      classifyLogs inbox messageId pending (codec.decodeMessageExecuted log).isOk logs
    else classifyLogs inbox messageId pending executed logs

def classifySuccessLogs (inbox : Address) (messageId : B256) (logs : List Log) : ReceiptClass :=
  classifyLogs codec inbox messageId false false logs

end

/-! ## Soundness of the class -/

variable {codec : InboxCodec} {inbox : Address} {messageId : B256}

/-- The logs have a well-formed `MessageExecuted` of the Inbox for the message, and nothing that
says that it is still to be executed. -/
def ExecutedLogs (codec : InboxCodec) (inbox : Address) (messageId : B256) (logs : List Log) : Prop :=
  (∃ log ∈ logs, log.isFor inbox messageId codec.messageExecuted ∧
    codec.decodeMessageExecuted log = .ok ()) ∧
  ∀ log ∈ logs, ¬ log.isFor inbox messageId codec.destinationFailed ∧
    ¬ log.isFor inbox messageId codec.messageQueued ∧
    ¬ log.isFor inbox messageId codec.messageDeferred

theorem classifyLogs_delivered {pending executed : Bool} {logs : List Log}
    (h : classifyLogs codec inbox messageId pending executed logs = .delivered) :
    pending = false ∧ (executed = true ∨ ∃ log ∈ logs,
      log.isFor inbox messageId codec.messageExecuted ∧ codec.decodeMessageExecuted log = .ok ()) ∧
    ∀ log ∈ logs, ¬ log.isFor inbox messageId codec.destinationFailed ∧
      ¬ log.isFor inbox messageId codec.messageQueued ∧
      ¬ log.isFor inbox messageId codec.messageDeferred := by
  induction logs generalizing pending executed with
  | nil =>
    cases pending <;> cases executed <;> cases h
    exact ⟨rfl, .inl rfl, fun _ hm => absurd hm List.not_mem_nil⟩
  | cons log logs ih =>
    rw [classifyLogs] at h
    split at h
    · rename_i hn
      obtain ⟨hp, he, hl⟩ := ih h
      refine ⟨hp, he.imp_right fun ⟨l, hm, h⟩ => ⟨l, List.mem_cons_of_mem _ hm, h⟩, ?_⟩
      have hno : ∀ topic, ¬ log.isFor inbox messageId topic := fun topic hf =>
        hn.elim (fun h => h hf.1) fun h => h hf.2.1
      exact List.forall_mem_cons.mpr ⟨⟨hno _, hno _, hno _⟩, hl⟩
    rename_i hf
    split at h
    · cases h
    rename_i hd
    split at h
    · cases (ih h).1
    rename_i hq
    have hno : ¬ log.isFor inbox messageId codec.destinationFailed ∧
        ¬ log.isFor inbox messageId codec.messageQueued ∧
        ¬ log.isFor inbox messageId codec.messageDeferred :=
      ⟨fun h => hd h.2.2, fun h => hq (.inl h.2.2), fun h => hq (.inr h.2.2)⟩
    split at h
    · rename_i ht
      obtain ⟨hp, he, hl⟩ := ih h
      refine ⟨hp, .inr ?_, List.forall_mem_cons.mpr ⟨hno, hl⟩⟩
      rcases he with he | ⟨l, hm, h⟩
      · refine ⟨log, List.mem_cons_self, ?_, ?_⟩
        · rw [not_or, not_not, not_not] at hf
          exact ⟨hf.1, hf.2, ht⟩
        · cases hx : codec.decodeMessageExecuted log with
          | ok => rfl
          | error => rw [hx] at he; cases he
      · exact ⟨l, List.mem_cons_of_mem _ hm, h⟩
    · obtain ⟨hp, he, hl⟩ := ih h
      exact ⟨hp, he.imp_right fun ⟨l, hm, h⟩ => ⟨l, List.mem_cons_of_mem _ hm, h⟩,
        List.forall_mem_cons.mpr ⟨hno, hl⟩⟩

theorem classifySuccessLogs_delivered {logs : List Log}
    (h : classifySuccessLogs codec inbox messageId logs = .delivered) :
    ExecutedLogs codec inbox messageId logs := by
  obtain ⟨-, he, hl⟩ := classifyLogs_delivered h
  exact ⟨he.resolve_left (by decide), hl⟩

end MessageRelayer

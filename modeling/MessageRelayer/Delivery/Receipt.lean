import MessageRelayer.Delivery.Outcome

/-!
# The class of a receipt and the order of its logs

What the logs of a receipt say of a message does not depend on their order for
a `DestinationFailed`, which ends the loop, nor for a `MessageQueued` or a
`MessageDeferred`, which set a flag that stays. The flag of a
`MessageExecuted` is overwritten by the next one, so the last of them decides
(`classifyLogs_kind`): a well-formed one before a malformed one is forgotten.
The class is the one that the logs call for, whatever their order, exactly
where none is (`receipt_class_order`).
-/

namespace MessageRelayer

/-- A `ReceiptClass` without the dispatcher. -/
inductive ReceiptKind where
  | delivered
  | destinationFailed
  | pending
  | unknown
  deriving DecidableEq

def ReceiptClass.kind : ReceiptClass → ReceiptKind
  | delivered => .delivered
  | destinationFailed _ => .destinationFailed
  | pending => .pending
  | unknown => .unknown

instance (log : Log) (inbox : Address) (messageId topic : B256) :
    Decidable (log.isFor inbox messageId topic) :=
  inferInstanceAs (Decidable (_ ∧ _ ∧ _))

section
variable (codec : InboxCodec) (inbox : Address) (messageId : B256)

/-! ## What the logs call for -/

def Log.failed (log : Log) : Bool := decide (log.isFor inbox messageId codec.destinationFailed)

def Log.waits (log : Log) : Bool :=
  decide (log.isFor inbox messageId codec.messageQueued) ||
    decide (log.isFor inbox messageId codec.messageDeferred)

def Log.executed (log : Log) : Bool := decide (log.isFor inbox messageId codec.messageExecuted)

def Log.wellFormed (log : Log) : Bool := (codec.decodeMessageExecuted log).isOk

/-- The log is one of the four events of the Inbox, for the message. -/
def Log.concerns (log : Log) : Bool :=
  log.failed codec inbox messageId || log.waits codec inbox messageId ||
    log.executed codec inbox messageId

/-- The class that the logs call for. -/
def receiptKind (logs : List Log) : ReceiptKind :=
  if logs.any (·.failed codec inbox messageId) then .destinationFailed
  else if logs.any (·.waits codec inbox messageId) then .pending
  else if logs.any fun log => log.executed codec inbox messageId && log.wellFormed codec then
    .delivered
  else .unknown

/-- The flag `executed` after the logs: the last `MessageExecuted` decides it. -/
def lastExecuted (executed : Bool) (logs : List Log) : Bool :=
  logs.foldl (fun executed log =>
    if log.executed codec inbox messageId then log.wellFormed codec else executed) executed

end

variable {codec : InboxCodec} {inbox : Address} {messageId : B256}

theorem lastExecuted_cons (executed : Bool) (log : Log) (logs : List Log) :
    lastExecuted codec inbox messageId executed (log :: logs) = lastExecuted codec inbox messageId
      (if log.executed codec inbox messageId then log.wellFormed codec else executed) logs := rfl

/-- The class of the logs, from the flags of the logs before. -/
theorem classifyLogs_kind (logs : List Log) : ∀ pending executed : Bool,
    (classifyLogs codec inbox messageId pending executed logs).kind =
      if logs.any (·.failed codec inbox messageId) then .destinationFailed
      else if pending || logs.any (·.waits codec inbox messageId) then .pending
      else if lastExecuted codec inbox messageId executed logs then .delivered
      else .unknown := by
  induction logs with
  | nil =>
    intro pending executed
    cases pending <;> cases executed <;> rfl
  | cons log logs ih =>
    intro pending executed
    rw [classifyLogs, lastExecuted_cons, List.any_cons, List.any_cons]
    split
    · rename_i hne
      have hno : ∀ topic, ¬ log.isFor inbox messageId topic := fun topic hf =>
        hne.elim (fun h => h hf.1) fun h => h hf.2.1
      rw [ih]
      simp [Log.failed, Log.waits, Log.executed, hno]
    rename_i hfor
    rw [not_or, not_not, not_not] at hfor
    have hiff : ∀ topic, log.isFor inbox messageId topic ↔ log.topics.head? = some topic :=
      fun topic => ⟨fun h => h.2.2, fun h => ⟨hfor.1, hfor.2, h⟩⟩
    split
    · rename_i hd
      have hfailed : log.failed codec inbox messageId = true := by simp [Log.failed, hiff, hd]
      simp [ReceiptClass.kind, hfailed]
    rename_i hd
    have hfailed : log.failed codec inbox messageId = false := by simp [Log.failed, hiff, hd]
    split
    · rename_i hw
      have hwaits : log.waits codec inbox messageId = true := by simp [Log.waits, hiff, hw]
      rw [ih]
      simp [hfailed, hwaits]
    rename_i hw
    have hwaits : log.waits codec inbox messageId = false := by
      rw [not_or] at hw
      simp [Log.waits, hiff, hw]
    split
    · rename_i hx
      have hexecuted : log.executed codec inbox messageId = true := by
        simp [Log.executed, hiff, hx]
      rw [ih]
      simp [hfailed, hwaits, hexecuted, Log.wellFormed]
    · rename_i hx
      have hexecuted : log.executed codec inbox messageId = false := by
        simp [Log.executed, hiff, hx]
      rw [ih]
      simp [hfailed, hwaits, hexecuted]

theorem classifySuccessLogs_kind (logs : List Log) :
    (classifySuccessLogs codec inbox messageId logs).kind =
      if logs.any (·.failed codec inbox messageId) then .destinationFailed
      else if logs.any (·.waits codec inbox messageId) then .pending
      else if lastExecuted codec inbox messageId false logs then .delivered
      else .unknown := classifyLogs_kind logs false false

/-- Either no log is a `MessageExecuted`, or one of them decided the flag. -/
theorem lastExecuted_cases (logs : List Log) : ∀ executed : Bool,
    (lastExecuted codec inbox messageId executed logs = executed ∧
      ∀ log ∈ logs, log.executed codec inbox messageId = false) ∨
    ∃ log ∈ logs, log.executed codec inbox messageId = true ∧
      lastExecuted codec inbox messageId executed logs = log.wellFormed codec := by
  induction logs with
  | nil => exact fun _ => .inl ⟨rfl, fun _ hm => absurd hm List.not_mem_nil⟩
  | cons log logs ih =>
    intro executed
    rw [lastExecuted_cons]
    rcases ih (if log.executed codec inbox messageId then log.wellFormed codec else executed) with
      ⟨he, hno⟩ | ⟨log', hm, hx, he⟩
    · rw [he]
      cases hx : log.executed codec inbox messageId with
      | true => exact .inr ⟨log, List.mem_cons_self, hx, rfl⟩
      | false => exact .inl ⟨rfl, List.forall_mem_cons.mpr ⟨hx, hno⟩⟩
    · exact .inr ⟨log', List.mem_cons_of_mem _ hm, hx, he⟩

/-! ## The order of the logs -/

/-- The class of the logs is the one that they call for, and so it stays when they are permuted and
when logs that do not concern the message come or go. -/
structure ReceiptSettled (codec : InboxCodec) (inbox : Address) (messageId : B256)
    (logs : List Log) : Prop where
  kind : (classifySuccessLogs codec inbox messageId logs).kind = receiptKind codec inbox messageId logs
  order : ∀ logs' : List Log, (logs'.filter (·.concerns codec inbox messageId)).Perm
      (logs.filter (·.concerns codec inbox messageId)) →
    (classifySuccessLogs codec inbox messageId logs').kind =
      (classifySuccessLogs codec inbox messageId logs).kind

/-- The message failed or waits, or its `MessageExecuted` logs are all well-formed or all not. -/
def Steady (codec : InboxCodec) (inbox : Address) (messageId : B256) (logs : List Log) : Prop :=
  (∃ log ∈ logs, log.failed codec inbox messageId = true) ∨
  (∃ log ∈ logs, log.waits codec inbox messageId = true) ∨
  ∀ log ∈ logs, ∀ log' ∈ logs, log.executed codec inbox messageId = true →
    log'.executed codec inbox messageId = true → log.wellFormed codec = log'.wellFormed codec

section
variable {logs logs' : List Log}

/-- Both lists have the same logs that concern the message. -/
def SameConcerns (codec : InboxCodec) (inbox : Address) (messageId : B256) (logs logs' : List Log) :
    Prop :=
  ∀ log : Log, log.concerns codec inbox messageId = true → (log ∈ logs' ↔ log ∈ logs)

theorem sameConcerns_of_perm (h : (logs'.filter (·.concerns codec inbox messageId)).Perm
    (logs.filter (·.concerns codec inbox messageId))) :
    SameConcerns codec inbox messageId logs logs' := by
  intro log hc
  have := h.mem_iff (a := log)
  simpa [hc] using this

theorem SameConcerns.any (h : SameConcerns codec inbox messageId logs logs') {p : Log → Bool}
    (hp : ∀ log, p log = true → log.concerns codec inbox messageId = true) :
    logs'.any p = logs.any p := by
  rw [Bool.eq_iff_iff, List.any_eq_true, List.any_eq_true]
  exact exists_congr fun log => and_congr_left fun hl => h log (hp log hl)

theorem SameConcerns.receiptKind (h : SameConcerns codec inbox messageId logs logs') :
    receiptKind codec inbox messageId logs' = receiptKind codec inbox messageId logs := by
  unfold MessageRelayer.receiptKind
  rw [h.any fun log hl => by simp [Log.concerns, hl], h.any fun log hl => by simp [Log.concerns, hl],
    h.any fun log hl => by simp [Log.concerns, (Bool.and_eq_true_iff.mp hl).1]]

theorem SameConcerns.steady (h : SameConcerns codec inbox messageId logs logs')
    (hs : Steady codec inbox messageId logs) : Steady codec inbox messageId logs' := by
  rcases hs with ⟨log, hm, hf⟩ | ⟨log, hm, hw⟩ | hx
  · exact .inl ⟨log, (h log (by simp [Log.concerns, hf])).mpr hm, hf⟩
  · exact .inr (.inl ⟨log, (h log (by simp [Log.concerns, hw])).mpr hm, hw⟩)
  · refine .inr (.inr fun log hm log' hm' he he' => ?_)
    exact hx log ((h log (by simp [Log.concerns, he])).mp hm) log'
      ((h log' (by simp [Log.concerns, he'])).mp hm') he he'

/-- Where the logs are steady the class is the one that they call for. -/
theorem Steady.kind (hs : Steady codec inbox messageId logs) :
    (classifySuccessLogs codec inbox messageId logs).kind =
      receiptKind codec inbox messageId logs := by
  rw [classifySuccessLogs_kind, receiptKind]
  split
  · rfl
  rename_i hf
  split
  · rfl
  rename_i hw
  have hx := (hs.resolve_left fun ⟨log, hm, h⟩ => hf (List.any_eq_true.mpr ⟨log, hm, h⟩)).resolve_left
    fun ⟨log, hm, h⟩ => hw (List.any_eq_true.mpr ⟨log, hm, h⟩)
  have hlast : lastExecuted codec inbox messageId false logs =
      logs.any fun log => log.executed codec inbox messageId && log.wellFormed codec := by
    rw [Bool.eq_iff_iff, List.any_eq_true]
    rcases lastExecuted_cases logs false with ⟨he, hno⟩ | ⟨log, hm, he, hlast⟩
    · rw [he]
      refine ⟨fun h => Bool.noConfusion h, fun ⟨log, hm, h⟩ => ?_⟩
      rw [hno log hm] at h
      exact h
    · rw [hlast]
      refine ⟨fun h => ⟨log, hm, by rw [he, h]; rfl⟩, fun ⟨log', hm', h⟩ => ?_⟩
      rw [Bool.and_eq_true] at h
      rw [hx log hm log' hm' he h.1, h.2]
  rw [hlast]

/-- A malformed `MessageExecuted`, moved to the end, hides a well-formed one. -/
theorem ReceiptSettled.no_hiding (h : ReceiptSettled codec inbox messageId logs)
    (hf : logs.any (·.failed codec inbox messageId) = false)
    (hw : logs.any (·.waits codec inbox messageId) = false) {good bad : Log} (hg : good ∈ logs)
    (hb : bad ∈ logs) (heg : good.executed codec inbox messageId = true)
    (heb : bad.executed codec inbox messageId = true) (hgood : good.wellFormed codec = true)
    (hbad : bad.wellFormed codec = false) : False := by
  have hcalls : receiptKind codec inbox messageId logs = .delivered := by
    have hx : (logs.any fun log => log.executed codec inbox messageId && log.wellFormed codec) =
        true := List.any_eq_true.mpr ⟨good, hg, by rw [heg, hgood]; rfl⟩
    rw [receiptKind, hf, hw, hx]
    rfl
  obtain ⟨l, r, hsplit⟩ := List.append_of_mem (List.mem_filter.mpr
    ⟨hb, show bad.concerns codec inbox messageId = true by simp [Log.concerns, heb]⟩)
  have hall : ∀ log ∈ l ++ r ++ [bad], log.concerns codec inbox messageId = true := by
    intro log hm
    have : log ∈ logs.filter (·.concerns codec inbox messageId) := by
      rw [hsplit]
      simp only [List.mem_append, List.mem_cons] at hm ⊢
      tauto
    exact (List.mem_filter.mp this).2
  have hperm : ((l ++ r ++ [bad]).filter (·.concerns codec inbox messageId)).Perm
      (logs.filter (·.concerns codec inbox messageId)) := by
    rw [List.filter_eq_self.mpr hall, hsplit]
    exact (List.perm_append_singleton bad (l ++ r)).trans List.perm_middle.symm
  have hsame := sameConcerns_of_perm hperm
  have hlast : lastExecuted codec inbox messageId false (l ++ r ++ [bad]) = false := by
    rw [lastExecuted, List.foldl_append]
    show (if bad.executed codec inbox messageId then bad.wellFormed codec else _) = false
    rw [if_pos heb, hbad]
  have hunknown : (classifySuccessLogs codec inbox messageId (l ++ r ++ [bad])).kind = .unknown := by
    rw [classifySuccessLogs_kind, hsame.any fun log hl => by simp [Log.concerns, hl],
      hsame.any fun log hl => by simp [Log.concerns, hl], hf, hw, hlast]
    rfl
  have := h.order _ hperm
  rw [hunknown, h.kind, hcalls] at this
  cases this

end

/-- The class of a receipt is the one that its logs call for, whatever their order, if and only if
a log says that the message failed or waits, or its `MessageExecuted` logs are all well-formed or
all malformed. -/
theorem receipt_class_order (codec : InboxCodec) (inbox : Address) (messageId : B256)
    (logs : List Log) :
    ReceiptSettled codec inbox messageId logs ↔ Steady codec inbox messageId logs := by
  refine ⟨fun h => ?_, fun hs => ⟨hs.kind, fun logs' hp => ?_⟩⟩
  · cases hf : logs.any (·.failed codec inbox messageId) with
    | true => exact .inl (List.any_eq_true.mp hf)
    | false =>
      cases hw : logs.any (·.waits codec inbox messageId) with
      | true => exact .inr (.inl (List.any_eq_true.mp hw))
      | false =>
        refine .inr (.inr fun log hm log' hm' hx hx' => ?_)
        cases hl : log.wellFormed codec with
        | true =>
          cases hl' : log'.wellFormed codec with
          | true => rfl
          | false => exact (h.no_hiding hf hw hm hm' hx hx' hl hl').elim
        | false =>
          cases hl' : log'.wellFormed codec with
          | true => exact (h.no_hiding hf hw hm' hm hx' hx hl' hl).elim
          | false => rfl
  · have hsame := sameConcerns_of_perm hp
    rw [hs.kind, (hsame.steady hs).kind, hsame.receiptKind]

/-- `demoInbox`, for which a `MessageExecuted` without data is malformed. -/
def pickyInbox : InboxCodec :=
  { demoInbox with
    decodeMessageExecuted := fun log =>
      if log.data.isEmpty then .error "insufficient data" else .ok () }

/-- A `MessageExecuted` of the message 7, with the given data. -/
def executedLog (data : Bytes) : Log := ⟨6, [4, 7], data, none, none, none, false⟩

/-- The malformed companion of a well-formed `MessageExecuted` decides the class. -/
theorem receipt_class_hidden : ¬ ∀ (codec : InboxCodec) (inbox : Address) (messageId : B256)
    (logs : List Log), ReceiptSettled codec inbox messageId logs := by
  intro h
  have hkind := (h pickyInbox 6 7 [executedLog [1], executedLog []]).kind
  exact absurd hkind (by decide)

end MessageRelayer

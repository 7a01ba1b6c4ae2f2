import MessageRelayer.Lib.JsonText
import MessageRelayer.Observer.Events

/-!
# The replies of the observer

`handle_client_frame` answers every text of a subscriber with one text, which
it puts together by hand (`ClientReply.text`): the message of an error is
inserted as it is. The reply is one JSON document with the message in one
string (`ClientReply.WellFormed`) exactly where the message can stand between
quotes: what the JSON library says of a text that is no frame may not, nor may
what the hex library says of a character of a field (`client_replies`).
-/

namespace MessageRelayer.Observer

open JsonText

/-! ## What is sent -/

/-- `serde_json::from_str`: the value of a text, if it is JSON, and what is said of a text that is
no frame. -/
structure JsonLibrary where
  parse : String → Option Json
  message : String → String

/-- The text of a reply; `message` is what is said of a bad frame. An error is shown without its
causes. -/
def ClientReply.text (message : String) : ClientReply → String
  | badFrame => "\x7b\"error\":\"bad frame: " ++ message ++ "\"\x7d"
  | subscribed => "\x7b\"ack\":\x7b\"subscribe\":true\x7d\x7d"
  | published (.ok ()) => "\x7b\"ack\":\x7b\"publish_reobservation\":true,\"ok\":true\x7d\x7d"
  | published (.error err) =>
    "\x7b\"ack\":\x7b\"publish_reobservation\":true,\"ok\":false,\"error\":\"" ++ err.headD "" ++
      "\"\x7d\x7d"

/-- `try_send`, where the queue for the mesh has room or not. -/
def trySend (room : Bool) :
    Option ReobservationRequest × ClientReply → Option ReobservationRequest × ClientReply
  | (some request, reply) =>
    if room then (some request, reply)
    else (none, .published (.error ["publish queue full or observer shutting down"]))
  | (none, reply) => (none, reply)

/-- The reply to a text of a subscriber. -/
def clientReply (lib : JsonLibrary) (state : WsState) (filter : Filter) (room : Bool)
    (text : String) : ClientReply :=
  (trySend room (handleClientFrame state filter (lib.parse text)).2).2

/-- The value of a reply has the text of its error, if there is one, as one string. -/
def ClientReply.ErrorString : ClientReply → Tree → Prop
  | badFrame, v => ∃ body, v = .obj [("error".toList, .str body)]
  | published (.error _), v => ∃ body, v = .obj [("ack".toList, .obj
      [("publish_reobservation".toList, .bool true), ("ok".toList, .bool false),
        ("error".toList, .str body)])]
  | subscribed, _ | published (.ok ()), _ => True

/-- The text of a reply is one document. -/
def ClientReply.WellFormed (reply : ClientReply) (text : String) : Prop :=
  ∃ v, Document text.toList v ∧ reply.ErrorString v

/-! ## The documents -/

/-- What is left after the value of the only member of a document. -/
def Closes (s : List Char) : Prop := ∃ r, Ws s ('}' :: r) ∧ Ws r []

theorem Closes.no_quote {s : List Char} (h : Closes s) : '"' ∉ s := by
  obtain ⟨r, w, w'⟩ := h
  intro hm
  have hm := w.mem (by decide) hm
  have hm := w'.mem (by decide) (List.mem_of_ne_of_mem (by decide) hm)
  cases hm

/-- The message of a bad frame is in the only member of an object. -/
theorem badFrame_wellFormed_iff (message : String) :
    ClientReply.badFrame.WellFormed (ClientReply.badFrame.text message) ↔
      StringBody message.toList := by
  have hl : "\x7b\"error\":\"bad frame: ".toList =
      '{' :: '"' :: ("error".toList ++ '"' :: ':' :: '"' :: "bad frame: ".toList) := by decide
  have hr : "\"\x7d".toList = ['"', '}'] := by decide
  have ht : (ClientReply.badFrame.text message).toList = '{' :: '"' :: ("error".toList ++
      '"' :: ':' :: '"' :: ("bad frame: ".toList ++ message.toList ++ '"' :: ['}'])) := by
    show (_ ++ message ++ _ : String).toList = _
    rw [String.toList_append, String.toList_append, hl, hr]
    simp only [List.cons_append, List.append_assoc]
  have hp : StringBody "bad frame: ".toList := by decide
  have hk : StringBody "error".toList := by decide
  rw [← hp.append_iff, ← exists_body_iff (r := ['}']) (by decide) (show Closes _ from ⟨[], .nil, .nil⟩)
    fun r => Closes.no_quote]
  simp only [ClientReply.WellFormed, ClientReply.ErrorString, ht]
  constructor
  · rintro ⟨_, hd, body, rfl⟩
    obtain ⟨r, hv, w⟩ := (document_iff (by decide)).mp hd
    rw [value_obj_iff, members_last_iff hk (by decide)] at hv
    obtain ⟨s, hv, w'⟩ := hv
    exact ⟨body, s, value_str_iff.mp hv, r, w', w⟩
  · rintro ⟨body, s, hb, r, w', w⟩
    refine ⟨_, (document_iff (by decide)).mpr ⟨r, ?_, w⟩, body, rfl⟩
    rw [value_obj_iff, members_last_iff hk (by decide)]
    exact ⟨s, value_str_iff.mpr hb, w'⟩

/-- The error of a request is in the last member of an object in an object. -/
theorem refused_wellFormed_iff (message : String) (err : Error) :
    (ClientReply.published (.error err)).WellFormed
        ((ClientReply.published (.error err)).text message) ↔ StringBody (err.headD "").toList := by
  have hl : "\x7b\"ack\":\x7b\"publish_reobservation\":true,\"ok\":false,\"error\":\"".toList =
      '{' :: '"' :: ("ack".toList ++ '"' :: ':' :: '{' :: '"' :: ("publish_reobservation".toList ++
        '"' :: ':' :: 't' :: 'r' :: 'u' :: 'e' :: ',' :: '"' :: ("ok".toList ++ '"' :: ':' :: 'f' ::
          'a' :: 'l' :: 's' :: 'e' :: ',' :: '"' :: ("error".toList ++ '"' :: ':' :: ['"'])))) := by
    decide
  have hr : "\"\x7d\x7d".toList = ['"', '}', '}'] := by decide
  have ht : ((ClientReply.published (.error err)).text message).toList =
      '{' :: '"' :: ("ack".toList ++ '"' :: ':' :: '{' :: '"' :: ("publish_reobservation".toList ++
        '"' :: ':' :: 't' :: 'r' :: 'u' :: 'e' :: ',' :: '"' :: ("ok".toList ++ '"' :: ':' :: 'f' ::
          'a' :: 'l' :: 's' :: 'e' :: ',' :: '"' :: ("error".toList ++ '"' :: ':' :: '"' ::
            ((err.headD "").toList ++ '"' :: ['}', '}']))))) := by
    show (_ ++ err.headD "" ++ _ : String).toList = _
    rw [String.toList_append, String.toList_append, hl, hr]
    simp only [List.cons_append, List.append_assoc, List.nil_append]
  have h₁ : StringBody "ack".toList := by decide
  have h₂ : StringBody "publish_reobservation".toList := by decide
  have h₃ : StringBody "ok".toList := by decide
  have h₄ : StringBody "error".toList := by decide
  rw [← exists_body_iff (P := fun s => ∃ r, Ws s ('}' :: r) ∧ Closes r) (r := ['}', '}'])
    (by decide) ⟨['}'], .nil, [], .nil, .nil⟩ fun r ⟨r', w, h⟩ hm =>
      h.no_quote (List.mem_of_ne_of_mem (by decide) (w.mem (by decide) hm))]
  simp only [ClientReply.WellFormed, ClientReply.ErrorString, ht]
  constructor
  · rintro ⟨_, hd, body, rfl⟩
    obtain ⟨r, hv, w⟩ := (document_iff (by decide)).mp hd
    rw [value_obj_iff, members_last_iff h₁ (by decide)] at hv
    obtain ⟨s, hv, w'⟩ := hv
    rw [value_obj_iff, members_cons_iff h₂ (by decide)] at hv
    obtain ⟨_, t, hv, w₂, hm⟩ := hv
    cases value_true_iff.mp hv
    cases (ws_iff (by decide)).mp w₂
    rw [members_cons_iff h₃ (by decide)] at hm
    obtain ⟨_, t, hv, w₃, hm⟩ := hm
    cases value_false_iff.mp hv
    cases (ws_iff (by decide)).mp w₃
    rw [members_last_iff h₄ (by decide)] at hm
    obtain ⟨s₄, hv, w₄⟩ := hm
    exact ⟨body, s₄, value_str_iff.mp hv, s, w₄, r, w', w⟩
  · rintro ⟨body, s₄, hb, s, w₄, r, w', w⟩
    refine ⟨_, (document_iff (by decide)).mpr ⟨r, ?_, w⟩, body, rfl⟩
    rw [value_obj_iff, members_last_iff h₁ (by decide)]
    refine ⟨s, ?_, w'⟩
    rw [value_obj_iff, members_cons_iff h₂ (by decide)]
    refine ⟨_, _, value_true_iff.mpr rfl, .nil, ?_⟩
    rw [members_cons_iff h₃ (by decide)]
    refine ⟨_, _, value_false_iff.mpr rfl, .nil, ?_⟩
    rw [members_last_iff h₄ (by decide)]
    exact ⟨s₄, value_str_iff.mpr hb, w₄⟩

theorem subscribed_wellFormed (message : String) :
    ClientReply.subscribed.WellFormed (ClientReply.subscribed.text message) := by
  have ht : "\x7b\"ack\":\x7b\"subscribe\":true\x7d\x7d".toList =
      '{' :: '"' :: ("ack".toList ++ '"' :: ':' :: '{' :: '"' :: ("subscribe".toList ++
        '"' :: ':' :: 't' :: 'r' :: 'u' :: 'e' :: ['}', '}'])) := by decide
  refine ⟨.obj [("ack".toList, .obj [("subscribe".toList, .bool true)])], ?_, trivial⟩
  show Document (String.toList "\x7b\"ack\":\x7b\"subscribe\":true\x7d\x7d") _
  rw [ht, document_iff (by decide)]
  refine ⟨[], ?_, .nil⟩
  rw [value_obj_iff, members_last_iff (by decide) (by decide)]
  refine ⟨['}'], ?_, .nil⟩
  rw [value_obj_iff, members_last_iff (by decide) (by decide)]
  exact ⟨['}', '}'], value_true_iff.mpr rfl, .nil⟩

theorem published_wellFormed (message : String) :
    (ClientReply.published (.ok ())).WellFormed ((ClientReply.published (.ok ())).text message) := by
  have ht : "\x7b\"ack\":\x7b\"publish_reobservation\":true,\"ok\":true\x7d\x7d".toList =
      '{' :: '"' :: ("ack".toList ++ '"' :: ':' :: '{' :: '"' :: ("publish_reobservation".toList ++
        '"' :: ':' :: 't' :: 'r' :: 'u' :: 'e' :: ',' :: '"' :: ("ok".toList ++ '"' :: ':' ::
          't' :: 'r' :: 'u' :: 'e' :: ['}', '}']))) := by decide
  refine ⟨.obj [("ack".toList, .obj
    [("publish_reobservation".toList, .bool true), ("ok".toList, .bool true)])], ?_, trivial⟩
  show Document
    (String.toList "\x7b\"ack\":\x7b\"publish_reobservation\":true,\"ok\":true\x7d\x7d") _
  rw [ht, document_iff (by decide)]
  refine ⟨[], ?_, .nil⟩
  rw [value_obj_iff, members_last_iff (by decide) (by decide)]
  refine ⟨['}'], ?_, .nil⟩
  rw [value_obj_iff, members_cons_iff (by decide) (by decide)]
  refine ⟨_, _, value_true_iff.mpr rfl, .nil, ?_⟩
  rw [members_last_iff (by decide) (by decide)]
  exact ⟨['}', '}'], value_true_iff.mpr rfl, .nil⟩

/-! ## The errors of a request -/

/-- The first character of a field that is not a digit, where its length is right. -/
def badDigit (s : String) : Option Byte :=
  let hex := Hex.stripPrefix (Hex.utf8 s)
  if hex.length = 64 then hex.find? fun c => (Hex.val c).isNone else none

/-- The character that the error of a request names; the fields are read in order. -/
def PublishReobservation.badDigit (publish : PublishReobservation) : Option Byte :=
  (Observer.badDigit publish.messageId).or
    (if (Hex.stripPrefix (Hex.utf8 publish.messageId)).length = 64 then
      Observer.badDigit publish.txHash
    else none)

/-- What is printed of a byte can stand in a string: it is no quote of either kind, and not printed
as an escape that JSON does not have. -/
def Quotable (c : Byte) : Prop :=
  c ≠ 34 ∧ c ≠ 39 ∧ (c = 9 ∨ c = 10 ∨ c = 13 ∨ 32 ≤ c ∧ c ≤ 126 ∨ 161 ≤ c ∧ c ≠ 173)

instance (c : Byte) : Decidable (Quotable c) := inferInstanceAs (Decidable (_ ∧ _))

theorem scan_debugChar (c : Byte) :
    scan .plain (Hex.debugChar c).toList = if Quotable c then some .plain else none := by
  have hall : ∀ n : Fin 256, scan .plain (Hex.debugChar (.ofNat n)).toList =
      if Quotable (.ofNat n) then some .plain else none := by decide +kernel
  have hc := hall ⟨c.toNat, c.toNat_lt⟩
  rwa [UInt8.ofNat_toNat] at hc

theorem stringBody_plain {s : List Char}
    (h : ∀ c ∈ s, c ≠ '\\' ∧ c ≠ '"' ∧ 0x20 ≤ c.toNat) : StringBody s := by
  induction s with
  | nil => rfl
  | cons c s ih =>
    obtain ⟨hb, hq, hc⟩ := h c List.mem_cons_self
    rw [StringBody, scan, Lex.step, if_neg hb, if_neg (not_or.mpr ⟨hq, Nat.not_lt.mpr hc⟩),
      Option.bind_some]
    exact ih fun d hd => h d (List.mem_cons_of_mem _ hd)

theorem stringBody_nat (n : Nat) : StringBody (toString n).toList := by
  refine stringBody_plain fun c hc => ?_
  have hd : c.isDigit = true :=
    Nat.isDigit_of_mem_toDigits (b := 10) (by decide) (by decide) (by simpa using hc)
  refine ⟨?_, ?_, ?_⟩
  · rintro rfl; cases hd
  · rintro rfl; cases hd
  · simp only [Char.isDigit, Bool.and_eq_true, decide_eq_true_eq] at hd
    have h48 : 48 ≤ c.toNat := hd.1
    omega

/-- The message of the hex library can stand in a string where the character can. -/
theorem invalid_body_iff {context : String} (hc : StringBody context.toList) (c : Byte) (i : Nat) :
    StringBody (context ++ (Hex.FromHexError.invalidHexCharacter c i).text).toList ↔ Quotable c := by
  have ha : StringBody "Invalid character ".toList := by decide
  have hp : StringBody " at position ".toList := by decide
  show StringBody (context ++ ("Invalid character " ++ Hex.debugChar c ++ " at position " ++
    toString i)).toList ↔ _
  simp only [String.toList_append, List.append_assoc]
  rw [hc.append_iff, ha.append_iff, StringBody, scan_append, scan_debugChar]
  split
  · rename_i hq
    rw [Option.bind_some]
    exact iff_of_true (hp.append_iff.mpr (stringBody_nat i)) hq
  · rename_i hq
    exact iff_of_false (fun h => by cases h) hq

/-- What becomes of a field of the right length. -/
theorem parseHex32_decoded {s : String} {r : Except Hex.FromHexError Bytes}
    (hl : (Hex.stripPrefix (Hex.utf8 s)).length = 64)
    (hd : Hex.decodeToSlice 32 (Hex.stripPrefix (Hex.utf8 s)) = r) :
    match r with
    | .ok _ => ∃ w, parseHex32 s = .ok w
    | .error e => parseHex32 s = .error [e.text] := by
  rw [parseHex32, parseField, if_neg (by omega)]
  cases r with
  | ok bs =>
    dsimp only
    split
    · rename_i e he
      rw [hd] at he
      cases he
    · exact ⟨_, rfl⟩
  | error e =>
    dsimp only
    split
    · rename_i e' he
      obtain rfl := Except.error.inj (hd.symm.trans he)
      rfl
    · rename_i bs hb
      rw [hd] at hb
      cases hb

theorem parseHex32_length {s : String} (hl : (Hex.stripPrefix (Hex.utf8 s)).length ≠ 64) :
    parseHex32 s = .error ["expected 32-byte 0x hex string"] := by
  rw [parseHex32, parseField, if_pos hl]
  rfl

/-- The error of a field names its first bad digit. -/
theorem parseHex32_bad {s : String} {c : Byte} (hb : badDigit s = some c) :
    ∃ i, parseHex32 s = .error [(Hex.FromHexError.invalidHexCharacter c i).text] := by
  rw [badDigit] at hb
  split at hb
  · rename_i hl
    have hf := Hex.decodePairs_find (Hex.stripPrefix (Hex.utf8 s)) 0 (by omega)
    rw [hb] at hf
    obtain ⟨i, hi⟩ := hf
    refine ⟨i, parseHex32_decoded hl (r := .error _) ?_⟩
    rw [Hex.decodeToSlice, if_neg (by omega), if_neg (by omega), hi]
  · cases hb

theorem parseHex32_good {s : String} (hl : (Hex.stripPrefix (Hex.utf8 s)).length = 64)
    (hb : badDigit s = none) : ∃ w, parseHex32 s = .ok w := by
  rw [badDigit, if_pos hl] at hb
  have hf := Hex.decodePairs_find (Hex.stripPrefix (Hex.utf8 s)) 0 (by omega)
  rw [hb] at hf
  obtain ⟨bs, hbs⟩ := hf
  refine parseHex32_decoded hl (r := .ok bs) ?_
  rw [Hex.decodeToSlice, if_neg (by omega), if_neg (by omega), hbs]

/-- The error of a field, after what a request puts in front of it. -/
theorem field_body_iff {context : String} (hc : StringBody context.toList) {s : String} :
    (∀ e, parseHex32 s = .error e → StringBody (context ++ e.headD "").toList) ↔
      ∀ c, badDigit s = some c → Quotable c := by
  cases hb : badDigit s with
  | some c =>
    obtain ⟨i, hp⟩ := parseHex32_bad hb
    refine ⟨fun h c' hc' => ?_, fun h e he => ?_⟩
    · cases hc'
      have hs := h _ hp
      rw [List.headD_cons] at hs
      exact (invalid_body_iff hc c i).mp hs
    · obtain rfl := Except.error.inj (hp.symm.trans he)
      rw [List.headD_cons]
      exact (invalid_body_iff hc c i).mpr (h c rfl)
  | none =>
    refine iff_of_true (fun e he => ?_) nofun
    by_cases hl : (Hex.stripPrefix (Hex.utf8 s)).length = 64
    · obtain ⟨w, hw⟩ := parseHex32_good hl hb
      rw [hw] at he
      cases he
    · rw [parseHex32_length hl] at he
      cases he
      show StringBody (context ++ "expected 32-byte 0x hex string").toList
      rw [String.toList_append, hc.append_iff]
      decide

theorem parseHex32_isOk (s : String) : (∃ w, parseHex32 s = .ok w) ↔
    (Hex.stripPrefix (Hex.utf8 s)).length = 64 ∧ badDigit s = none := by
  constructor
  · rintro ⟨w, hw⟩
    by_cases hl : (Hex.stripPrefix (Hex.utf8 s)).length = 64
    · cases hb : badDigit s with
      | none => exact ⟨hl, rfl⟩
      | some c =>
        obtain ⟨i, hp⟩ := parseHex32_bad hb
        rw [hp] at hw
        cases hw
    · rw [parseHex32_length hl] at hw
      cases hw
  · exact fun ⟨hl, hb⟩ => parseHex32_good hl hb

/-- What a request that is not queued is answered. -/
theorem publishReobservation_body_iff (state : WsState) (publish : PublishReobservation) :
    (∀ err, publishReobservation state publish = .error err → StringBody (err.headD "").toList) ↔
      (state.allowPublish = true → state.chainKeys.contains publish.chainKey = true →
        ∀ c, publish.badDigit = some c → Quotable c) := by
  have hm : StringBody "message_id: ".toList := by decide
  have ht : StringBody "tx_hash: ".toList := by decide
  by_cases ha : state.allowPublish = true
  swap
  · refine iff_of_true (fun err he => ?_) fun h => absurd h ha
    rw [publishReobservation, if_pos (by simpa using ha)] at he
    cases he
    decide
  by_cases hk : state.chainKeys.contains publish.chainKey = true
  swap
  · refine iff_of_true (fun err he => ?_) fun _ h => absurd h hk
    rw [publishReobservation, if_neg (by simpa using ha), if_pos (by simpa using hk)] at he
    cases he
    have h₁ : StringBody "chain_key ".toList := by decide
    have h₂ : StringBody " is not observed by this observer".toList := by decide
    show StringBody ("chain_key " ++ toString publish.chainKey ++
      " is not observed by this observer").toList
    simp only [String.toList_append, List.append_assoc]
    exact h₁.append_iff.mpr ((stringBody_nat _).append_iff.mpr h₂)
  rw [publishReobservation, if_neg (by simpa using ha), if_neg (by simpa using hk)]
  simp only [ha, hk, forall_const]
  cases hp : parseHex32 publish.messageId with
  | error e =>
    have hb : publish.badDigit = badDigit publish.messageId := by
      rw [PublishReobservation.badDigit]
      cases hb : badDigit publish.messageId with
      | some c => rfl
      | none =>
        rw [if_neg, Option.or_none]
        exact fun hl => by
          obtain ⟨w, hw⟩ := (parseHex32_isOk _).mpr ⟨hl, hb⟩
          rw [hp] at hw
          cases hw
    rw [hb, ← field_body_iff hm, hp]
    refine ⟨fun h e' he => ?_, fun h err he => ?_⟩
    · obtain rfl := Except.error.inj he
      exact h ["message_id: " ++ e.headD ""] rfl
    · obtain rfl := Except.error.inj he
      exact h e rfl
  | ok messageId =>
    obtain ⟨hl, hb⟩ := (parseHex32_isOk _).mp ⟨_, hp⟩
    rw [PublishReobservation.badDigit, hb, if_pos hl, Option.none_or, ← field_body_iff ht]
    cases parseHex32 publish.txHash with
    | ok txHash => exact iff_of_true nofun nofun
    | error e =>
      refine ⟨fun h e' he => ?_, fun h err he => ?_⟩
      · obtain rfl := Except.error.inj he
        exact h ["tx_hash: " ++ e.headD ""] rfl
      · obtain rfl := Except.error.inj he
        exact h e rfl

/-! ## Replies -/

/-- The error of a text that is no frame can stand in a string, and so can the character that the
error of a request names, where requests for the chain are taken. -/
def Spliceable (lib : JsonLibrary) (state : WsState) (text : String) : Prop :=
  match (lib.parse text).bind ClientFrame.ofJson with
  | none => StringBody (lib.message text).toList
  | some (.subscribe _) => True
  | some (.publishReobservation publish) =>
    state.allowPublish = true → state.chainKeys.contains publish.chainKey = true →
      ∀ c, publish.badDigit = some c → Quotable c

/-- Every text is answered by one document with the error in one string, as long as what is inserted
can stand in a string; and only then. -/
theorem client_replies (lib : JsonLibrary) (state : WsState) (filter : Filter) (room : Bool)
    (text : String) :
    (clientReply lib state filter room text).WellFormed
        ((clientReply lib state filter room text).text (lib.message text)) ↔
      Spliceable lib state text := by
  unfold clientReply handleClientFrame Spliceable
  cases (lib.parse text).bind ClientFrame.ofJson with
  | none => exact badFrame_wellFormed_iff _
  | some frame =>
    cases frame with
    | subscribe newFilter => exact iff_of_true (subscribed_wellFormed _) trivial
    | publishReobservation publish =>
      dsimp only
      rw [← publishReobservation_body_iff state publish]
      cases publishReobservation state publish with
      | error err =>
        refine (refused_wellFormed_iff _ err).trans ⟨fun h err' he => ?_, fun h => h err rfl⟩
        cases he
        exact h
      | ok request =>
        refine iff_of_true ?_ nofun
        cases room with
        | true => exact published_wellFormed _
        | false => exact (refused_wellFormed_iff _ _).mpr (by decide)

/-- A request whose first field is a quote and 63 digits. -/
def quotedFrame : String :=
  "\x7b\"publish_reobservation\":\x7b\"chain_key\":2,\"message_id\":\"\\\"" ++
    String.ofList (List.replicate 63 '0') ++ "\",\"tx_hash\":\"\",\"block_height\":1\x7d\x7d"

def quotedLibrary : JsonLibrary where
  parse _ := some (.obj [("publish_reobservation", .obj
    [("chain_key", .num 2), ("message_id", .str (String.ofList ('"' :: List.replicate 63 '0'))),
      ("tx_hash", .str ""), ("block_height", .num 1)])])
  message _ := ""

/-- The quote comes back in the error. -/
theorem client_replies_quoted : ¬ ∀ (lib : JsonLibrary) (state : WsState) (filter : Filter)
    (room : Bool) (text : String), (clientReply lib state filter room text).WellFormed
      ((clientReply lib state filter room text).text (lib.message text)) := by
  intro h
  have hr : clientReply quotedLibrary ⟨true, [2]⟩ .default true quotedFrame =
      .published (.error ["message_id: Invalid character '\"' at position 0"]) := by
    rfl
  have hw := h quotedLibrary ⟨true, [2]⟩ .default true quotedFrame
  rw [hr, refused_wellFormed_iff] at hw
  exact absurd hw (by decide)

end MessageRelayer.Observer

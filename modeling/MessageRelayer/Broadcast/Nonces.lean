import MessageRelayer.Broadcast.Locks
import MessageRelayer.Lib.Runs

/-!
# One nonce after the other

The invariant of the sends (`SendState.Ok`): the line of a slot is the sends
that wait for it, its holder is the one send of the signer that is between its
wait and the return of its guard, no timer is overdue, and the nonce that a
send has read and not yet used is still the pending one. A step changes one
send, its slot and its account (`Ok.update`), so every run keeps it
(`SendStep.ok`). The result is `nonce_protocol`.
-/

namespace MessageRelayer.BroadcastLocks

open Prog

/-! ## The pending nonce -/

theorem Account.pending_eq {a : Account} (h : a.accepted = List.range' a.base a.accepted.length) :
    a.pending = a.base + a.accepted.length := by
  have hr : (List.range (a.accepted.length + 1)).map (a.base + ·) =
      a.accepted ++ [a.base + a.accepted.length] := by
    rw [List.range_succ, List.map_append, List.map_singleton]
    congr 1
    rw [← List.range'_eq_map_range]
    exact h.symm
  have hn : (a.accepted.find? fun n => decide (n ∉ a.accepted)) = none := by
    refine List.find?_eq_none.mpr fun n hn => ?_
    simpa using hn
  have hl : a.base + a.accepted.length ∉ a.accepted := by
    rw [h, List.mem_range'_1]
    simp
  rw [Account.pending, hr, List.find?_append, hn]
  simp [hl]

/-! ## Where a send is -/

/-- A send that has the slot. -/
def sendRest (signer : Address) (timeout : Duration) : SendProg :=
  .ask (.send timeout) fun output => .ask (.dropGuard signer) fun _ =>
    .ret (output.elim (.error (.broadcast timeout)) .ok)

/-- What the program of a send comes to. -/
def Form (signer : Address) (timeout : Duration) (rest : SendProg) : Prop :=
  rest = broadcast signer timeout ∨ rest = sendRest signer timeout ∨
    (∃ r, rest = .ask (.dropGuard signer) fun _ => .ret r) ∨ ∃ r, rest = .ret r

inductive Stage where
  | locking
  | sending
  | dropping
  | ended
  deriving DecidableEq

def Sender.stage (t : Sender) : Stage :=
  match t.rest with
  | .ask (.lockOwned ..) _ => .locking
  | .ask (.send _) _ => .sending
  | .ask (.dropGuard _) _ => .dropping
  | .ret _ => .ended

/-- The send holds its slot. -/
def Sender.Holds (t : Sender) : Prop := t.stage = .sending ∨ t.stage = .dropping

section
variable {signer signer' : Address} {timeout within : Duration} {rest : SendProg}

theorem broadcast_eq (signer : Address) (timeout : Duration) : broadcast signer timeout =
    .ask (.lockOwned signer queueTimeout) fun
      | none => .ret (.error (.queue queueTimeout))
      | some () => sendRest signer timeout :=
  congrArg _ (funext fun a => by cases a <;> rfl)

theorem Form.lock (h : Form signer timeout rest) {k : Option Unit → SendProg}
    (e : rest = .ask (.lockOwned signer' within) k) : signer' = signer ∧ within = queueTimeout ∧
      (∃ r, k none = .ret r) ∧ k (some ()) = sendRest signer timeout := by
  rcases h with h | h | ⟨r, h⟩ | ⟨r, h⟩
  · rw [h, broadcast_eq] at e
    cases e
    exact ⟨rfl, rfl, ⟨_, rfl⟩, rfl⟩
  · rw [h] at e
    cases e
  · rw [h] at e
    cases e
  · rw [h] at e
    cases e

theorem Form.send (h : Form signer timeout rest) {k : Option SendOutput → SendProg}
    (e : rest = .ask (.send within) k) : within = timeout ∧
      ∀ output, ∃ r, k output = .ask (.dropGuard signer) fun _ => .ret r := by
  rcases h with h | h | ⟨r, h⟩ | ⟨r, h⟩
  · rw [h, broadcast_eq] at e
    cases e
  · rw [h] at e
    cases e
    exact ⟨rfl, fun _ => ⟨_, rfl⟩⟩
  · rw [h] at e
    cases e
  · rw [h] at e
    cases e

theorem Form.drop (h : Form signer timeout rest) {k : Unit → SendProg}
    (e : rest = .ask (.dropGuard signer') k) : signer' = signer ∧ ∃ r, k () = .ret r := by
  rcases h with h | h | ⟨r, h⟩ | ⟨r, h⟩
  · rw [h, broadcast_eq] at e
    cases e
  · rw [h] at e
    cases e
  · rw [h] at e
    cases e
    exact ⟨rfl, _, rfl⟩
  · rw [h] at e
    cases e

end

/-! ## The invariant -/

structure SendState.Ok (s : SendState) : Prop where
  form : ∀ id t, s.senders id = some t → Form t.signer t.timeout t.rest
  line : ∀ signer id, id ∈ (s.slots signer).line ↔
    ∃ t, s.senders id = some t ∧ t.signer = signer ∧ t.stage = .locking
  nodup : ∀ signer, (s.slots signer).line.Nodup
  holder : ∀ signer id, (s.slots signer).holder = some id ↔
    ∃ t, s.senders id = some t ∧ t.signer = signer ∧ t.Holds
  due : ∀ id t, s.senders id = some t → t.stage = .dropping ∨ t.Waits s.now
  fresh : ∀ id t, s.senders id = some t → t.stage = .locking → t.nonce = none ∧ t.accepted = false
  nonce : ∀ id t n, s.senders id = some t → t.stage = .sending → t.nonce = some n →
    t.accepted = false → n = (s.accounts t.signer).pending
  account : ∀ signer, (s.accounts signer).accepted =
    List.range' (s.accounts signer).base (s.accounts signer).accepted.length

/-- A step of one send: its program goes on, and its slot and its account change with it. -/
theorem SendState.Ok.update {s : SendState} (h : s.Ok) {id : Nat} {t : Sender} {slot : Slot}
    {account : Account} (hold : ∀ t', s.senders id = some t' → t'.signer = t.signer)
    (hform : Form t.signer t.timeout t.rest)
    (hline : ∀ j, j ∈ slot.line ↔
      if j = id then t.stage = .locking else j ∈ (s.slots t.signer).line)
    (hnodup : slot.line.Nodup)
    (hholder : ∀ j, slot.holder = some j ↔
      if j = id then t.Holds else (s.slots t.signer).holder = some j)
    (hdue : t.stage = .dropping ∨ t.Waits s.now)
    (hfresh : t.stage = .locking → t.nonce = none ∧ t.accepted = false)
    (hnonce : ∀ n, t.stage = .sending → t.nonce = some n → t.accepted = false →
      n = account.pending)
    (haccount : account.accepted = List.range' account.base account.accepted.length)
    (hown : account = s.accounts t.signer ∨ (s.slots t.signer).holder = some id) :
    (((s.setSender id t).setSlot t.signer slot).setAccount t.signer account).Ok := by
  have hs : ∀ {P : Sender → Prop} {j : Nat}, (∃ u, Function.update s.senders id (some t) j = some u ∧ P u) ↔
      if j = id then P t else ∃ u, s.senders j = some u ∧ P u := by
    intro P j
    by_cases hj : j = id
    · subst hj
      simp
    · simp [hj]
  have hfor : ∀ {P : Nat → Sender → Prop}, P id t → (∀ j u, j ≠ id → s.senders j = some u → P j u) →
      ∀ j u, Function.update s.senders id (some t) j = some u → P j u := by
    intro P ht hu j u e
    by_cases hj : j = id
    · subst hj
      rw [Function.update_self] at e
      cases e
      exact ht
    · rw [Function.update_of_ne hj] at e
      exact hu j u hj e
  refine ⟨hfor hform fun j u _ e => h.form j u e, fun signer j => ?_, fun signer => ?_,
    fun signer j => ?_, hfor hdue fun j u _ e => h.due j u e,
    hfor hfresh fun j u _ e => h.fresh j u e, ?_, fun signer => ?_⟩
  · refine Iff.trans ?_ (hs (P := fun u => u.signer = signer ∧ u.stage = .locking)).symm
    show j ∈ (Function.update s.slots t.signer slot signer).line ↔ _
    by_cases hsig : signer = t.signer
    · subst hsig
      rw [Function.update_self, hline j]
      by_cases hj : j = id
      · simp [hj]
      · rw [if_neg hj, if_neg hj, h.line]
    · rw [Function.update_of_ne hsig, h.line]
      by_cases hj : j = id
      · subst hj
        rw [if_pos rfl]
        exact ⟨fun ⟨u, e, hu, _⟩ => absurd (hu.symm.trans (hold u e)) hsig,
          fun ⟨e, _⟩ => absurd e.symm hsig⟩
      · rw [if_neg hj]
  · show (Function.update s.slots t.signer slot signer).line.Nodup
    by_cases hsig : signer = t.signer
    · subst hsig
      rw [Function.update_self]
      exact hnodup
    · rw [Function.update_of_ne hsig]
      exact h.nodup signer
  · refine Iff.trans ?_ (hs (P := fun u => u.signer = signer ∧ u.Holds)).symm
    show (Function.update s.slots t.signer slot signer).holder = some j ↔ _
    by_cases hsig : signer = t.signer
    · subst hsig
      rw [Function.update_self, hholder j]
      by_cases hj : j = id
      · simp [hj]
      · rw [if_neg hj, if_neg hj, h.holder]
    · rw [Function.update_of_ne hsig, h.holder]
      by_cases hj : j = id
      · subst hj
        rw [if_pos rfl]
        exact ⟨fun ⟨u, e, hu, _⟩ => absurd (hu.symm.trans (hold u e)) hsig,
          fun ⟨e, _⟩ => absurd e.symm hsig⟩
      · rw [if_neg hj]
  · have hn := hfor (P := fun _ u => ∀ n, u.stage = .sending → u.nonce = some n →
      u.accepted = false → n = (Function.update s.accounts t.signer account u.signer).pending)
      (by rw [Function.update_self]; exact hnonce) fun j u hj e n hst hnn hacc => ?_
    · exact fun j u n e => hn j u e n
    · have := h.nonce j u n e hst hnn hacc
      by_cases hsig : u.signer = t.signer
      · rw [hsig, Function.update_self]
        rcases hown with rfl | hhold
        · rwa [hsig] at this
        · have hj' := (h.holder t.signer j).mpr ⟨u, e, hsig, .inl hst⟩
          rw [hhold] at hj'
          exact absurd (Option.some.inj hj').symm hj
      · rwa [Function.update_of_ne hsig]
  · show (Function.update s.accounts t.signer account signer).accepted = _
    by_cases hsig : signer = t.signer
    · subst hsig
      simp only [SendState.setAccount, Function.update_self]
      exact haccount
    · simp only [SendState.setAccount, Function.update_of_ne hsig]
      exact h.account signer

/-! ## Steps -/

section
variable {s : SendState} {id : Nat} {t : Sender} {signer : Address} {within : Duration}

theorem stage_lock {k : Option Unit → SendProg} (e : t.rest = .ask (.lockOwned signer within) k) :
    t.stage = .locking := by
  rw [Sender.stage, e]

theorem stage_send {k : Option SendOutput → SendProg} (e : t.rest = .ask (.send within) k) :
    t.stage = .sending := by
  rw [Sender.stage, e]

theorem stage_drop {k : Unit → SendProg} (e : t.rest = .ask (.dropGuard signer) k) :
    t.stage = .dropping := by
  rw [Sender.stage, e]

/-- An account that does not change. -/
theorem SendState.Ok.of_setAccount {s : SendState} {signer : Address} {account : Account}
    (h : (s.setAccount signer account).Ok) (e : account = s.accounts signer) : s.Ok := by
  rw [e, SendState.setAccount, Function.update_eq_self] at h
  exact h

/-- A send that is in line does not hold the slot. -/
theorem SendState.Ok.holder_ne (h : s.Ok) (hid : s.senders id = some t) (hst : t.stage = .locking) :
    (s.slots t.signer).holder ≠ some id := by
  intro hh
  obtain ⟨u, hu, -, hc⟩ := (h.holder _ _).mp hh
  rw [hid] at hu
  cases hu
  rcases hc with hc | hc <;>
  · rw [hst] at hc
    cases hc

theorem SendState.Ok.not_in_line (h : s.Ok) (hid : s.senders id = some t)
    (hst : t.stage ≠ .locking) : id ∉ (s.slots t.signer).line := by
  intro hm
  obtain ⟨u, hu, -, hc⟩ := (h.line _ _).mp hm
  rw [hid] at hu
  cases hu
  exact hst hc

/-- A step of the send that holds the slot, which it keeps. -/
theorem SendState.Ok.send (h : s.Ok) (hid : s.senders id = some t) (hst : t.stage = .sending)
    {t' : Sender} {account : Account} (hsig : t'.signer = t.signer) (hholds : t'.Holds)
    (hform : Form t'.signer t'.timeout t'.rest) (hdue : t'.stage = .dropping ∨ t'.Waits s.now)
    (hnonce : ∀ n, t'.stage = .sending → t'.nonce = some n → t'.accepted = false →
      n = account.pending)
    (haccount : account.accepted = List.range' account.base account.accepted.length) :
    ((s.setSender id t').setAccount t'.signer account).Ok := by
  have hh : (s.slots t.signer).holder = some id := (h.holder _ _).mpr ⟨t, hid, rfl, .inl hst⟩
  have hl : t'.stage ≠ .locking := by
    rcases hholds with e | e <;> simp [e]
  have hn := h.not_in_line hid (by simp [hst])
  have := @SendState.Ok.update s h id t' (s.slots t'.signer) account
    (fun u hu => by rw [hid] at hu; cases hu; exact hsig.symm) hform
    (fun j => ?_) (h.nodup _) (fun j => ?_) hdue (fun e => absurd e hl) hnonce haccount
    (.inr (hsig ▸ hh))
  · have he : (s.setSender id t').setSlot t'.signer (s.slots t'.signer) = s.setSender id t' :=
      congrArg (fun slots => { s.setSender id t' with slots }) (Function.update_eq_self _ _)
    rwa [he] at this
  · by_cases hj : j = id
    · rw [if_pos hj, hj, hsig]
      exact ⟨fun hm => absurd hm hn, fun e => absurd e hl⟩
    · rw [if_neg hj]
  · by_cases hj : j = id
    · rw [if_pos hj, hj, hsig]
      exact ⟨fun _ => hholds, fun _ => hh⟩
    · rw [if_neg hj]

end

/-- Every step keeps the invariant. -/
theorem SendStep.ok {s s' : SendState} {e : SendEvent} (hs : SendStep s e s') (h : s.Ok) :
    s'.Ok := by
  cases hs with
  | @start id signer timeout hid =>
    have hl : id ∉ (s.slots signer).line := fun hm => by
      obtain ⟨u, hu, -⟩ := (h.line _ _).mp hm
      rw [hid] at hu
      cases hu
    have hh : (s.slots signer).holder ≠ some id := fun hm => by
      obtain ⟨u, hu, -⟩ := (h.holder _ _).mp hm
      rw [hid] at hu
      cases hu
    have := @SendState.Ok.update s h id ⟨signer, timeout, broadcast signer timeout, s.now, none, false⟩
      { s.slots signer with line := (s.slots signer).line ++ [id] } (s.accounts signer)
      (fun u hu => by rw [hid] at hu; cases hu) (.inl rfl)
      (fun j => ?_) ?_ (fun j => ?_) (.inr (Nat.le_add_right _ _)) (fun _ => ⟨rfl, rfl⟩) nofun
      (h.account signer) (.inl rfl)
    · exact this.of_setAccount rfl
    · by_cases hj : j = id
      · subst hj
        simp [Sender.stage, broadcast_eq]
      · simp [hj]
    · exact List.nodup_append.mpr ⟨h.nodup signer, by simp, fun a ha b hb e => hl (by
        rw [← List.mem_singleton.mp hb, ← e]; exact ha)⟩
    · by_cases hj : j = id
      · subst hj
        simp [Sender.Holds, Sender.stage, broadcast_eq, hh]
      · simp [hj]
  | @lock id t signer within k line hid hrest hslot =>
    obtain ⟨rfl, rfl, -, hk⟩ := (h.form id t hid).lock hrest
    have hnd := h.nodup t.signer
    rw [hslot, List.nodup_cons] at hnd
    obtain ⟨hn, ha⟩ := h.fresh id t hid (stage_lock hrest)
    have := @SendState.Ok.update s h id { t with rest := k (some ()), since := s.now }
      ⟨some id, line⟩ (s.accounts t.signer)
      (fun u hu => by rw [hid] at hu; cases hu; rfl) (.inr (.inl hk)) (fun j => ?_) hnd.2
      (fun j => ?_) (.inr ?_) (fun e => ?_) (fun n _ hnn => ?_) (h.account _) (.inl rfl)
    · exact this.of_setAccount rfl
    · rw [hslot]
      by_cases hj : j = id
      · subst hj
        simp [Sender.stage, hk, sendRest, hnd.1]
      · simp [hj]
    · rw [hslot]
      by_cases hj : j = id
      · subst hj
        simp [Sender.Holds, Sender.stage, hk, sendRest]
      · simp [hj, Ne.symm hj]
    · simp [Sender.Waits, hk, sendRest]
    · simp [Sender.stage, hk, sendRest] at e
    · simp [hn] at hnn
  | @lockElapsed id t signer within k hid hrest hdue =>
    obtain ⟨rfl, rfl, ⟨r, hk⟩, -⟩ := (h.form id t hid).lock hrest
    have hne := h.holder_ne hid (stage_lock hrest)
    have := @SendState.Ok.update s h id { t with rest := k none, since := s.now }
      { s.slots t.signer with line := (s.slots t.signer).line.filter (· != id) }
      (s.accounts t.signer) (fun u hu => by rw [hid] at hu; cases hu; rfl)
      (.inr (.inr (.inr ⟨r, hk⟩))) (fun j => ?_) ((h.nodup _).filter _)
      (fun j => ?_) (.inr ?_) (fun e => ?_) (fun n e => ?_) (h.account _) (.inl rfl)
    · exact this.of_setAccount rfl
    · by_cases hj : j = id
      · subst hj
        simp [Sender.stage, hk]
      · simp [hj]
    · by_cases hj : j = id
      · subst hj
        simp [Sender.Holds, Sender.stage, hk, hne]
      · simp [hj]
    · simp [Sender.Waits, hk]
    · simp [Sender.stage, hk] at e
    · simp [Sender.stage, hk] at e
  | @read id t within k hid hrest hnone =>
    have hst := stage_send hrest
    have hd := (h.due id t hid).resolve_left (by simp [hst])
    have := @SendState.Ok.send s id t h hid hst
      { t with nonce := some (s.accounts t.signer).pending } (s.accounts t.signer) rfl (.inl hst)
      (h.form id t hid) (.inr hd) (fun n _ hn _ => by cases hn; rfl) (h.account _)
    exact this.of_setAccount rfl
  | @accept id n t within k hid hrest hn ha =>
    have hst := stage_send hrest
    have hd := (h.due id t hid).resolve_left (by simp [hst])
    have hacc := h.account t.signer
    have hpend : n = (s.accounts t.signer).base + (s.accounts t.signer).accepted.length := by
      rw [h.nonce id t n hid hst hn ha, Account.pending_eq hacc]
    refine @SendState.Ok.send s id t h hid hst { t with accepted := true } _ rfl (.inl hst)
      (h.form id t hid) (.inr hd) (fun _ _ _ e => by cases e) ?_
    show (s.accounts t.signer).accepted ++ [n] =
      List.range' _ ((s.accounts t.signer).accepted ++ [n]).length
    rw [List.length_append, List.length_singleton, List.range'_1_concat, ← hacc, hpend]
  | @sendDone id t within k output hid hrest hout =>
    obtain ⟨rfl, hk⟩ := (h.form id t hid).send hrest
    obtain ⟨r, hk⟩ := hk (some output)
    have hst' : { t with rest := k (some output), since := s.now : Sender }.stage = .dropping := by
      simp [Sender.stage, hk]
    have := @SendState.Ok.send s id t h hid (stage_send hrest)
      { t with rest := k (some output), since := s.now } (s.accounts t.signer) rfl (.inr hst')
      (.inr (.inr (.inl ⟨r, hk⟩))) (.inl hst') (fun n e => by rw [hst'] at e; cases e) (h.account _)
    exact this.of_setAccount rfl
  | @sendElapsed id t within k hid hrest hdue =>
    obtain ⟨rfl, hk⟩ := (h.form id t hid).send hrest
    obtain ⟨r, hk⟩ := hk none
    have hst' : { t with rest := k none, since := s.now : Sender }.stage = .dropping := by
      simp [Sender.stage, hk]
    have := @SendState.Ok.send s id t h hid (stage_send hrest)
      { t with rest := k none, since := s.now } (s.accounts t.signer) rfl (.inr hst')
      (.inr (.inr (.inl ⟨r, hk⟩))) (.inl hst') (fun n e => by rw [hst'] at e; cases e) (h.account _)
    exact this.of_setAccount rfl
  | @dropGuard id t signer k hid hrest =>
    obtain ⟨rfl, r, hk⟩ := (h.form id t hid).drop hrest
    have hst := stage_drop hrest
    have hh : (s.slots t.signer).holder = some id := (h.holder _ _).mpr ⟨t, hid, rfl, .inr hst⟩
    have hn := h.not_in_line hid (by simp [hst])
    have := @SendState.Ok.update s h id { t with rest := k () }
      { s.slots t.signer with holder := none } (s.accounts t.signer)
      (fun u hu => by rw [hid] at hu; cases hu; rfl) (.inr (.inr (.inr ⟨r, hk⟩))) (fun j => ?_)
      (h.nodup _) (fun j => ?_) (.inr ?_) (fun e => ?_) (fun n e => ?_) (h.account _) (.inl rfl)
    · exact this.of_setAccount rfl
    · by_cases hj : j = id
      · subst hj
        simp [Sender.stage, hk, hn]
      · simp [hj]
    · by_cases hj : j = id
      · subst hj
        simp [Sender.Holds, Sender.stage, hk]
      · simp [hj, hh, Ne.symm hj]
    · simp [Sender.Waits, hk]
    · simp [Sender.stage, hk] at e
    · simp [Sender.stage, hk] at e
  | tick hw =>
    exact ⟨h.form, h.line, h.nodup, h.holder, fun id t hid => .inr (hw id t hid), h.fresh, h.nonce,
      h.account⟩

/-! ## The protocol -/

/-- The send that a step is made by. -/
def SendEvent.sender : SendEvent → Option Nat
  | start id _ _ | lock id | lockElapsed id | read id | accept id | sendDone id _ | sendElapsed id
  | dropGuard id => some id
  | tick _ => none

/-- What the slots give the sends. -/
structure Protocol (s : SendState) : Prop where
  /-- The accepted nonces of a signer are distinct, and without a gap. -/
  nonces : ∀ signer, (s.accounts signer).accepted.Nodup ∧
    ∀ n, n ∈ (s.accounts signer).accepted ↔ (s.accounts signer).base ≤ n ∧
      n < (s.accounts signer).base + (s.accounts signer).accepted.length
  /-- Nonces are read and used only by a send that holds its slot. -/
  section_held : ∀ e s' id, SendStep s e s' → e = .read id ∨ e = .accept id →
    ∃ t, s.senders id = some t ∧ t.stage = .sending
  /-- Two sends of one signer do not hold its slot both. -/
  apart : ∀ id t id' t', s.senders id = some t → s.senders id' = some t' → t.signer = t'.signer →
    t.Holds → t'.Holds → id = id'
  /-- A send that waits may take its slot, or a send of its signer holds it or is ahead in line. -/
  waits : ∀ id t, s.senders id = some t → t.stage = .locking →
    (∃ s', SendStep s (.lock id) s') ∨ ∃ id' t', id' ≠ id ∧ s.senders id' = some t' ∧
      t'.signer = t.signer ∧ ((s.slots t.signer).holder = some id' ∨
        (s.slots t.signer).line.head? = some id')
  /-- A step of a send leaves the other signers alone. -/
  frame : ∀ e s' id t', SendStep s e s' → e.sender = some id → s'.senders id = some t' →
    ∀ signer, t'.signer ≠ signer → s'.slots signer = s.slots signer ∧
      s'.accounts signer = s.accounts signer ∧
      ∀ j t, t.signer = signer → (s'.senders j = some t ↔ s.senders j = some t)
  /-- Whoever holds a slot is sending, for no longer than its timeout, or gives the slot back. -/
  held : ∀ signer id, (s.slots signer).holder = some id → ∃ t, s.senders id = some t ∧
    t.signer = signer ∧ (t.stage = .sending ∧ s.now ≤ t.since + t.timeout ∨ t.stage = .dropping)
  /-- A send that fails, or whose time is up, gives the slot back. -/
  release : ∀ id t, s.senders id = some t → t.stage = .sending → ∀ e,
    e = .sendDone id .failed ∨ e = .sendElapsed id ∧ t.since + t.timeout ≤ s.now →
    ∃ s₁ s₂, SendStep s e s₁ ∧ SendStep s₁ (.dropGuard id) s₂ ∧ (s₂.slots t.signer).holder = none
  /-- No time passes while a slot is given back. -/
  prompt : ∀ d s', SendStep s (.tick d) s' → ∀ id t, s.senders id = some t → t.stage ≠ .dropping
  /-- Time passes unless a timer is due or a slot is given back. -/
  passes : (∀ id t, s.senders id = some t → t.stage ≠ .dropping ∧
      (t.stage = .locking → s.now < t.since + queueTimeout) ∧
      (t.stage = .sending → s.now < t.since + t.timeout)) →
    ∃ s', SendStep s (.tick 1) s'

section
variable {s s' : SendState} {id : Nat} {t : Sender}

theorem SendState.Ok.rest_lock (h : s.Ok) (hid : s.senders id = some t) (hst : t.stage = .locking) :
    ∃ k, t.rest = .ask (.lockOwned t.signer queueTimeout) k := by
  rcases h.form id t hid with hr | hr | ⟨r, hr⟩ | ⟨r, hr⟩
  · exact ⟨_, hr.trans (broadcast_eq _ _)⟩
  · simp [Sender.stage, hr, sendRest] at hst
  · simp [Sender.stage, hr] at hst
  · simp [Sender.stage, hr] at hst

theorem SendState.Ok.rest_send (h : s.Ok) (hid : s.senders id = some t) (hst : t.stage = .sending) :
    t.rest = sendRest t.signer t.timeout := by
  rcases h.form id t hid with hr | hr | ⟨r, hr⟩ | ⟨r, hr⟩
  · simp [Sender.stage, hr, broadcast_eq] at hst
  · exact hr
  · simp [Sender.stage, hr] at hst
  · simp [Sender.stage, hr] at hst

/-- A step of one send, at one signer. -/
theorem frame_of {signer : Address} {u t' : Sender}
    (hsend : s'.senders = Function.update s.senders id (some u))
    (hold : ∀ v, s.senders id = some v → v.signer = u.signer)
    (hslots : ∀ x, x ≠ u.signer → s'.slots x = s.slots x)
    (haccounts : ∀ x, x ≠ u.signer → s'.accounts x = s.accounts x)
    (ht : s'.senders id = some t') (hsig : t'.signer ≠ signer) :
    s'.slots signer = s.slots signer ∧ s'.accounts signer = s.accounts signer ∧
      ∀ j v, v.signer = signer → (s'.senders j = some v ↔ s.senders j = some v) := by
  rw [hsend, Function.update_self] at ht
  cases ht
  refine ⟨hslots _ hsig.symm, haccounts _ hsig.symm, fun j v hv => ?_⟩
  rw [hsend]
  by_cases hj : j = id
  · subst hj
    rw [Function.update_self]
    refine ⟨fun e => ?_, fun e => absurd ((hold v e).symm.trans hv) hsig⟩
    cases e
    exact absurd hv hsig
  · rw [Function.update_of_ne hj]

theorem SendState.Ok.frame (h : s.Ok) {e : SendEvent} {t' : Sender} (hs : SendStep s e s')
    (he : e.sender = some id) (ht : s'.senders id = some t') {signer : Address}
    (hsig : t'.signer ≠ signer) : s'.slots signer = s.slots signer ∧
      s'.accounts signer = s.accounts signer ∧
      ∀ j u, u.signer = signer → (s'.senders j = some u ↔ s.senders j = some u) := by
  have hsame : ∀ {u : Sender}, s.senders id = some u → ∀ u', s.senders id = some u' →
      u'.signer = u.signer := fun hu u' hu' => by
    rw [hu] at hu'
    cases hu'
    rfl
  have hset : ∀ {x y : Address} {slot : Slot}, x ≠ y →
      Function.update s.slots y slot x = s.slots x := fun hx => Function.update_of_ne hx _ _
  cases hs with
  | start hid =>
    cases he
    exact frame_of rfl (fun u hu => by rw [hid] at hu; cases hu) (fun _ hx => hset hx)
      (fun _ _ => rfl) ht hsig
  | lock hid hrest _ | lockElapsed hid hrest _ =>
    cases he
    obtain ⟨rfl, -⟩ := (h.form _ _ hid).lock hrest
    have hkeep := hsame hid
    exact frame_of rfl hkeep (fun _ hx => hset hx) (fun _ _ => rfl) ht hsig
  | read hid _ _ | sendDone hid _ _ | sendElapsed hid _ _ =>
    cases he
    have hkeep := hsame hid
    exact frame_of rfl hkeep (fun _ _ => rfl) (fun _ _ => rfl) ht hsig
  | accept hid _ _ _ =>
    cases he
    have hkeep := hsame hid
    exact frame_of rfl hkeep (fun _ _ => rfl) (fun _ hx => Function.update_of_ne hx _ _) ht hsig
  | dropGuard hid hrest =>
    cases he
    obtain ⟨rfl, -⟩ := (h.form _ _ hid).drop hrest
    have hkeep := hsame hid
    exact frame_of rfl hkeep (fun _ hx => hset hx) (fun _ _ => rfl) ht hsig
  | tick _ => cases he

end

theorem SendState.Ok.protocol {s : SendState} (h : s.Ok) : Protocol s where
  nonces signer := by
    have ha := h.account signer
    refine ⟨by rw [ha]; exact List.nodup_range', fun n => ?_⟩
    rw [ha, List.mem_range'_1, List.length_range']
  section_held e s' id hs he := by
    cases hs with
    | read hid hrest _ =>
      rcases he with he | he <;> cases he
      exact ⟨_, hid, stage_send hrest⟩
    | accept hid hrest _ _ =>
      rcases he with he | he <;> cases he
      exact ⟨_, hid, stage_send hrest⟩
    | _ => rcases he with he | he <;> cases he
  apart id t id' t' hid hid' hsig ht ht' := by
    have h₁ := (h.holder t.signer id).mpr ⟨t, hid, rfl, ht⟩
    have h₂ := (h.holder t.signer id').mpr ⟨t', hid', hsig.symm, ht'⟩
    rw [h₁] at h₂
    exact Option.some.inj h₂
  waits id t hid hst := by
    have hm := (h.line t.signer id).mpr ⟨t, hid, rfl, hst⟩
    obtain ⟨k, hrest⟩ := h.rest_lock hid hst
    cases hl : (s.slots t.signer).line with
    | nil =>
      rw [hl] at hm
      cases hm
    | cons first line =>
      cases hh : (s.slots t.signer).holder with
      | some id' =>
        obtain ⟨t', hid', hsig, -⟩ := (h.holder _ _).mp hh
        refine .inr ⟨id', t', fun e => ?_, hid', hsig, .inl rfl⟩
        exact h.holder_ne hid hst (e ▸ hh)
      | none =>
        by_cases hf : first = id
        · subst hf
          exact .inl ⟨_, .lock hid hrest (by rw [← hh, ← hl])⟩
        · have hf' : first ∈ (s.slots t.signer).line := by
            rw [hl]
            exact List.mem_cons_self
          obtain ⟨t', hid', hsig, -⟩ := (h.line _ _).mp hf'
          exact .inr ⟨first, t', hf, hid', hsig, .inr rfl⟩
  frame e s' id t' hs he ht signer hsig := h.frame hs he ht hsig
  held signer id hh := by
    obtain ⟨t, hid, hsig, ht | ht⟩ := (h.holder _ _).mp hh
    · refine ⟨t, hid, hsig, .inl ⟨ht, ?_⟩⟩
      have := (h.due id t hid).resolve_left (by simp [ht])
      rwa [Sender.Waits, h.rest_send hid ht] at this
    · exact ⟨t, hid, hsig, .inr ht⟩
  release id t hid hst e he := by
    have hrest := h.rest_send hid hst
    have hself : ∀ (s : SendState) (u : Sender), (s.setSender id u).senders id = some u := fun s u =>
      Function.update_self ..
    rcases he with rfl | ⟨rfl, hdue⟩
    · refine ⟨_, _, .sendDone hid hrest nofun, .dropGuard (hself _ _) rfl, ?_⟩
      simp [SendState.setSlot]
    · refine ⟨_, _, .sendElapsed hid hrest hdue, .dropGuard (hself _ _) rfl, ?_⟩
      simp [SendState.setSlot]
  prompt d s' hs id t hid hst := by
    cases hs with
    | tick hw =>
      have := hw id t hid
      rcases h.form id t hid with hr | hr | ⟨r, hr⟩ | ⟨r, hr⟩
      · simp [Sender.stage, hr, broadcast_eq] at hst
      · simp [Sender.stage, hr, sendRest] at hst
      · rwa [Sender.Waits, hr] at this
      · simp [Sender.stage, hr] at hst
  passes hall := by
    refine ⟨_, .tick fun id t hid => ?_⟩
    obtain ⟨hd, hl, hsnd⟩ := hall id t hid
    rcases h.form id t hid with hr | hr | ⟨r, hr⟩ | ⟨r, hr⟩
    · rw [Sender.Waits, hr, broadcast_eq]
      exact hl (by simp [Sender.stage, hr, broadcast_eq])
    · rw [Sender.Waits, hr]
      exact hsnd (by simp [Sender.stage, hr, sendRest])
    · simp [Sender.stage, hr] at hd
    · rw [Sender.Waits, hr]
      trivial

/-- From a start without sends, any interleaving of any sends over any signers. -/
theorem nonce_protocol {s s' : SendState} {events : List SendEvent}
    (hsenders : ∀ id, s.senders id = none)
    (hslots : ∀ signer, s.slots signer = { holder := none, line := [] })
    (haccounts : ∀ signer, (s.accounts signer).accepted = [])
    (h : Run SendStep s events s') : Protocol s' := by
  have hs : s.Ok := by
    refine ⟨fun id t e => ?_, fun signer id => ?_, fun signer => ?_, fun signer id => ?_,
      fun id t e => ?_, fun id t e => ?_, fun id t n e => ?_, fun signer => ?_⟩
    · simp [hsenders] at e
    · simp [hslots, hsenders]
    · simp [hslots]
    · simp [hslots, hsenders]
    · simp [hsenders] at e
    · simp [hsenders] at e
    · simp [hsenders] at e
    · simp [haccounts]
  exact (h.inv (fun _ _ _ hstep hok => hstep.ok hok) hs).protocol

/-- Two sends of one signer; the first reaches the node, but comes back as an error. -/
theorem nonce_protocol_two :
    let s : SendState := ⟨0, fun _ => none, fun _ => ⟨none, []⟩, fun _ => ⟨5, []⟩⟩
    ∃ s', Run SendStep s [.start 0 7 9, .start 1 7 9, .lock 0, .read 0, .tick 3, .accept 0,
        .sendDone 0 .failed, .dropGuard 0, .lock 1, .read 1, .accept 1] s' ∧
      (s'.accounts 7).accepted = [5, 6] ∧ Protocol s' := by
  intro s
  have hrun : ∃ s', Run SendStep s [.start 0 7 9, .start 1 7 9, .lock 0, .read 0, .tick 3,
      .accept 0, .sendDone 0 .failed, .dropGuard 0, .lock 1, .read 1, .accept 1] s' ∧
      (s'.accounts 7).accepted = [5, 6] := by
    refine ⟨_, ((((((((((Run.nil.snoc (.start rfl)).snoc (.start rfl)).snoc
      (.lock rfl (broadcast_eq _ _) rfl)).snoc (.read rfl rfl rfl)).snoc (.tick fun id t h => ?_)).snoc
      (.accept rfl rfl rfl rfl)).snoc (.sendDone rfl rfl nofun)).snoc (.dropGuard rfl rfl)).snoc
      (.lock rfl (broadcast_eq _ _) rfl)).snoc (.read rfl rfl rfl)).snoc (.accept rfl rfl rfl rfl),
      by decide⟩
    rcases id with _ | _ | id
    · cases h
      show (3 : Nat) ≤ 9
      decide
    · cases h
      show 0 + 3 ≤ 0 + queueTimeout
      simp [queueTimeout, fromSecs]
    · cases h
  obtain ⟨s', hr, ha⟩ := hrun
  exact ⟨s', hr, ha, nonce_protocol (fun _ => rfl) (fun _ => rfl) (fun _ => rfl) hr⟩

end MessageRelayer.BroadcastLocks

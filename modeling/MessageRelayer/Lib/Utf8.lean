import Mathlib.Data.List.Basic
import Mathlib.Data.Nat.Find
import Mathlib.Tactic.Common

/-!
# Texts as UTF-8 bytes

A text is the list of its characters, and `encode` its bytes. An offset into the
bytes may be sliced at when no continuation byte stands there
(`isCharBoundary`), which is where a front of the text ends
(`isCharBoundary_iff`). A byte below 128 is a character of its own wherever it
stands (`split_at_ascii`), so what is encoded of an ASCII text is found in the
bytes of a text only where it is found in the text (`split_at_ascii_text`).
`find` is the first offset at which bytes occur in others.
-/

namespace Utf8

/-! ## The encoding -/

def encode (cs : List Char) : List UInt8 := cs.flatMap String.utf8EncodeChar

@[simp] theorem encode_nil : encode [] = [] := rfl

@[simp] theorem encode_cons (c : Char) (cs : List Char) :
    encode (c :: cs) = String.utf8EncodeChar c ++ encode cs := rfl

@[simp] theorem encode_append (cs ds : List Char) : encode (cs ++ ds) = encode cs ++ encode ds :=
  List.flatMap_append

theorem encode_eq_nil {cs : List Char} (h : encode cs = []) : cs = [] := by
  cases cs with
  | nil => rfl
  | cons c cs => exact absurd (List.append_eq_nil_iff.mp h).1 String.utf8EncodeChar_ne_nil

theorem length_utf8EncodeChar_pos (c : Char) : 0 < (String.utf8EncodeChar c).length :=
  List.length_pos_of_ne_nil String.utf8EncodeChar_ne_nil

/-- A byte that no character starts with. -/
def isContinuation (b : UInt8) : Bool := decide (128 ≤ b.toNat) && decide (b.toNat < 192)

/-- A character below 128 is its own byte; any other is a first byte from 192 on and continuation
bytes. -/
theorem utf8EncodeChar_shape (c : Char) :
    c.toNat < 128 ∧ String.utf8EncodeChar c = [UInt8.ofNat c.toNat] ∨
    128 ≤ c.toNat ∧ ∃ b t, String.utf8EncodeChar c = b :: t ∧ 192 ≤ b.toNat ∧
      ∀ x ∈ t, isContinuation x = true := by
  have hn : c.val.toNat = c.toNat := rfl
  have hcont : ∀ v, isContinuation (UInt8.ofNat (v % 64 + 128)) = true := fun v => by
    have hv : v % 64 < 64 := Nat.mod_lt _ (by decide)
    rw [isContinuation, UInt8.toNat_ofNat', Nat.mod_eq_of_lt (by omega)]
    simp only [Bool.and_eq_true, decide_eq_true_eq]
    omega
  have hfirst : ∀ v, 192 ≤ v → v < 256 → 192 ≤ (UInt8.ofNat v).toNat := fun v h h' => by
    rw [UInt8.toNat_ofNat', Nat.mod_eq_of_lt h']
    exact h
  rw [String.utf8EncodeChar]
  simp only [hn]
  split
  · exact .inl ⟨by omega, rfl⟩
  · refine .inr ⟨by omega, ?_⟩
    split
    · refine ⟨_, _, rfl, hfirst _ (by omega) (by omega), ?_⟩
      simp only [List.forall_mem_cons, hcont, List.not_mem_nil, false_implies, implies_true, and_self]
    · split
      · refine ⟨_, _, rfl, hfirst _ (by omega) (by omega), ?_⟩
        simp only [List.forall_mem_cons, hcont, List.not_mem_nil, false_implies, implies_true, and_self]
      · refine ⟨_, _, rfl, hfirst _ (by omega) (by omega), ?_⟩
        simp only [List.forall_mem_cons, hcont, List.not_mem_nil, false_implies, implies_true, and_self]

/-! ## Boundaries -/

/-- No character is cut at the offset: it is the edge of the bytes, or a character starts there. -/
def isCharBoundary (bytes : List UInt8) (i : Nat) : Bool :=
  i == 0 ||
    match bytes[i]? with
    | some b => !isContinuation b
    | none => i == bytes.length

theorem le_of_isCharBoundary {bytes : List UInt8} {i : Nat} (h : isCharBoundary bytes i = true) :
    i ≤ bytes.length := by
  rcases Nat.lt_or_ge bytes.length i with hi | hi
  · have hnone : bytes[i]? = none := List.getElem?_eq_none_iff.mpr (Nat.le_of_lt hi)
    rw [isCharBoundary, hnone] at h
    simp only [Bool.or_eq_true, beq_iff_eq] at h
    omega
  · exact hi

/-- The bytes of a character: one that may start a character, and continuation bytes. -/
theorem utf8EncodeChar_eq (c : Char) : ∃ b t, String.utf8EncodeChar c = b :: t ∧
    isContinuation b = false ∧ ∀ x ∈ t, isContinuation x = true := by
  have hfirst : ∀ b : UInt8, b.toNat < 128 ∨ 192 ≤ b.toNat → isContinuation b = false := fun b hb => by
    rw [isContinuation, Bool.and_eq_false_iff, decide_eq_false_iff_not, decide_eq_false_iff_not]
    omega
  obtain ⟨hc, e⟩ | ⟨-, b, t, e, hb, ht⟩ := utf8EncodeChar_shape c
  · refine ⟨_, _, e, hfirst _ (.inl ?_), fun x hx => absurd hx List.not_mem_nil⟩
    rw [UInt8.toNat_ofNat']
    omega
  · exact ⟨b, t, e, hfirst b (.inr hb), ht⟩

/-- Within the bytes of the first character there is no boundary but the first offset. -/
theorem isCharBoundary_first {c : Char} {bytes : List UInt8} {i : Nat}
    (hi : i < (String.utf8EncodeChar c).length) :
    isCharBoundary (String.utf8EncodeChar c ++ bytes) i = true ↔ i = 0 := by
  obtain ⟨b, t, e, -, ht⟩ := utf8EncodeChar_eq c
  rw [e] at hi ⊢
  cases i with
  | zero => simp [isCharBoundary]
  | succ i =>
    have hi' : i < t.length := Nat.lt_of_succ_lt_succ hi
    have hget : (b :: t ++ bytes)[i + 1]? = some t[i] := by
      rw [List.cons_append, List.getElem?_cons_succ, List.getElem?_append_left hi',
        List.getElem?_eq_getElem hi']
    rw [isCharBoundary, hget]
    simp [ht _ (List.getElem_mem hi')]

/-- After them the boundaries are those of the rest of the text. -/
theorem isCharBoundary_rest {c : Char} {cs : List Char} (j : Nat) :
    isCharBoundary (String.utf8EncodeChar c ++ encode cs) ((String.utf8EncodeChar c).length + j) =
      isCharBoundary (encode cs) j := by
  have hget : (String.utf8EncodeChar c ++ encode cs)[(String.utf8EncodeChar c).length + j]? =
      (encode cs)[j]? := by
    rw [List.getElem?_append_right (Nat.le_add_right _ _), Nat.add_sub_cancel_left]
  have hpos : (String.utf8EncodeChar c).length + j ≠ 0 := by
    have := length_utf8EncodeChar_pos c
    omega
  rw [isCharBoundary, isCharBoundary, hget, List.length_append, beq_eq_false_iff_ne.mpr hpos]
  rcases Nat.eq_zero_or_pos j with rfl | hj
  · cases cs with
    | nil => simp
    | cons d cs =>
      obtain ⟨b, t, e, hb, -⟩ := utf8EncodeChar_eq d
      simp [e, hb]
  · rw [beq_eq_false_iff_ne.mpr (Nat.pos_iff_ne_zero.mp hj)]
    cases (encode cs)[j]? <;> simp

/-- The boundaries are where the fronts of the text end. -/
theorem isCharBoundary_iff {cs : List Char} : ∀ {i : Nat}, isCharBoundary (encode cs) i = true ↔
    ∃ pre post, cs = pre ++ post ∧ (encode pre).length = i := by
  induction cs with
  | nil =>
    intro i
    constructor
    · intro h
      exact ⟨[], [], rfl, (Nat.le_zero.mp (le_of_isCharBoundary h)).symm⟩
    · rintro ⟨pre, post, e, rfl⟩
      rw [(List.append_eq_nil_iff.mp e.symm).1]
      rfl
  | cons c cs ih =>
    intro i
    have hpos := length_utf8EncodeChar_pos c
    rw [encode_cons]
    rcases Nat.lt_or_ge i (String.utf8EncodeChar c).length with hi | hi
    · rw [isCharBoundary_first hi]
      refine ⟨fun h => ⟨[], c :: cs, rfl, h.symm⟩, ?_⟩
      rintro ⟨pre, post, e, rfl⟩
      cases pre with
      | nil => rfl
      | cons d pre =>
        obtain ⟨rfl, -⟩ := List.cons.inj e
        rw [encode_cons, List.length_append] at hi
        omega
    · obtain ⟨j, rfl⟩ := Nat.exists_eq_add_of_le hi
      rw [isCharBoundary_rest, ih]
      constructor
      · rintro ⟨pre, post, rfl, rfl⟩
        exact ⟨c :: pre, post, rfl, List.length_append⟩
      · rintro ⟨pre, post, e, hlen⟩
        cases pre with
        | nil =>
          rw [encode_nil, List.length_nil] at hlen
          omega
        | cons d pre =>
          obtain ⟨rfl, rfl⟩ := List.cons.inj e
          rw [encode_cons, List.length_append] at hlen
          exact ⟨pre, post, rfl, Nat.add_left_cancel hlen⟩

/-! ## ASCII text -/

theorem encodeChar_of_mem_ascii {c : Char} {b : UInt8} (hb : b.toNat < 128)
    (h : b ∈ String.utf8EncodeChar c) : c.toNat < 128 ∧ String.utf8EncodeChar c = [b] := by
  obtain ⟨hc, e⟩ | ⟨-, x, t, e, hx, ht⟩ := utf8EncodeChar_shape c
  · rw [e, List.mem_singleton] at h
    exact ⟨hc, by rw [e, h]⟩
  · rw [e, List.mem_cons] at h
    rcases h with rfl | h
    · omega
    · have hcont := ht b h
      simp only [isContinuation, Bool.and_eq_true, decide_eq_true_eq] at hcont
      omega

/-- A byte below 128 in what follows a character is that character, or stands behind it. -/
theorem ascii_cases {c : Char} {bytes a t : List UInt8} {b : UInt8} (hb : b.toNat < 128)
    (h : String.utf8EncodeChar c ++ bytes = a ++ b :: t) :
    (∃ a', a = String.utf8EncodeChar c ++ a' ∧ bytes = a' ++ b :: t) ∨
    a = [] ∧ bytes = t ∧ c.toNat < 128 ∧ String.utf8EncodeChar c = [b] := by
  obtain ⟨a', ea, h'⟩ | ⟨c', ec, h'⟩ := List.append_eq_append_iff.mp h
  · exact .inl ⟨a', ea, h'⟩
  · cases c' with
    | nil => exact .inl ⟨[], by rw [ec, List.append_nil, List.append_nil], h'.symm⟩
    | cons x c' =>
      obtain ⟨rfl, rfl⟩ := List.cons.inj h'
      obtain ⟨hc, e⟩ := encodeChar_of_mem_ascii hb (by rw [ec]; simp)
      rw [e, eq_comm, List.append_eq_singleton_iff] at ec
      obtain ⟨rfl, ex⟩ | ⟨-, ex⟩ := ec
      · obtain ⟨-, rfl⟩ := List.cons.inj ex
        exact .inr ⟨rfl, rfl, hc, e⟩
      · cases ex

/-- A byte below 128 is a character of the text. -/
theorem split_at_ascii {cs : List Char} {b : UInt8} {t : List UInt8} (hb : b.toNat < 128) :
    ∀ {a : List UInt8}, encode cs = a ++ b :: t → ∃ pre c post, cs = pre ++ c :: post ∧
      encode pre = a ∧ encode post = t ∧ c.toNat < 128 ∧ String.utf8EncodeChar c = [b] := by
  induction cs with
  | nil =>
    intro a h
    simp at h
  | cons c cs ih =>
    intro a h
    obtain ⟨a', rfl, h'⟩ | ⟨rfl, h', hc, e⟩ := ascii_cases hb h
    · obtain ⟨pre, d, post, rfl, rfl, hpost, hd⟩ := ih h'
      exact ⟨c :: pre, d, post, rfl, rfl, hpost, hd⟩
    · exact ⟨[], c, cs, rfl, rfl, h', hc, e⟩

def Ascii (cs : List Char) : Prop := ∀ c ∈ cs, c.toNat < 128

theorem ascii_of_all {cs : List Char} (h : (cs.all fun c => decide (c.toNat < 128)) = true) : Ascii cs :=
  fun c hc => of_decide_eq_true (List.all_eq_true.mp h c hc)

theorem encode_ascii {c : Char} (hc : c.toNat < 128) :
    ∃ b : UInt8, b.toNat = c.toNat ∧ String.utf8EncodeChar c = [b] := by
  obtain ⟨-, e⟩ | ⟨h, -⟩ := utf8EncodeChar_shape c
  · exact ⟨_, by rw [UInt8.toNat_ofNat', Nat.mod_eq_of_lt (by omega)], e⟩
  · omega

/-- Characters with one byte, of the same value. -/
theorem eq_of_encode_ascii {c d : Char} (hc : c.toNat < 128) (hd : d.toNat < 128)
    (h : String.utf8EncodeChar c = String.utf8EncodeChar d) : c = d := by
  obtain ⟨b, hb, e⟩ := encode_ascii hc
  obtain ⟨b', hb', e'⟩ := encode_ascii hd
  rw [e, e'] at h
  obtain ⟨rfl, -⟩ := List.cons.inj h
  exact Char.toNat_inj.mp (hb.symm.trans hb')

/-- Where the bytes of an ASCII text start a text, that text starts with it. -/
theorem strip_ascii_text {ds : List Char} {t : List UInt8} (hd : Ascii ds) :
    ∀ {cs : List Char}, encode cs = encode ds ++ t → ∃ post, cs = ds ++ post ∧ encode post = t := by
  induction ds with
  | nil => exact fun h => ⟨_, rfl, h⟩
  | cons d ds ih =>
    intro cs h
    obtain ⟨hd, hds⟩ := List.forall_mem_cons.mp hd
    obtain ⟨b, hb, e⟩ := encode_ascii hd
    rw [encode_cons, e, List.singleton_append, List.cons_append] at h
    have h : encode cs = [] ++ b :: (encode ds ++ t) := h
    obtain ⟨pre, c, post, rfl, hpre, hpost, hc, ec⟩ := split_at_ascii (hb ▸ hd) h
    obtain rfl := encode_eq_nil hpre
    obtain rfl := eq_of_encode_ascii hc hd (ec.trans e.symm)
    obtain ⟨post', rfl, ht⟩ := ih hds hpost
    exact ⟨post', rfl, ht⟩

/-- Where the bytes of an ASCII text stand in a text, the text has it. -/
theorem split_at_ascii_text {cs ds : List Char} {a t : List UInt8} (hd : Ascii ds) (hne : ds ≠ [])
    (h : encode cs = a ++ (encode ds ++ t)) :
    ∃ pre post, cs = pre ++ ds ++ post ∧ encode pre = a ∧ encode post = t := by
  cases ds with
  | nil => exact absurd rfl hne
  | cons d ds =>
    obtain ⟨hd', hds⟩ := List.forall_mem_cons.mp hd
    obtain ⟨b, hb, e⟩ := encode_ascii hd'
    rw [encode_cons, e, List.singleton_append, List.cons_append] at h
    obtain ⟨pre, c, post, rfl, hpre, hpost, hc, ec⟩ := split_at_ascii (hb ▸ hd') h
    obtain rfl := eq_of_encode_ascii hc hd' (ec.trans e.symm)
    obtain ⟨post', rfl, ht⟩ := strip_ascii_text hds hpost
    exact ⟨pre, post', by rw [List.append_assoc, List.cons_append], hpre, ht⟩

/-! ## Search -/

/-- The bytes occur in others at the offset. -/
def OccursAt (needle bytes : List UInt8) (i : Nat) : Prop :=
  ∃ a t, bytes = a ++ (needle ++ t) ∧ a.length = i

/-- The first offset at which the bytes occur. -/
def find (needle bytes : List UInt8) : Option Nat := (bytes.dropInfix? needle).map (·.1.length)

variable {needle bytes : List UInt8} {i : Nat}

theorem dropInfix_eq_some {p t : List UInt8} : bytes.dropInfix? needle = some (p, t) ↔
    bytes = p ++ (needle ++ t) ∧ ∀ j, OccursAt needle bytes j → p.length ≤ j := by
  rw [List.dropInfix?_eq_some_iff]
  constructor
  · rintro ⟨⟨needle', rfl, he⟩, hmin⟩
    obtain rfl := eq_of_beq he
    refine ⟨List.append_assoc _ _ _, ?_⟩
    rintro j ⟨a, u, e, rfl⟩
    exact hmin a needle' u (by rw [e, List.append_assoc]) he
  · rintro ⟨rfl, hmin⟩
    refine ⟨⟨needle, (List.append_assoc _ _ _).symm, beq_self_eq_true _⟩, ?_⟩
    intro a needle' u e he
    obtain rfl := eq_of_beq he
    exact hmin _ ⟨a, u, by rw [e, List.append_assoc], rfl⟩

theorem find_eq_some (h : find needle bytes = some i) :
    OccursAt needle bytes i ∧ ∀ j, OccursAt needle bytes j → i ≤ j := by
  obtain ⟨⟨p, t⟩, hp, rfl⟩ := Option.map_eq_some_iff.mp h
  obtain ⟨e, hmin⟩ := dropInfix_eq_some.mp hp
  exact ⟨⟨p, t, e, rfl⟩, hmin⟩

theorem find_eq_none (h : find needle bytes = none) (j : Nat) : ¬OccursAt needle bytes j := by
  classical
  intro hj
  have hex : ∃ j, OccursAt needle bytes j := ⟨j, hj⟩
  obtain ⟨a, t, e, ha⟩ := Nat.find_spec hex
  have hsome : bytes.dropInfix? needle = some (a, t) :=
    dropInfix_eq_some.mpr ⟨e, fun j hj => ha ▸ Nat.find_min' hex hj⟩
  rw [find, hsome] at h
  cases h

theorem occursAt_drop {s j : Nat} (hs : s ≤ bytes.length) :
    OccursAt needle (bytes.drop s) j ↔ OccursAt needle bytes (s + j) := by
  constructor
  · rintro ⟨a, t, e, rfl⟩
    refine ⟨bytes.take s ++ a, t, ?_, ?_⟩
    · rw [List.append_assoc, ← e, List.take_append_drop]
    · rw [List.length_append, List.length_take, Nat.min_eq_left hs]
  · rintro ⟨a, t, rfl, ha⟩
    refine ⟨a.drop s, t, ?_, ?_⟩
    · rw [List.drop_append_of_le_length (by omega)]
    · rw [List.length_drop]
      omega

section
variable {cs ds : List Char}

/-- Where an ASCII text occurs in the bytes of another, it is the text that has it. -/
theorem occursAt_iff (hd : Ascii ds) (hne : ds ≠ []) : OccursAt (encode ds) (encode cs) i ↔
    ∃ pre post, cs = pre ++ ds ++ post ∧ (encode pre).length = i := by
  constructor
  · rintro ⟨a, t, e, rfl⟩
    obtain ⟨pre, post, hcs, rfl, -⟩ := split_at_ascii_text hd hne e
    exact ⟨pre, post, hcs, rfl⟩
  · rintro ⟨pre, post, rfl, rfl⟩
    exact ⟨encode pre, encode post, by rw [List.append_assoc, encode_append, encode_append], rfl⟩

/-- The offset behind the first byte of an occurrence is a boundary. -/
theorem isCharBoundary_succ_of_occursAt (hd : Ascii ds) (hne : ds ≠ [])
    (h : OccursAt (encode ds) (encode cs) i) : isCharBoundary (encode cs) (i + 1) = true := by
  obtain ⟨pre, post, rfl, rfl⟩ := (occursAt_iff hd hne).mp h
  cases ds with
  | nil => exact absurd rfl hne
  | cons d ds =>
    obtain ⟨b, -, e⟩ := encode_ascii (hd d List.mem_cons_self)
    refine isCharBoundary_iff.mpr ⟨pre ++ [d], ds ++ post, by simp, ?_⟩
    rw [encode_append, encode_cons, e, List.length_append]
    rfl

/-- An ASCII text is found in the bytes of a text exactly when the text has it. -/
theorem find_isSome_iff (hd : Ascii ds) (hne : ds ≠ []) :
    (find (encode ds) (encode cs)).isSome = true ↔ ds <:+: cs := by
  constructor
  · intro h
    obtain ⟨i, hi⟩ := Option.isSome_iff_exists.mp h
    obtain ⟨pre, post, e, -⟩ := (occursAt_iff hd hne).mp (find_eq_some hi).1
    exact ⟨pre, post, e.symm⟩
  · rintro ⟨pre, post, rfl⟩
    by_contra hnone
    rw [Bool.not_eq_true, Option.isSome_eq_false_iff, Option.isNone_iff_eq_none] at hnone
    exact find_eq_none hnone _ ((occursAt_iff hd hne).mpr ⟨pre, post, rfl, rfl⟩)

end

end Utf8

import Mathlib.Algebra.Group.Nat.Defs
import Mathlib.Tactic.Common

/-!
# Codecs

A codec (`Codec`) writes values as bytes and reads one value off the front of
a byte string, and its laws say that the two agree: what was written is read
back in front of anything, and only what is written can be read. From the laws
every value has one encoding, no encoding is the beginning of another, and a
truncated encoding is not read at all (`Codec.decode_truncated`). Codecs are
put together in order (`Codec.seq`), over a bijection (`Codec.iso`), and as
lists behind their length (`Codec.vec`).
-/

structure Codec (α : Type) where
  /-- The values that can be written. -/
  Valid : α → Prop
  encode : α → List UInt8
  /-- A value off the front of the bytes, and the rest. -/
  decode : List UInt8 → Option (α × List UInt8)
  decode_encode : ∀ a rest, Valid a → decode (encode a ++ rest) = some (a, rest)
  encode_decode : ∀ bs a rest, decode bs = some (a, rest) → Valid a ∧ bs = encode a ++ rest

namespace Codec

variable {α β : Type}

/-- Two values whose encodings begin the same bytes are one. -/
theorem encode_append_inj (c : Codec α) {a b : α} {rest rest' : List UInt8} (ha : c.Valid a)
    (hb : c.Valid b) (h : c.encode a ++ rest = c.encode b ++ rest') : a = b ∧ rest = rest' := by
  have := c.decode_encode a rest ha
  rw [h, c.decode_encode b rest' hb] at this
  cases this
  exact ⟨rfl, rfl⟩

theorem decode_truncated (c : Codec α) {a : α} (ha : c.Valid a) {bs : List UInt8}
    (hp : bs <+: c.encode a) (hne : bs ≠ c.encode a) : c.decode bs = none := by
  cases h : c.decode bs with
  | none => rfl
  | some r =>
    obtain ⟨b, rest⟩ := r
    obtain ⟨hb, rfl⟩ := c.encode_decode _ _ _ h
    obtain ⟨more, he⟩ := hp
    have hb' : c.encode b ++ (rest ++ more) = c.encode a ++ [] := by
      rw [← List.append_assoc, he, List.append_nil]
    obtain ⟨rfl, hr⟩ := c.encode_append_inj hb ha hb'
    rw [(List.append_eq_nil_iff.mp hr).1, List.append_nil] at hne
    exact absurd rfl hne

/-! ## Composition -/

/-- One value after the other. -/
def seq (c : Codec α) (d : Codec β) : Codec (α × β) where
  Valid p := c.Valid p.1 ∧ d.Valid p.2
  encode p := c.encode p.1 ++ d.encode p.2
  decode bs := do
    let (a, bs) ← c.decode bs
    let (b, bs) ← d.decode bs
    some ((a, b), bs)
  decode_encode p rest hp := by
    simp [c.decode_encode _ _ hp.1, d.decode_encode _ _ hp.2]
  encode_decode bs p rest h := by
    simp only [Option.bind_eq_bind, Option.bind_eq_some_iff, Prod.exists, Option.some.injEq] at h
    obtain ⟨a, bs', ha, b, bs'', hb, he⟩ := h
    cases he
    obtain ⟨hva, rfl⟩ := c.encode_decode _ _ _ ha
    obtain ⟨hvb, rfl⟩ := d.encode_decode _ _ _ hb
    exact ⟨⟨hva, hvb⟩, (List.append_assoc ..).symm⟩

/-- The same bytes, for other values. -/
def iso (c : Codec α) (f : α → β) (g : β → α) (hfg : ∀ b, f (g b) = b)
    (hgf : ∀ a, c.Valid a → g (f a) = a) : Codec β where
  Valid b := c.Valid (g b)
  encode b := c.encode (g b)
  decode bs := (c.decode bs).map fun r => (f r.1, r.2)
  decode_encode b rest hb := by
    rw [c.decode_encode _ _ hb, Option.map_some, hfg]
  encode_decode bs b rest h := by
    obtain ⟨⟨a, rest'⟩, ha, he⟩ := Option.map_eq_some_iff.mp h
    cases he
    obtain ⟨hv, rfl⟩ := c.encode_decode _ _ _ ha
    rw [hgf a hv]
    exact ⟨hv, rfl⟩

/-- `n` values off the front. -/
def decodeMany (c : Codec α) : Nat → List UInt8 → Option (List α × List UInt8)
  | 0, bs => some ([], bs)
  | n + 1, bs => do
    let (a, bs) ← c.decode bs
    let (as, bs) ← c.decodeMany n bs
    some (a :: as, bs)

theorem decodeMany_encode (c : Codec α) (as : List α) (rest : List UInt8)
    (h : ∀ a ∈ as, c.Valid a) :
    c.decodeMany as.length (as.flatMap c.encode ++ rest) = some (as, rest) := by
  induction as with
  | nil => rfl
  | cons a as ih =>
    have ha := c.decode_encode a (as.flatMap c.encode ++ rest) (h a List.mem_cons_self)
    simp [decodeMany, ha, ih fun b hb => h b (List.mem_cons_of_mem _ hb)]

theorem encode_decodeMany (c : Codec α) (n : Nat) : ∀ {bs : List UInt8} {as : List α}
    {rest : List UInt8}, c.decodeMany n bs = some (as, rest) →
      as.length = n ∧ (∀ a ∈ as, c.Valid a) ∧ bs = as.flatMap c.encode ++ rest := by
  induction n with
  | zero =>
    intro bs as rest h
    cases h
    exact ⟨rfl, nofun, rfl⟩
  | succ n ih =>
    intro bs as rest h
    simp only [decodeMany, Option.bind_eq_bind, Option.bind_eq_some_iff, Prod.exists,
      Option.some.injEq] at h
    obtain ⟨a, bs', ha, as', bs'', has, he⟩ := h
    cases he
    obtain ⟨hva, rfl⟩ := c.encode_decode _ _ _ ha
    obtain ⟨rfl, hvs, rfl⟩ := ih has
    refine ⟨rfl, List.forall_mem_cons.mpr ⟨hva, hvs⟩, ?_⟩
    rw [List.flatMap_cons, List.append_assoc]

/-- A list behind its length. -/
def vec (len : Codec Nat) (c : Codec α) : Codec (List α) where
  Valid as := len.Valid as.length ∧ ∀ a ∈ as, c.Valid a
  encode as := len.encode as.length ++ as.flatMap c.encode
  decode bs := do
    let (n, bs) ← len.decode bs
    c.decodeMany n bs
  decode_encode as rest h := by
    simp [len.decode_encode _ _ h.1, c.decodeMany_encode as rest h.2]
  encode_decode bs as rest h := by
    simp only [Option.bind_eq_bind, Option.bind_eq_some_iff, Prod.exists] at h
    obtain ⟨n, bs', hn, has⟩ := h
    obtain ⟨hvn, rfl⟩ := len.encode_decode _ _ _ hn
    obtain ⟨rfl, hvs, rfl⟩ := c.encode_decodeMany n has
    exact ⟨⟨hvn, hvs⟩, (List.append_assoc ..).symm⟩

/-! ## Bytes -/

/-- `n` bytes as they are. -/
def array (n : Nat) : Codec (Vector UInt8 n) where
  Valid _ := True
  encode v := v.toList
  decode bs :=
    if h : n ≤ bs.length then
      some (⟨(bs.take n).toArray, by simp [h]⟩, bs.drop n)
    else none
  decode_encode v rest _ := by
    have hl : v.toList.length = n := v.length_toList
    simp only [List.length_append, hl, Nat.le_add_right, dite_true, Option.some.injEq, Prod.mk.injEq]
    refine ⟨Vector.toList_inj.mp ?_, ?_⟩
    · show (v.toList ++ rest).take n = v.toList
      rw [List.take_left' hl]
    · rw [List.drop_left' hl]
  encode_decode bs v rest h := by
    split at h
    · cases h
      exact ⟨trivial, by simp⟩
    · cases h

/-- The `n` bytes of a number, least significant first. -/
def leBytes : Nat → Nat → List UInt8
  | 0, _ => []
  | n + 1, v => UInt8.ofNat v :: leBytes n (v / 256)

/-- The number that bytes spell, least significant first. -/
def leNat : List UInt8 → Nat
  | [] => 0
  | b :: bs => b.toNat + 256 * leNat bs

theorem length_leBytes (n v : Nat) : (leBytes n v).length = n := by
  induction n generalizing v with
  | zero => rfl
  | succ n ih => rw [leBytes, List.length_cons, ih]

theorem leNat_leBytes (n : Nat) : ∀ v, v < 256 ^ n → leNat (leBytes n v) = v := by
  induction n with
  | zero =>
    intro v h
    simp only [Nat.pow_zero, Nat.lt_one_iff] at h
    rw [h]
    rfl
  | succ n ih =>
    intro v h
    rw [leBytes, leNat, ih (v / 256) (Nat.div_lt_of_lt_mul (by rwa [Nat.pow_succ'] at h))]
    simp only [UInt8.toNat_ofNat']
    omega

theorem leBytes_leNat (bs : List UInt8) : leBytes bs.length (leNat bs) = bs := by
  induction bs with
  | nil => rfl
  | cons b bs ih =>
    have hb : b.toNat < 256 := b.toNat_lt
    have hd : (b.toNat + 256 * leNat bs) / 256 = leNat bs := by omega
    rw [List.length_cons, leNat, leBytes, hd, ih]
    congr 1
    apply UInt8.toNat_inj.mp
    simp only [UInt8.toNat_ofNat']
    omega

theorem leNat_lt (bs : List UInt8) : leNat bs < 256 ^ bs.length := by
  induction bs with
  | nil => exact Nat.one_pos
  | cons b bs ih =>
    have hb : b.toNat < 256 := b.toNat_lt
    rw [leNat, List.length_cons, Nat.pow_succ']
    omega

/-- A number of `n` bytes, least significant first. -/
def uintLE (n : Nat) : Codec Nat where
  Valid v := v < 256 ^ n
  encode v := leBytes n v
  decode bs := if n ≤ bs.length then some (leNat (bs.take n), bs.drop n) else none
  decode_encode v rest h := by
    have hl := length_leBytes n v
    rw [if_pos (by rw [List.length_append, hl]; omega), List.take_left' hl, List.drop_left' hl,
      leNat_leBytes n v h]
  encode_decode bs v rest h := by
    split at h
    · rename_i hn
      cases h
      have hl : (bs.take n).length = n := by simp [hn]
      have hlt := leNat_lt (bs.take n)
      have he := leBytes_leNat (bs.take n)
      rw [hl] at hlt he
      exact ⟨hlt, by rw [he, List.take_append_drop]⟩
    · cases h

theorem leBytes_cons {n v : Nat} {b : UInt8} {bs rest : List UInt8}
    (h : b :: bs = leBytes (n + 1) v ++ rest) : b.toNat = v % 256 := by
  rw [leBytes, List.cons_append] at h
  rw [(List.cons.inj h).1, UInt8.toNat_ofNat']

/-! ## Compact numbers -/

/-- A number below `2 ^ 32` in one, two, four or five bytes; the two low bits of the first byte
tell which. -/
def compactBytes (v : Nat) : List UInt8 :=
  if v < 2 ^ 6 then leBytes 1 (4 * v)
  else if v < 2 ^ 14 then leBytes 2 (4 * v + 1)
  else if v < 2 ^ 30 then leBytes 4 (4 * v + 2)
  else 3 :: leBytes 4 v

/-- A number in `n` bytes of which two bits are not its own, if it needs that many. -/
def compactRest (n least : Nat) (bs : List UInt8) : Option (Nat × List UInt8) := do
  let (w, bs) ← (uintLE n).decode bs
  if least ≤ w / 4 then some (w / 4, bs) else none

def compactDecode : List UInt8 → Option (Nat × List UInt8)
  | [] => none
  | b :: bs =>
    if b.toNat % 4 = 0 then some (b.toNat / 4, bs)
    else if b.toNat % 4 = 1 then compactRest 2 (2 ^ 6) (b :: bs)
    else if b.toNat % 4 = 2 then compactRest 4 (2 ^ 14) (b :: bs)
    else if b.toNat / 4 = 0 then do
      let (v, bs) ← (uintLE 4).decode bs
      if 2 ^ 30 ≤ v then some (v, bs) else none
    else none

theorem compactRest_encode {n least v m : Nat} (hm : m < 4) (hl : least ≤ v)
    (hv : 4 * v + m < 256 ^ n) (rest : List UInt8) :
    compactRest n least (leBytes n (4 * v + m) ++ rest) = some (v, rest) := by
  have hd : (4 * v + m) / 4 = v := by omega
  have he := (uintLE n).decode_encode (4 * v + m) rest hv
  rw [compactRest, show leBytes n (4 * v + m) = (uintLE n).encode (4 * v + m) from rfl, he]
  simp [hd, hl]

theorem encode_compactRest {n least : Nat} {b : UInt8} {bs rest : List UInt8} {v : Nat}
    (h : compactRest (n + 1) least (b :: bs) = some (v, rest)) :
    least ≤ v ∧ 4 * v + b.toNat % 4 < 256 ^ (n + 1) ∧
      b :: bs = leBytes (n + 1) (4 * v + b.toNat % 4) ++ rest := by
  simp only [compactRest, Option.bind_eq_bind, Option.bind_eq_some_iff, Prod.exists] at h
  obtain ⟨w, bs', hw, h⟩ := h
  obtain ⟨hlt, he⟩ := (uintLE (n + 1)).encode_decode _ _ _ hw
  have hb := leBytes_cons he
  split at h
  · rename_i hl
    cases h
    have hw : 4 * (w / 4) + b.toNat % 4 = w := by omega
    rw [hw]
    exact ⟨hl, hlt, he⟩
  · cases h

theorem compactDecode_bytes {v : Nat} (rest : List UInt8) (h : v < 2 ^ 32) :
    compactDecode (compactBytes v ++ rest) = some (v, rest) := by
  have h1 : ∀ w, (UInt8.ofNat w).toNat % 4 = w % 4 := fun w => by
    rw [UInt8.toNat_ofNat']
    omega
  rw [compactBytes]
  split
  · have hb : 4 * v % 256 / 4 = v := by omega
    simp [leBytes, compactDecode, hb]
  split
  · have hm : (4 * v + 1) % 4 = 1 := by omega
    have hr := @compactRest_encode 2 (2 ^ 6) v 1 (by omega) (by omega) (by omega) rest
    rw [leBytes, List.cons_append] at hr ⊢
    rw [compactDecode, if_neg (by rw [h1, hm]; omega), if_pos (by rw [h1, hm]), hr]
  split
  · have hm : (4 * v + 2) % 4 = 2 := by omega
    have hr := @compactRest_encode 4 (2 ^ 14) v 2 (by omega) (by omega) (by omega) rest
    rw [leBytes, List.cons_append] at hr ⊢
    rw [compactDecode, if_neg (by rw [h1, hm]; omega), if_neg (by rw [h1, hm]; omega),
      if_pos (by rw [h1, hm]), hr]
  · have he := (uintLE 4).decode_encode v rest h
    have hl : 2 ^ 30 ≤ v := by omega
    rw [List.cons_append, compactDecode, if_neg (by decide), if_neg (by decide),
      if_neg (by decide), if_pos (by decide), show leBytes 4 v = (uintLE 4).encode v from rfl, he]
    show (if 2 ^ 30 ≤ v then some (v, rest) else none) = some (v, rest)
    rw [if_pos hl]

theorem bytes_compactDecode {bs : List UInt8} {v : Nat} {rest : List UInt8}
    (h : compactDecode bs = some (v, rest)) : v < 2 ^ 32 ∧ bs = compactBytes v ++ rest := by
  cases bs with
  | nil => cases h
  | cons b bs =>
  have hb : b.toNat < 256 := b.toNat_lt
  rw [compactDecode] at h
  split at h
  · rename_i hm
    cases h
    have hv : 4 * (b.toNat / 4) = b.toNat := by omega
    refine ⟨by omega, ?_⟩
    rw [compactBytes, if_pos (by omega), hv]
    simp [leBytes]
  split at h
  · rename_i hm
    obtain ⟨hl, hlt, he⟩ := encode_compactRest h
    rw [hm] at hlt he
    refine ⟨by omega, ?_⟩
    rw [compactBytes, if_neg (by omega), if_pos (by omega), he]
  split at h
  · rename_i hm
    obtain ⟨hl, hlt, he⟩ := encode_compactRest h
    rw [hm] at hlt he
    refine ⟨by omega, ?_⟩
    rw [compactBytes, if_neg (by omega), if_neg (by omega), if_pos (by omega), he]
  split at h
  · simp only [Option.bind_eq_bind, Option.bind_eq_some_iff, Prod.exists] at h
    obtain ⟨w, bs', hw, h⟩ := h
    obtain ⟨hlt, rfl⟩ := (uintLE 4).encode_decode _ _ _ hw
    split at h
    · cases h
      have hb3 : b = 3 := by
        apply UInt8.toNat_inj.mp
        show b.toNat = 3
        omega
      refine ⟨hlt, ?_⟩
      rw [compactBytes, if_neg (by omega), if_neg (by omega), if_neg (by omega), hb3]
      rfl
    · cases h
  · cases h

def compact : Codec Nat where
  Valid v := v < 2 ^ 32
  encode := compactBytes
  decode := compactDecode
  decode_encode _ rest h := compactDecode_bytes rest h
  encode_decode _ _ _ h := bytes_compactDecode h

end Codec

import MessageRelayer.Basic

/-!
# Hexadecimal text

What the tasks read and write as hexadecimal digits: `hex::encode`,
`hex::decode` and `hex::decode_to_slice`, over the UTF-8 bytes of the text. What
was encoded decodes to itself (`decodeToSlice_encode`), and only twice as many
digits as there are bytes decode at all (`decodeToSlice_digits`).
-/

namespace MessageRelayer.Hex

/-- The bytes of a text. -/
def utf8 (s : String) : Bytes := s.toList.flatMap String.utf8EncodeChar

theorem utf8_append (s t : String) : utf8 (s ++ t) = utf8 s ++ utf8 t := by
  rw [utf8, String.toList_append, List.flatMap_append]
  rfl

inductive FromHexError where
  | invalidHexCharacter (c : Byte) (index : Nat)
  | oddLength
  | invalidStringLength
  deriving DecidableEq

/-- `{:?}` of a byte as a `char`. -/
def debugChar (c : Byte) : String :=
  let escaped :=
    if c = 0 then "\\0" else if c = 9 then "\\t" else if c = 10 then "\\n"
    else if c = 13 then "\\r" else if c = 39 then "\\'" else if c = 92 then "\\\\"
    else if 32 ≤ c ∧ c ≤ 126 ∨ 161 ≤ c ∧ c ≠ 173 then String.singleton (Char.ofNat c.toNat)
    else "\\u\x7b" ++ String.ofList (Nat.toDigits 16 c.toNat) ++ "\x7d"
  "'" ++ escaped ++ "'"

def FromHexError.text : FromHexError → String
  | invalidHexCharacter c index =>
    "Invalid character " ++ debugChar c ++ " at position " ++ toString index
  | oddLength => "Odd number of digits"
  | invalidStringLength => "Invalid string length"

/-- The value of a digit, of either case. -/
def val (c : Byte) : Option Byte :=
  if 65 ≤ c ∧ c ≤ 70 then some (c - 65 + 10)
  else if 97 ≤ c ∧ c ≤ 102 then some (c - 97 + 10)
  else if 48 ≤ c ∧ c ≤ 57 then some (c - 48)
  else none

/-- The bytes of an even number of digits, the first of which is at `index`. -/
def decodePairs (index : Nat) : Bytes → Except FromHexError Bytes
  | hi :: lo :: cs =>
    match val hi, val lo with
    | none, _ => .error (.invalidHexCharacter hi index)
    | some _, none => .error (.invalidHexCharacter lo (index + 1))
    | some h, some l => (decodePairs (index + 2) cs).map ((16 * h + l) :: ·)
  | _ => .ok []

/-- `hex::decode`. -/
def decode (cs : Bytes) : Except FromHexError Bytes :=
  if cs.length % 2 ≠ 0 then .error .oddLength else decodePairs 0 cs

/-- `hex::decode_to_slice` into `n` bytes. -/
def decodeToSlice (n : Nat) (cs : Bytes) : Except FromHexError Bytes :=
  if cs.length % 2 ≠ 0 then .error .oddLength
  else if cs.length / 2 ≠ n then .error .invalidStringLength
  else decodePairs 0 cs

/-- The lower-case digit of a value below 16. -/
def digit (v : Nat) : Char := "0123456789abcdef".toList.getD v '0'

/-- `hex::encode`. -/
def encode (bs : Bytes) : String :=
  String.ofList (bs.flatMap fun b => [digit (b.toNat / 16), digit (b.toNat % 16)])

/-- `str::strip_prefix("0x")`, if the prefix is there. -/
def stripPrefix (cs : Bytes) : Bytes :=
  match cs with
  | 48 :: 120 :: rest => rest
  | _ => cs

/-- `format!("0x{}", hex::encode(..))`. -/
def prefixed (bs : Bytes) : String := "0x" ++ encode bs

/-! ## Round trips -/

theorem utf8_digit {v : Nat} (h : v < 16) :
    ∃ c, String.utf8EncodeChar (digit v) = [c] ∧ val c = some (UInt8.ofNat v) := by
  have hall : ∀ v : Fin 16, ∃ c, String.utf8EncodeChar (digit v) = [c] ∧
      val c = some (UInt8.ofNat v) := by
    intro v
    refine ⟨(String.utf8EncodeChar (digit v)).headD 0, ?_⟩
    revert v
    decide
  exact hall ⟨v, h⟩

theorem utf8_encode_cons (b : Byte) (bs : Bytes) : ∃ hi lo, utf8 (encode (b :: bs)) =
    hi :: lo :: utf8 (encode bs) ∧ val hi = some (UInt8.ofNat (b.toNat / 16)) ∧
      val lo = some (UInt8.ofNat (b.toNat % 16)) := by
  have hb := b.toNat_lt
  obtain ⟨hi, hhi, vhi⟩ := utf8_digit (v := b.toNat / 16) (by omega)
  obtain ⟨lo, hlo, vlo⟩ := utf8_digit (v := b.toNat % 16) (by omega)
  refine ⟨hi, lo, ?_, vhi, vlo⟩
  simp only [utf8, encode, String.toList_ofList, List.flatMap_cons, hhi, hlo, List.cons_append,
    List.nil_append]

theorem length_utf8_encode (bs : Bytes) : (utf8 (encode bs)).length = 2 * bs.length := by
  induction bs with
  | nil => rfl
  | cons b bs ih =>
    obtain ⟨hi, lo, he, -, -⟩ := utf8_encode_cons b bs
    rw [he, List.length_cons, List.length_cons, List.length_cons, ih]
    omega

theorem nibbles (b : Byte) : 16 * UInt8.ofNat (b.toNat / 16) + UInt8.ofNat (b.toNat % 16) = b := by
  have hb := b.toNat_lt
  refine UInt8.toNat_inj.mp ?_
  simp only [UInt8.toNat_add, UInt8.toNat_mul, UInt8.toNat_ofNat']
  show ((16 % 256 * (b.toNat / 16 % 256)) % 256 + b.toNat % 16 % 256) % 256 = b.toNat
  omega

theorem decodePairs_encode (bs : Bytes) (index : Nat) :
    decodePairs index (utf8 (encode bs)) = .ok bs := by
  induction bs generalizing index with
  | nil => rfl
  | cons b bs ih =>
    obtain ⟨hi, lo, he, vhi, vlo⟩ := utf8_encode_cons b bs
    rw [he, decodePairs, vhi, vlo]
    simp only [ih, Except.map, nibbles]

theorem decode_encode (bs : Bytes) : decode (utf8 (encode bs)) = .ok bs := by
  rw [decode, length_utf8_encode, if_neg (by omega), decodePairs_encode]

theorem decodeToSlice_encode (bs : Bytes) : decodeToSlice bs.length (utf8 (encode bs)) = .ok bs := by
  rw [decodeToSlice, length_utf8_encode, if_neg (by omega), if_neg (by omega), decodePairs_encode]

theorem stripPrefix_prefixed (bs : Bytes) :
    stripPrefix (utf8 (prefixed bs)) = utf8 (encode bs) := by
  rw [prefixed, utf8_append]
  rfl

/-! ## What decodes -/

theorem decodePairs_ok {cs bs : Bytes} {index : Nat} (h : decodePairs index cs = .ok bs)
    (he : cs.length % 2 = 0) : cs.length = 2 * bs.length ∧ ∀ c ∈ cs, (val c).isSome := by
  fun_induction decodePairs index cs generalizing bs with
  | case1 | case2 => cases h
  | case3 index hi lo cs x y hx hy ih =>
    cases hd : decodePairs (index + 2) cs with
    | error e => rw [hd] at h; cases h
    | ok rest =>
      rw [hd] at h
      cases h
      simp only [List.length_cons] at he
      obtain ⟨hl, hv⟩ := ih hd (by omega)
      refine ⟨by simp only [List.length_cons]; omega, fun c hc => ?_⟩
      rcases List.mem_cons.mp hc with rfl | hc
      · rw [hy]; rfl
      · rcases List.mem_cons.mp hc with rfl | hc
        · rw [hx]; rfl
        · exact hv c hc
  | case4 cs index hn =>
    cases h
    cases cs with
    | nil => exact ⟨rfl, fun c hc => absurd hc List.not_mem_nil⟩
    | cons hi cs =>
      cases cs with
      | nil => simp at he
      | cons lo cs => exact absurd rfl (hn hi lo cs)

/-- Only `2 * n` digits decode to `n` bytes. -/
theorem decodeToSlice_digits {n : Nat} {cs bs : Bytes} (h : decodeToSlice n cs = .ok bs) :
    cs.length = 2 * n ∧ bs.length = n ∧ ∀ c ∈ cs, (val c).isSome := by
  rw [decodeToSlice] at h
  split at h
  · cases h
  rename_i he
  split at h
  · cases h
  obtain ⟨hl, hv⟩ := decodePairs_ok h (by omega)
  exact ⟨by omega, by omega, hv⟩

/-- An even number of characters decodes unless one is not a digit; the error names the first. -/
theorem decodePairs_find (cs : Bytes) (index : Nat) (he : cs.length % 2 = 0) :
    match cs.find? fun c => (val c).isNone with
    | none => ∃ bs, decodePairs index cs = .ok bs
    | some c => ∃ i, decodePairs index cs = .error (.invalidHexCharacter c i) := by
  fun_induction decodePairs index cs with
  | case1 index hi lo cs hhi =>
    rw [List.find?_cons_of_pos (by rw [hhi]; rfl)]
    exact ⟨_, rfl⟩
  | case2 index hi lo cs x hlo hhi =>
    rw [List.find?_cons_of_neg (by rw [hhi]; exact Bool.false_ne_true),
      List.find?_cons_of_pos (by rw [hlo]; rfl)]
    exact ⟨_, rfl⟩
  | case3 index hi lo cs x y hlo hhi ih =>
    rw [List.find?_cons_of_neg (by rw [hhi]; exact Bool.false_ne_true),
      List.find?_cons_of_neg (by rw [hlo]; exact Bool.false_ne_true)]
    simp only [List.length_cons] at he
    have ih := ih (by omega)
    split at ih
    · obtain ⟨bs, hd⟩ := ih
      exact ⟨_, by rw [hd]; rfl⟩
    · obtain ⟨i, hd⟩ := ih
      exact ⟨i, by rw [hd]; rfl⟩
  | case4 cs index hn =>
    cases cs with
    | nil => exact ⟨[], rfl⟩
    | cons hi cs =>
      cases cs with
      | nil => simp at he
      | cons lo cs => exact absurd rfl (hn hi lo cs)

end MessageRelayer.Hex

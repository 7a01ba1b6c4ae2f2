import MessageRelayer.Delivery.Revert

/-!
# Where revert data is found in a text

The payload of a revert is looked for after the first `data` of the text, at
the first `0x` from there on. A text that ends with the field `data: "0x…"`
has the word `data` in it once more if a `calldata` comes before, and then the
first `0x` after that is taken, which need not be the one of the field. So the
field is read exactly where no `0x` follows a `data` before it, or the digits
that follow there spell the same bytes; and a text without such a field yields
no selector exactly where no eight digits come after its first `0x` that follows
its first `data` (`revert_data_anchored`).
-/

namespace MessageRelayer

/-! ## Searching in two parts -/

/-- A needle without the letter `c` ends before it. -/
theorem isPrefixOf_append {c : Char} {post : List Char} (pre : List Char) : ∀ {needle : List Char},
    c ∉ needle → needle.isPrefixOf (pre ++ c :: post) = needle.isPrefixOf pre := by
  induction pre with
  | nil =>
    intro needle hc
    cases needle with
    | nil => rfl
    | cons y needle =>
      have hy : y ≠ c := fun e => hc (by simp [e])
      simp [List.isPrefixOf, hy]
  | cons x pre ih =>
    intro needle hc
    cases needle with
    | nil => rfl
    | cons y needle =>
      have hneedle := ih fun h => hc (List.mem_cons_of_mem y h)
      simp [List.isPrefixOf, hneedle]

/-- A needle whose first letter is not in the rest of it does not straddle the seam before that
letter. -/
theorem findFrom_append {needle : List Char} {c : Char} {post : List Char} (hne : needle ≠ [])
    (hc : c ∉ needle.tail) (pre : List Char) : findFrom needle (pre ++ c :: post) =
      ((findFrom needle pre).map (· ++ c :: post)).or (findFrom needle (c :: post)) := by
  induction pre with
  | nil => simp [findFrom, hne]
  | cons x pre ih =>
    have hstart : needle.isPrefixOf (x :: (pre ++ c :: post)) = needle.isPrefixOf (x :: pre) := by
      cases needle with
      | nil => rfl
      | cons y needle =>
        have hrest : needle.isPrefixOf (pre ++ c :: post) = needle.isPrefixOf pre :=
          isPrefixOf_append pre hc
        simp [List.isPrefixOf, hrest]
    rw [List.cons_append, findFrom, findFrom, hstart]
    split
    · rfl
    · exact ih

theorem findFrom_prefix {needle : List Char} {s t : List Char} (h : findFrom needle s = some t) :
    needle <+: t := by
  induction s with
  | nil =>
    rw [findFrom] at h
    split at h
    · rename_i e
      rw [e]
      exact List.nil_prefix
    · cases h
  | cons c s ih =>
    rw [findFrom] at h
    split at h
    · rename_i hp
      cases h
      exact List.isPrefixOf_iff_prefix.mp hp
    · exact ih h

/-- What precedes the first occurrence has none. -/
theorem findFrom_split {needle s t : List Char} (hne : needle ≠ []) (h : findFrom needle s = some t) :
    ∃ p, s = p ++ t ∧ findFrom needle p = none := by
  induction s with
  | nil =>
    rw [findFrom, if_neg hne] at h
    cases h
  | cons c s ih =>
    rw [findFrom] at h
    split at h
    · cases h
      exact ⟨[], rfl, by rw [findFrom, if_neg hne]⟩
    · rename_i hp
      obtain ⟨p, rfl, hn⟩ := ih h
      refine ⟨c :: p, rfl, ?_⟩
      rw [findFrom, if_neg, hn]
      intro hc
      have hstart := (List.isPrefixOf_iff_prefix.mp hc).trans (List.prefix_append (c :: p) t)
      exact hp (List.isPrefixOf_iff_prefix.mpr hstart)

/-- An occurrence with none before it is the first. -/
theorem findFrom_first {c : Char} {needle p : List Char} (hc : c ∉ needle)
    (hp : findFrom (c :: needle) p = none) (rest : List Char) :
    findFrom (c :: needle) (p ++ (c :: needle ++ rest)) = some (c :: needle ++ rest) := by
  have hstart : (c :: needle).isPrefixOf (c :: (needle ++ rest)) = true :=
    List.isPrefixOf_iff_prefix.mpr (List.prefix_append (c :: needle) rest)
  have hfirst : findFrom (c :: needle) (c :: (needle ++ rest)) = some (c :: needle ++ rest) := by
    rw [findFrom, if_pos hstart, List.cons_append]
  rw [List.cons_append, findFrom_append (by simp) hc, hp, hfirst]
  rfl

/-- Nothing is found in letters that the needle does not start with. -/
theorem findFrom_skip {d : Char} {needle pre : List Char} (h : d ∉ pre) (s : List Char) :
    findFrom (d :: needle) (pre ++ s) = findFrom (d :: needle) s := by
  induction pre with
  | nil => rfl
  | cons x pre ih =>
    have hx : d ≠ x := fun e => h (by simp [e])
    have hpre : d ∉ pre := fun hm => h (List.mem_cons_of_mem x hm)
    rw [List.cons_append, findFrom, if_neg (by simp [List.isPrefixOf, hx]), ih hpre]

/-- The text has the needle for the first time after `p`, and the second one for the first time
after `q` from there on. -/
theorem findFrom_findFrom {c d : Char} {needle needle' text rest : List Char} (hc : c ∉ needle)
    (hd : d ∉ needle') (hn : d ∉ c :: needle) :
    (∃ t, findFrom (c :: needle) text = some t ∧
        findFrom (d :: needle') t = some (d :: needle' ++ rest)) ↔
      ∃ p q, text = p ++ (c :: needle ++ (q ++ (d :: needle' ++ rest))) ∧
        findFrom (c :: needle) p = none ∧ findFrom (d :: needle') q = none := by
  constructor
  · rintro ⟨t, ht, hrest⟩
    obtain ⟨p, rfl, hp⟩ := findFrom_split (by simp) ht
    obtain ⟨t, rfl⟩ := findFrom_prefix ht
    rw [findFrom_skip hn] at hrest
    obtain ⟨q, rfl, hq⟩ := findFrom_split (by simp) hrest
    exact ⟨p, q, rfl, hp, hq⟩
  · rintro ⟨p, q, rfl, hp, hq⟩
    refine ⟨_, findFrom_first hc hp _, ?_⟩
    rw [findFrom_skip hn]
    exact findFrom_first hd hq rest

/-! ## The field -/

/-- The field that carries the payload `hex`. -/
def dataField (hex : String) : String := "data: \"0x" ++ hex ++ "\""

/-- Hex digits of whole bytes, of a selector at least. -/
structure IsPayload (hex : String) : Prop where
  digits : ∀ c ∈ hex.toList, isHexDigit c = true
  whole : hex.toList.length % 2 = 0
  selector : 8 ≤ hex.toList.length

/-- The hex digits at the first `0x` that follows a `data` in `before`, on into `after`. -/
def decoyDigits (before after : String) : Option (List Char) := do
  let data ← findFrom "data".toList before.toList
  let hex ← findFrom "0x".toList data
  pure ((hex.drop 2 ++ after.toList).takeWhile isHexDigit)

/-- The first `0x` after the first `data` of the text begins eight hex digits. -/
def HexAfterData (text : String) : Prop :=
  ∃ p q digits rest : String, text = p ++ "data" ++ q ++ "0x" ++ digits ++ rest ∧
    containsText p "data" = false ∧ containsText q "0x" = false ∧ digits.toList.length = 8 ∧
    ∀ c ∈ digits.toList, isHexDigit c = true

theorem length_decodeHex (digits : List Char) : (decodeHex digits).length = digits.length / 2 := by
  fun_induction decodeHex digits with
  | case1 hi lo cs ih =>
    simp only [List.length_cons, ih]
    omega
  | case2 cs h =>
    rcases cs with _ | ⟨_, _ | ⟨_, _⟩⟩
    · rfl
    · simp
    · exact absurd rfl (h _ _ _)

theorem decodeHex_take (n : Nat) : ∀ digits : List Char,
    decodeHex (digits.take (2 * n)) = (decodeHex digits).take n := by
  induction n with
  | zero => exact fun _ => rfl
  | succ n ih =>
    intro digits
    rcases digits with _ | ⟨hi, _ | ⟨lo, digits⟩⟩
    · rfl
    · rfl
    · rw [show 2 * (n + 1) = 2 * n + 1 + 1 by omega]
      simp only [List.take_succ_cons, decodeHex, ih]

/-! ## What the functions find -/

/-- The selector is the first four bytes of the payload. -/
theorem revertSelector_of_data {s : String} {d : Bytes} (h : revertData s = some d) :
    revertSelector s = some (d.take 4) := by
  unfold revertData at h
  unfold revertSelector
  cases hd : dataDigits s with
  | none =>
    rw [hd] at h
    cases h
  | some hex =>
    rw [hd] at h
    simp only [Option.bind_eq_bind, Option.bind_some] at h ⊢
    split at h
    · cases h
    · rename_i hlen
      rw [not_or] at hlen
      cases h
      rw [if_neg (by rw [List.length_take]; omega), decodeHex_take 4]
      rfl

theorem dataField_toList (hex after : String) : (dataField hex ++ after).toList =
    'd' :: ("ata: \"0x".toList ++ (hex.toList ++ '"' :: after.toList)) := by
  simp [dataField]

/-- The digits after the anchor in a text that has the field: those of the field, unless there is a
decoy before it. -/
theorem dataDigits_field (before : String) {hex : String} (h : IsPayload hex) (after : String) :
    dataDigits (before ++ (dataField hex ++ after)) =
      some ((decoyDigits before (dataField hex ++ after)).getD hex.toList) := by
  have hrun : (hex.toList ++ '"' :: after.toList).takeWhile isHexDigit = hex.toList := by
    rw [List.takeWhile_append_of_pos h.digits, List.takeWhile_cons_of_neg (by decide),
      List.append_nil]
  have hdata : findFrom "data".toList ('d' :: ("ata: \"0x".toList ++
      (hex.toList ++ '"' :: after.toList))) = some ('d' :: ("ata: \"0x".toList ++
      (hex.toList ++ '"' :: after.toList))) := by
    simp [findFrom, List.isPrefixOf]
  have hzero : findFrom "0x".toList ('d' :: ("ata: \"0x".toList ++
      (hex.toList ++ '"' :: after.toList))) =
        some ('0' :: 'x' :: (hex.toList ++ '"' :: after.toList)) := by
    simp [findFrom, List.isPrefixOf]
  unfold dataDigits decoyDigits
  rw [String.toList_append, dataField_toList, findFrom_append (by decide) (by decide), hdata]
  cases hd : findFrom "data".toList before.toList with
  | none =>
    simp only [Option.map_none, Option.none_or, Option.bind_eq_bind, Option.bind_some,
      Option.bind_none, hzero]
    exact congrArg some hrun
  | some d =>
    simp only [Option.map_some, Option.some_or, Option.bind_eq_bind, Option.bind_some]
    rw [findFrom_append (by decide) (by decide), hzero]
    cases hz : findFrom "0x".toList d with
    | none => exact congrArg some hrun
    | some z =>
      obtain ⟨z, rfl⟩ := findFrom_prefix hz
      rfl

/-- The field is read, whole and by its selector, if and only if there is no decoy or it spells the
same bytes. -/
theorem revertData_field (before : String) {hex : String} (h : IsPayload hex) (after : String) :
    (revertSelector (before ++ (dataField hex ++ after)) = some ((decodeHex hex.toList).take 4) ∧
      revertData (before ++ (dataField hex ++ after)) = some (decodeHex hex.toList)) ↔
    ∀ digits, decoyDigits before (dataField hex ++ after) = some digits →
      digits.length = hex.toList.length ∧ decodeHex digits = decodeHex hex.toList := by
  have hw := h.whole
  have hs := h.selector
  have hdigits := dataDigits_field before h after
  have hread : ∀ digits : List Char, dataDigits (before ++ (dataField hex ++ after)) = some digits →
      (revertData (before ++ (dataField hex ++ after)) = some (decodeHex hex.toList) ↔
        digits.length = hex.toList.length ∧ decodeHex digits = decodeHex hex.toList) := by
    intro digits hd
    rw [revertData, hd]
    simp only [Option.bind_eq_bind, Option.bind_some]
    split
    · rename_i hbad
      refine ⟨fun h => (by cases h), fun ⟨hlen, _⟩ => ?_⟩
      omega
    · rename_i hgood
      rw [not_or] at hgood
      refine ⟨fun h => ?_, fun h => congrArg some h.2⟩
      have he := Option.some.inj h
      have hlen := congrArg List.length he
      rw [length_decodeHex, length_decodeHex] at hlen
      exact ⟨by omega, he⟩
  rw [and_iff_right_of_imp revertSelector_of_data, hread _ hdigits]
  cases decoyDigits before (dataField hex ++ after) with
  | none => simp
  | some digits => simp

theorem containsText_false {s needle : String} :
    containsText s needle = false ↔ findFrom needle.toList s.toList = none := by
  rw [containsText, Option.isSome_eq_false_iff, Option.isNone_iff_eq_none]

theorem findFrom_data {text rest : List Char} :
    (∃ t, findFrom "data".toList text = some t ∧
        findFrom "0x".toList t = some ("0x".toList ++ rest)) ↔
      ∃ p q, text = p ++ ("data".toList ++ (q ++ ("0x".toList ++ rest))) ∧
        findFrom "data".toList p = none ∧ findFrom "0x".toList q = none := by
  have hdata : "data".toList = 'd' :: ['a', 't', 'a'] := rfl
  have hzero : "0x".toList = '0' :: ['x'] := rfl
  rw [hdata, hzero]
  exact findFrom_findFrom (by decide) (by decide) (by decide)

/-- A run of at least eight digits is eight digits and more. -/
theorem eight_digits {l : List Char} : 8 ≤ (l.takeWhile isHexDigit).length ↔
    ∃ digits rest, l = digits ++ rest ∧ digits.length = 8 ∧ ∀ c ∈ digits, isHexDigit c = true := by
  constructor
  · intro h
    refine ⟨(l.takeWhile isHexDigit).take 8, l.drop 8, ?_, List.length_take_of_le h, fun c hc => ?_⟩
    · have hp := List.takeWhile_prefix isHexDigit (l := l)
      rw [List.prefix_iff_eq_take.mp hp, List.take_take, Nat.min_eq_left h, List.take_append_drop]
    · exact List.all_eq_true.mp List.all_takeWhile c (List.mem_of_mem_take hc)
  · rintro ⟨digits, rest, rfl, hlen, hdigits⟩
    rw [List.takeWhile_append_of_pos hdigits, List.length_append, hlen]
    exact Nat.le_add_right _ _

theorem revertSelector_digits (s : String) : revertSelector s = none ↔
    ¬ ∃ digits, dataDigits s = some digits ∧ 8 ≤ digits.length := by
  rw [revertSelector]
  cases dataDigits s with
  | none => simp
  | some digits =>
    simp only [Option.bind_eq_bind, Option.bind_some, List.length_take, Option.some.injEq,
      exists_eq_left']
    split
    · exact ⟨fun _ => by omega, fun _ => rfl⟩
    · exact ⟨fun h => (by cases h), fun h => absurd (by omega) h⟩

theorem dataDigits_some {s : String} {digits : List Char} : dataDigits s = some digits ↔
    ∃ rest, (∃ t, findFrom "data".toList s.toList = some t ∧
      findFrom "0x".toList t = some ("0x".toList ++ rest)) ∧ digits = rest.takeWhile isHexDigit := by
  unfold dataDigits
  constructor
  · intro h
    obtain ⟨t, ht, h⟩ := Option.bind_eq_some_iff.mp h
    obtain ⟨hex, hx, h⟩ := Option.bind_eq_some_iff.mp h
    obtain ⟨rest, rfl⟩ := findFrom_prefix hx
    exact ⟨rest, ⟨t, ht, hx⟩, (Option.some.inj h).symm⟩
  · rintro ⟨rest, ⟨t, ht, hx⟩, rfl⟩
    refine Option.bind_eq_some_iff.mpr ⟨t, ht, Option.bind_eq_some_iff.mpr ⟨_, hx, ?_⟩⟩
    rfl

/-- Where a text yields a selector, by what occurs in it. -/
theorem revertSelector_none (s : String) : revertSelector s = none ↔ ¬ HexAfterData s := by
  rw [revertSelector_digits]
  refine not_congr ⟨?_, ?_⟩
  · rintro ⟨digits, hd, hlen⟩
    obtain ⟨rest, hfind, rfl⟩ := dataDigits_some.mp hd
    obtain ⟨p, q, he, hp, hq⟩ := findFrom_data.mp hfind
    obtain ⟨digits, rest, rfl, hlen, hdigits⟩ := eight_digits.mp hlen
    refine ⟨.ofList p, .ofList q, .ofList digits, .ofList rest, ?_, ?_, ?_, ?_, ?_⟩
    · rw [← String.toList_inj, he]
      simp only [String.toList_append, String.toList_ofList, List.append_assoc]
    · simpa [containsText_false] using hp
    · simpa [containsText_false] using hq
    · simpa using hlen
    · simpa using hdigits
  · rintro ⟨p, q, digits, rest, rfl, hp, hq, hlen, hdigits⟩
    refine ⟨_, dataDigits_some.mpr ⟨digits.toList ++ rest.toList, ?_, rfl⟩,
      eight_digits.mpr ⟨_, _, rfl, hlen, hdigits⟩⟩
    refine findFrom_data.mpr
      ⟨p.toList, q.toList, ?_, containsText_false.mp hp, containsText_false.mp hq⟩
    simp only [String.toList_append, List.append_assoc]

/-- Revert data in a text. A field `data: "0x…"` is read as its selector and its payload if and only
if no `0x` follows a `data` before it, or the digits that follow the first one spell the same bytes.
The selector is always the first four bytes of the data. A text without such a field yields no
selector if and only if its first `0x` after its first `data` begins no eight hex digits. -/
theorem revert_data_anchored (before hex after text : String) (h : IsPayload hex) :
    ((revertSelector (before ++ dataField hex ++ after) = some ((decodeHex hex.toList).take 4) ∧
        revertData (before ++ dataField hex ++ after) = some (decodeHex hex.toList)) ↔
      ∀ digits, decoyDigits before (dataField hex ++ after) = some digits →
        digits.length = hex.toList.length ∧ decodeHex digits = decodeHex hex.toList) ∧
    (∀ d : Bytes, revertData text = some d → revertSelector text = some (d.take 4)) ∧
    (containsText text "data: \"0x" = false → (revertSelector text = none ↔ ¬ HexAfterData text)) := by
  refine ⟨?_, fun d => revertSelector_of_data, fun _ => revertSelector_none text⟩
  rw [String.append_assoc]
  exact revertData_field before h after

/-- The wording of Creditcoin's nodes. -/
def sampleRevert : String := "VM Exception while processing transaction: revert, "

theorem revert_data_anchored_sample :
    revertSelector (sampleRevert ++ dataField "2f28bb55" ++ "") = some [0x2f, 0x28, 0xbb, 0x55] ∧
    revertData (sampleRevert ++ dataField "2f28bb55" ++ "") = some [0x2f, 0x28, 0xbb, 0x55] := by
  have hplain : decoyDigits sampleRevert (dataField "2f28bb55" ++ "") = none := by decide
  have hpayload : IsPayload "2f28bb55" :=
    ⟨List.all_eq_true.mp (by decide), by decide, by decide⟩
  have h := (revert_data_anchored sampleRevert "2f28bb55" "" "" hpayload).1.mpr
    fun digits hd => by rw [hplain] at hd; cases hd
  have hbytes : decodeHex "2f28bb55".toList = [0x2f, 0x28, 0xbb, 0x55] := by decide
  rw [hbytes] at h
  exact h

/-- The digits of a `calldata` before the field are taken for the payload. -/
theorem revert_data_decoy : ¬ ∀ before hex after : String, IsPayload hex →
    containsText before "data: \"0x" = false →
    revertSelector (before ++ dataField hex ++ after) = some ((decodeHex hex.toList).take 4) := by
  intro h
  have hdecoy := h "calldata 0xdeadbeef reverted, " "2f28bb55" ""
    ⟨List.all_eq_true.mp (by decide), by decide, by decide⟩
    (by decide)
  exact absurd hdecoy (by decide)

end MessageRelayer

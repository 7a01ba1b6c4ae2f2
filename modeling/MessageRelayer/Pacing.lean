import Mathlib.Data.List.Induction
import MessageRelayer.Basic
import MessageRelayer.Lib.Utf8

/-!
# Pacing after rate limits

`pacing`: a loop that reads the destination chain defers its iterations after
the provider limited one (`RateLimitPacer`), and tells such an error by its text
(`errorLooksRateLimited`): by a phrase anywhere in it, or by a code that stands
alone (`containsStandalone`).

The search for a code runs over byte offsets, and restarts one byte behind the
start of each match it rejects. `none` is a panic of the slice or of an index. The
digits of a match are characters of one byte, so the search slices at
boundaries only and misses no match (`containsStandaloneFrom_spec`), and its
answer is whether the text has the code with no letter or digit on either side
(`contains_standalone_iff`).
-/

namespace MessageRelayer

def levelCap : Nat := 5
def pacerBase : Duration := fromSecs 5

structure RateLimitPacer where
  level : Nat
  deferUntil : Option Instant
  deriving DecidableEq

namespace RateLimitPacer

/-- `RateLimitPacer::default`. -/
def zero : RateLimitPacer := ⟨0, none⟩

def after (p : RateLimitPacer) (rateLimited : Bool) (now : Instant) : RateLimitPacer :=
  if rateLimited then
    let level := min (p.level + 1) levelCap
    ⟨level, some (now + pacerBase * 2 ^ (level - 1))⟩
  else { p with level := p.level - 1 }

/-- What is left of the deferral at `now`. -/
def deferring (p : RateLimitPacer) (now : Instant) : Option Duration :=
  p.deferUntil.bind fun limit => if now < limit then some (limit - now) else none

/-- The pacer after its iterations, each with its outcome and its time. -/
def run (iterations : List (Bool × Instant)) : RateLimitPacer :=
  iterations.foldl (fun p iteration => p.after iteration.1 iteration.2) zero

/-- A level is at most the cap, and only a limited iteration arms a deferral. -/
theorem run_spec (iterations : List (Bool × Instant)) : (run iterations).level ≤ levelCap ∧
    ∀ limit, (run iterations).deferUntil = some limit → ∃ now, (true, now) ∈ iterations ∧
      limit ≤ now + pacerBase * 2 ^ (levelCap - 1) := by
  induction iterations using List.reverseRecOn with
  | nil => exact ⟨Nat.zero_le _, fun limit h => by cases h⟩
  | append_singleton iterations iteration ih =>
    obtain ⟨limited, now⟩ := iteration
    have e : run (iterations ++ [(limited, now)]) = (run iterations).after limited now := by
      rw [run, List.foldl_append]
      rfl
    rw [e]
    cases limited with
    | true =>
      have hlevel : ((run iterations).after true now).level ≤ levelCap := Nat.min_le_right _ _
      refine ⟨hlevel, fun limit h => ⟨now, by simp, ?_⟩⟩
      cases h
      exact Nat.add_le_add_left (Nat.mul_le_mul_left _ (Nat.pow_le_pow_right (by decide)
        (Nat.sub_le_sub_right hlevel 1))) _
    | false =>
      refine ⟨Nat.le_trans (Nat.sub_le _ _) ih.1, fun limit h => ?_⟩
      obtain ⟨t, ht, hle⟩ := ih.2 limit h
      exact ⟨t, List.mem_append_left _ ht, hle⟩

end RateLimitPacer

/-! ## Codes in a text -/

/-- `u8::is_ascii_alphanumeric`. -/
def isAsciiAlphanumeric (b : Byte) : Bool :=
  decide (48 ≤ b ∧ b ≤ 57) || decide (65 ≤ b ∧ b ≤ 90) || decide (97 ≤ b ∧ b ≤ 122)

def beforeOk (bytes : Bytes) (i : Nat) : Option Bool :=
  if i = 0 then some true else bytes[i - 1]?.map fun b => !isAsciiAlphanumeric b

def afterOk (bytes : Bytes) (after : Nat) : Option Bool :=
  if bytes.length ≤ after then some true else bytes[after]?.map fun b => !isAsciiAlphanumeric b

/-- The two tests of the loop, on the neighbours of a match at `i`. -/
def boundedAt (bytes : Bytes) (needleLen i : Nat) : Option Bool :=
  (beforeOk bytes i).bind fun before => (afterOk bytes (i + needleLen)).map (before && ·)

/-- The loop of `contains_standalone`, from an offset at which it slices the text. -/
def containsStandaloneFrom (bytes needle : Bytes) (start : Nat) : Option Bool :=
  if _h : Utf8.isCharBoundary bytes start = true then
    match Utf8.find needle (bytes.drop start) with
    | none => some false
    | some pos =>
      match boundedAt bytes needle.length (start + pos) with
      | none => none
      | some true => some true
      | some false => containsStandaloneFrom bytes needle (start + pos + 1)
  else none
termination_by bytes.length + 1 - start
decreasing_by
  have := Utf8.le_of_isCharBoundary _h
  omega

def containsStandalone (text needle : String) : Option Bool :=
  containsStandaloneFrom (Utf8.encode text.toList) (Utf8.encode needle.toList) 0

def rateLimitPhrases : List String :=
  ["resource_exhausted", "resource exhausted", "rate limit", "rps limit", "too many requests", "quota"]

/-- With what `str::to_lowercase` makes of a text. -/
def errorLooksRateLimited (toLowercase : String → String) (text : String) : Option Bool :=
  let text := toLowercase text
  if rateLimitPhrases.any fun needle =>
      (Utf8.find (Utf8.encode needle.toList) (Utf8.encode text.toList)).isSome then some true
  else do
    if ← containsStandalone text "429" then some true else containsStandalone text "32005"

/-! ## The search -/

section
variable {bytes needle : Bytes} {start i : Nat}

theorem beforeOk_isSome (hi : i ≤ bytes.length) : ∃ ok, beforeOk bytes i = some ok := by
  rw [beforeOk]
  split
  · exact ⟨true, rfl⟩
  · rw [List.getElem?_eq_getElem (by omega)]
    exact ⟨_, rfl⟩

theorem afterOk_isSome (bytes : Bytes) (i : Nat) : ∃ ok, afterOk bytes i = some ok := by
  rw [afterOk]
  split
  · exact ⟨true, rfl⟩
  · rw [List.getElem?_eq_getElem (by omega)]
    exact ⟨_, rfl⟩

/-- The neighbours of a match are in the text, or it stands at the edge. -/
theorem boundedAt_isSome (n : Nat) (hi : i ≤ bytes.length) : ∃ ok, boundedAt bytes n i = some ok := by
  obtain ⟨before, hb⟩ := beforeOk_isSome hi
  obtain ⟨after, ha⟩ := afterOk_isSome bytes (i + n)
  exact ⟨before && after, by rw [boundedAt, hb, Option.bind_some, ha, Option.map_some]⟩

/-- Where no match is followed by the inside of a character, the search answers, and it misses no match
that is bounded. -/
theorem containsStandaloneFrom_spec
    (hb : ∀ i, Utf8.OccursAt needle bytes i → Utf8.isCharBoundary bytes (i + 1) = true)
    (hs : Utf8.isCharBoundary bytes start = true) :
    ∃ found, containsStandaloneFrom bytes needle start = some found ∧
      (found = true ↔ ∃ i, start ≤ i ∧ Utf8.OccursAt needle bytes i ∧
        boundedAt bytes needle.length i = some true) := by
  have hdrop : ∀ {start j : Nat}, Utf8.isCharBoundary bytes start = true →
      (Utf8.OccursAt needle (bytes.drop start) j ↔ Utf8.OccursAt needle bytes (start + j)) :=
    fun h => Utf8.occursAt_drop (Utf8.le_of_isCharBoundary h)
  fun_induction containsStandaloneFrom bytes needle start with
  | case1 start h hfind =>
    refine ⟨false, rfl, iff_of_false Bool.false_ne_true ?_⟩
    rintro ⟨i, hi, hocc, -⟩
    obtain ⟨j, rfl⟩ := Nat.exists_eq_add_of_le hi
    exact Utf8.find_eq_none hfind j ((hdrop h).mpr hocc)
  | case2 start h pos hfind hbound =>
    have hocc := (hdrop h).mp (Utf8.find_eq_some hfind).1
    have hle := Nat.le_of_succ_le (Utf8.le_of_isCharBoundary (hb _ hocc))
    obtain ⟨ok, hok⟩ := boundedAt_isSome needle.length hle
    rw [hok] at hbound
    cases hbound
  | case3 start h pos hfind hbound =>
    have hocc := (hdrop h).mp (Utf8.find_eq_some hfind).1
    exact ⟨true, rfl, iff_of_true rfl ⟨start + pos, Nat.le_add_right _ _, hocc, hbound⟩⟩
  | case4 start h pos hfind hbound ih =>
    obtain ⟨hocc, hmin⟩ := Utf8.find_eq_some hfind
    obtain ⟨found, hfound, hiff⟩ := ih (hb _ ((hdrop h).mp hocc))
    refine ⟨found, hfound, hiff.trans ⟨?_, ?_⟩⟩
    · rintro ⟨i, hi, ho, hok⟩
      exact ⟨i, by omega, ho, hok⟩
    · rintro ⟨i, hi, ho, hok⟩
      obtain ⟨j, rfl⟩ := Nat.exists_eq_add_of_le hi
      have hle := hmin j ((hdrop h).mpr ho)
      -- the rejected match is not the one
      have hne : j ≠ pos := by
        rintro rfl
        rw [hbound] at hok
        cases hok
      exact ⟨start + j, by omega, ho, hok⟩
  | case5 start h => exact absurd hs h

end

/-! ## Codes that stand alone -/

/-- The text has the code with no ASCII letter or digit on either side. -/
def Standalone (text needle : List Char) : Prop :=
  ∃ pre post, text = pre ++ needle ++ post ∧ (∀ c ∈ pre.getLast?, c.isAlphanum = false) ∧
    ∀ c ∈ post.head?, c.isAlphanum = false

/-- The code of an ASCII digit or letter. -/
def AlnumCode (n : Nat) : Prop := 48 ≤ n ∧ n ≤ 57 ∨ 65 ≤ n ∧ n ≤ 90 ∨ 97 ≤ n ∧ n ≤ 122

theorem isAlphanum_iff (c : Char) : c.isAlphanum = true ↔ AlnumCode c.toNat := by
  have e : c.isAlphanum = ((decide ('A'.val ≤ c.val ∧ c.val ≤ 'Z'.val) ||
      decide ('a'.val ≤ c.val) && decide (c.val ≤ 'z'.val)) ||
      decide ('0'.val ≤ c.val) && decide (c.val ≤ '9'.val)) := rfl
  simp only [e, Bool.or_eq_true, Bool.and_eq_true, decide_eq_true_eq, UInt32.le_iff_toNat_le]
  exact or_comm

theorem isAsciiAlphanumeric_iff (b : Byte) : isAsciiAlphanumeric b = true ↔ AlnumCode b.toNat := by
  simp only [isAsciiAlphanumeric, Bool.or_eq_true, decide_eq_true_eq, UInt8.le_iff_toNat_le]
  exact or_assoc

/-- A byte of a character is a letter or a digit when the character is. -/
theorem isAsciiAlphanumeric_of_mem {c : Char} {b : Byte} (h : b ∈ String.utf8EncodeChar c) :
    isAsciiAlphanumeric b = c.isAlphanum := by
  rw [Bool.eq_iff_iff, isAsciiAlphanumeric_iff, isAlphanum_iff]
  rcases Nat.lt_or_ge c.toNat 128 with hc | hc
  · obtain ⟨b', hb', e⟩ := Utf8.encode_ascii hc
    rw [e, List.mem_singleton] at h
    rw [h, hb']
  · have hb : ¬b.toNat < 128 := fun hb => by
      have := (Utf8.encodeChar_of_mem_ascii hb h).1
      omega
    simp only [AlnumCode]
    omega

section
variable {pre post ds : List Char}

theorem beforeOk_encode (bytes : Bytes) : beforeOk (Utf8.encode pre ++ bytes) (Utf8.encode pre).length =
    some (pre.getLast?.all fun c => !c.isAlphanum) := by
  rcases List.eq_nil_or_concat pre with rfl | ⟨p, c, rfl⟩
  · rfl
  · obtain ⟨init, b, eb⟩ := (List.eq_nil_or_concat (String.utf8EncodeChar c)).resolve_left
      String.utf8EncodeChar_ne_nil
    have hmem : b ∈ String.utf8EncodeChar c := by rw [eb]; simp
    have e : Utf8.encode (p.concat c) = (Utf8.encode p ++ init) ++ [b] := by
      rw [List.concat_eq_append, Utf8.encode_append, Utf8.encode_cons, Utf8.encode_nil, List.append_nil,
        eb, List.concat_eq_append, List.append_assoc]
    rw [beforeOk, e]
    simp [isAsciiAlphanumeric_of_mem hmem]

theorem afterOk_encode (bytes : Bytes) : afterOk (bytes ++ Utf8.encode post) bytes.length =
    some (post.head?.all fun c => !c.isAlphanum) := by
  cases post with
  | nil => simp [afterOk]
  | cons c post =>
    obtain ⟨b, t, eb, -⟩ := Utf8.utf8EncodeChar_eq c
    have hmem : b ∈ String.utf8EncodeChar c := by rw [eb]; exact List.mem_cons_self
    rw [afterOk, Utf8.encode_cons, eb]
    simp [isAsciiAlphanumeric_of_mem hmem]

/-- The tests of the loop are about the characters beside a match. -/
theorem boundedAt_encode : boundedAt (Utf8.encode (pre ++ ds ++ post)) (Utf8.encode ds).length
    (Utf8.encode pre).length = some true ↔
      (∀ c ∈ pre.getLast?, c.isAlphanum = false) ∧ ∀ c ∈ post.head?, c.isAlphanum = false := by
  have hbefore : beforeOk (Utf8.encode (pre ++ ds ++ post)) (Utf8.encode pre).length =
      some (pre.getLast?.all fun c => !c.isAlphanum) := by
    rw [List.append_assoc, Utf8.encode_append, beforeOk_encode]
  have hafter : afterOk (Utf8.encode (pre ++ ds ++ post))
      ((Utf8.encode pre).length + (Utf8.encode ds).length) =
      some (post.head?.all fun c => !c.isAlphanum) := by
    rw [← List.length_append, ← Utf8.encode_append, Utf8.encode_append (pre ++ ds), afterOk_encode]
  rw [boundedAt, hbefore, Option.bind_some, hafter, Option.map_some, Option.some_inj, Bool.and_eq_true,
    Option.all_eq_true, Option.all_eq_true]
  simp only [Bool.not_eq_true']
  exact Iff.rfl

end

/-- For an ASCII needle the search answers whether some occurrence of it stands alone. -/
theorem containsStandalone_ascii (text : String) {needle : String} (hd : Utf8.Ascii needle.toList)
    (hne : needle ≠ "") : ∃ found, containsStandalone text needle = some found ∧
      (found = true ↔ Standalone text.toList needle.toList) := by
  have hne' : needle.toList ≠ [] := fun h => hne (String.toList_eq_nil_iff.mp h)
  have hstart : Utf8.isCharBoundary (Utf8.encode text.toList) 0 = true := rfl
  obtain ⟨found, hfound, hiff⟩ := containsStandaloneFrom_spec
    (fun i hi => Utf8.isCharBoundary_succ_of_occursAt hd hne' hi) hstart
  refine ⟨found, hfound, hiff.trans ⟨?_, ?_⟩⟩
  · rintro ⟨i, -, hocc, hok⟩
    obtain ⟨pre, post, e, rfl⟩ := (Utf8.occursAt_iff hd hne').mp hocc
    rw [e] at hok
    exact ⟨pre, post, e, boundedAt_encode.mp hok⟩
  · rintro ⟨pre, post, e, hbound⟩
    rw [e]
    exact ⟨_, Nat.zero_le _, (Utf8.occursAt_iff hd hne').mpr ⟨pre, post, rfl, rfl⟩,
      boundedAt_encode.mpr hbound⟩

/-- For every text and every needle of digits the loop ends, with each slice at a boundary and each index
in the text, and answers whether some occurrence of the needle stands alone. -/
theorem contains_standalone_iff (text needle : String) (hne : needle ≠ "")
    (hdigits : ∀ c ∈ needle.toList, c.isDigit = true) :
    ∃ found, containsStandalone text needle = some found ∧
      (found = true ↔ Standalone text.toList needle.toList) := by
  refine containsStandalone_ascii text (fun c hc => ?_) hne
  have hc : c.isAlphanum = true := by rw [Char.isAlphanum, hdigits c hc, Bool.or_true]
  rw [isAlphanum_iff, AlnumCode] at hc
  omega

theorem contains_standalone_code : ∃ found, containsStandalone "HTTP 4290 429" "429" = some found ∧
    (found = true ↔ Standalone "HTTP 4290 429".toList "429".toList) :=
  contains_standalone_iff "HTTP 4290 429" "429" (by decide) (List.all_eq_true.mp (by decide))

/-- The match inside the number is rejected, and the one behind it found. -/
example : containsStandalone "é14294 429" "429" = some true := by decide +kernel

/-- The classifier answers for every text: whether it has one of the phrases, or a code alone. -/
theorem errorLooksRateLimited_iff (toLowercase : String → String) (text : String) :
    ∃ limited, errorLooksRateLimited toLowercase text = some limited ∧ (limited = true ↔
      (∃ phrase ∈ rateLimitPhrases, phrase.toList <:+: (toLowercase text).toList) ∨
      Standalone (toLowercase text).toList "429".toList ∨
      Standalone (toLowercase text).toList "32005".toList) := by
  have hascii : ∀ phrase ∈ rateLimitPhrases,
      (phrase.toList.all fun c => decide (c.toNat < 128)) = true ∧ phrase.toList ≠ [] := by decide
  have hphrases : (rateLimitPhrases.any fun needle =>
      (Utf8.find (Utf8.encode needle.toList) (Utf8.encode (toLowercase text).toList)).isSome) = true ↔
      ∃ phrase ∈ rateLimitPhrases, phrase.toList <:+: (toLowercase text).toList := by
    rw [List.any_eq_true]
    refine exists_congr fun phrase => and_congr_right fun hmem => ?_
    exact Utf8.find_isSome_iff (Utf8.ascii_of_all (hascii phrase hmem).1) (hascii phrase hmem).2
  have h429 : Utf8.Ascii "429".toList := Utf8.ascii_of_all (by decide)
  have h32005 : Utf8.Ascii "32005".toList := Utf8.ascii_of_all (by decide)
  obtain ⟨code, hcode, hcode'⟩ := containsStandalone_ascii (toLowercase text) h429 (by decide)
  obtain ⟨code', hc, hc'⟩ := containsStandalone_ascii (toLowercase text) h32005 (by decide)
  rw [← hphrases, ← hcode', ← hc', errorLooksRateLimited]
  simp only [hcode, hc, Option.bind_eq_bind, Option.bind_some]
  split
  · rename_i h
    exact ⟨true, rfl, iff_of_true rfl (.inl h)⟩
  · rename_i h
    cases code with
    | true => exact ⟨true, rfl, by simp⟩
    | false => exact ⟨code', rfl, by simp [h]⟩

end MessageRelayer

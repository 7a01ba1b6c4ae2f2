import Mathlib.Tactic.Common

/-!
# JSON texts

The grammar of JSON over lists of characters: `Value s v r` when a value is
read off the front of `s` and `r` is left, `Document s v` when `s` is one value
with white space around it. A value keeps its strings and numbers as they are
written, and `StringBody` is what may stand between the quotes of a string.

The simp lemmas read a text from the left, as far as it is known. What is then
left of a text with a hole is what the grammar asks of the hole:
`exists_body_iff`.
-/

namespace JsonText

inductive Tree where
  | null
  | bool (b : Bool)
  | number (text : List Char)
  | str (body : List Char)
  | arr (items : List Tree)
  | obj (members : List (List Char × Tree))

/-! ## White space -/

def isWs (c : Char) : Bool := [' ', '\t', '\n', '\r'].contains c

inductive Ws : List Char → List Char → Prop where
  | nil {s : List Char} : Ws s s
  | cons {c : Char} {s r : List Char} (hc : isWs c = true) (h : Ws s r) : Ws (c :: s) r

/-! ## Strings -/

/-- Where a scan of a string stands. -/
inductive Lex where
  | plain
  /-- After a backslash. -/
  | escape
  /-- In the digits of an escaped code unit, with so many to come after the next one. -/
  | hex (left : Nat)
  deriving DecidableEq

def isHex (c : Char) : Bool := "0123456789abcdefABCDEF".toList.contains c

/-- One character of a string: quotes, backslashes and control characters are escaped. -/
def Lex.step : Lex → Char → Option Lex
  | plain, c =>
    if c = '\\' then some escape else if c = '"' ∨ c.toNat < 0x20 then none else some plain
  | escape, c =>
    if c = 'u' then some (hex 3) else if "\"\\/bfnrt".toList.contains c then some plain else none
  | hex left, c =>
    if isHex c then some (match left with | 0 => plain | n + 1 => hex n) else none

def scan : Lex → List Char → Option Lex
  | q, [] => some q
  | q, c :: s => (q.step c).bind fun q => scan q s

/-- What may stand between the quotes of a string. -/
def StringBody (s : List Char) : Prop := scan .plain s = some .plain

instance (s : List Char) : Decidable (StringBody s) := inferInstanceAs (Decidable (_ = _))

theorem scan_append (q : Lex) (s t : List Char) :
    scan q (s ++ t) = (scan q s).bind fun q => scan q t := by
  induction s generalizing q with
  | nil => rfl
  | cons c s ih =>
    simp only [List.cons_append, scan, ih, Option.bind_assoc]

/-- In front of what follows, a body changes nothing. -/
theorem StringBody.append_iff {s t : List Char} (h : StringBody s) :
    StringBody (s ++ t) ↔ StringBody t := by
  rw [StringBody, scan_append, h, Option.bind_some, StringBody]

/-! ## Numbers -/

def Digits (s : List Char) : Prop := s ≠ [] ∧ ∀ c ∈ s, c.isDigit = true

/-- A sign, an integer without leading zeros, a fraction and an exponent. -/
def Number (s : List Char) : Prop :=
  ∃ sign int frac exp, s = sign ++ int ++ frac ++ exp ∧
    (sign = [] ∨ sign = ['-']) ∧
    (int = ['0'] ∨ Digits int ∧ int.head? ≠ some '0') ∧
    (frac = [] ∨ ∃ digits, frac = '.' :: digits ∧ Digits digits) ∧
    (exp = [] ∨ ∃ e sign digits, exp = e :: sign ++ digits ∧ (e = 'e' ∨ e = 'E') ∧
      (sign = [] ∨ sign = ['+'] ∨ sign = ['-']) ∧ Digits digits)

/-! ## Values -/

mutual

/-- A value off the front of a text, and the rest. -/
inductive Value : List Char → Tree → List Char → Prop where
  | null {r : List Char} : Value ('n' :: 'u' :: 'l' :: 'l' :: r) .null r
  | true {r : List Char} : Value ('t' :: 'r' :: 'u' :: 'e' :: r) (.bool true) r
  | false {r : List Char} : Value ('f' :: 'a' :: 'l' :: 's' :: 'e' :: r) (.bool false) r
  | number {s n r : List Char} (h : Number n) (e : s = n ++ r) : Value s (.number n) r
  | str {s body r : List Char} (h : StringBody body) (e : s = body ++ '"' :: r) :
      Value ('"' :: s) (.str body) r
  | arrNil {s r : List Char} (h : Ws s (']' :: r)) : Value ('[' :: s) (.arr []) r
  | arr {s r : List Char} {items : List Tree} (h : Items s items r) : Value ('[' :: s) (.arr items) r
  | objNil {s r : List Char} (h : Ws s ('}' :: r)) : Value ('{' :: s) (.obj []) r
  | obj {s r : List Char} {members : List (List Char × Tree)} (h : Members s members r) :
      Value ('{' :: s) (.obj members) r

/-- The items of an array, up to its closing bracket. -/
inductive Items : List Char → List Tree → List Char → Prop where
  | last {s s₁ s₂ r : List Char} {v : Tree} (w : Ws s s₁) (h : Value s₁ v s₂)
      (w' : Ws s₂ (']' :: r)) : Items s [v] r
  | cons {s s₁ s₂ s₃ r : List Char} {v : Tree} {items : List Tree} (w : Ws s s₁) (h : Value s₁ v s₂)
      (w' : Ws s₂ (',' :: s₃)) (t : Items s₃ items r) : Items s (v :: items) r

/-- The members of an object, up to its closing brace. -/
inductive Members : List Char → List (List Char × Tree) → List Char → Prop where
  | last {s s₁ s₂ s₃ s₄ s₅ r key : List Char} {v : Tree} (w : Ws s ('"' :: s₁)) (k : StringBody key)
      (e : s₁ = key ++ '"' :: s₂) (w₁ : Ws s₂ (':' :: s₃)) (w₂ : Ws s₃ s₄) (h : Value s₄ v s₅)
      (w' : Ws s₅ ('}' :: r)) : Members s [(key, v)] r
  | cons {s s₁ s₂ s₃ s₄ s₅ s₆ r key : List Char} {v : Tree} {members : List (List Char × Tree)}
      (w : Ws s ('"' :: s₁)) (k : StringBody key) (e : s₁ = key ++ '"' :: s₂)
      (w₁ : Ws s₂ (':' :: s₃)) (w₂ : Ws s₃ s₄) (h : Value s₄ v s₅) (w' : Ws s₅ (',' :: s₆))
      (t : Members s₆ members r) : Members s ((key, v) :: members) r

end

/-- One complete document. -/
def Document (s : List Char) (v : Tree) : Prop :=
  ∃ s₁ s₂, Ws s s₁ ∧ Value s₁ v s₂ ∧ Ws s₂ []

/-! ## Reading from the left -/

theorem ws_iff {c : Char} {s r : List Char} (hc : isWs c = false) : Ws (c :: s) r ↔ r = c :: s := by
  refine ⟨fun h => ?_, fun h => h ▸ .nil⟩
  cases h with
  | nil => rfl
  | cons hw => rw [hc] at hw; cases hw

theorem document_iff {c : Char} {s : List Char} {v : Tree} (hc : isWs c = false) :
    Document (c :: s) v ↔ ∃ r, Value (c :: s) v r ∧ Ws r [] := by
  refine ⟨?_, fun ⟨r, h, w⟩ => ⟨_, r, .nil, h, w⟩⟩
  rintro ⟨s₁, r, w, h, w'⟩
  rw [(ws_iff hc).mp w] at h
  exact ⟨r, h, w'⟩

/-- White space hides nothing else. -/
theorem Ws.mem {s r : List Char} (h : Ws s r) {c : Char} (hc : isWs c = false) (hm : c ∈ s) :
    c ∈ r := by
  induction h with
  | nil => exact hm
  | cons hw _ ih =>
    rcases List.mem_cons.mp hm with rfl | hm
    · rw [hc] at hw; cases hw
    · exact ih hm

@[simp] theorem value_true_iff {s r : List Char} :
    Value ('t' :: 'r' :: 'u' :: 'e' :: s) (.bool true) r ↔ r = s :=
  ⟨fun h => by cases h; rfl, fun h => h ▸ .true⟩

@[simp] theorem value_false_iff {s r : List Char} :
    Value ('f' :: 'a' :: 'l' :: 's' :: 'e' :: s) (.bool false) r ↔ r = s :=
  ⟨fun h => by cases h; rfl, fun h => h ▸ .false⟩

@[simp] theorem value_str_iff {s body r : List Char} :
    Value ('"' :: s) (.str body) r ↔ StringBody body ∧ s = body ++ '"' :: r :=
  ⟨fun h => by cases h with | str h e => exact ⟨h, e⟩, fun h => .str h.1 h.2⟩

@[simp] theorem value_obj_iff {s r : List Char} {m : List Char × Tree}
    {members : List (List Char × Tree)} :
    Value ('{' :: s) (.obj (m :: members)) r ↔ Members s (m :: members) r :=
  ⟨fun h => by cases h with | obj h => exact h, .obj⟩

/-- The last member, where its key and the character that begins its value are known. -/
theorem members_last_iff {key s r : List Char} {c : Char} {v : Tree} (hk : StringBody key)
    (hc : isWs c = false) :
    Members ('"' :: (key ++ '"' :: ':' :: c :: s)) [(key, v)] r ↔
      ∃ s', Value (c :: s) v s' ∧ Ws s' ('}' :: r) := by
  refine ⟨fun h => ?_, fun ⟨s', h, w'⟩ => .last .nil hk rfl .nil .nil h w'⟩
  cases h with
  | last w k e w₁ w₂ h w' =>
    cases (ws_iff (by decide)).mp w
    obtain ⟨-, rfl⟩ := List.cons.inj (List.append_cancel_left e)
    cases (ws_iff (by decide)).mp w₁
    cases (ws_iff hc).mp w₂
    exact ⟨_, h, w'⟩
  | cons w k e w₁ w₂ h w' t => cases t

/-- A member that another one follows. -/
theorem members_cons_iff {key s r : List Char} {c : Char} {v : Tree} {m : List Char × Tree}
    {members : List (List Char × Tree)} (hk : StringBody key) (hc : isWs c = false) :
    Members ('"' :: (key ++ '"' :: ':' :: c :: s)) ((key, v) :: m :: members) r ↔
      ∃ s' t, Value (c :: s) v s' ∧ Ws s' (',' :: t) ∧ Members t (m :: members) r := by
  refine ⟨fun h => ?_, fun ⟨s', t, h, w', ht⟩ => .cons .nil hk rfl .nil .nil h w' ht⟩
  cases h with
  | cons w k e w₁ w₂ h w' t =>
    cases (ws_iff (by decide)).mp w
    obtain ⟨-, rfl⟩ := List.cons.inj (List.append_cancel_left e)
    cases (ws_iff (by decide)).mp w₁
    cases (ws_iff hc).mp w₂
    exact ⟨_, _, h, w', t⟩

/-! ## A hole in a string -/

/-- The last of a character splits a list in one way. -/
theorem append_cons_last {α : Type} {q : α} {xs ys r r' : List α} (hr : q ∉ r) (hr' : q ∉ r')
    (h : xs ++ q :: r = ys ++ q :: r') : xs = ys := by
  rcases List.append_eq_append_iff.mp h with ⟨as, hy, ha⟩ | ⟨as, hx, ha⟩
  · cases as with
    | nil => rw [hy, List.append_nil]
    | cons a as =>
      refine absurd ?_ hr
      rw [(List.cons.inj ha).2]
      exact List.mem_append_right _ List.mem_cons_self
  · cases as with
    | nil => rw [hx, List.append_nil]
    | cons a as =>
      refine absurd ?_ hr'
      rw [(List.cons.inj ha).2]
      exact List.mem_append_right _ List.mem_cons_self

/-- A text that ends in the last quote of a string is that of one string where what stands before
the quote may stand in it. -/
theorem exists_body_iff {s r : List Char} {P : List Char → Prop} (hq : '"' ∉ r) (hr : P r)
    (h : ∀ r', P r' → '"' ∉ r') :
    (∃ body r', (StringBody body ∧ s ++ '"' :: r = body ++ '"' :: r') ∧ P r') ↔ StringBody s := by
  constructor
  · rintro ⟨body, r', ⟨hb, he⟩, hr'⟩
    rw [append_cons_last hq (h r' hr') he]
    exact hb
  · exact fun hs => ⟨s, r, ⟨hs, rfl⟩, hr⟩

end JsonText

import Mathlib.Algebra.Group.Nat.Defs
import Mathlib.Tactic.Common

/-!
# Dynamic arguments of contracts

How the contract ABI writes values whose size varies (`Abi.Dynamic`): behind a
word with their offset, so that they are read by following it. The reader does
not rely on the order in which the values lie. Byte strings (`Abi.bytes`) and
arrays (`Abi.array`) are read as they were written whatever follows them, and
so is a call's only argument (`Abi.Dynamic.readArgument_argument`).
-/

namespace Abi

variable {α : Type}

/-- Words of 32 bytes. -/
structure Words where
  encode : Nat → List UInt8
  decode : List UInt8 → Nat
  length_encode : ∀ v, (encode v).length = 32
  decode_encode : ∀ v, v < 2 ^ 256 → decode (encode v) = v

/-- What follows the first of two parts at the front. -/
theorem drop_of_starts {a b data : List UInt8} {n : Nat} (h : a ++ b <+: data) (hn : a.length = n) :
    b <+: data.drop n := by
  obtain ⟨rest, rfl⟩ := h
  refine ⟨rest, ?_⟩
  rw [List.append_assoc, ← hn, List.drop_left]

/-- The word at the front. -/
def Words.read (W : Words) (data : List UInt8) : Option Nat :=
  if 32 ≤ data.length then some (W.decode (data.take 32)) else none

theorem Words.read_encode (W : Words) {v : Nat} {data : List UInt8} (hv : v < 2 ^ 256)
    (h : W.encode v <+: data) : W.read data = some v := by
  obtain ⟨rest, rfl⟩ := h
  have hlen : 32 ≤ (W.encode v ++ rest).length := by
    rw [List.length_append, W.length_encode]
    omega
  have htake : (W.encode v ++ rest).take 32 = W.encode v := by
    rw [← W.length_encode v, List.take_left]
  rw [read, if_pos hlen, htake, W.decode_encode v hv]

/-- A type whose values vary in size. -/
structure Dynamic (α : Type) where
  /-- The values that can be written. -/
  Valid : α → Prop
  encode : α → List UInt8
  /-- The value at the front. -/
  decode : List UInt8 → Option α
  decode_encode : ∀ {a : α} {data : List UInt8}, Valid a → encode a <+: data → decode data = some a

/-- Byte strings: their length, and their contents up to a whole number of words. -/
def bytes (W : Words) : Dynamic (List UInt8) where
  Valid bs := bs.length < 2 ^ 256
  encode bs := W.encode bs.length ++ (bs ++ List.replicate ((32 - bs.length % 32) % 32) 0)
  decode data := do
    let n ← W.read data
    if n ≤ (data.drop 32).length then some ((data.drop 32).take n) else none
  decode_encode {bs data} hv h := by
    have hread : W.read data = some bs.length :=
      W.read_encode hv ((List.prefix_append _ _).trans h)
    obtain ⟨rest, hrest⟩ := drop_of_starts h (W.length_encode _)
    have hdrop : data.drop 32 = bs ++ (List.replicate ((32 - bs.length % 32) % 32) 0 ++ rest) := by
      rw [← hrest, List.append_assoc]
    have hle : bs.length ≤ (data.drop 32).length := by
      rw [hdrop, List.length_append]
      omega
    simp only [hread, Option.bind_eq_bind, Option.bind_some]
    rw [if_pos hle, hdrop, List.take_left]

namespace Dynamic

variable (W : Words) (T : Dynamic α)

/-- The offsets of values that lie one after the other from `start` on. -/
def heads : Nat → List α → List UInt8
  | _, [] => []
  | start, a :: as => W.encode start ++ heads (start + (T.encode a).length) as

/-- Values behind their offsets, which count from the first offset. -/
def encodeMany (as : List α) : List UInt8 := T.heads W (32 * as.length) as ++ as.flatMap T.encode

/-- As many values as asked for, by following the offsets from a position on. -/
def readMany (data : List UInt8) : Nat → Nat → Option (List α)
  | 0, _ => some []
  | n + 1, pos => do
    let start ← W.read (data.drop pos)
    let a ← T.decode (data.drop start)
    let as ← readMany data n (pos + 32)
    some (a :: as)

theorem length_heads (as : List α) : ∀ start, (T.heads W start as).length = 32 * as.length := by
  induction as with
  | nil => exact fun _ => rfl
  | cons a as ih =>
    intro start
    rw [heads, List.length_append, W.length_encode, ih, List.length_cons]
    omega

theorem readMany_heads {data : List UInt8} {as : List α} (hv : ∀ a ∈ as, T.Valid a) :
    ∀ {start pos : Nat}, start + (as.flatMap T.encode).length < 2 ^ 256 →
      T.heads W start as <+: data.drop pos → as.flatMap T.encode <+: data.drop start →
      T.readMany W data as.length pos = some as := by
  induction as with
  | nil => exact fun _ _ _ => rfl
  | cons a as ih =>
    intro start pos hlt hheads htails
    rw [List.flatMap_cons] at hlt htails
    rw [List.length_append] at hlt
    have hstart : W.read (data.drop pos) = some start :=
      W.read_encode (by omega) ((List.prefix_append _ _).trans hheads)
    have ha : T.decode (data.drop start) = some a :=
      T.decode_encode (hv a List.mem_cons_self) ((List.prefix_append _ _).trans htails)
    have hheads' := drop_of_starts hheads (W.length_encode start)
    have htails' := drop_of_starts htails rfl
    rw [List.drop_drop] at hheads' htails'
    have has := ih (fun b hb => hv b (List.mem_cons_of_mem _ hb)) (by omega) hheads' htails'
    simp [readMany, hstart, ha, has]

theorem readMany_encodeMany {data : List UInt8} {as : List α} (hv : ∀ a ∈ as, T.Valid a)
    (hlt : (T.encodeMany W as).length < 2 ^ 256) (h : T.encodeMany W as <+: data) :
    T.readMany W data as.length 0 = some as := by
  rw [encodeMany, List.length_append, length_heads] at hlt
  have hheads : T.heads W (32 * as.length) as <+: data.drop 0 := (List.prefix_append _ _).trans h
  exact T.readMany_heads W hv hlt hheads (drop_of_starts h (T.length_heads W as _))

/-- The data of a call with a value for its only argument. -/
def argument (a : α) : List UInt8 := T.encodeMany W [a]

theorem length_argument (a : α) : (T.argument W a).length = 32 + (T.encode a).length := by
  simp [argument, encodeMany, length_heads]

def readArgument (data : List UInt8) : Option α := (T.readMany W data 1 0).bind List.head?

/-- The other side reads the argument that was written, whatever follows it. -/
theorem readArgument_argument {data : List UInt8} {a : α} (hv : T.Valid a)
    (hlt : (T.argument W a).length < 2 ^ 256) (h : T.argument W a <+: data) :
    T.readArgument W data = some a := by
  have hall : ∀ b ∈ [a], T.Valid b := by
    intro b hb
    rwa [List.mem_singleton.mp hb]
  have hread := T.readMany_encodeMany W hall hlt h
  rw [readArgument, show T.readMany W data 1 0 = some [a] from hread]
  rfl

end Dynamic

/-- Arrays: their length, and their elements behind offsets. -/
def array (W : Words) (T : Dynamic α) : Dynamic (List α) where
  Valid as := (∀ a ∈ as, T.Valid a) ∧ (T.encodeMany W as).length < 2 ^ 256
  encode as := W.encode as.length ++ T.encodeMany W as
  decode data := do
    let n ← W.read data
    T.readMany W (data.drop 32) n 0
  decode_encode {as data} hv h := by
    have hlen : as.length < 2 ^ 256 := by
      have hlt := hv.2
      rw [Dynamic.encodeMany, List.length_append, Dynamic.length_heads] at hlt
      omega
    have hread : W.read data = some as.length :=
      W.read_encode hlen ((List.prefix_append _ _).trans h)
    have hmany := T.readMany_encodeMany W hv.1 hv.2 (drop_of_starts h (W.length_encode _))
    simp only [hread, Option.bind_eq_bind, Option.bind_some]
    exact hmany

end Abi

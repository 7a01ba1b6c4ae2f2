import MessageRelayer.Basic

/-!
# JSON values as they are deserialized

What is sent over the observer's socket. The text of a frame is taken as the
value that parsing it yields, and a value is read as `serde` derives it: a
structure from an object, each field by its name and at most once, or from an
array, in the order of the fields (`Json.fields`).
-/

namespace MessageRelayer

inductive Json where
  | null
  | bool (b : Bool)
  /-- A number that is a `u64`. -/
  | num (n : UInt64)
  /-- Any other number. -/
  | number (text : String)
  | str (s : String)
  | arr (items : List Json)
  | obj (members : List (String × Json))

namespace Json

/-- A `u64` is printed as a number. -/
def ofU64 (n : Nat) : Json := .num (UInt64.ofNat n)

def asU64 : Json → Option Nat
  | num n => some n.toNat
  | null | bool _ | number _ | str _ | arr _ | obj _ => none

def asStr : Json → Option String
  | str s => some s
  | null | bool _ | num _ | number _ | arr _ | obj _ => none

/-- `Vec<T>`. -/
def asVec {α : Type} (item : Json → Option α) : Json → Option (List α)
  | arr items => items.mapM item
  | null | bool _ | num _ | number _ | str _ | obj _ => none

/-- The member of a name, which may be missing; a second one is an error. -/
def member (members : List (String × Json)) (name : String) : Option (Option Json) :=
  match members.filter fun m => decide (m.1 = name) with
  | [] => some none
  | [m] => some (some m.2)
  | _ :: _ :: _ => none

/-- The fields of a structure; `strict` is `deny_unknown_fields`. -/
def fields (strict : Bool) (names : List String) : Json → Option (List (Option Json))
  | obj members =>
    if strict && !members.all (fun m => names.contains m.1) then none
    else names.mapM (member members)
  | arr items =>
    if names.length < items.length then none
    else some (items.map some ++ List.replicate (names.length - items.length) none)
  | null | bool _ | num _ | number _ | str _ => none

/-- The tag of an internally tagged value, and the rest of the value. -/
def tagged (tag : String) : Json → Option (String × Json)
  | obj members =>
    match members.filter fun m => decide (m.1 = tag) with
    | [(_, str kind)] => some (kind, obj (members.filter fun m => decide (m.1 ≠ tag)))
    | _ => none
  | arr (str kind :: items) => some (kind, arr items)
  | arr _ | null | bool _ | num _ | number _ | str _ => none

@[simp] theorem asU64_ofU64 {n : Nat} (h : n ≤ u64Max) : (ofU64 n).asU64 = some n := by
  have hlt : n < 2 ^ 64 := Nat.lt_of_le_of_lt h (by decide)
  exact congrArg some (UInt64.toNat_ofNat_of_lt' hlt)

theorem asStr_str (s : String) : (str s).asStr = some s := rfl

/-- What is printed item by item is read item by item. -/
theorem asVec_map {α : Type} {print : α → Json} {item : Json → Option α} {as : List α}
    (h : ∀ a ∈ as, item (print a) = some a) : (arr (as.map print)).asVec item = some as := by
  show (as.map print).mapM item = some as
  induction as with
  | nil => rfl
  | cons a as ih =>
    rw [List.map_cons, List.mapM_cons, h a List.mem_cons_self,
      ih fun b hb => h b (List.mem_cons_of_mem _ hb)]
    rfl

end Json

end MessageRelayer

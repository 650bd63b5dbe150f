import Mathlib.Data.Rat.Defs

/-!
# JSON values and RFC-3339 texts

The two wire vocabularies every module of the server shares: `serde_json::Value`
and the RFC-3339 texts instants are stored as.

An instant (`chrono::DateTime<Utc>`) is an `Int`, in nanoseconds since the Unix
epoch; chrono's ±262,000-year range is not modelled.

An object keeps its members as a list. `serde_json`'s map is ordered by key, so a
value built by `json!` has one member list; nothing modelled here reads the order.
-/

namespace CirisServer

/-- A `serde_json::Number`: an integer, or a finite `f64` (JSON has no others). -/
inductive JsonNumber where
  | int (n : Int)
  | float (x : ℚ)
deriving DecidableEq

/-- A `serde_json::Value`. -/
inductive Json where
  | null
  | bool (b : Bool)
  | num (n : JsonNumber)
  | str (s : String)
  | arr (items : List Json)
  | obj (members : List (String × Json))

namespace Json

mutual

/-- Equality of JSON values is decidable (the type is nested, so nothing derives it). -/
def decEq : (a b : Json) → Decidable (a = b)
  | null, null => isTrue rfl
  | bool a, bool b => decidable_of_iff (a = b) (by simp)
  | num a, num b => decidable_of_iff (a = b) (by simp)
  | str a, str b => decidable_of_iff (a = b) (by simp)
  | arr as, arr bs =>
    have := decEqList as bs
    decidable_of_iff (as = bs) (by simp)
  | obj as, obj bs =>
    have := decEqMembers as bs
    decidable_of_iff (as = bs) (by simp)
  | null, bool _ | null, num _ | null, str _ | null, arr _ | null, obj _
  | bool _, null | bool _, num _ | bool _, str _ | bool _, arr _ | bool _, obj _
  | num _, null | num _, bool _ | num _, str _ | num _, arr _ | num _, obj _
  | str _, null | str _, bool _ | str _, num _ | str _, arr _ | str _, obj _
  | arr _, null | arr _, bool _ | arr _, num _ | arr _, str _ | arr _, obj _
  | obj _, null | obj _, bool _ | obj _, num _ | obj _, str _ | obj _, arr _ =>
    isFalse (by simp)

/-- Decidable equality of arrays, item by item. -/
def decEqList : (as bs : List Json) → Decidable (as = bs)
  | [], [] => isTrue rfl
  | a :: as, b :: bs =>
    have := decEq a b
    have := decEqList as bs
    decidable_of_iff (a = b ∧ as = bs) (by simp)
  | [], _ :: _ | _ :: _, [] => isFalse (by simp)

/-- Decidable equality of objects, member by member. -/
def decEqMembers : (as bs : List (String × Json)) → Decidable (as = bs)
  | [], [] => isTrue rfl
  | (k, a) :: as, (l, b) :: bs =>
    have := decEq a b
    have := decEqMembers as bs
    decidable_of_iff (k = l ∧ a = b ∧ as = bs) (by simp [and_assoc])
  | [], _ :: _ | _ :: _, [] => isFalse (by simp)

end

instance : DecidableEq Json := decEq

/-- The object whose members are all strings, as the `json!` literals of the
    accord modules build it. -/
def ofStrings (members : List (String × String)) : Json :=
  .obj (members.map fun m => (m.1, .str m.2))

/-- `Value::get` with a member's name. -/
def get? (j : Json) (name : String) : Option Json :=
  match j with
  | .obj members => members.lookup name
  | _ => none

/-- `Value::as_str`. -/
def asStr : Json → Option String
  | .str s => some s
  | _ => none

/-- `Value::as_bool`. -/
def asBool : Json → Option Bool
  | .bool b => some b
  | _ => none

/-- `Value::as_u64`. -/
def asU64 : Json → Option Nat
  | .num (.int n) => if 0 ≤ n then some n.toNat else none
  | _ => none

end Json

/-- Nanoseconds in a second. -/
def nanosPerSec : Int := 1000000000

/-- `DateTime::<Utc>::MIN_UTC`, midnight on the first day of the year −262143. -/
def minUtc : Int := -8334601228800 * nanosPerSec

/-- A text that is meant to be an RFC-3339 instant: the instant chrono reads out
    of it, or the text itself where chrono reads none. -/
inductive Rfc3339 where
  | instant (t : Int)
  | unparseable (text : String)
deriving DecidableEq

namespace Rfc3339

/-- `chrono::DateTime::parse_from_rfc3339`, converted to UTC. -/
def parse : Rfc3339 → Option Int
  | .instant t => some t
  | .unparseable _ => none

/-- `DateTime::to_rfc3339`: chrono reads its own rendering back unchanged. -/
def ofInstant (t : Int) : Rfc3339 := .instant t

@[simp] theorem parse_ofInstant (t : Int) : (ofInstant t).parse = some t := rfl

end Rfc3339

end CirisServer

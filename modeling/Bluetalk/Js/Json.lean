import Mathlib.Data.List.Basic

/-!
# JSON values

The values the clients keep in their stores and send to each other, with the conversions of the
language the code relies on. A number is an integer; the fields of an object stand in the order of
their insertion, so that `valueEqual`, which compares serialized values, is equality.
-/

namespace Bluetalk

inductive Json
  | null
  | bool (b : Bool)
  | num (n : Int)
  | str (s : String)
  | arr (items : List Json)
  | obj (fields : List (String × Json))

namespace Json

mutual
def decEq : (a b : Json) → Decidable (a = b)
  | .null, b => match b with
    | .null => isTrue rfl
    | .bool _ | .num _ | .str _ | .arr _ | .obj _ => isFalse nofun
  | .bool x, b => match b with
    | .bool y => decidable_of_iff (x = y) (by simp)
    | .null | .num _ | .str _ | .arr _ | .obj _ => isFalse nofun
  | .num x, b => match b with
    | .num y => decidable_of_iff (x = y) (by simp)
    | .null | .bool _ | .str _ | .arr _ | .obj _ => isFalse nofun
  | .str x, b => match b with
    | .str y => decidable_of_iff (x = y) (by simp)
    | .null | .bool _ | .num _ | .arr _ | .obj _ => isFalse nofun
  | .arr xs, b => match b with
    | .arr ys => match decEqList xs ys with
      | isTrue h => isTrue (h ▸ rfl)
      | isFalse h => isFalse fun e => h (arr.inj e)
    | .null | .bool _ | .num _ | .str _ | .obj _ => isFalse nofun
  | .obj xs, b => match b with
    | .obj ys => match decEqFields xs ys with
      | isTrue h => isTrue (h ▸ rfl)
      | isFalse h => isFalse fun e => h (obj.inj e)
    | .null | .bool _ | .num _ | .str _ | .arr _ => isFalse nofun

def decEqList : (a b : List Json) → Decidable (a = b)
  | [], [] => isTrue rfl
  | [], _ :: _ | _ :: _, [] => isFalse nofun
  | x :: xs, y :: ys => match decEq x y, decEqList xs ys with
    | isTrue h, isTrue h' => isTrue (h ▸ h' ▸ rfl)
    | isFalse h, _ => isFalse fun e => h (List.cons.inj e).1
    | _, isFalse h => isFalse fun e => h (List.cons.inj e).2

def decEqFields : (a b : List (String × Json)) → Decidable (a = b)
  | [], [] => isTrue rfl
  | [], _ :: _ | _ :: _, [] => isFalse nofun
  | (k, x) :: xs, (l, y) :: ys => match decEq x y, decEqFields xs ys with
    | isTrue h, isTrue h' =>
      if e : k = l then isTrue (h ▸ h' ▸ e ▸ rfl)
      else isFalse fun e' => e (Prod.mk.inj (List.cons.inj e').1).1
    | isFalse h, _ => isFalse fun e => h (Prod.mk.inj (List.cons.inj e).1).2
    | _, isFalse h => isFalse fun e => h (List.cons.inj e).2
end

instance : DecidableEq Json := decEq

/-- `Boolean(x)` -/
def truthy : Json → Bool
  | .null => false
  | .bool b => b
  | .num n => n ≠ 0
  | .str s => s ≠ ""
  | .arr _ | .obj _ => true

/-- `Number(x) || 0`, for integers and their decimal texts. -/
def toNumber : Json → Int
  | .bool true => 1
  | .num n => n
  | .str s => s.toInt?.getD 0
  | _ => 0

mutual
/-- `String(x)` -/
def toText : Json → String
  | .null => "null"
  | .bool b => if b then "true" else "false"
  | .num n => toString n
  | .str s => s
  | .arr items => ",".intercalate (toTexts items)
  | .obj _ => "[object Object]"

/-- The texts of the elements of an array: `null` joins as the empty text. -/
def toTexts : List Json → List String
  | [] => []
  | .null :: items => "" :: toTexts items
  | x :: items => toText x :: toTexts items
end

/-- `String(x || '')` -/
def textOrEmpty (x : Json) : String := if x.truthy then x.toText else ""

/-- `typeof x === 'object'` of a value that is not `null`. -/
def isObject : Json → Bool
  | .arr _ | .obj _ => true
  | _ => false

/-- `x.field`, `null` when the field is missing. -/
def get (x : Json) (field : String) : Json :=
  match x with
  | .obj fields => (fields.lookup field).getD .null
  | _ => .null

end Json
end Bluetalk

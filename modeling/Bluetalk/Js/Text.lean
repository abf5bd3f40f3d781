import Bluetalk.Js.Json
import Mathlib.Algebra.GroupWithZero.Nat
import Mathlib.Data.List.DropRight

/-!
# Texts

Trimming and lengths as the two languages of the clients have them, and the serialization whose
length the size limits are about.
-/

open List

namespace Bluetalk

/-- White space common to `String.prototype.trim` and `str::trim`. -/
def isSpace (c : Char) : Bool :=
  (0x09 ≤ c.val && c.val ≤ 0x0D) || c.val == 0x20 || c.val == 0xA0 || c.val == 0x1680 ||
    (0x2000 ≤ c.val && c.val ≤ 0x200A) || c.val == 0x2028 || c.val == 0x2029 || c.val == 0x202F ||
    c.val == 0x205F || c.val == 0x3000

def isJsSpace (c : Char) : Bool := isSpace c || c.val == 0xFEFF

def isRustSpace (c : Char) : Bool := isSpace c || c.val == 0x85

def trimBy (p : Char → Bool) (s : String) : String :=
  String.ofList (((s.toList.dropWhile p).reverse.dropWhile p).reverse)

/-- `s.trim()` -/
def jsTrim (s : String) : String := trimBy isJsSpace s

variable {p : Char → Bool} {s : String}

theorem trimBy_of_all (h : ∀ c ∈ s.toList, p c = false) :
    trimBy p s = s := by
  have hdrop : ∀ l : List Char, (∀ c ∈ l, p c = false) → l.dropWhile p = l := by
    intro l hl
    cases l with
    | nil => rfl
    | cons c l => rw [dropWhile_cons_of_neg (by simp [hl c mem_cons_self])]
  rw [trimBy, hdrop _ h, hdrop _ (fun c hc => h c (mem_reverse.mp hc)), reverse_reverse,
    String.ofList_toList]

theorem trimBy_trimBy : trimBy p (trimBy p s) = trimBy p s := by
  have htrim : ∀ s, trimBy p s = String.ofList ((s.toList.dropWhile p).rdropWhile p) :=
    fun _ => rfl
  have hfront : ∀ l : List Char, ((l.dropWhile p).rdropWhile p).dropWhile p =
      (l.dropWhile p).rdropWhile p := by
    intro l
    rw [dropWhile_eq_self_iff]
    intro hpos
    have hpre := rdropWhile_prefix p (l := l.dropWhile p)
    rw [hpre.getElem hpos]
    exact (dropWhile_eq_self_iff.mp (dropWhile_idempotent p l)) _
  rw [htrim, htrim, String.toList_ofList, hfront, rdropWhile_idempotent]

/-- `s.length` -/
def utf16Length (s : String) : Nat :=
  (s.toList.map fun c => if 0x10000 ≤ c.val then 2 else 1).sum

theorem utf16Length_le (s : String) : utf16Length s ≤ s.utf8ByteSize := by
  have hchar : ∀ c : Char, (if 0x10000 ≤ c.val then 2 else 1) ≤ c.utf8Size := by
    intro c
    split
    · next hwide =>
      have hone : c.utf8Size ≠ 1 := fun hone => by
        have hsmall := Char.utf8Size_eq_one_iff.mp hone
        exact absurd (UInt32.le_trans hwide hsmall) (by decide)
      have hpos := c.utf8Size_pos
      omega
    · exact c.utf8Size_pos
  have hchars : ∀ chars : List Char, utf16Length (String.ofList chars) ≤
      (String.ofList chars).utf8ByteSize := by
    intro chars
    induction chars with
    | nil => exact le_refl _
    | cons c chars ih =>
      rw [utf16Length, String.toList_ofList] at *
      rw [String.ofList_cons, String.utf8ByteSize_append, String.utf8ByteSize_singleton,
        map_cons, sum_cons]
      exact Nat.add_le_add (hchar c) ih
  have hs := hchars s.toList
  rwa [String.ofList_toList] at hs

def hexDigit (n : Nat) : Char := Char.ofNat (if n < 10 then 48 + n else 87 + n)

/-- A character inside a serialized text. -/
def escapeChar (c : Char) : List Char :=
  match c with
  | '"' => ['\\', '"']
  | '\\' => ['\\', '\\']
  | '\n' => ['\\', 'n']
  | '\r' => ['\\', 'r']
  | '\t' => ['\\', 't']
  | '\x08' => ['\\', 'b']
  | '\x0c' => ['\\', 'f']
  | c =>
    if c.val < 0x20 then ['\\', 'u', '0', '0', hexDigit (c.toNat / 16), hexDigit (c.toNat % 16)]
    else [c]

def quoted (s : String) : String := "\"" ++ String.ofList (s.toList.flatMap escapeChar) ++ "\""

mutual
/-- `JSON.stringify(x)` -/
def Json.stringify : Json → String
  | .null => "null"
  | .bool b => if b then "true" else "false"
  | .num n => toString n
  | .str s => quoted s
  | .arr items => "[" ++ ",".intercalate (stringifyItems items) ++ "]"
  | .obj fields => "\x7b" ++ ",".intercalate (stringifyFields fields) ++ "\x7d"

def Json.stringifyItems : List Json → List String
  | [] => []
  | x :: items => x.stringify :: stringifyItems items

def Json.stringifyFields : List (String × Json) → List String
  | [] => []
  | (k, x) :: fields => (quoted k ++ ":" ++ x.stringify) :: stringifyFields fields
end

/-- `jsonBytes(x)` -/
def jsonBytes (x : Json) : Nat := x.stringify.utf8ByteSize

end Bluetalk

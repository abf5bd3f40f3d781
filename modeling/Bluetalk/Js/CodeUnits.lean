import Mathlib.Data.String.Basic
import Bluetalk.Js.Text

/-!
# Code units

The texts of JavaScript are sequences of UTF-16 code units: a character beyond `U+FFFF` stands as
two. The order of two texts is that of their units.
-/

open List

namespace Bluetalk

/-- The code units of a character. -/
def utf16Units (c : Char) : List Nat :=
  if c.toNat < 0x10000 then [c.toNat]
  else [0xD800 + (c.toNat - 0x10000) / 0x400, 0xDC00 + (c.toNat - 0x10000) % 0x400]

def toUtf16 (s : String) : List Nat := s.toList.flatMap utf16Units

/-- `a < b` -/
def jsLt (a b : String) : Bool := toUtf16 a < toUtf16 b

theorem toNat_bounds (c : Char) : c.toNat < 0xD800 ∨ 0xDFFF < c.toNat ∧ c.toNat < 0x110000 := c.valid

theorem utf16Units_append_inj {c d : Char} {as bs : List Nat}
    (h : utf16Units c ++ as = utf16Units d ++ bs) : c = d ∧ as = bs := by
  have hc := toNat_bounds c
  have hd := toNat_bounds d
  have hinj : c.toNat = d.toNat → c = d := fun h => Char.toNat_inj.mp h
  rw [utf16Units, utf16Units] at h
  split at h <;> split at h <;>
    simp only [cons_append, nil_append, List.cons.injEq] at h
  · exact ⟨hinj h.1, h.2⟩
  · omega
  · omega
  · exact ⟨hinj (by omega), h.2.2⟩

theorem utf16Units_ne_nil {c : Char} : utf16Units c ≠ [] := by
  rw [utf16Units]
  split <;> exact cons_ne_nil _ _

theorem flatMap_utf16Units_inj {l m : List Char} (h : l.flatMap utf16Units = m.flatMap utf16Units) :
    l = m := by
  induction l generalizing m with
  | nil =>
    cases m with
    | nil => rfl
    | cons d m => exact absurd (append_eq_nil_iff.mp h.symm).1 utf16Units_ne_nil
  | cons c l ih =>
    cases m with
    | nil => exact absurd (append_eq_nil_iff.mp h).1 utf16Units_ne_nil
    | cons d m =>
      obtain ⟨rfl, hrest⟩ := utf16Units_append_inj h
      rw [ih hrest]

variable {a b : String}

theorem jsLt_irrefl : jsLt a a = false := by
  rw [jsLt, decide_eq_false_iff_not]
  exact lt_irrefl _

theorem jsLt_asymm (h : jsLt a b) : jsLt b a = false := by
  rw [jsLt, decide_eq_true_eq] at h
  rw [jsLt, decide_eq_false_iff_not]
  exact h.not_gt

theorem jsLt_of_not (h : a ≠ b) (hlt : jsLt a b = false) : jsLt b a := by
  rw [jsLt, decide_eq_false_iff_not, not_lt] at hlt
  exact decide_eq_true (lt_of_le_of_ne hlt fun heq => h
    (String.toList_inj.mp (flatMap_utf16Units_inj heq)).symm)

end Bluetalk

/-!
## Texts that are cut anywhere

A text of JavaScript is any sequence of code units. Its code points are the characters that it
spells and the surrogates that stand alone; it is well formed if there are none of these.
-/

namespace Bluetalk

/-- A text of JavaScript, by its code units. -/
abbrev JsString := List UInt16

def isHighSurrogate (u : UInt16) : Bool := 0xD800 ≤ u.toNat && u.toNat ≤ 0xDBFF

def isLowSurrogate (u : UInt16) : Bool := 0xDC00 ≤ u.toNat && u.toNat ≤ 0xDFFF

inductive CodePoint
  | scalar (c : Char)
  | lone (u : UInt16)

namespace CodePoint

def units : CodePoint → JsString
  | scalar c => (utf16Units c).map UInt16.ofNat
  | lone u => [u]

def isScalar : CodePoint → Bool
  | scalar _ => true
  | lone _ => false

/-- What `TextEncoder` makes of a surrogate that stands alone is `U+FFFD`. -/
def replaced : CodePoint → Char
  | scalar c => c
  | lone _ => '\uFFFD'

end CodePoint

/-- The character that a pair of surrogates spells. -/
def pairChar (u v : UInt16) : Char :=
  Char.ofNat (0x10000 + (u.toNat - 0xD800) * 0x400 + (v.toNat - 0xDC00))

/-- The code point that a unit is by itself. -/
def singlePoint (u : UInt16) : CodePoint :=
  if isHighSurrogate u || isLowSurrogate u then .lone u else .scalar (Char.ofNat u.toNat)

namespace JsString

def codePoints : JsString → List CodePoint
  | [] => []
  | [u] => [singlePoint u]
  | u :: v :: rest =>
    if isHighSurrogate u && isLowSurrogate v then .scalar (pairChar u v) :: codePoints rest
    else singlePoint u :: codePoints (v :: rest)

def ofString (s : String) : JsString := s.toList.flatMap fun c => (CodePoint.scalar c).units

/-- No surrogate stands alone. -/
def isWellFormed (s : JsString) : Bool := s.codePoints.all CodePoint.isScalar

/-- The text as `TextEncoder` reads it. -/
def toText (s : JsString) : String := String.ofList (s.codePoints.map CodePoint.replaced)

/-- `new TextEncoder().encode(s)` -/
def encode (s : JsString) : List UInt8 := s.toText.toUTF8.data.toList

def isSpaceUnit (u : UInt16) : Bool := isJsSpace (Char.ofNat u.toNat)

/-- `s.trim()` -/
def trim (s : JsString) : JsString := (s.dropWhile isSpaceUnit).rdropWhile isSpaceUnit

end JsString

variable {s : JsString} {u v : UInt16} {c : Char}

theorem toNat_ofNat_of_valid {n : Nat} (h : n < 0xD800 ∨ 0xDFFF < n ∧ n < 0x110000) :
    (Char.ofNat n).toNat = n := by
  rw [Char.ofNat, dif_pos h]
  rfl

theorem not_surrogate (h : (isHighSurrogate u || isLowSurrogate u) = false) :
    u.toNat < 0xD800 ∨ 0xDFFF < u.toNat := by
  simp only [isHighSurrogate, isLowSurrogate, Bool.or_eq_false_iff, Bool.and_eq_false_iff,
    decide_eq_false_iff_not] at h
  omega

theorem units_singlePoint : (singlePoint u).units = [u] := by
  rw [singlePoint]
  split
  · rfl
  next h =>
  have hu := not_surrogate (Bool.not_eq_true _ ▸ h)
  have hlt : u.toNat < 0x10000 := u.toNat_lt
  have hchar : (Char.ofNat u.toNat).toNat = u.toNat := toNat_ofNat_of_valid (by omega)
  rw [CodePoint.units, utf16Units, hchar, if_pos hlt, map_singleton, UInt16.ofNat_toNat]

theorem toNat_pairChar (hu : isHighSurrogate u = true) (hv : isLowSurrogate v = true) :
    (pairChar u v).toNat = 0x10000 + (u.toNat - 0xD800) * 0x400 + (v.toNat - 0xDC00) := by
  simp only [isHighSurrogate, isLowSurrogate, Bool.and_eq_true, decide_eq_true_eq] at hu hv
  exact toNat_ofNat_of_valid (.inr (by omega))

theorem units_pairChar (hu : isHighSurrogate u = true) (hv : isLowSurrogate v = true) :
    (CodePoint.scalar (pairChar u v)).units = [u, v] := by
  have hchar := toNat_pairChar hu hv
  simp only [isHighSurrogate, isLowSurrogate, Bool.and_eq_true, decide_eq_true_eq] at hu hv
  have hhigh : 0xD800 + ((pairChar u v).toNat - 0x10000) / 0x400 = u.toNat := by omega
  have hlow : 0xDC00 + ((pairChar u v).toNat - 0x10000) % 0x400 = v.toNat := by omega
  rw [CodePoint.units, utf16Units, if_neg (by omega), hhigh, hlow, map_cons,
    map_singleton, UInt16.ofNat_toNat, UInt16.ofNat_toNat]

theorem flatMap_units_codePoints (s : JsString) : s.codePoints.flatMap CodePoint.units = s := by
  induction s using JsString.codePoints.induct with
  | case1 => rfl
  | case2 u => rw [JsString.codePoints, flatMap_singleton, units_singlePoint]
  | case3 u v rest h ih =>
    rw [Bool.and_eq_true] at h
    rw [JsString.codePoints, if_pos (by rw [h.1, h.2]; rfl), flatMap_cons, ih,
      units_pairChar h.1 h.2]
    rfl
  | case4 u v rest h ih =>
    rw [JsString.codePoints, if_neg h, flatMap_cons, ih, units_singlePoint]
    rfl

theorem codePoints_ne_nil (h : s ≠ []) : s.codePoints ≠ [] := by
  intro hnil
  rw [← flatMap_units_codePoints s, hnil] at h
  exact h rfl

theorem length_encode : s.encode.length = s.toText.utf8ByteSize := rfl

theorem utf8ByteSize_pos {t : String} (h : t ≠ "") : 0 < t.utf8ByteSize := by
  rw [Nat.pos_iff_ne_zero]
  exact fun hzero => h (String.utf8ByteSize_eq_zero_iff.mp hzero)

theorem length_encode_pos (h : s ≠ []) : 0 < s.encode.length := by
  refine utf8ByteSize_pos fun hempty => codePoints_ne_nil h ?_
  rw [JsString.toText, String.ofList_eq_empty_iff] at hempty
  exact map_eq_nil_iff.mp hempty

end Bluetalk

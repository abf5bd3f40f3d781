import Mathlib.Data.Nat.Bitwise
import Mathlib.Data.Nat.Log
import Mathlib.Data.Rat.Floor
import Bluetalk.Js.Text

/-!
# Numbers of JavaScript

What `Number(value)` may be. A finite number is the rational it stands for; the rounding of a sum
to 53 bits is left aside here.
-/

namespace Bluetalk

inductive Number
  | nan
  | negInfinity
  | finite (q : Rat)
  | infinity
deriving DecidableEq

/-- `Math.round(x)` of a finite number -/
def roundHalfUp (q : Rat) : Int := (q + 1 / 2).floor

/-- `Math.round(x)`, where that is finite -/
def Number.round? : Number → Option Int
  | .finite q => some (roundHalfUp q)
  | _ => none

/-- `clampInt` of the games, for bounds that are not negative -/
def clampInt (value : Number) (min max fallback : Nat) : Nat :=
  match value.round? with
  | none => fallback
  | some parsed => Nat.max min (Nat.min max parsed.toNat)

theorem le_clampInt {value : Number} {min max fallback : Nat} (h : min ≤ fallback) :
    min ≤ clampInt value min max fallback := by
  rw [clampInt]
  cases value.round? with
  | none => exact h
  | some => exact Nat.le_max_left _ _

example : clampInt (.finite (5 / 2)) 0 8 4 = 3 := by decide +kernel

end Bluetalk

/-!
## Whole numbers of JavaScript

A number has 53 significant bits. A sum that needs more is rounded to the nearest number, and to the
even one of two that are equally near, so that from `2 ^ 53` on `n + 1` may be `n`.
-/

namespace Bluetalk

/-- The nearest number of 53 significant bits. -/
def roundDouble (n : Nat) : Nat :=
  if n < 2 ^ 53 then n
  else
    let unit := 2 ^ (n.log2 - 52)
    let mantissa := n / unit
    let rest := n % unit
    if unit < 2 * rest ∨ 2 * rest = unit ∧ mantissa % 2 = 1 then (mantissa + 1) * unit
    else mantissa * unit

/-- `n + 1` of a number that is not below `-2 ^ 53` -/
def addOne (n : Int) : Int := if n < 2 ^ 53 then n + 1 else roundDouble (n.toNat + 1)

theorem roundDouble_pos {n : Nat} (h : 1 ≤ n) : 1 ≤ roundDouble n := by
  rw [roundDouble]
  split
  · exact h
  have hunit : 2 ^ (n.log2 - 52) ≤ n :=
    (Nat.pow_le_pow_right (by decide) (Nat.sub_le _ _)).trans (Nat.log2_self_le (by omega))
  have hpos : 0 < 2 ^ (n.log2 - 52) := Nat.pow_pos (by decide)
  have hmantissa : 1 ≤ n / 2 ^ (n.log2 - 52) := Nat.div_pos hunit hpos
  dsimp only
  split
  · exact Nat.mul_pos (Nat.succ_pos _) hpos
  · exact Nat.mul_pos hmantissa hpos

theorem addOne_pos {n : Int} (h : 1 ≤ n) : 1 ≤ addOne n := by
  rw [addOne]
  split
  · omega
  · exact Int.ofNat_le.mpr (roundDouble_pos (Nat.succ_le_succ (Nat.zero_le _)))

/-- The first number that is its own successor. -/
example : addOne (2 ^ 53) = 2 ^ 53 := by decide

end Bluetalk

/-!
## Numbers in texts

`Number(text)`: a decimal number with an optional exponent, or a whole number in base 2, 8 or 16;
`0` of an empty text.
-/

namespace Bluetalk

def digitValue (base : Nat) (c : Char) : Option Nat :=
  let value :=
    if '0' ≤ c ∧ c ≤ '9' then some (c.toNat - '0'.toNat)
    else if 'a' ≤ c ∧ c ≤ 'f' then some (c.toNat - 'a'.toNat + 10)
    else if 'A' ≤ c ∧ c ≤ 'F' then some (c.toNat - 'A'.toNat + 10)
    else none
  value.filter (· < base)

/-- The value of digits, `0` of none -/
def digitsValue (base : Nat) (digits : List Char) : Option Nat :=
  digits.foldlM (fun n c => (digitValue base c).map (base * n + ·)) 0

/-- A sign, and what is behind it -/
def signed : List Char → Bool × List Char
  | '-' :: rest => (true, rest)
  | '+' :: rest => (false, rest)
  | cs => (false, cs)

/-- Digits with a point between them -/
def decimalValue (cs : List Char) : Option Rat :=
  let (whole, rest) := cs.span (· ≠ '.')
  let fraction := rest.drop 1
  if whole = [] ∧ fraction = [] then none
  else do
    let n ← digitsValue 10 whole
    let m ← digitsValue 10 fraction
    return n + m / 10 ^ fraction.length

/-- The power of ten that an exponent stands for -/
def exponentValue : List Char → Option Rat
  | [] => some 1
  | _ :: cs =>
    let (negative, digits) := signed cs
    if digits = [] then none
    else (digitsValue 10 digits).map fun n => if negative then 1 / 10 ^ n else 10 ^ n

/-- The number without its sign -/
def unsignedNumber (cs : List Char) : Number :=
  if cs = "Infinity".toList then .infinity
  else
    let (mantissa, exponent) := cs.span fun c => c ≠ 'e' ∧ c ≠ 'E'
    match decimalValue mantissa, exponentValue exponent with
    | some q, some power => .finite (q * power)
    | _, _ => .nan

def Number.neg : Number → Number
  | .nan => .nan
  | .negInfinity => .infinity
  | .finite q => .finite (-q)
  | .infinity => .negInfinity

def prefixedNumber (base : Nat) (digits : List Char) : Number :=
  if digits = [] then .nan
  else match digitsValue base digits with
    | some n => .finite n
    | none => .nan

def Number.ofText (text : String) : Number :=
  match (jsTrim text).toList with
  | [] => .finite 0
  | '0' :: 'x' :: digits | '0' :: 'X' :: digits => prefixedNumber 16 digits
  | '0' :: 'o' :: digits | '0' :: 'O' :: digits => prefixedNumber 8 digits
  | '0' :: 'b' :: digits | '0' :: 'B' :: digits => prefixedNumber 2 digits
  | cs =>
    let (negative, cs) := signed cs
    if negative then (unsignedNumber cs).neg else unsignedNumber cs

example : Number.ofText " -12.5e1 " = .finite (-125) := by decide +kernel

end Bluetalk

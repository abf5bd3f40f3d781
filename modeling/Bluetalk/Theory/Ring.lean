import Mathlib.Algebra.Ring.Int.Units
import Mathlib.Data.List.Rotate

/-!
# A list read as a ring

Positions of a list of length `n` are passed through in either direction, modulo `n`. A search from
the position after `i` that skips members meets them in the order of `ringAfter`, with the member at
`i` itself the last.
-/

open List

namespace Bluetalk

variable {α : Type*} {l : List α} {d : ℤˣ} {i : Nat} {keep : α → Bool}

/-- The position after `idx` -/
def ringNext (n : Nat) (d : ℤˣ) (idx : Int) : Int := (idx + d + n) % n

/-- The members in the order of the direction `d`, from the one after position `i` on. -/
def ringAfter (l : List α) (d : ℤˣ) (i : Nat) : List α :=
  if d = 1 then l.rotate (i + 1) else (l.rotate i).reverse

/-- From position `idx` on, at most `guard` members that are not to be kept are skipped. -/
def ringSkip (l : List α) (keep : α → Bool) (d : ℤˣ) : Nat → Int → Int
  | 0, idx => idx
  | guard + 1, idx =>
    if l[idx.toNat]?.all keep then idx else ringSkip l keep d guard (ringNext l.length d idx)

theorem ringNext_nonneg (hn : 0 < l.length) (idx : Int) : 0 ≤ ringNext l.length d idx :=
  Int.emod_nonneg _ (Int.natCast_ne_zero.mpr hn.ne')

theorem ringNext_lt (hn : 0 < l.length) (idx : Int) : ringNext l.length d idx < l.length :=
  Int.emod_lt_of_pos _ (Int.natCast_pos.mpr hn)

theorem ringAfter_perm (l : List α) (d : ℤˣ) (i : Nat) : (ringAfter l d i).Perm l := by
  rw [ringAfter]
  split
  · exact rotate_perm l _
  · exact (reverse_perm _).trans (rotate_perm l _)

theorem ringNext_one (n i : Nat) : ringNext n 1 i = ((i + 1) % n : Nat) := by
  push_cast
  exact Int.add_emod_right _ _

theorem ringNext_neg_one (hi : i < l.length) :
    ringNext l.length (-1) i = ((i + (l.length - 1)) % l.length : Nat) := by
  rw [ringNext, Units.val_neg, Units.val_one]
  push_cast [Nat.cast_sub (Nat.one_le_of_lt hi)]
  congr 1
  omega

/-- One position further the first member of the ring has become the last. -/
theorem ringAfter_ringNext (hi : i < l.length) : ∃ j, j < l.length ∧
    ringNext l.length d i = j ∧ l[j]? = (ringAfter l d i).head? ∧
    ringAfter l d j = (ringAfter l d i).rotate 1 := by
  have hn : 0 < l.length := Nat.zero_lt_of_lt hi
  obtain rfl | rfl := Int.units_eq_one_or d
  · refine ⟨(i + 1) % l.length, Nat.mod_lt _ hn, ringNext_one _ i, ?_, ?_⟩
    · rw [ringAfter, if_pos rfl, ← rotate_mod, head?_rotate (Nat.mod_lt _ hn)]
    · rw [ringAfter, ringAfter, if_pos rfl, if_pos rfl, rotate_rotate, ← rotate_mod,
        ← rotate_mod l (i + 1 + 1), Nat.mod_add_mod]
  have hmod : ((i + (l.length - 1)) % l.length + 1) % l.length = i := by
    rw [Nat.mod_add_mod, show i + (l.length - 1) + 1 = i + l.length by omega, Nat.add_mod_right,
      Nat.mod_eq_of_lt hi]
  have hrotate : l.rotate i = (l.rotate ((i + (l.length - 1)) % l.length)).rotate 1 := by
    rw [rotate_rotate, ← rotate_mod l (_ + 1), hmod]
  refine ⟨(i + (l.length - 1)) % l.length, Nat.mod_lt _ hn, ringNext_neg_one hi, ?_, ?_⟩
  · rw [ringAfter, if_neg (by decide), head?_reverse, hrotate, ← head?_rotate (Nat.mod_lt _ hn)]
    cases hl : l.rotate ((i + (l.length - 1)) % l.length) with
    | nil => rfl
    | cons a as => simp
  rw [ringAfter, ringAfter, if_neg (by decide), if_neg (by decide), hrotate]
  cases hl : l.rotate ((i + (l.length - 1)) % l.length) with
  | nil => rfl
  | cons a as => simp

theorem ringSkip_range (guard : Nat) {idx : Int} (hn : 0 < l.length)
    (h₀ : 0 ≤ idx) (h : idx < l.length) :
    0 ≤ ringSkip l keep d guard idx ∧ ringSkip l keep d guard idx < l.length := by
  induction guard generalizing idx with
  | zero => exact ⟨h₀, h⟩
  | succ guard ih =>
    rw [ringSkip]
    split
    · exact ⟨h₀, h⟩
    · exact ih (ringNext_nonneg hn _) (ringNext_lt hn _)

/-- The search ends at the first member to be kept, where one is among those it may reach. -/
theorem getElem?_ringSkip {guard : Nat} {x : α} (hi : i < l.length)
    (hx : ((ringAfter l d i).take (guard + 1)).find? keep = some x) :
    l[(ringSkip l keep d guard (ringNext l.length d i)).toNat]? = some x := by
  induction guard generalizing i with
  | zero =>
    obtain ⟨j, hj, hnext, hhead, -⟩ := ringAfter_ringNext (d := d) hi
    rw [ringSkip, hnext, Int.toNat_natCast, hhead]
    cases hring : ringAfter l d i with
    | nil => rw [hring] at hx; cases hx
    | cons a as =>
      rw [hring, take_succ_cons, take_zero, find?_singleton] at hx
      split at hx
      · exact hx
      · cases hx
  | succ guard ih =>
    obtain ⟨j, hj, hnext, hhead, hrotate⟩ := ringAfter_ringNext (d := d) hi
    rw [ringSkip, hnext, Int.toNat_natCast, hhead]
    cases hring : ringAfter l d i with
    | nil => rw [hring] at hx; cases hx
    | cons a as =>
      rw [hring, take_succ_cons] at hx
      rw [head?_cons, Option.all_some]
      split
      · rename_i hkeep
        rw [Int.toNat_natCast, hhead, hring, head?_cons]
        rwa [find?_cons_of_pos hkeep] at hx
      rename_i hkeep
      rw [find?_cons_of_neg hkeep] at hx
      -- What is left to search is the beginning of the ring one position further.
      refine ih hj ?_
      rw [hrotate, hring, rotate_cons_succ, rotate_zero]
      obtain ⟨bs, hbs⟩ : as.take (guard + 1) <+: (as ++ [a]).take (guard + 1) :=
        (prefix_append as [a]).take _
      rw [← hbs, find?_append, hx]
      rfl

theorem ringAfter_map {β : Type*} (f : α → β) (l : List α) (d : ℤˣ) (i : Nat) :
    ringAfter (l.map f) d i = (ringAfter l d i).map f := by
  rw [ringAfter, ringAfter]
  split
  · rw [map_rotate]
  · rw [map_reverse, map_rotate]

/-- The other members, from the one after position `i` on -/
def ringOthers (l : List α) (i : Nat) : List α := l.drop (i + 1) ++ l.take i

theorem rotate_eq_cons_ringOthers (hi : i < l.length) : l.rotate i = l[i] :: ringOthers l i := by
  rw [rotate_eq_drop_append_take hi.le, drop_eq_getElem_cons hi, cons_append]
  rfl

/-- The ring is read through the others, and the member at `i` is the last. -/
theorem ringAfter_eq_append (d : ℤˣ) (hi : i < l.length) : ringAfter l d i =
    (if d = 1 then ringOthers l i else (ringOthers l i).reverse) ++ [l[i]] := by
  rw [ringAfter]
  split
  · rw [← rotate_rotate, rotate_eq_cons_ringOthers hi, rotate_cons_succ, rotate_zero]
  · rw [rotate_eq_cons_ringOthers hi, reverse_cons]

/-- Without the member at `i`, the others are read from its position on, or from the first. -/
theorem rotate_eraseIdx (hi : i < l.length) :
    (l.eraseIdx i).rotate (if l.length - 1 ≤ i then 0 else i) = ringOthers l i := by
  rw [eraseIdx_eq_take_drop_succ, ringOthers]
  split
  · rw [drop_eq_nil_of_le (by omega), rotate_zero, append_nil, nil_append]
  have hlength : (l.take i).length = i := length_take_of_le hi.le
  conv_lhs =>
    arg 2
    rw [← hlength]
  exact rotate_append_length_eq _ _

/-- Where a step begins matters modulo the length only. -/
theorem ringNext_emod (n : Nat) (d : ℤˣ) (idx : Int) : ringNext n d (idx % n) = ringNext n d idx := by
  rw [ringNext, ringNext, add_assoc, add_assoc, Int.emod_add_emod]

/-- A whole round finds the first member to be kept. -/
theorem getElem?_ringSkip_length {x : α} (hi : i < l.length)
    (hx : (ringAfter l d i).find? keep = some x) :
    l[(ringSkip l keep d l.length (ringNext l.length d i)).toNat]? = some x := by
  refine getElem?_ringSkip hi ?_
  rwa [take_of_length_le ((ringAfter_perm l d i).length_eq.trans_le (Nat.le_succ _))]

end Bluetalk

import Mathlib.Algebra.BigOperators.Group.List.Basic
import Mathlib.Data.List.Nodup

/-!
# Lists by position

What a change of the member at one position leaves as it is, and a member that is found by its key
and taken out.
-/

open List Function

namespace Bluetalk

variable {α β : Type*} {l : List α} {f : α → α} {i : Nat} {g : α → β} {p : α → Bool}

theorem sum_map_modify [AddCommMonoid β] (hi : i < l.length) :
    ((l.modify i f).map g).sum + g l[i] = (l.map g).sum + g (f l[i]) := by
  induction l generalizing i with
  | nil => exact absurd hi (Nat.not_lt_zero _)
  | cons a l ih =>
    cases i with
    | zero =>
      simp only [modify_zero_cons, map_cons, sum_cons, getElem_cons_zero]
      ac_rfl
    | succ i =>
      have hsum := ih (Nat.lt_of_succ_lt_succ hi)
      simp only [modify_succ_cons, map_cons, sum_cons, getElem_cons_succ, add_assoc]
      rw [hsum]

theorem map_modify_of_eq (h : ∀ a, g (f a) = g a) (l : List α) (i : Nat) :
    (l.modify i f).map g = l.map g := by
  induction l generalizing i with
  | nil => cases i <;> rfl
  | cons a l ih =>
    cases i with
    | zero => rw [modify_zero_cons, map_cons, map_cons, h]
    | succ i => rw [modify_succ_cons, map_cons, map_cons, ih]

/-- A member more or less in a position counts for one at most. -/
theorem length_filter_modify (p : α → Bool) (f : α → α) (l : List α) (i : Nat) :
    (l.filter p).length ≤ ((l.modify i f).filter p).length + 1 := by
  induction l generalizing i with
  | nil => exact Nat.zero_le _
  | cons a l ih =>
    cases i with
    | zero =>
      have hle : (l.filter p).length ≤ ((f a :: l).filter p).length :=
        ((sublist_cons_self _ _).filter p).length_le
      rw [modify_zero_cons, filter_cons]
      split
      · exact Nat.succ_le_succ hle
      · omega
    | succ i =>
      have ih := ih i
      rw [modify_succ_cons, filter_cons, filter_cons]
      split
      · simp only [length_cons]
        omega
      · exact ih

theorem filter_eraseIdx_of_neg (h : l[i]?.any p = false) :
    (l.eraseIdx i).filter p = l.filter p := by
  induction l generalizing i with
  | nil => rfl
  | cons a l ih =>
    cases i with
    | zero =>
      rw [getElem?_cons_zero, Option.any_some] at h
      rw [eraseIdx_zero, tail_cons, filter_cons_of_neg (by rw [h]; decide)]
    | succ i =>
      rw [eraseIdx_cons_succ, filter_cons, filter_cons, ih h]

theorem filter_modify_of_neg (h : ∀ a, p (f a) = false) (l : List α) (i : Nat) :
    (l.modify i f).filter p = (l.eraseIdx i).filter p := by
  induction l generalizing i with
  | nil => cases i <;> rfl
  | cons a l ih =>
    cases i with
    | zero =>
      rw [modify_zero_cons, eraseIdx_zero, tail_cons, filter_cons_of_neg (by rw [h]; decide)]
    | succ i => rw [modify_succ_cons, eraseIdx_cons_succ, filter_cons, filter_cons, ih]

variable {κ : Type*} [DecidableEq κ] {key : α → κ} {k : κ}

/-- Without the member that a key finds, the others remain. -/
theorem eraseIdx_findIdx? (hl : (l.map key).Nodup) (h : l.findIdx? (key · = k) = some i) :
    l.eraseIdx i = l.filter (key · ≠ k) := by
  induction l generalizing i with
  | nil => cases h
  | cons a l ih =>
    rw [map_cons, nodup_cons] at hl
    rw [findIdx?_cons] at h
    by_cases ha : key a = k
    · rw [decide_eq_true ha, if_pos rfl] at h
      cases h
      rw [eraseIdx_zero, tail_cons, filter_cons_of_neg (by simpa using ha), filter_eq_self.mpr]
      intro b hb
      rw [decide_eq_true_eq]
      exact fun hkey => hl.1 (ha.trans hkey.symm ▸ mem_map_of_mem hb)
    · rw [decide_eq_false ha, if_neg (by decide)] at h
      obtain ⟨j, hj, rfl⟩ := Option.map_eq_some_iff.mp h
      rw [eraseIdx_cons_succ, ih hl.2 hj, filter_cons_of_pos (by simpa using ha)]

theorem findIdx?_key_eq_none : l.findIdx? (key · = k) = none ↔ k ∉ l.map key := by
  rw [findIdx?_eq_none_iff, mem_map, not_exists]
  refine forall_congr' fun a => ?_
  rw [decide_eq_false_iff_not, not_and]

theorem findIdx?_key_eq_some (h : l.findIdx? (key · = k) = some i) :
    ∃ a, l[i]? = some a ∧ key a = k := by
  obtain ⟨hi, hkey, -⟩ := findIdx?_eq_some_iff_getElem.mp h
  exact ⟨l[i], getElem?_eq_getElem hi, decide_eq_true_eq.mp hkey⟩

end Bluetalk

/-!
## The Fisher-Yates shuffle

The array is shuffled in place from its last position down, each position exchanged with one at
most as late that a buffer of random numbers names.
-/

namespace Bluetalk

variable {α : Type*}

/-- The loop over `i, i - 1, …, 1` -/
def shuffleDown (buf : Nat → Nat) : Nat → Array α → Array α
  | 0, a => a
  | i + 1, a => shuffleDown buf i (a.swapIfInBounds (i + 1) (buf (i + 1) % (i + 2)))

/-- A shuffled copy, by the random numbers `buf 0, …, buf (a.length - 1)`. -/
def shuffle (buf : Nat → Nat) (a : List α) : List α :=
  (shuffleDown buf (a.length - 1) a.toArray).toList

theorem swapIfInBounds_perm (a : Array α) (i j : Nat) :
    (a.swapIfInBounds i j).toList.Perm a.toList := by
  rw [Array.swapIfInBounds_def]
  split
  · split
    · exact Array.perm_iff_toList_perm.mp (Array.swap_perm _ _)
    · exact .refl _
  · exact .refl _

theorem shuffleDown_perm (buf : Nat → Nat) (i : Nat) (a : Array α) :
    (shuffleDown buf i a).toList.Perm a.toList := by
  induction i generalizing a with
  | zero => exact .refl _
  | succ i ih => exact (ih _).trans (swapIfInBounds_perm _ _ _)

theorem shuffle_perm (buf : Nat → Nat) (a : List α) : (shuffle buf a).Perm a :=
  shuffleDown_perm buf _ _

example : shuffle (fun _ => 0) [1, 2, 3] = [2, 3, 1] := by decide

end Bluetalk

/-!
## Counting the values of a function

How often a predicate holds of the values of a function along a list, and what it is after the
function was changed at one place.
-/

namespace Bluetalk

variable {ι α : Type*} {l : List ι} {f : ι → α} {p : α → Bool} {i j : ι}

/-- How often `p` holds of a value of `f` -/
def tally (l : List ι) (f : ι → α) (p : α → Bool) : Nat := l.countP fun i => p (f i)

theorem tally_eq_zero : tally l f p = 0 ↔ ∀ i ∈ l, p (f i) = false := by
  rw [tally, countP_eq_zero]
  exact forall_congr' fun i => forall_congr' fun _ => Iff.of_eq (Bool.not_eq_true _)

section
variable [DecidableEq ι]

theorem tally_update_of_not_mem {x : α} (h : i ∉ l) :
    tally l (update f i x) p = tally l f p := by
  refine countP_congr fun j hj => ?_
  have hne : j ≠ i := fun e => h (e ▸ hj)
  rw [update_of_ne hne]

/-- What is counted less and more when a value is replaced. -/
theorem tally_update (hn : l.Nodup) (hi : i ∈ l) (x : α) :
    tally l (update f i x) p + (p (f i)).toNat = tally l f p + (p x).toNat := by
  induction l with
  | nil => cases hi
  | cons j l ih =>
    rw [nodup_cons] at hn
    have hcons : ∀ f : ι → α, tally (j :: l) f p = tally l f p + (p (f j)).toNat := by
      intro f
      rw [tally, countP_cons]
      cases p (f j) <;> rfl
    rw [hcons, hcons]
    rcases mem_cons.mp hi with rfl | hi
    · rw [tally_update_of_not_mem hn.1, update_self]
      omega
    have hne : j ≠ i := fun e => hn.1 (e ▸ hi)
    rw [update_of_ne hne]
    have hrest := ih hn.2 hi
    omega

/-- What is counted once stands in one place. -/
theorem eq_of_tally_eq_one (hn : l.Nodup) (h : tally l f p = 1) (hi : i ∈ l) (hj : j ∈ l)
    (hpi : p (f i) = true) (hpj : p (f j) = true) {x : α} (hx : p x = false) : i = j := by
  by_contra hne
  have hupdate := tally_update (p := p) (f := f) hn hi x
  rw [h, hpi, hx] at hupdate
  have hzero : tally l (update f i x) p = 0 := by
    rw [Bool.toNat_true, Bool.toNat_false] at hupdate
    omega
  have hnot := tally_eq_zero.mp hzero j hj
  rw [update_of_ne (Ne.symm hne), hpj] at hnot
  cases hnot

end

end Bluetalk

import Mathlib.Data.List.Induction
import Mathlib.Data.List.Sort

/-!
# Stamped logs

Rows carry a stamp in a linear order and no two rows share one. A reader asks for the rows beyond
its cursor in ascending order and is given a prefix of them: the page. `advance` is the cursor
after a page that is read to its last row.

The two facts every cursor protocol rests on: a row beyond the cursor is either on the page or cut
off (`mem_page_or_cutOff`), and every row cut off lies beyond the whole page
(`stamp_lt_of_mem_cutOff`), so a reader that moves to the last row of its page passes over nothing
(`mem_page_of_le_advance`).
-/

open List

namespace Bluetalk

variable {ρ ι : Type*} [LinearOrder ι] (stamp : ρ → ι)

/-- The rows beyond the cursor, in ascending order. -/
def beyond (c : ι) (rows : List ρ) : List ρ :=
  (rows.filter fun r => c < stamp r).insertionSort fun a b => stamp a ≤ stamp b

/-- The first `n` rows beyond the cursor. -/
def page (c : ι) (n : Nat) (rows : List ρ) : List ρ := (beyond stamp c rows).take n

/-- The rows beyond the cursor that a page of `n` rows leaves out. -/
def cutOff (c : ι) (n : Nat) (rows : List ρ) : List ρ := (beyond stamp c rows).drop n

/-- The cursor of a reader that has read the page to its last row. -/
def advance (c : ι) (rows : List ρ) : ι := (rows.getLast?.map stamp).getD c

variable {stamp} {c d : ι} {n : Nat} {rows : List ρ} {r r' : ρ}

@[simp] theorem mem_beyond : r ∈ beyond stamp c rows ↔ r ∈ rows ∧ c < stamp r := by
  simp [beyond, mem_insertionSort]

theorem beyond_sorted : (beyond stamp c rows).Pairwise fun a b => stamp a ≤ stamp b := by
  exact pairwise_insertionSort _ _

theorem beyond_strict (hn : (rows.map stamp).Nodup) :
    (beyond stamp c rows).Pairwise fun a b => stamp a < stamp b := by
  have hp : ((beyond stamp c rows).map stamp).Nodup :=
    (((perm_insertionSort _ _).map stamp).nodup_iff).mpr
      (hn.sublist (filter_sublist.map stamp))
  have hne : (beyond stamp c rows).Pairwise fun a b => stamp a ≠ stamp b :=
    pairwise_map.mp hp
  exact (beyond_sorted.and hne).imp fun h => lt_of_le_of_ne h.1 h.2

theorem page_append_cutOff :
    page stamp c n rows ++ cutOff stamp c n rows = beyond stamp c rows := take_append_drop ..

theorem mem_page_or_cutOff (hr : r ∈ rows) (hc : c < stamp r) :
    r ∈ page stamp c n rows ∨ r ∈ cutOff stamp c n rows := by
  rw [← mem_append, page_append_cutOff]
  exact mem_beyond.mpr ⟨hr, hc⟩

theorem mem_of_mem_page (h : r ∈ page stamp c n rows) : r ∈ rows ∧ c < stamp r :=
  mem_beyond.mp (mem_of_mem_take h)

theorem mem_of_mem_cutOff (h : r ∈ cutOff stamp c n rows) : r ∈ rows ∧ c < stamp r :=
  mem_beyond.mp (mem_of_mem_drop h)

theorem stamp_lt_of_mem_cutOff (hn : (rows.map stamp).Nodup)
    (h : r ∈ page stamp c n rows) (h' : r' ∈ cutOff stamp c n rows) : stamp r < stamp r' := by
  have := beyond_strict (c := c) hn
  rw [← page_append_cutOff (n := n), pairwise_append] at this
  exact this.2.2 r h r' h'

theorem cutOff_eq_nil_iff :
    cutOff stamp c n rows = [] ↔ (beyond stamp c rows).length ≤ n := drop_eq_nil_iff

/-- A reader at the last row of its page has passed over no row. -/
theorem mem_page_of_le_advance (hn : (rows.map stamp).Nodup) (hr : r ∈ rows) (hc : c < stamp r)
    (h : stamp r ≤ advance stamp c (page stamp c n rows)) : r ∈ page stamp c n rows := by
  refine (mem_page_or_cutOff hr hc).resolve_right fun hcut => ?_
  cases hl : (page stamp c n rows).getLast? with
  | none => exact absurd (h.trans_eq (by simp [advance, hl])) (not_le.mpr hc)
  | some last =>
    have hlast : last ∈ page stamp c n rows := mem_of_getLast? hl
    have hle : stamp r ≤ stamp last := by simpa [advance, hl] using h
    exact absurd hle (not_le.mpr (stamp_lt_of_mem_cutOff hn hlast hcut))

theorem le_advance : c ≤ advance stamp c (page stamp c n rows) := by
  cases hl : (page stamp c n rows).getLast? with
  | none => simp [advance, hl]
  | some last =>
    have := (mem_of_mem_page (mem_of_getLast? hl)).2
    simpa [advance, hl] using this.le

theorem advance_le (hc : c ≤ d) (hd : ∀ r ∈ rows, stamp r ≤ d) :
    advance stamp c (page stamp c n rows) ≤ d := by
  cases hl : (page stamp c n rows).getLast? with
  | none => simpa [advance, hl] using hc
  | some last => simpa [advance, hl] using hd _ (mem_of_mem_page (mem_of_getLast? hl)).1

/-- After a page that cuts nothing off, the reader has passed every row. -/
theorem le_advance_of_cutOff_nil (hcut : cutOff stamp c n rows = [])
    (hr : r ∈ rows) : stamp r ≤ advance stamp c (page stamp c n rows) := by
  rcases le_or_gt (stamp r) c with h | h
  · exact h.trans le_advance
  have hmem := (mem_page_or_cutOff (n := n) hr h).resolve_right (by simp [hcut])
  cases hl : (page stamp c n rows).getLast? with
  | none => simp [getLast?_eq_none_iff.mp hl] at hmem
  | some last =>
    have hs : (page stamp c n rows).Pairwise fun a b => stamp a ≤ stamp b :=
      beyond_sorted.sublist (take_sublist ..)
    obtain ⟨front, hfront⟩ := getLast?_eq_some_iff.mp hl
    rw [hfront] at hs hmem
    simp only [advance, hl, Option.map_some, Option.getD_some]
    rcases mem_append.mp hmem with hm | hm
    · exact (pairwise_append.mp hs).2.2 r hm last (mem_singleton_self _)
    · rw [mem_singleton.mp hm]

end Bluetalk

/-!
## Keys that count as known for a while

Stamped keys arrive one after the other. One that was taken less than `window` before counts as
known; any other is taken, and logged. Every key is taken once exactly when no key arrives again
`window` or more after it had arrived before (`nodup_takeAll_iff`).
-/

namespace Bluetalk.Window

variable {κ : Type*} [DecidableEq κ] (window : ℕ)

/-- `x` was taken less than `window` before. -/
def Known (log : List (κ × ℕ)) (x : κ × ℕ) : Prop := ∃ y ∈ log, y.1 = x.1 ∧ x.2 - y.2 < window

instance (log : List (κ × ℕ)) (x : κ × ℕ) : Decidable (Known window log x) :=
  inferInstanceAs (Decidable (∃ y ∈ log, y.1 = x.1 ∧ x.2 - y.2 < window))

def take (log : List (κ × ℕ)) (x : κ × ℕ) : List (κ × ℕ) :=
  if Known window log x then log else log ++ [x]

def takeAll (log xs : List (κ × ℕ)) : List (κ × ℕ) := xs.foldl (take window) log

/-- `x` arrives within the window after `y`, or is about another key. -/
def Covered (y x : κ × ℕ) : Prop := y.1 = x.1 → x.2 - y.2 < window

/-- The arrivals are in the order of their stamps. -/
def Ordered (xs : List (κ × ℕ)) : Prop := xs.Pairwise fun y x => y.2 ≤ x.2

variable {window} {log xs : List (κ × ℕ)} {x y : κ × ℕ}

theorem take_of_known (h : Known window log x) : take window log x = log := if_pos h

theorem take_of_not_known (h : ¬ Known window log x) : take window log x = log ++ [x] := if_neg h

@[simp] theorem takeAll_nil : takeAll window log [] = log := rfl

@[simp] theorem takeAll_concat :
    takeAll window log (xs ++ [x]) = take window (takeAll window log xs) x := by
  rw [takeAll, foldl_concat, takeAll]

omit [DecidableEq κ] in
theorem pairwise_concat {r : κ × ℕ → κ × ℕ → Prop} :
    (xs ++ [x]).Pairwise r ↔ xs.Pairwise r ∧ ∀ y ∈ xs, r y x := by
  rw [pairwise_append]
  simp

/-- What is logged has arrived. -/
theorem takeAll_sublist : (takeAll window [] xs).Sublist xs := by
  induction xs using List.reverseRecOn with
  | nil => exact .refl _
  | append_singleton xs x ih =>
    rw [takeAll_concat, take]
    split
    · exact ih.trans (sublist_append_left xs [x])
    · exact ih.append (.refl [x])

theorem mem_of_mem_takeAll (h : y ∈ takeAll window [] xs) : y ∈ xs := takeAll_sublist.subset h

/-- Every key that has arrived is logged with the stamp of an arrival that is no later. -/
theorem exists_logged (window : Nat) (hord : Ordered xs) (h : x ∈ xs) :
    ∃ y ∈ takeAll window [] xs, y.1 = x.1 ∧ y.2 ≤ x.2 := by
  induction xs using List.reverseRecOn with
  | nil => cases h
  | append_singleton xs z ih =>
    rw [Ordered, pairwise_concat] at hord
    rw [takeAll_concat]
    rcases mem_append.mp h with hx | hx
    · obtain ⟨y, hy, heq, hle⟩ := ih hord.1 hx
      refine ⟨y, ?_, heq, hle⟩
      rw [take]
      split
      · exact hy
      · exact mem_append_left _ hy
    obtain rfl := mem_singleton.mp hx
    by_cases hknown : Known window (takeAll window [] xs) x
    · rw [take_of_known hknown]
      obtain ⟨y, hy, heq, -⟩ := hknown
      exact ⟨y, hy, heq, hord.2 y (mem_of_mem_takeAll hy)⟩
    · rw [take_of_not_known hknown]
      exact ⟨x, mem_append_right _ hx, rfl, Nat.le_refl _⟩

/-- No key is taken twice exactly when none arrives again after the window. -/
theorem nodup_takeAll_iff (hord : Ordered xs) :
    ((takeAll window [] xs).map Prod.fst).Nodup ↔ xs.Pairwise (Covered window) := by
  induction xs using List.reverseRecOn with
  | nil => simp
  | append_singleton xs x ih =>
    have hlast := pairwise_concat.mp hord
    rw [takeAll_concat, pairwise_concat, ← ih hlast.1]
    by_cases hknown : Known window (takeAll window [] xs) x
    · rw [take_of_known hknown]
      refine ⟨fun hnodup => ⟨hnodup, fun y hy heq => ?_⟩, And.left⟩
      -- the arrival that covers `x` is the one that `y` was taken as, or left out for
      obtain ⟨z, hz, hzx, hlt⟩ := hknown
      obtain ⟨y', hy', hyy, hle⟩ := exists_logged window hlast.1 hy
      obtain rfl := inj_on_of_nodup_map hnodup hz hy' (hzx.trans (heq.symm.trans hyy.symm))
      omega
    · rw [take_of_not_known hknown, map_append, map_singleton]
      have hnew : x.1 ∉ (takeAll window [] xs).map Prod.fst ↔ ∀ y ∈ xs, Covered window y x := by
        constructor
        · intro hnot y hy heq
          obtain ⟨y', hy', hyy, -⟩ := exists_logged window hlast.1 hy
          exact absurd (mem_map.mpr ⟨y', hy', hyy.trans heq⟩) hnot
        · intro hcovered hmem
          obtain ⟨z, hz, hzx⟩ := mem_map.mp hmem
          exact hknown ⟨z, hz, hzx, hcovered z (mem_of_mem_takeAll hz) hzx⟩
      rw [← hnew, ← concat_eq_append, nodup_concat, and_comm]

end Bluetalk.Window

import Mathlib.Algebra.BigOperators.Group.List.Basic
import Mathlib.Algebra.GroupWithZero.Nat
import Mathlib.Data.List.Dedup
import Mathlib.Data.List.Sort

/-!
# Layers of contributions

What several members have put in is cut into layers, one up to each amount that occurs: a layer
belongs to those who reached its upper end. The layers together are what was put in
(`sum_amount_layersFrom`). A sum is shared out in whole parts, the first members taking what remains.
-/

open List

namespace Bluetalk

variable {ι : Type*} {contrib : List (ι × Nat)} {caps : List Nat} {ids : List ι} {prev cap : Nat}

/-- A sum of which those in `eligible` may have a part -/
structure Layer (ι : Type*) where
  amount : Nat
  eligible : List ι
deriving DecidableEq

/-- The layers between `prev` and the first of `caps`, and between each of them and the next -/
def layersFrom (contrib : List (ι × Nat)) (prev : Nat) : List Nat → List (Layer ι)
  | [] => []
  | cap :: caps =>
    let eligible := contrib.filter (cap ≤ ·.2)
    ⟨(cap - prev) * eligible.length, eligible.map Prod.fst⟩ :: layersFrom contrib cap caps

/-- The amounts that occur, from the lowest up -/
def levels (contrib : List (ι × Nat)) : List Nat :=
  (contrib.map Prod.snd).dedup.insertionSort (· ≤ ·)

def layers (contrib : List (ι × Nat)) : List (Layer ι) := layersFrom contrib 0 (levels contrib)

/-- What lies above `prev` -/
def above (contrib : List (ι × Nat)) (prev : Nat) : Nat := (contrib.map (·.2 - prev)).sum

/-- One layer is what is above its lower end and not above its upper end. -/
theorem above_eq (hprev : prev ≤ cap) (hgap : ∀ c ∈ contrib, c.2 ≤ prev ∨ cap ≤ c.2) :
    above contrib prev = (cap - prev) * (contrib.filter (cap ≤ ·.2)).length + above contrib cap := by
  induction contrib with
  | nil => rfl
  | cons c contrib ih =>
    rw [forall_mem_cons] at hgap
    have ih := ih hgap.2
    simp only [above, map_cons, sum_cons, filter_cons, decide_eq_true_eq] at ih ⊢
    by_cases hcap : cap ≤ c.2
    · rw [if_pos hcap, length_cons, Nat.mul_succ]
      omega
    · rw [if_neg hcap]
      omega

theorem sum_amount_layersFrom (hsorted : (prev :: caps).Pairwise (· ≤ ·))
    (hcaps : ∀ c ∈ contrib, c.2 ≤ prev ∨ c.2 ∈ caps) :
    ((layersFrom contrib prev caps).map Layer.amount).sum = above contrib prev := by
  induction caps generalizing prev with
  | nil =>
    simp only [not_mem_nil, or_false] at hcaps
    rw [layersFrom, map_nil, sum_nil, above, eq_comm]
    refine sum_eq_zero fun n hn => ?_
    obtain ⟨c, hc, rfl⟩ := mem_map.mp hn
    exact Nat.sub_eq_zero_of_le (hcaps c hc)
  | cons cap caps ih =>
    obtain ⟨hprev, hsorted⟩ := pairwise_cons.mp hsorted
    have hfirst : ∀ c ∈ contrib, c.2 ≤ prev ∨ cap ≤ c.2 := by
      intro c hc
      rcases hcaps c hc with hlow | hmem
      · exact .inl hlow
      · rcases mem_cons.mp hmem with heq | hmem
        · exact .inr heq.ge
        · exact .inr ((pairwise_cons.mp hsorted).1 _ hmem)
    have hrest : ∀ c ∈ contrib, c.2 ≤ cap ∨ c.2 ∈ caps := by
      intro c hc
      rcases hcaps c hc with hlow | hmem
      · exact .inl (hlow.trans (hprev cap mem_cons_self))
      · rcases mem_cons.mp hmem with heq | hmem
        · exact .inl heq.le
        · exact .inr hmem
    rw [layersFrom, map_cons, sum_cons, ih hsorted hrest, above_eq (hprev cap mem_cons_self) hfirst]

theorem eligible_layersFrom {layer : Layer ι} (h : layer ∈ layersFrom contrib prev caps) :
    ∃ cap ∈ caps, layer.eligible = (contrib.filter (cap ≤ ·.2)).map Prod.fst := by
  induction caps generalizing prev with
  | nil => exact absurd h not_mem_nil
  | cons cap caps ih =>
    rcases mem_cons.mp h with rfl | h
    · exact ⟨cap, mem_cons_self, rfl⟩
    · obtain ⟨cap', hcap, helig⟩ := ih h
      exact ⟨cap', mem_cons_of_mem _ hcap, helig⟩

/-- Those who have put in nothing are in no layer. -/
theorem layersFrom_filter (hcaps : ∀ cap ∈ caps, 0 < cap) :
    layersFrom (contrib.filter (0 < ·.2)) prev caps = layersFrom contrib prev caps := by
  induction caps generalizing prev with
  | nil => rfl
  | cons cap caps ih =>
    rw [forall_mem_cons] at hcaps
    have hfilter : (contrib.filter (0 < ·.2)).filter (cap ≤ ·.2) = contrib.filter (cap ≤ ·.2) := by
      rw [filter_filter]
      refine filter_congr fun c _ => ?_
      rw [Bool.and_eq_left_iff_imp]
      exact fun h => decide_eq_true (hcaps.1.trans_le (of_decide_eq_true h))
    rw [layersFrom, layersFrom, hfilter, ih hcaps.2]

theorem mem_levels {n : Nat} : n ∈ levels contrib ↔ ∃ c ∈ contrib, c.2 = n := by
  rw [levels, mem_insertionSort, mem_dedup, mem_map]

theorem levels_pairwise (contrib : List (ι × Nat)) : (levels contrib).Pairwise (· < ·) := by
  have hsorted : (levels contrib).Pairwise (· ≤ ·) := pairwise_insertionSort _ _
  have hnodup : (levels contrib).Nodup :=
    (perm_insertionSort _ _).nodup_iff.mpr (nodup_dedup _)
  exact hsorted.imp₂ (fun _ _ hle hne => lt_of_le_of_ne hle hne) hnodup

theorem mem_eligible (hkeys : (contrib.map Prod.fst).Nodup) {c : ι × Nat} (hc : c ∈ contrib) :
    c.1 ∈ (contrib.filter (cap ≤ ·.2)).map Prod.fst ↔ cap ≤ c.2 := by
  constructor
  · intro h
    obtain ⟨c', hc', hid⟩ := mem_map.mp h
    obtain ⟨hc', hcap⟩ := mem_filter.mp hc'
    obtain rfl := inj_on_of_nodup_map hkeys hc' hc hid
    exact of_decide_eq_true hcap
  · intro hcap
    exact mem_map_of_mem (mem_filter.mpr ⟨hc, decide_eq_true hcap⟩)

/-- A layer belongs to those who have reached its upper end. -/
theorem reaches_layersFrom (hkeys : (contrib.map Prod.fst).Nodup) :
    Forall₂ (fun cap layer => ∀ c ∈ contrib, c.1 ∈ layer.eligible ↔ cap ≤ c.2) caps
      (layersFrom contrib prev caps) := by
  induction caps generalizing prev with
  | nil => exact .nil
  | cons cap caps ih => exact .cons (fun c hc => mem_eligible hkeys hc) ih

/-- Each layer belongs to fewer than the one before it. -/
theorem layersFrom_shrink (hkeys : (contrib.map Prod.fst).Nodup)
    (hsorted : caps.Pairwise (· < ·)) (hcaps : ∀ cap ∈ caps, ∃ c ∈ contrib, c.2 = cap) :
    (layersFrom contrib prev caps).Pairwise fun upper lower =>
      lower.eligible ⊆ upper.eligible ∧ ∃ id ∈ upper.eligible, id ∉ lower.eligible := by
  induction caps generalizing prev with
  | nil => exact .nil
  | cons cap caps ih =>
    obtain ⟨hfirst, hlater⟩ := pairwise_cons.mp hsorted
    rw [forall_mem_cons] at hcaps
    obtain ⟨⟨c, hc, rfl⟩, hcaps⟩ := hcaps
    refine pairwise_cons.mpr ⟨fun layer hlayer => ?_, ih hlater hcaps⟩
    obtain ⟨cap', hcap', helig⟩ := eligible_layersFrom hlayer
    have hlt := hfirst cap' hcap'
    rw [helig]
    refine ⟨fun id hid => ?_, c.1, (mem_eligible hkeys hc).mpr le_rfl,
      fun hid => absurd ((mem_eligible hkeys hc).mp hid) (not_le.mpr hlt)⟩
    obtain ⟨c', hc', rfl⟩ := mem_map.mp hid
    obtain ⟨hc', hreach⟩ := mem_filter.mp hc'
    exact (mem_eligible hkeys hc').mpr (hlt.le.trans (of_decide_eq_true hreach))

/-- What a member has put into a layer -/
def Layer.part [DecidableEq ι] (layer : Layer ι) (id : ι) : Nat :=
  if id ∈ layer.eligible then layer.amount / layer.eligible.length else 0

/-- In the layers that belong to `d` there is of `c` what `d` has put in at most. -/
theorem sum_part_layersFrom [DecidableEq ι] (hkeys : (contrib.map Prod.fst).Nodup)
    (hsorted : (prev :: caps).Pairwise (· < ·)) {c d : ι × Nat} (hc : c ∈ contrib)
    (hd : d ∈ contrib) (hmin : min c.2 d.2 ≤ prev ∨ min c.2 d.2 ∈ caps) :
    (((layersFrom contrib prev caps).filter (d.1 ∈ ·.eligible)).map (·.part c.1)).sum =
      min c.2 d.2 - prev := by
  induction caps generalizing prev with
  | nil =>
    simp only [not_mem_nil, or_false] at hmin
    exact (Nat.sub_eq_zero_of_le hmin).symm
  | cons cap caps ih =>
    obtain ⟨hprev, hsorted⟩ := pairwise_cons.mp hsorted
    have hcap := hprev cap mem_cons_self
    have hrest : min c.2 d.2 ≤ cap ∨ min c.2 d.2 ∈ caps :=
      hmin.elim (fun h => .inl (h.trans hcap.le)) fun h => (mem_cons.mp h).imp_left Eq.le
    have hlow : min c.2 d.2 ≤ prev ∨ cap ≤ min c.2 d.2 := by
      refine hmin.imp_right fun h => ?_
      obtain heq | h := mem_cons.mp h
      · exact heq.ge
      · exact ((pairwise_cons.mp hsorted).1 _ h).le
    rw [layersFrom, filter_cons]
    simp only [decide_eq_true_eq, mem_eligible hkeys hd]
    by_cases hd' : cap ≤ d.2
    · rw [if_pos hd', map_cons, sum_cons, ih hsorted hrest, Layer.part]
      simp only [mem_eligible hkeys hc, length_map]
      by_cases hc' : cap ≤ c.2
      · have hpos : 0 < (contrib.filter (cap ≤ ·.2)).length :=
          length_pos_of_mem (mem_filter.mpr ⟨hc, decide_eq_true hc'⟩)
        rw [if_pos hc', Nat.mul_div_cancel _ hpos]
        omega
      · rw [if_neg hc']
        omega
    · rw [if_neg hd', ih hsorted hrest]
      omega

/-! ## Shares -/

/-- Each member takes `share`, and the first `rest` of them one more. -/
def sharesFrom (share : Nat) : Nat → List ι → List (ι × Nat)
  | _, [] => []
  | rest, id :: ids => (id, share + if 0 < rest then 1 else 0) :: sharesFrom share (rest - 1) ids

def shares (amount : Nat) (ids : List ι) : List (ι × Nat) :=
  let share := amount / ids.length
  sharesFrom share (amount - share * ids.length) ids

example : layers [('a', 5), ('b', 2), ('c', 5)] = [⟨6, ['a', 'b', 'c']⟩, ⟨6, ['a', 'c']⟩] ∧
    shares 7 ['a', 'b'] = [('a', 4), ('b', 3)] := by
  decide

end Bluetalk

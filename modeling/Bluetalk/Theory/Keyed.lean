import Mathlib.Data.List.Nodup
import Mathlib.Data.List.Perm.Basic

/-!
# Lists with one element for each key

`put key x` replaces the element that has the key of `x`, or appends `x`. In a list whose keys are
distinct its members are `x` and the elements of other keys; a whole list of elements is put one
after the other with `putAll`.
-/

open List

namespace Bluetalk

variable {α κ : Type*} [DecidableEq κ] (key : α → κ)

/-- Replaces the first element with the key of `x`, or appends `x`. -/
def put (x : α) : List α → List α
  | [] => [x]
  | y :: l => if key y = key x then x :: l else y :: put x l

def putAll (xs l : List α) : List α := xs.foldl (fun l x => put key x l) l

variable {key} {x y : α} {l xs : List α} {k : Nat}

theorem put_of_not_mem (h : key x ∉ l.map key) : put key x l = l ++ [x] := by
  induction l with
  | nil => rfl
  | cons y l ih =>
    rw [map_cons, mem_cons, not_or] at h
    obtain ⟨hy, hl⟩ := h
    rw [put, if_neg (Ne.symm hy), ih hl, cons_append]

/-- Of two elements of a key that are put, the second is there. -/
theorem put_put (h : key x = key y) : put key y (put key x l) = put key y l := by
  induction l with
  | nil => exact if_pos h
  | cons z l ih =>
    by_cases hz : key z = key x
    · have hfirst : put key x (z :: l) = x :: l := if_pos hz
      have hboth : put key y (x :: l) = y :: l := if_pos h
      have hsecond : put key y (z :: l) = y :: l := if_pos (hz.trans h)
      rw [hfirst, hboth, hsecond]
    · have hfirst : put key x (z :: l) = z :: put key x l := if_neg hz
      have hrest : ∀ l, put key y (z :: l) = z :: put key y l := fun l => if_neg (h ▸ hz)
      rw [hfirst, hrest, hrest, ih]

theorem mem_put (h : (l.map key).Nodup) : y ∈ put key x l ↔ y = x ∨ y ∈ l ∧ key y ≠ key x := by
  induction l with
  | nil => simp [put]
  | cons z l ih =>
    simp only [map_cons, nodup_cons] at h
    simp only [put]
    split
    · next hz =>
      -- the rest of the list has no element with the key of `x`
      have hrest : ∀ w ∈ l, key w ≠ key x := fun w hw e =>
        h.1 (mem_map.mpr ⟨w, hw, e.trans hz.symm⟩)
      simp only [mem_cons]
      constructor
      · rintro (rfl | hy)
        · exact .inl rfl
        · exact .inr ⟨.inr hy, hrest y hy⟩
      rintro (rfl | ⟨rfl | hy, hne⟩)
      · exact .inl rfl
      · exact absurd hz hne
      · exact .inr hy
    · next hz =>
      simp only [mem_cons, ih h.2]
      constructor
      · rintro (rfl | rfl | ⟨hy, hne⟩)
        · exact .inr ⟨.inl rfl, hz⟩
        · exact .inl rfl
        · exact .inr ⟨.inr hy, hne⟩
      rintro (rfl | ⟨rfl | hy, hne⟩)
      · exact .inr (.inl rfl)
      · exact .inl rfl
      · exact .inr (.inr ⟨hy, hne⟩)

theorem map_put : (put key x l).map key =
    if key x ∈ l.map key then l.map key else l.map key ++ [key x] := by
  induction l with
  | nil => simp [put]
  | cons z l ih =>
    simp only [put]
    split
    · next hz => simp [hz]
    · next hz => simp only [map_cons, ih, mem_cons, Ne.symm hz, false_or]; split <;> rfl

theorem nodup_put (h : (l.map key).Nodup) : ((put key x l).map key).Nodup := by
  rw [map_put]
  split
  · exact h
  · next hx =>
    refine nodup_append.mpr ⟨h, by simp, fun k hk k' hk' e => hx ?_⟩
    exact (e.trans (mem_singleton.mp hk')) ▸ hk

/-- The first element of a key, whether or not the keys are distinct. -/
theorem find?_put {k : κ} : (put key x l).find? (fun y => key y = k) =
    if key x = k then some x else l.find? fun y => key y = k := by
  induction l with
  | nil => simp only [put, find?_cons, find?_nil]; split <;> simp_all
  | cons z l ih =>
    by_cases hz : key z = key x
    · have : put key x (z :: l) = x :: l := if_pos hz
      by_cases hx : key x = k <;> simp [this, hz, hx]
    have : put key x (z :: l) = z :: put key x l := if_neg hz
    rw [this, find?_cons, find?_cons, ih]
    by_cases hzk : key z = k
    · have hx : key x ≠ k := fun e => hz (hzk.trans e.symm)
      simp [hzk, hx]
    · simp [hzk]

/-- The first element of a key, when those of another key are taken out. -/
theorem find?_filter_ne {k k' : κ} : (l.filter fun y => key y ≠ k').find? (fun y => key y = k) =
    if k' = k then none else l.find? fun y => key y = k := by
  rw [find?_filter]
  split
  next hk =>
    subst hk
    exact find?_eq_none.mpr fun y _ => by simp
  next hk =>
  congr 1
  funext y
  by_cases hy : key y = k
  · simp [hy, Ne.symm hk]
  · simp [hy]

/-- An element is all that goes when those of its key are taken out. -/
theorem perm_cons_filter_ne (h : (l.map key).Nodup) (hx : x ∈ l) :
    l.Perm (x :: l.filter fun y => key y ≠ key x) := by
  induction l with
  | nil => cases hx
  | cons z l ih =>
    rw [map_cons, nodup_cons] at h
    rcases mem_cons.mp hx with rfl | hx
    · have hrest : l.filter (fun y => key y ≠ key x) = l :=
        filter_eq_self.mpr fun y hy =>
          decide_eq_true fun e => h.1 (mem_map.mpr ⟨y, hy, e⟩)
      rw [filter_cons_of_neg (by simp), hrest]
    · have hz : key z ≠ key x := fun e => h.1 (mem_map.mpr ⟨x, hx, e.symm⟩)
      rw [filter_cons_of_pos (by simpa using hz)]
      exact ((ih h.2 hx).cons z).trans (List.Perm.swap x z _)

theorem find?_of_mem (h : (l.map key).Nodup) (hx : x ∈ l) :
    l.find? (fun y => key y = key x) = some x := by
  induction l with
  | nil => cases hx
  | cons z l ih =>
    rw [map_cons, nodup_cons] at h
    rcases mem_cons.mp hx with rfl | hx
    · exact find?_cons_of_pos (decide_eq_true rfl)
    · have hz : key z ≠ key x := fun e => h.1 (mem_map.mpr ⟨x, hx, e.symm⟩)
      rw [find?_cons_of_neg (by simpa using hz)]
      exact ih h.2 hx

theorem mem_of_mem_put (h : y ∈ put key x l) : y = x ∨ y ∈ l := by
  induction l with
  | nil => exact .inl (mem_singleton.mp h)
  | cons z l ih =>
    simp only [put] at h
    split at h
    · exact (mem_cons.mp h).imp_right (mem_cons_of_mem _)
    · rcases mem_cons.mp h with rfl | h
      · exact .inr mem_cons_self
      · exact (ih h).imp_right (mem_cons_of_mem _)

theorem mem_of_mem_putAll (h : y ∈ putAll key xs l) : y ∈ xs ∨ y ∈ l := by
  induction xs generalizing l with
  | nil => exact .inr h
  | cons x xs ih =>
    rcases ih h with h | h
    · exact .inl (mem_cons_of_mem _ h)
    · rcases mem_of_mem_put h with rfl | h
      · exact .inl mem_cons_self
      · exact .inr h

theorem nodup_putAll (h : (l.map key).Nodup) : ((putAll key xs l).map key).Nodup := by
  induction xs generalizing l with
  | nil => exact h
  | cons x xs ih => exact ih (nodup_put h)

/-- After elements of distinct keys were put, they are all there, and with them what has none of
their keys. -/
theorem mem_putAll (h : (l.map key).Nodup) (hxs : (xs.map key).Nodup) :
    y ∈ putAll key xs l ↔ y ∈ xs ∨ y ∈ l ∧ key y ∉ xs.map key := by
  induction xs generalizing l with
  | nil => simp [putAll]
  | cons x xs ih =>
    simp only [map_cons, nodup_cons] at hxs
    change y ∈ putAll key xs (put key x l) ↔ _
    rw [ih (nodup_put h) hxs.2, mem_put h, mem_cons, map_cons, mem_cons, not_or]
    constructor
    · rintro (hy | ⟨rfl | ⟨hy, hne⟩, hrest⟩)
      · exact .inl (.inr hy)
      · exact .inl (.inl rfl)
      · exact .inr ⟨hy, hne, hrest⟩
    rintro ((rfl | hy) | ⟨hy, hne, hrest⟩)
    · exact .inr ⟨.inl rfl, hxs.1⟩
    · exact .inl hy
    · exact .inr ⟨.inr ⟨hy, hne⟩, hrest⟩

omit [DecidableEq κ] in
/-- What is left when the element at a place is taken out. -/
theorem mem_eraseIdx_of_nodup (h : (l.map key).Nodup) (hx : l[k]? = some x) :
    y ∈ l.eraseIdx k ↔ y ∈ l ∧ key y ≠ key x := by
  obtain ⟨hk, rfl⟩ := List.getElem?_eq_some_iff.mp hx
  have hperm := List.getElem_cons_eraseIdx_perm hk
  have hnodup := (hperm.map key).nodup_iff.mpr h
  rw [map_cons, nodup_cons] at hnodup
  rw [← hperm.mem_iff, mem_cons]
  constructor
  · intro hy
    exact ⟨.inr hy, fun e => hnodup.1 (mem_map.mpr ⟨y, hy, e⟩)⟩
  · rintro ⟨rfl | hy, hne⟩
    · exact absurd rfl hne
    · exact hy

omit [DecidableEq κ] in
/-- What is there when the element at a place is replaced. -/
theorem mem_set_of_nodup {z : α} (h : (l.map key).Nodup) (hx : l[k]? = some x) :
    y ∈ l.set k z ↔ y = z ∨ y ∈ l ∧ key y ≠ key x := by
  obtain ⟨hk, rfl⟩ := List.getElem?_eq_some_iff.mp hx
  rw [(List.set_perm_cons_eraseIdx hk z).mem_iff, List.mem_cons, mem_eraseIdx_of_nodup h hx]

omit [DecidableEq κ] in
/-- An element is replaced by one of its key. -/
theorem map_set_of_eq {z : α} (hx : l[k]? = some x) (h : key z = key x) :
    (l.set k z).map key = l.map key := by
  induction l generalizing k with
  | nil => rfl
  | cons y l ih =>
    cases k with
    | zero =>
      obtain rfl := Option.some.inj hx
      rw [set_cons_zero, map_cons, map_cons, h]
    | succ k => rw [set_cons_succ, map_cons, map_cons, ih hx]

end Bluetalk

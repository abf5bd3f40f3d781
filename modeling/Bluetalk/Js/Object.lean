import Mathlib.Data.List.Dedup

/-!
# Objects as maps

A plain object used as a map from names to values: its fields in the order of insertion, each name
once. `set` keeps the place of a name that is there and appends a new one, as assignment does.
-/

open List

namespace Bluetalk

variable {α β : Type}

def setField (k : String) (v : α) : List (String × α) → List (String × α)
  | [] => [(k, v)]
  | (l, w) :: fields => if l = k then (k, v) :: fields else (l, w) :: setField k v fields

/-- `delete` of a field. -/
def eraseField (k : String) (fields : List (String × α)) : List (String × α) :=
  fields.filter fun x => x.1 ≠ k

theorem lookup_cons_ite (k l : String) (v : α) (fields : List (String × α)) :
    ((k, v) :: fields).lookup l = if l = k then some v else fields.lookup l := by
  by_cases h : l = k
  · simp [h]
  · simp [lookup_cons, h, beq_eq_false_iff_ne.mpr h]

theorem lookup_setField (k l : String) (v : α) (fields : List (String × α)) :
    (setField k v fields).lookup l = if l = k then some v else fields.lookup l := by
  induction fields with
  | nil => exact lookup_cons_ite k l v []
  | cons x fields ih =>
    obtain ⟨m, w⟩ := x
    simp only [setField]
    by_cases hm : m = k
    · subst hm
      simp only [if_true, lookup_cons_ite]
      split <;> rfl
    simp only [if_neg hm, lookup_cons_ite, ih]
    by_cases hl : l = m
    · subst hl; simp [hm]
    · simp [hl]

theorem lookup_eraseField (k l : String) (fields : List (String × α)) :
    (eraseField k fields).lookup l = if l = k then none else fields.lookup l := by
  induction fields with
  | nil => simp [eraseField]
  | cons x fields ih =>
    obtain ⟨m, w⟩ := x
    simp only [eraseField, filter_cons] at ih ⊢
    by_cases hm : m = k
    · subst hm
      simp only [ne_eq, not_true_eq_false, decide_false, Bool.false_eq_true, if_false, ih,
        lookup_cons_ite]
      split <;> rfl
    simp only [ne_eq, hm, not_false_iff, decide_true, if_true, lookup_cons_ite, ih]
    by_cases hl : l = m
    · subst hl; simp [hm]
    · simp [hl]

theorem map_fst_setField (k : String) (v : α) (fields : List (String × α)) :
    (setField k v fields).map Prod.fst =
      if k ∈ fields.map Prod.fst then fields.map Prod.fst else fields.map Prod.fst ++ [k] := by
  induction fields with
  | nil => simp [setField]
  | cons x fields ih =>
    obtain ⟨m, w⟩ := x
    by_cases hm : m = k
    · subst hm; simp [setField]
    · have : k ≠ m := Ne.symm hm
      simp only [setField, if_neg hm, map_cons, ih, mem_cons, this, false_or]
      split <;> rfl

theorem nodup_setField {k : String} {v : α} {fields : List (String × α)}
    (h : (fields.map Prod.fst).Nodup) : ((setField k v fields).map Prod.fst).Nodup := by
  rw [map_fst_setField]
  split
  · exact h
  · next hk => exact nodup_append.mpr ⟨h, by simp, fun a ha b hb e => hk (by simp_all)⟩

/-- A plain object: every name stands once. -/
structure JsObject (α : Type) where
  fields : List (String × α)
  nodup : (fields.map Prod.fst).Nodup

namespace JsObject

instance [DecidableEq α] : DecidableEq (JsObject α) := fun x y =>
  decidable_of_iff (x.fields = y.fields) (by cases x; cases y; simp)

/-- `{}` -/
def empty : JsObject α := ⟨[], nodup_nil⟩

instance : Inhabited (JsObject α) := ⟨empty⟩

def get? (x : JsObject α) (k : String) : Option α := x.fields.lookup k

/-- `Object.keys(x)` -/
def keys (x : JsObject α) : List String := x.fields.map Prod.fst

/-- `x[k] = v` -/
def set (x : JsObject α) (k : String) (v : α) : JsObject α :=
  ⟨setField k v x.fields, nodup_setField x.nodup⟩

/-- `delete x[k]` -/
def erase (x : JsObject α) (k : String) : JsObject α :=
  ⟨eraseField k x.fields, x.nodup.sublist (filter_sublist.map _)⟩

/-- The object with the given fields, the first of several values of a name. -/
def ofFields (fields : List (String × α)) : JsObject α :=
  fields.foldr (fun x acc => acc.set x.1 x.2) empty

@[simp] theorem get?_empty (k : String) : (empty : JsObject α).get? k = none := rfl

@[simp] theorem get?_set (x : JsObject α) (k l : String) (v : α) :
    (x.set k v).get? l = if l = k then some v else x.get? l := lookup_setField k l v x.fields

@[simp] theorem get?_erase (x : JsObject α) (k l : String) :
    (x.erase k).get? l = if l = k then none else x.get? l := lookup_eraseField k l x.fields

@[simp] theorem get?_ofFields (fields : List (String × α)) (k : String) :
    (ofFields fields).get? k = fields.lookup k := by
  induction fields with
  | nil => rfl
  | cons x fields ih =>
    obtain ⟨m, w⟩ := x
    have : ofFields ((m, w) :: fields) = (ofFields fields).set m w := rfl
    rw [this, get?_set, ih, lookup_cons_ite]

theorem mem_keys {x : JsObject α} {k : String} : k ∈ x.keys ↔ x.get? k ≠ none := by
  rw [keys, get?, ne_eq, lookup_eq_none_iff]
  simp only [mem_map, bne_iff_ne, ne_eq, not_forall, not_not]
  constructor
  · rintro ⟨p, hp, rfl⟩; exact ⟨p, hp, rfl⟩
  · rintro ⟨p, hp, h⟩; exact ⟨p, hp, h.symm⟩

end JsObject
end Bluetalk

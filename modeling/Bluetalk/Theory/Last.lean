import Mathlib.Data.List.Induction

/-!
# The last word of a log

What the last message says, among those that say anything of the matter.
-/

open List Option

namespace Bluetalk

variable {α β : Type*} {f : α → Option β} {l l' : List α} {a : α} {b : β} {after before : List α}

/-- The last `some` that `f` finds along a list. -/
def lastSome (f : α → Option β) (l : List α) : Option β := (l.filterMap f).getLast?

@[simp] theorem lastSome_singleton : lastSome f [a] = f a := by
  rw [lastSome]
  cases h : f a <;> simp [h]

theorem lastSome_append : lastSome f (l ++ l') = (lastSome f l').or (lastSome f l) := by
  rw [lastSome, lastSome, lastSome, filterMap_append, getLast?_append]

theorem lastSome_eq_none : lastSome f l = none ↔ ∀ a ∈ l, f a = none := by
  rw [lastSome, getLast?_eq_none_iff, filterMap_eq_nil_iff]

/-- Silence at the end changes nothing. -/
theorem lastSome_append_of_none (h : ∀ a ∈ l', f a = none) :
    lastSome f (l ++ l') = lastSome f l := by
  rw [lastSome_append, lastSome_eq_none.mpr h, none_or]

/-- And so does silence in between. -/
theorem lastSome_append_append_of_none {m : List α} (h : ∀ a ∈ m, f a = none) :
    lastSome f (l ++ (m ++ l')) = lastSome f (l ++ l') := by
  rw [lastSome_append, lastSome_append (l := m), lastSome_eq_none.mpr h, or_none, lastSome_append]

/-- A word that is said before the others, where the last of these stays the same. -/
theorem lastSome_said (h : lastSome f (before ++ after) = none ∨
      lastSome f (before ++ after) = lastSome f (before ++ a :: after)) :
    lastSome f (l ++ [a] ++ (before ++ after)) = lastSome f (l ++ (before ++ a :: after)) := by
  cases ha : f a with
  | none =>
    have hsilent : ∀ b ∈ [a], f b = none := fun b hb => mem_singleton.mp hb ▸ ha
    rw [append_assoc, lastSome_append_append_of_none hsilent, ← append_assoc l before,
      ← append_assoc l before, append_cons, append_assoc _ [a],
      lastSome_append_append_of_none hsilent]
  | some v =>
    rcases h with h | h
    · -- nothing else is said
      have hnone := lastSome_eq_none.mp h
      rw [lastSome_append_of_none hnone, lastSome_append, lastSome_singleton, ha, some_or,
        lastSome_append, lastSome_append (l := before), ← singleton_append,
        lastSome_append_of_none fun b hb => hnone b (mem_append_right _ hb),
        lastSome_singleton, ha]
      rfl
    · have hsome : lastSome f (before ++ a :: after) ≠ none := by
        rw [Ne, lastSome_eq_none]
        intro hnone
        rw [hnone a (mem_append_right _ mem_cons_self)] at ha
        cases ha
      obtain ⟨w, hw⟩ := ne_none_iff_exists'.mp hsome
      rw [lastSome_append, h, hw, some_or, lastSome_append, hw, some_or]

theorem exists_mem_of_lastSome (h : lastSome f l = some b) : ∃ a ∈ l, f a = some b :=
  mem_filterMap.mp (mem_of_getLast? h)

/-- The last word was said in one part of the log or in the other. -/
theorem lastSome_append_cases (h : lastSome f (l ++ l') = some b) :
    lastSome f l' = some b ∨ lastSome f l' = none ∧ lastSome f l = some b := by
  rw [lastSome_append] at h
  cases h' : lastSome f l' with
  | none => exact .inr ⟨rfl, by rwa [h', none_or] at h⟩
  | some b' => exact .inl (by rwa [h', some_or] at h)

theorem snoc_eq_append_cons_iff {e : α} :
    l ++ [e] = before ++ a :: after ↔
      (∃ after', after = after' ++ [e] ∧ l = before ++ a :: after') ∨
        after = [] ∧ before = l ∧ a = e := by
  rcases eq_nil_or_concat after with rfl | ⟨after', e', rfl⟩
  · constructor
    · intro h
      obtain ⟨hl, he⟩ := append_inj' h rfl
      exact .inr ⟨rfl, hl.symm, (singleton_inj.mp he).symm⟩
    · rintro (⟨after', h, -⟩ | ⟨-, rfl, rfl⟩)
      · exact absurd (congrArg List.length h) (by simp)
      · rfl
  · rw [concat_eq_append, ← cons_append, ← append_assoc]
    constructor
    · intro h
      obtain ⟨hl, he⟩ := append_inj' h rfl
      exact .inl ⟨after', by rw [singleton_inj.mp he], hl⟩
    rintro (⟨after'', h, rfl⟩ | ⟨h, -⟩)
    · obtain ⟨rfl, he⟩ := append_inj' h rfl
      rw [singleton_inj.mp he]
    · exact absurd (congrArg List.length h) (by simp)

/-- Where an entry stands in a log that has one more. -/
theorem snoc_eq_append_cons {e : α} (h : l ++ [e] = before ++ a :: after) :
    (∃ after', l = before ++ a :: after') ∨ before = l ∧ a = e :=
  (snoc_eq_append_cons_iff.mp h).imp (fun ⟨after', _, hl⟩ => ⟨after', hl⟩) fun h => h.2

/-- The last word is followed by silence. -/
theorem lastSome_eq_some : lastSome f l = some b ↔
    ∃ before a after, l = before ++ a :: after ∧ f a = some b ∧ ∀ x ∈ after, f x = none := by
  induction l using List.reverseRecOn with
  | nil =>
    constructor
    · intro h
      cases h
    · rintro ⟨before, a, after, h, -⟩
      exact absurd (congrArg List.length h) (by simp)
  | append_singleton l e ih =>
    rw [lastSome_append, lastSome_singleton]
    cases he : f e with
    | some b' =>
      constructor
      · rintro ⟨⟩
        exact ⟨l, e, [], rfl, he, fun x hx => by cases hx⟩
      rintro ⟨before, a, after, hsplit, ha, hafter⟩
      rcases snoc_eq_append_cons_iff.mp hsplit with ⟨after', rfl, -⟩ | ⟨-, -, rfl⟩
      · have hsilent := hafter e (mem_append_right _ mem_cons_self)
        rw [he] at hsilent
        cases hsilent
      · exact he.symm.trans ha
    | none =>
      rw [none_or, ih]
      constructor
      · rintro ⟨before, a, after, rfl, ha, hafter⟩
        refine ⟨before, a, after ++ [e], by simp, ha, fun x hx => ?_⟩
        rcases mem_append.mp hx with hx | hx
        · exact hafter x hx
        · rwa [mem_singleton.mp hx]
      rintro ⟨before, a, after, hsplit, ha, hafter⟩
      rcases snoc_eq_append_cons_iff.mp hsplit with ⟨after', rfl, rfl⟩ | ⟨-, -, rfl⟩
      · exact ⟨before, a, after', rfl, ha, fun x hx => hafter x (mem_append_left _ hx)⟩
      · rw [he] at ha
        cases ha

/-- The last words of two logs of which one reads like the other -/
theorem lastSome_forall₂ {γ δ : Type*} {g : γ → Option δ} {h : δ → β} {m : List γ}
    (hlm : List.Forall₂ (fun a c => f a = (g c).map h) l m) :
    lastSome f l = (lastSome g m).map h := by
  have hfilter : l.filterMap f = (m.filterMap g).map h := by
    induction hlm with
    | nil => rfl
    | cons hac _ ih =>
      rw [filterMap_cons, filterMap_cons, hac]
      cases g _ with
      | none => exact ih
      | some d => exact congrArg (h d :: ·) ih
  rw [lastSome, lastSome, hfilter, getLast?_map]

end Bluetalk

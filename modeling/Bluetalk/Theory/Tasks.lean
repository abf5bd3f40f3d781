import Mathlib.Data.List.Basic

/-!
# Interleaved tasks

A concurrent program as the list of its unfinished tasks: each task has an owner and the effects it
still has to perform, in order. Any task may perform its next effect; what the effect leaves to be
done takes its place (`advance`), or the task goes to the end of the list (`requeue`). `todo` is
everything that is still to be done, in the order of the list.
-/

open List

namespace Bluetalk

structure Task (ο ε : Type*) where
  owner : Option ο
  todo : List ε
  deriving DecidableEq

namespace Task

variable {ο ε : Type*} {ts : List (Task ο ε)} {t : Task ο ε} {o : Option ο} {k : Nat} {e : ε}
  {es rest : List ε} {ts' : List (Task ο ε)} {o' : Option ο}

/-- A task with something to do; one without is finished. -/
def ofTodo (o : Option ο) : List ε → List (Task ο ε)
  | [] => []
  | e :: es => [⟨o, e :: es⟩]

def spawn (ts : List (Task ο ε)) (o : Option ο) (es : List ε) : List (Task ο ε) :=
  ts ++ ofTodo o es

def advance (ts : List (Task ο ε)) (k : Nat) (o : Option ο) (es : List ε) : List (Task ο ε) :=
  ts.take k ++ ofTodo o es ++ ts.drop (k + 1)

def requeue (ts : List (Task ο ε)) (k : Nat) (o : Option ο) (es : List ε) : List (Task ο ε) :=
  ts.take k ++ ts.drop (k + 1) ++ ofTodo o es

/-- Everything that is still to be done. -/
def allTodo (ts : List (Task ο ε)) : List ε := ts.flatMap (·.todo)

@[simp] theorem allTodo_append :
    allTodo (ts ++ ts') = allTodo ts ++ allTodo ts' := flatMap_append

@[simp] theorem allTodo_ofTodo : allTodo (ofTodo o es) = es := by
  cases es <;> simp [ofTodo, allTodo]

@[simp] theorem allTodo_spawn : allTodo (spawn ts o es) = allTodo ts ++ es := by
  rw [spawn, allTodo_append, allTodo_ofTodo]

theorem mem_ofTodo : t ∈ ofTodo o es ↔ es ≠ [] ∧ t = ⟨o, es⟩ := by
  cases es <;> simp [ofTodo]

/-- The tasks before and after the one at `k`. -/
theorem eq_append (h : ts[k]? = some t) : ts = ts.take k ++ t :: ts.drop (k + 1) := by
  obtain ⟨hk, rfl⟩ := List.getElem?_eq_some_iff.mp h
  rw [← List.drop_eq_getElem_cons hk, List.take_append_drop]

theorem allTodo_eq (h : ts[k]? = some ⟨o, e :: rest⟩) :
    allTodo ts = allTodo (ts.take k) ++ e :: rest ++ allTodo (ts.drop (k + 1)) := by
  conv_lhs => rw [eq_append h]
  rw [allTodo_append, append_assoc]
  rfl

theorem allTodo_advance :
    allTodo (advance ts k o es) = allTodo (ts.take k) ++ es ++ allTodo (ts.drop (k + 1)) := by
  rw [advance, allTodo_append, allTodo_append, allTodo_ofTodo]

theorem allTodo_requeue :
    allTodo (requeue ts k o es) = allTodo (ts.take k) ++ allTodo (ts.drop (k + 1)) ++ es := by
  rw [requeue, allTodo_append, allTodo_append, allTodo_ofTodo]

theorem mem_spawn : t ∈ spawn ts o es ↔ t ∈ ts ∨ es ≠ [] ∧ t = ⟨o, es⟩ := by
  rw [spawn, mem_append, mem_ofTodo]

theorem mem_advance (h : t ∈ advance ts k o es) : t ∈ ts ∨ t = ⟨o, es⟩ := by
  rcases mem_append.mp h with h | h
  · rcases mem_append.mp h with h | h
    · exact .inl (mem_of_mem_take h)
    · exact .inr (mem_ofTodo.mp h).2
  · exact .inl (mem_of_mem_drop h)

theorem mem_requeue (h : t ∈ requeue ts k o es) : t ∈ ts ∨ t = ⟨o, es⟩ := by
  rcases mem_append.mp h with h | h
  · rcases mem_append.mp h with h | h
    · exact .inl (mem_of_mem_take h)
    · exact .inl (mem_of_mem_drop h)
  · exact .inr (mem_ofTodo.mp h).2

theorem mem_allTodo : e ∈ allTodo ts ↔ ∃ t ∈ ts, e ∈ t.todo := mem_flatMap

theorem mem_of_getElem? (h : ts[k]? = some t) : t ∈ ts := List.mem_of_getElem? h

/-- What is left to do, after an effect was taken, was to be done before or came in its place. -/
theorem mem_allTodo_advance {e' : ε} (h : e' ∈ allTodo (advance ts k o es)) :
    e' ∈ es ∨ e' ∈ allTodo ts := by
  obtain ⟨t, ht, he⟩ := mem_allTodo.mp h
  rcases mem_advance ht with ht | rfl
  · exact .inr (mem_allTodo.mpr ⟨t, ht, he⟩)
  · exact .inl he

theorem requeue_perm :
    (allTodo (requeue ts k o es)).Perm (allTodo (advance ts k o es)) := by
  rw [allTodo_requeue, allTodo_advance, append_assoc, append_assoc]
  exact perm_append_comm.append_left _

theorem mem_allTodo_requeue {e' : ε} (h : e' ∈ allTodo (requeue ts k o es)) :
    e' ∈ es ∨ e' ∈ allTodo ts :=
  mem_allTodo_advance (requeue_perm.mem_iff.mp h)

/-- What there was to do is still there, but for the task that went on. -/
theorem mem_allTodo_of_advance {e' : ε} (ht : ts[k]? = some ⟨o, e :: rest⟩)
    (h : e' ∈ allTodo ts) : e' ∈ e :: rest ∨ e' ∈ allTodo (advance ts k o' es) := by
  rw [allTodo_eq ht, mem_append, mem_append] at h
  rw [allTodo_advance, mem_append, mem_append]
  rcases h with (h | h) | h
  · exact .inr (.inl (.inl h))
  · exact .inl h
  · exact .inr (.inr h)

theorem mem_allTodo_of_requeue {e' : ε} (ht : ts[k]? = some ⟨o, e :: rest⟩)
    (h : e' ∈ allTodo ts) : e' ∈ e :: rest ∨ e' ∈ allTodo (requeue ts k o' es) :=
  (mem_allTodo_of_advance ht h).imp_right requeue_perm.mem_iff.mpr

/-! ## Counting -/

section

variable {p : ε → Bool}

theorem countP_spawn :
    (allTodo (spawn ts o es)).countP p = (allTodo ts).countP p + es.countP p := by
  rw [allTodo_spawn, countP_append]

/-- What the task that went on had to do makes way for what it has to do now. -/
theorem countP_advance (h : ts[k]? = some ⟨o, e :: rest⟩) (o' : Option ο) (es : List ε) :
    (allTodo (advance ts k o' es)).countP p + (e :: rest).countP p =
      (allTodo ts).countP p + es.countP p := by
  rw [allTodo_eq h, allTodo_advance]
  simp only [countP_append]
  omega

theorem countP_requeue (h : ts[k]? = some ⟨o, e :: rest⟩) (o' : Option ο) (es : List ε) :
    (allTodo (requeue ts k o' es)).countP p + (e :: rest).countP p =
      (allTodo ts).countP p + es.countP p := by
  rw [requeue_perm.countP_eq, countP_advance h]

end

/-! ## Owners -/

/-- The owners of the unfinished tasks. -/
def owners (ts : List (Task ο ε)) : List ο := ts.filterMap (·.owner)

theorem mem_owners {w : ο} : w ∈ owners ts ↔ ∃ t ∈ ts, t.owner = some w := mem_filterMap

@[simp] theorem owners_append :
    owners (ts ++ ts') = owners ts ++ owners ts' := filterMap_append

theorem owners_ofTodo : (owners (ofTodo o es)).Sublist o.toList := by
  cases es with
  | nil => exact nil_sublist _
  | cons e es => cases o <;> exact List.Sublist.refl _

theorem owners_eq (h : ts[k]? = some t) :
    owners ts = owners (ts.take k) ++ t.owner.toList ++ owners (ts.drop (k + 1)) := by
  conv_lhs => rw [eq_append h]
  cases ho : t.owner <;> simp [owners, ho]

theorem nodup_spawn {w : ο} (H : (owners ts).Nodup) (hw : w ∉ owners ts) :
    (owners (spawn ts (some w) es)).Nodup := by
  rw [spawn, owners_append]
  refine (List.Sublist.append_left owners_ofTodo _).nodup ?_
  refine nodup_append.mpr ⟨H, pairwise_singleton _ _, fun v hv v' hv' => ?_⟩
  rw [mem_singleton.mp hv']
  rintro rfl
  exact hw hv

/-- A task that goes on keeps its owner, or has none any more. -/
theorem nodup_advance (H : (owners ts).Nodup) (h : ts[k]? = some t) (ho : o = t.owner ∨ o = none) :
    (owners (advance ts k o es)).Nodup := by
  rw [owners_eq h] at H
  refine List.Sublist.nodup ?_ H
  rw [advance, owners_append, owners_append]
  refine ((owners_ofTodo.trans ?_).append_left _).append_right _
  rcases ho with rfl | rfl
  · exact List.Sublist.refl _
  · exact nil_sublist _

theorem nodup_requeue (H : (owners ts).Nodup) (h : ts[k]? = some t) :
    (owners (requeue ts k t.owner es)).Nodup := by
  rw [owners_eq h] at H
  rw [requeue, owners_append, owners_append]
  refine (owners_ofTodo.append_left _).nodup ?_
  refine (List.Perm.nodup_iff ?_).mp H
  rw [append_assoc, append_assoc]
  exact perm_append_comm.append_left _

theorem eq_of_owner {t' : Task ο ε} {w : ο} (H : (owners ts).Nodup) (ht : t ∈ ts) (ht' : t' ∈ ts)
    (ho : t.owner = some w) (ho' : t'.owner = some w) : t = t' := by
  induction ts with
  | nil => cases ht
  | cons t₀ ts ih =>
    have hhead : ∀ {t₁ : Task ο ε}, t₁ ∈ ts → t₁.owner = some w → t₀.owner ≠ some w := by
      intro t₁ hmem h₁ h₀
      simp only [owners, filterMap_cons_some h₀, nodup_cons] at H
      exact H.1 (mem_owners.mpr ⟨t₁, hmem, h₁⟩)
    have htail : (owners ts).Nodup := by
      refine List.Sublist.nodup ?_ H
      exact (sublist_cons_self t₀ ts).filterMap _
    rcases mem_cons.mp ht with heq | hmem
    · rcases mem_cons.mp ht' with heq' | hmem'
      · rw [heq, heq']
      · exact absurd (heq ▸ ho) (hhead hmem' ho')
    · rcases mem_cons.mp ht' with heq' | hmem'
      · exact absurd (heq' ▸ ho') (hhead hmem ho)
      · exact ih htail hmem hmem'

end Task
end Bluetalk

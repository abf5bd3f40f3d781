import Mathlib.Data.List.Nodup
import Mathlib.Data.List.TakeDrop

/-!
# Splices

A splice puts a text in the place of a stretch of another. Of two splices of one text, one may be
moved over the other where their stretches do not overlap. The elements of a text are told apart.
-/

open List Option

namespace Bluetalk.Theory

structure Splice (α : Type) where
  pos : Nat
  len : Nat
  text : List α

namespace Splice

variable {α : Type} (e a : Splice α) (t : List α)

def apply : List α := t.take e.pos ++ e.text ++ t.drop (e.pos + e.len)

def InRange : Prop := e.pos + e.len ≤ t.length

/-- The splice as it is after another -/
def moveOver : Option (Splice α) :=
  if a.pos + a.len ≤ e.pos then some { e with pos := e.pos + a.text.length - a.len }
  else if e.pos + e.len ≤ a.pos then some e
  else none

/-- All in turn, each in the range of the text that it finds and with what a text must satisfy -/
def AllInRange (ok : List α → Prop) : List α → List (Splice α) → Prop
  | t, [] => ok t
  | t, a :: as => a.InRange t ∧ ok t ∧ AllInRange ok (a.apply t) as

def applyAll (t : List α) (as : List (Splice α)) : List α := as.foldl (fun t a => a.apply t) t

def moveOverAll (e : Splice α) (as : List (Splice α)) : Option (Splice α) := as.foldlM moveOver e

/-- What a splice of one text is to be for another one: it replaces just the elements that it was
aimed at, and has before it no element that it was put before. -/
structure Intends (e : Splice α) (t : List α) (e' : Splice α) (t' : List α) : Prop where
  text : e'.text = e.text
  len : e'.len = e.len
  inRange : e'.InRange t'
  target : (t'.drop e'.pos).take e'.len = (t.drop e.pos).take e.len
  before : ∀ c ∈ t.take e.pos, c ∉ t'.drop (e'.pos + e'.len)
  after : ∀ c ∈ t.drop (e.pos + e.len), c ∉ t'.take e'.pos

variable {e a t} {e' : Splice α} {as : List (Splice α)} {ok : List α → Prop}

theorem length_apply (h : a.InRange t) : (a.apply t).length + a.len = t.length + a.text.length := by
  rw [InRange] at h
  simp only [apply, length_append, length_take, length_drop]
  omega

/-- What is before a splice stays as it is. -/
theorem take_apply {n : Nat} (h : a.InRange t) (hn : n ≤ a.pos) : (a.apply t).take n = t.take n := by
  rw [InRange] at h
  rw [apply, append_assoc, take_append_of_le_length, take_take, Nat.min_eq_left hn]
  rw [length_take]
  omega

/-- What is behind a splice is moved. -/
theorem drop_apply {n : Nat} (h : a.InRange t) (hn : a.pos + a.len ≤ n) :
    (a.apply t).drop (n + a.text.length - a.len) = t.drop n := by
  rw [InRange] at h
  have hfront : (t.take a.pos ++ a.text).length = a.pos + a.text.length := by
    rw [length_append, length_take]
    omega
  rw [apply, drop_append, hfront, drop_eq_nil_of_le (by omega), nil_append, drop_drop]
  congr 1
  omega

theorem mem_apply {c : α} (h : c ∈ a.apply t) : c ∈ t ∨ c ∈ a.text := by
  simp only [apply, mem_append] at h
  rcases h with (h | h) | h
  · exact .inl (mem_of_mem_take h)
  · exact .inr h
  · exact .inl (mem_of_mem_drop h)

theorem mem_applyAll {c : α} (h : c ∈ applyAll t as) : c ∈ t ∨ c ∈ as.flatMap (·.text) := by
  induction as generalizing t with
  | nil => exact .inl h
  | cons a as ih =>
    rw [flatMap_cons, mem_append]
    rcases ih h with h | h
    · exact (mem_apply h).imp_right .inl
    · exact .inr (.inr h)

theorem nodup_apply {rest : List α} (h : (t ++ (a.text ++ rest)).Nodup) :
    (a.apply t ++ rest).Nodup := by
  have hkept : (t.take a.pos ++ t.drop (a.pos + a.len)).Sublist t := by
    conv_rhs => rw [← take_append_drop a.pos t]
    rw [← drop_drop]
    exact (drop_sublist ..).append_left _
  have hperm : (a.apply t ++ rest).Perm
      (t.take a.pos ++ t.drop (a.pos + a.len) ++ (a.text ++ rest)) := by
    rw [apply, append_assoc, append_assoc, append_assoc]
    refine List.Perm.append_left _ ?_
    rw [← append_assoc, ← append_assoc]
    exact perm_append_comm.append_right _
  exact hperm.nodup_iff.mpr (h.sublist (hkept.append_right _))

theorem nodup_applyAll (h : (t ++ as.flatMap (·.text)).Nodup) : (applyAll t as).Nodup := by
  induction as generalizing t with
  | nil => exact h.of_append_left
  | cons a as ih =>
    exact ih (nodup_apply h)

theorem AllInRange.last (h : AllInRange ok t as) : ok (applyAll t as) := by
  induction as generalizing t with
  | nil => exact h
  | cons a as ih => exact ih h.2.2

theorem Intends.refl (he : e.InRange t) (h : t.Nodup) : Intends e t e t where
  text := rfl
  len := rfl
  inRange := he
  target := rfl
  before _ hc := disjoint_take_drop h (Nat.le_add_right ..) hc
  after _ hc hc' := disjoint_take_drop h (Nat.le_add_right ..) hc' hc

theorem intends_moveOver (he : e.InRange t) (ha : a.InRange t) (h : (t ++ a.text).Nodup)
    (hmove : e.moveOver a = some e') : Intends e t e' (a.apply t) := by
  have hold : t.Nodup := h.of_append_left
  have hnew : (a.apply t).Nodup := by
    have hnew := @nodup_apply _ a t [] (by rwa [append_nil])
    rwa [append_nil] at hnew
  have hlength := length_apply ha
  rw [moveOver] at hmove
  rw [InRange] at he
  split at hmove
  · rename_i hbehind
    obtain rfl := some.inj hmove
    have hpos := drop_apply ha hbehind
    have hend := @drop_apply _ a t (e.pos + e.len) ha (by omega)
    rw [show e.pos + e.len + a.text.length - a.len = e.pos + a.text.length - a.len + e.len by
      omega] at hend
    refine ⟨rfl, rfl, ?_, congrArg (List.take e.len) hpos, fun c hc => ?_, fun c hc hc' => ?_⟩
    · rw [InRange]
      dsimp only
      omega
    · rw [hend]
      exact disjoint_take_drop hold (Nat.le_add_right ..) hc
    · rw [← hend] at hc
      exact disjoint_take_drop hnew (Nat.le_add_right ..) hc' hc
  split at hmove
  · rename_i hbefore
    obtain rfl := some.inj hmove
    have hpos := @take_apply _ a t e.pos ha (by omega)
    have hend := take_apply ha hbefore
    refine ⟨rfl, rfl, ?_, ?_, fun c hc => ?_, fun c hc hc' => ?_⟩
    · rw [InRange] at ha ⊢
      omega
    · have htarget := congrArg (List.drop e.pos) hend
      rwa [drop_take, drop_take, Nat.add_sub_cancel_left] at htarget
    · rw [← hpos] at hc
      exact disjoint_take_drop hnew (Nat.le_add_right ..) hc
    · rw [hpos] at hc'
      exact disjoint_take_drop hold (Nat.le_add_right ..) hc' hc
  · cases hmove

theorem eq_take_target_drop (e : Splice α) (t : List α) :
    t = t.take e.pos ++ ((t.drop e.pos).take e.len ++ t.drop (e.pos + e.len)) := by
  rw [← drop_drop, take_append_drop, take_append_drop]

theorem Intends.trans {e₁ : Splice α} {t₁ t' : List α} (h : Intends e t e₁ t₁)
    (h' : Intends e₁ t₁ e' t') (hold : t.Nodup) (hkept : ∀ c ∈ t, c ∈ t' → c ∈ t₁) :
    Intends e t e' t' := by
  refine ⟨h'.text.trans h.text, h'.len.trans h.len, h'.inRange, h'.target.trans h.target, fun c hc hc' => ?_,
    fun c hc hc' => ?_⟩
  · have hmem := hkept c (mem_of_mem_take hc) (mem_of_mem_drop hc')
    rw [eq_take_target_drop e₁ t₁, mem_append, mem_append, h.target] at hmem
    rcases hmem with hmem | hmem | hmem
    · exact h'.before c hmem hc'
    · exact disjoint_take_drop hold (Nat.le_refl _) hc (mem_of_mem_take hmem)
    · exact h.before c hc hmem
  · have hmem := hkept c (mem_of_mem_drop hc) (mem_of_mem_take hc')
    rw [eq_take_target_drop e₁ t₁, mem_append, mem_append, h.target] at hmem
    rcases hmem with hmem | hmem | hmem
    · exact h.after c hc hmem
    · rw [← Nat.add_sub_cancel_left (n := e.pos) (m := e.len), ← drop_take] at hmem
      exact disjoint_take_drop hold (Nat.le_refl _) (mem_of_mem_drop hmem) hc
    · exact h'.after c hmem hc'

theorem intends_moveOverAll (he : e.InRange t) (hall : AllInRange ok t as)
    (h : (t ++ as.flatMap (·.text)).Nodup) (hmove : e.moveOverAll as = some e') :
    Intends e t e' (applyAll t as) := by
  induction as generalizing e t with
  | nil =>
    obtain rfl := some.inj hmove
    exact .refl he h.of_append_left
  | cons a as ih =>
    obtain ⟨e₁, he₁, hmove⟩ := bind_eq_some_iff.mp hmove
    have hfirst := intends_moveOver he hall.1
      (h.sublist ((sublist_append_left ..).append_left _)) he₁
    refine hfirst.trans (ih hfirst.inRange hall.2.2 (nodup_apply h) hmove) h.of_append_left ?_
    intro c hc hc'
    refine (@mem_applyAll _ (a.apply t) as c hc').resolve_right fun hnew => ?_
    exact (nodup_append.mp h).2.2 c hc c (mem_append_right _ hnew) rfl

end Splice
end Bluetalk.Theory

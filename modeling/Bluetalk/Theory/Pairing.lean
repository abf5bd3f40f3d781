import Mathlib.Data.Option.Basic

/-!
# Pairings

A pairing joins ends two by two. Each end of a pair has a role, and the roles of the two ends
mirror each other, so that what one end knows of the other is what the other knows of it. Pairs
are made between free ends (`link`), undone from either end (`unlink`) and undone wherever they
touch a set of ends (`drop`).
-/

open Option

namespace Bluetalk

variable {κ ε : Type*} {mirror : κ → κ}

structure Pairing (mirror : κ → κ) (ε : Type*) where
  slot : ε → Option (κ × ε)
  symm : slot a = some (k, b) → slot b = some (mirror k, a)

namespace Pairing

variable {P : Pairing mirror ε} {k : κ} {a b c : ε}

/-- The pair of an end and the pair of its partner are one. -/
theorem slot_ne_of_ne (h : P.slot a = some (k, b)) (hc : c ≠ a) (hcb : c ≠ b)
    (hslot : P.slot c = some (k', d)) : d ≠ a ∧ d ≠ b := by
  constructor
  · rintro rfl
    have := P.symm hslot
    rw [h] at this
    exact hcb (congrArg Prod.snd (some.inj this)).symm
  rintro rfl
  have := P.symm hslot
  rw [P.symm h] at this
  exact hc (congrArg Prod.snd (some.inj this)).symm

variable [DecidableEq ε]

def unlink (P : Pairing mirror ε) (a : ε) : Pairing mirror ε where
  slot c := match P.slot a with
    | none => P.slot c
    | some (_, b) => if c = a ∨ c = b then none else P.slot c
  symm {c k' d} H := by
    cases ha : P.slot a with
    | none => rw [ha] at H; exact P.symm H
    | some p =>
      simp only [ha] at H ⊢
      split at H
      · cases H
      next hc =>
      obtain ⟨hca, hcb⟩ := not_or.mp hc
      obtain ⟨hda, hdb⟩ := slot_ne_of_ne ha hca hcb H
      rw [if_neg (not_or.mpr ⟨hda, hdb⟩)]
      exact P.symm H

theorem slot_unlink (h : P.slot a = some (k, b)) :
    (P.unlink a).slot c = if c = a ∨ c = b then none else P.slot c := by
  simp only [unlink, h]

def link (P : Pairing mirror ε) (hmirror : ∀ k, mirror (mirror k) = k) (k : κ) (a b : ε)
    (ha : P.slot a = none) (hb : P.slot b = none) (hab : a ≠ b) : Pairing mirror ε where
  slot c := if c = a then some (k, b) else if c = b then some (mirror k, a) else P.slot c
  symm {c k' d} H := by
    split at H
    next hc =>
      cases H; subst hc
      rw [if_neg hab.symm, if_pos rfl]
    next hca =>
    split at H
    next hcb =>
      cases H; subst hcb
      rw [if_pos rfl, hmirror]
    next hcb =>
    have hd := P.symm H
    have hda : d ≠ a := by rintro rfl; rw [ha] at hd; cases hd
    have hdb : d ≠ b := by rintro rfl; rw [hb] at hd; cases hd
    rw [if_neg hda, if_neg hdb]
    exact hd

def drop (P : Pairing mirror ε) (S : ε → Prop) [DecidablePred S] : Pairing mirror ε where
  slot c := if S c then none else (P.slot c).filter fun p => ¬ S p.2
  symm {c k' d} H := by
    split at H
    · cases H
    next hc =>
    simp only [filter_eq_some_iff, decide_eq_true_eq] at H
    rw [if_neg H.2, P.symm H.1]
    simp [hc]

end Pairing
end Bluetalk

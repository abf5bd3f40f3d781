import Bluetalk.Js.Json
import Bluetalk.Js.Object

/-!
# Values at paths

`atPath` goes down the objects of a value by the names of a path. Two values are the same if they
have the same at every path, whatever the order of the fields of an object. A value is put at a path,
or taken from it, if it is all that changes but for the objects on the way.
-/

open List Option

namespace Bluetalk

namespace Json

def atPath : Json → List String → Option Json
  | x, [] => some x
  | .obj fields, k :: path => (fields.lookup k).bind fun x => x.atPath path
  | _, _ :: _ => none

/-- An object counts as one, whatever its fields. -/
def outline : Option Json → Option Json
  | some (.obj _) => some (.obj [])
  | x => x

/-- The same but for the order of fields. -/
def Same (x y : Json) : Prop := ∀ path, outline (x.atPath path) = outline (y.atPath path)

end Json

/-- What stands where: nothing, or a value. -/
abbrev Reader := List String → Option Json

namespace Reader

open Json

def Alike (f g : Reader) : Prop := ∀ path, outline (f path) = outline (g path)

/-- Neither path leads to the other. -/
def Unrelated (p q : List String) : Prop := ¬ p <+: q ∧ ¬ q <+: p

instance (p q : List String) : Decidable (Unrelated p q) := inferInstanceAs (Decidable (_ ∧ _))

/-- `g` is `f` with `x` put at `p`. -/
structure Puts (f g : Reader) (p : List String) (x : Json) : Prop where
  inside : ∀ q, g (p ++ q) = x.atPath q
  above : ∀ q, q <+: p → q ≠ p → ∃ fields, g q = some (.obj fields)
  outside : ∀ q, Unrelated p q → g q = f q

/-- `g` is `f` with what is at `p` taken from it. -/
structure Takes (f g : Reader) (p : List String) : Prop where
  inside : ∀ q, g (p ++ q) = none
  above : ∀ q, q <+: p → q ≠ p → outline (g q) = outline (f q)
  outside : ∀ q, Unrelated p q → g q = f q

variable {f f' g g' h : Reader} {p q : List String} {x : Json}

theorem Alike.refl (f : Reader) : Alike f f := fun _ => rfl

theorem cases_path (p q : List String) :
    (∃ r, q = p ++ r) ∨ (q <+: p ∧ q ≠ p) ∨ Unrelated p q := by
  by_cases hpq : p <+: q
  · obtain ⟨r, rfl⟩ := hpq
    exact .inl ⟨r, rfl⟩
  · by_cases hqp : q <+: p
    · exact .inr (.inl ⟨hqp, fun heq => hpq (heq ▸ prefix_refl p)⟩)
    · exact .inr (.inr ⟨hpq, hqp⟩)

theorem Puts.alike (h : Alike f f') (hg : Puts f g p x) (hg' : Puts f' g' p x) : Alike g g' := by
  intro q
  rcases cases_path p q with ⟨r, rfl⟩ | ⟨hpre, hne⟩ | hother
  · rw [hg.inside, hg'.inside]
  · obtain ⟨fields, hq⟩ := hg.above q hpre hne
    obtain ⟨fields', hq'⟩ := hg'.above q hpre hne
    rw [hq, hq']
    rfl
  · rw [hg.outside q hother, hg'.outside q hother]
    exact h q

theorem Takes.alike (h : Alike f f') (hg : Takes f g p) (hg' : Takes f' g' p) : Alike g g' := by
  intro q
  rcases cases_path p q with ⟨r, rfl⟩ | ⟨hpre, hne⟩ | hother
  · rw [hg.inside, hg'.inside]
  · rw [hg.above q hpre hne, hg'.above q hpre hne]
    exact h q
  · rw [hg.outside q hother, hg'.outside q hother]
    exact h q

theorem Puts.at_path (h : Puts f g p x) : g p = some x := by
  have hinside := h.inside []
  rw [append_nil] at hinside
  rw [hinside]
  cases x <;> rfl

theorem Takes.at_path (h : Takes f g p) : g p = none := by
  have hinside := h.inside []
  rwa [append_nil] at hinside

theorem outline_eq_none {x : Option Json} : outline x = none ↔ x = none := by
  cases x with
  | none => exact iff_of_true rfl rfl
  | some x => cases x <;> exact iff_of_false nofun nofun

theorem Alike.eq_none_iff (h : Alike f g) : f p = none ↔ g p = none := by
  rw [← outline_eq_none, h p, outline_eq_none]

end Reader

namespace Json

variable {x : Json} {fields : List (String × Json)} {k : String} {path path' : List String}

@[simp] theorem atPath_nil : x.atPath [] = some x := by
  cases x <;> rfl

@[simp] theorem atPath_obj_cons :
    (Json.obj fields).atPath (k :: path) = (fields.lookup k).bind fun x => x.atPath path := rfl

theorem atPath_append (x : Json) :
    x.atPath (path ++ path') = (x.atPath path).bind fun y => y.atPath path' := by
  induction path generalizing x with
  | nil => rw [nil_append, atPath_nil, bind_some]
  | cons k path ih =>
    cases x with
    | obj fields =>
      rw [cons_append, atPath_obj_cons, atPath_obj_cons, bind_assoc]
      exact congrArg _ (funext ih)
    | _ => rfl

end Json

/-! ### The fields of one object -/

namespace Reader

open Json

/-- The fields of a value that is an object. -/
def fieldsOf : Option Json → List (String × Json)
  | some (.obj fields) => fields
  | _ => []

/-- What stands where below a value. -/
def below (root : Option Json) : Reader := fun path => root.bind fun x => x.atPath path

variable {f : Reader} {root root' : Option Json} {fields : List (String × Json)} {k l : String}
  {p q rest : List String} {x child : Json}

@[simp] theorem below_some : below (some x) = x.atPath := rfl

theorem below_nil : below root [] = root := by
  cases root with
  | none => rfl
  | some x => exact atPath_nil

theorem below_cons : below root (k :: p) = below ((fieldsOf root).lookup k) p := by
  cases root with
  | none => rfl
  | some x => cases x <;> rfl

theorem unrelated_cons : Unrelated (k :: p) (l :: q) ↔ k ≠ l ∨ Unrelated p q := by
  rw [Unrelated, Unrelated, cons_prefix_cons, cons_prefix_cons, eq_comm (a := l)]
  by_cases h : k = l <;> simp [h]

theorem unrelated_nil : ¬ Unrelated p [] := fun h => h.2 nil_prefix

theorem not_nil_unrelated : ¬ Unrelated [] p := fun h => h.1 nil_prefix

theorem Puts.whole : Puts f x.atPath [] x where
  inside _ := rfl
  above _ hpre hne := absurd (prefix_nil.mp hpre) hne
  outside _ hother := absurd hother not_nil_unrelated

theorem Takes.whole : Takes f (below none) [] where
  inside _ := rfl
  above _ hpre hne := absurd (prefix_nil.mp hpre) hne
  outside _ hother := absurd hother not_nil_unrelated

theorem Puts.congr {f' g : Reader} (h : Puts f g p x) (hf : ∀ q, q ≠ [] → f q = f' q) :
    Puts f' g p x where
  inside := h.inside
  above := h.above
  outside q hother := by
    rw [h.outside q hother]
    exact hf q fun hnil => unrelated_nil (hnil ▸ hother)

theorem atPath_setField : (Json.obj (setField k child fields)).atPath (k :: q) = child.atPath q := by
  rw [atPath_obj_cons, lookup_setField, if_pos rfl, bind_some]

theorem outside_setField
    (h : ∀ q, Unrelated rest q → child.atPath q = below ((fieldsOf root).lookup k) q)
    (hother : Unrelated (k :: rest) q) :
    (Json.obj (setField k child (fieldsOf root))).atPath q = below root q := by
  cases q with
  | nil => exact absurd hother unrelated_nil
  | cons l q =>
    rw [atPath_obj_cons, lookup_setField, below_cons]
    split
    · next hl =>
      subst hl
      exact h q ((unrelated_cons.mp hother).resolve_left fun h => h rfl)
    · rfl

theorem Puts.field (h : Puts (below ((fieldsOf root).lookup k)) child.atPath rest x) :
    Puts (below root) (Json.obj (setField k child (fieldsOf root))).atPath (k :: rest) x where
  inside q := atPath_setField.trans (h.inside q)
  above q hpre hne := by
    cases q with
    | nil => exact ⟨_, atPath_nil⟩
    | cons l q =>
      obtain ⟨rfl, hrest⟩ := cons_prefix_cons.mp hpre
      rw [atPath_setField]
      exact h.above q hrest fun heq => hne (heq ▸ rfl)
  outside _ := outside_setField h.outside

theorem Takes.here : Takes (below (some (.obj fields))) (Json.obj (eraseField k fields)).atPath [k] where
  inside q := by
    rw [singleton_append, atPath_obj_cons, lookup_eraseField, if_pos rfl]
    rfl
  above q hpre hne := by
    cases q with
    | nil => rw [atPath_nil, below_nil]; rfl
    | cons l q =>
      obtain ⟨rfl, hnil⟩ := cons_prefix_cons.mp hpre
      exact absurd (prefix_nil.mp hnil ▸ rfl) hne
  outside q hother := by
    cases q with
    | nil => exact absurd hother unrelated_nil
    | cons l q =>
      have hl : l ≠ k := fun heq => by
        subst heq
        exact not_nil_unrelated ((unrelated_cons.mp hother).resolve_left fun h => h rfl)
      rw [atPath_obj_cons, lookup_eraseField, if_neg hl]
      rfl

theorem Takes.field (h : Takes (below (fields.lookup k)) child.atPath rest) :
    Takes (below (some (.obj fields))) (Json.obj (setField k child fields)).atPath (k :: rest) where
  inside q := atPath_setField.trans (h.inside q)
  above q hpre hne := by
    cases q with
    | nil => rw [atPath_nil, below_nil]; rfl
    | cons l q =>
      obtain ⟨rfl, hrest⟩ := cons_prefix_cons.mp hpre
      rw [atPath_setField]
      exact h.above q hrest fun heq => hne (heq ▸ rfl)
  outside _ := @outside_setField (some (.obj fields)) _ _ _ _ h.outside

end Reader
end Bluetalk

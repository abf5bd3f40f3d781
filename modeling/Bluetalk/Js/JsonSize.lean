import Bluetalk.Js.Text
import Bluetalk.Js.Object
import Mathlib.Algebra.Order.BigOperators.Group.List
import Mathlib.Algebra.Order.Group.Nat

/-!
# The size of a value

How deep a value is nested and how long its text is, and that neither grows when a field of an object
is deleted or gets a smaller value.
-/

open List

namespace Bluetalk

namespace Json

mutual
def depth : Json → Nat
  | .arr items => depthItems items + 1
  | .obj fields => depthFields fields + 1
  | .null | .bool _ | .num _ | .str _ => 0

def depthItems : List Json → Nat
  | [] => 0
  | x :: items => max x.depth (depthItems items)

def depthFields : List (String × Json) → Nat
  | [] => 0
  | (_, x) :: fields => max x.depth (depthFields fields)
end

/-- Neither deeper nor longer. -/
def NoBigger (x y : Json) : Prop := x.depth ≤ y.depth ∧ jsonBytes x ≤ jsonBytes y

variable {fields : List (String × Json)} {k : String} {x y : Json}

theorem depthFields_le_iff {n : Nat} : depthFields fields ≤ n ↔ ∀ f ∈ fields, f.2.depth ≤ n := by
  induction fields with
  | nil => exact iff_of_true (Nat.zero_le n) fun _ h => absurd h not_mem_nil
  | cons f fields ih => rw [depthFields, max_le_iff, ih, forall_mem_cons]

/-! ### The length of the text of an object -/

theorem utf8ByteSize_intercalate (texts : List String) :
    (",".intercalate texts).utf8ByteSize = (texts.map fun t => t.utf8ByteSize + 1).sum - 1 := by
  induction texts with
  | nil => rfl
  | cons t texts ih =>
    cases texts with
    | nil => rw [String.intercalate_singleton]; rfl
    | cons u texts =>
      have hcomma : ",".utf8ByteSize = 1 := rfl
      rw [String.intercalate_cons_cons, String.utf8ByteSize_append, String.utf8ByteSize_append, ih,
        hcomma]
      simp only [map_cons, sum_cons]
      omega

/-- What a field takes, with the comma before the next. -/
def fieldBytes (f : String × Json) : Nat := (quoted f.1).utf8ByteSize + jsonBytes f.2 + 2

theorem map_stringifyFields (fields : List (String × Json)) :
    (stringifyFields fields).map (fun t => t.utf8ByteSize + 1) = fields.map fieldBytes := by
  induction fields with
  | nil => rfl
  | cons f fields ih =>
    have hcolon : ":".utf8ByteSize = 1 := rfl
    rw [stringifyFields, map_cons, map_cons, ih, String.utf8ByteSize_append,
      String.utf8ByteSize_append, hcolon, fieldBytes, jsonBytes]
    congr 1
    omega

theorem jsonBytes_obj (fields : List (String × Json)) :
    jsonBytes (.obj fields) = (fields.map fieldBytes).sum - 1 + 2 := by
  have hopen : "\x7b".utf8ByteSize = 1 := rfl
  have hclose : "\x7d".utf8ByteSize = 1 := rfl
  rw [jsonBytes, stringify, String.utf8ByteSize_append, String.utf8ByteSize_append, hopen, hclose,
    utf8ByteSize_intercalate, map_stringifyFields]
  omega

/-! ### Smaller objects -/

theorem mem_setField {f : String × Json} (h : f ∈ setField k x fields) : f = (k, x) ∨ f ∈ fields := by
  induction fields with
  | nil => exact .inl (mem_singleton.mp h)
  | cons g fields ih =>
    rw [setField] at h
    split at h
    · exact (mem_cons.mp h).imp_right (mem_cons_of_mem _)
    · rcases mem_cons.mp h with rfl | h
      · exact .inr mem_cons_self
      · exact (ih h).imp_right (mem_cons_of_mem _)

theorem mem_of_lookup (h : fields.lookup k = some x) : (k, x) ∈ fields := by
  induction fields with
  | nil => exact absurd h nofun
  | cons g fields ih =>
    rw [lookup_cons_ite] at h
    split at h
    · next heq =>
      cases h
      exact heq ▸ mem_cons_self
    · exact mem_cons_of_mem _ (ih h)

theorem sum_setField_le (hx : fields.lookup k = some x) (h : jsonBytes y ≤ jsonBytes x) :
    ((setField k y fields).map fieldBytes).sum ≤ (fields.map fieldBytes).sum := by
  induction fields with
  | nil => exact absurd hx nofun
  | cons g fields ih =>
    obtain ⟨l, z⟩ := g
    rw [lookup_cons_ite] at hx
    rw [setField]
    by_cases hl : l = k
    · subst hl
      rw [if_pos rfl] at hx
      cases hx
      have hfield : fieldBytes (l, y) ≤ fieldBytes (l, x) :=
        Nat.add_le_add_right (Nat.add_le_add_left h _) 2
      rw [if_pos rfl, map_cons, map_cons, sum_cons, sum_cons]
      exact Nat.add_le_add_right hfield _
    · rw [if_neg fun heq => hl heq.symm] at hx
      rw [if_neg hl, map_cons, map_cons, sum_cons, sum_cons]
      exact Nat.add_le_add_left (ih hx) _

theorem noBigger_eraseField : NoBigger (.obj (eraseField k fields)) (.obj fields) := by
  constructor
  · have hle := depthFields_le_iff.mp (le_refl (depthFields fields))
    exact Nat.succ_le_succ (depthFields_le_iff.mpr fun f hf => hle f (mem_of_mem_filter hf))
  rw [jsonBytes_obj, jsonBytes_obj]
  have hsum := (filter_sublist (p := fun f => decide (f.1 ≠ k)) (l := fields)).map fieldBytes
  have hle := hsum.sum_le_sum fun _ _ => Nat.zero_le _
  rw [eraseField]
  omega

theorem noBigger_setField (hx : fields.lookup k = some x) (h : NoBigger y x) :
    NoBigger (.obj (setField k y fields)) (.obj fields) := by
  constructor
  · have hle := depthFields_le_iff.mp (le_refl (depthFields fields))
    apply Nat.succ_le_succ
    rw [depthFields_le_iff]
    intro f hf
    rcases mem_setField hf with rfl | hf
    · exact h.1.trans (hle _ (mem_of_lookup hx))
    · exact hle f hf
  · rw [jsonBytes_obj, jsonBytes_obj]
    have hle := sum_setField_le hx h.2
    omega

end Json
end Bluetalk

import Bluetalk.Js.JsonPath
import Bluetalk.Storage.KvStore

/-!
# Nested values

What the helpers for nested keys do to a value: both clients put a value at a path and take it from
there. They differ where the path of a read or of a delete ends in a name that every object inherits.
-/

open List Option

namespace Bluetalk.Storage
open Reader

/-- The path ends in a name that the object there only inherits. -/
def inherits : Option Json → List String → Bool
  | some (.obj fields), [k] => (fields.lookup k).isNone && k ∈ prototypeNames
  | some (.obj fields), k :: l :: path => inherits (fields.lookup k) (l :: path)
  | _, _ => false

/-- What a delete at `path` comes to: there is nothing, or it is taken. -/
def Deletes (root : Option Json) (path : List String) : Option Json → Prop
  | none => below root path = none
  | some next => Takes (below root) next.atPath path

variable {root r : Option Json} {path : List String}

theorem below_eq_none_of_fields (h : ∀ fields, root ≠ some (.obj fields)) (hpath : path ≠ []) :
    below root path = none := by
  cases path with
  | nil => exact absurd rfl hpath
  | cons k path =>
    cases root with
    | none => rfl
    | some x =>
      cases x with
      | obj fields => exact absurd rfl (h fields)
      | _ => rfl

theorem Deletes.field {fields : List (String × Json)} {k : String} {rest : List String}
    (h : Deletes (fields.lookup k) rest r) :
    Deletes (some (.obj fields)) (k :: rest) (r.map fun next => .obj (setField k next fields)) := by
  cases r with
  | none =>
    have hcons : below (some (.obj fields)) (k :: rest) = none := below_cons.trans h
    exact hcons
  | some next => exact Takes.field h

theorem inherits_of_below (h : below root path ≠ none) : inherits root path = false := by
  induction path generalizing root with
  | nil =>
    cases root with
    | none => rfl
    | some x => cases x <;> rfl
  | cons k path ih =>
    cases root with
    | none => rfl
    | some x =>
      cases x with
      | obj fields =>
        cases path with
        | nil =>
          have hne : fields.lookup k ≠ none := fun hnone => h (below_nil.trans hnone)
          rw [inherits, ← not_isSome, isSome_iff_ne_none.mpr hne]
          rfl
        | cons l path => exact ih h
      | _ => rfl

/-! ### In the browser -/

/-- What a value is, but for what it inherits. -/
def JsValue.own : JsValue → Option Json
  | json x => some x
  | undefined | function _ => none

@[simp] theorem JsValue.own_ofOption (x : Option Json) : (ofOption x).own = x := by
  cases x <;> rfl

theorem JsValue.fields_eq (v : JsValue) : v.fields = fieldsOf v.own := by
  cases v with
  | json x => cases x <;> rfl
  | _ => rfl

namespace Idb

variable {fields : List (String × Json)} {k : String} {value : Json} {root : JsValue}

theorem own_readField : (readField fields k).own = fields.lookup k := by
  unfold readField
  cases fields.lookup k with
  | some x => rfl
  | none =>
    dsimp only
    split <;> rfl

theorem hasField_eq (h : inherits (some (.obj fields)) [k] = false) :
    hasField fields k = (fields.lookup k).isSome := by
  rw [hasField, readField]
  cases hk : fields.lookup k with
  | some x => rfl
  | none =>
    have hproto : k ∉ prototypeNames := by simpa [inherits, hk] using h
    rw [if_neg hproto]
    rfl

theorem readField_eq (h : inherits (some (.obj fields)) [k] = false) :
    readField fields k = .ofOption (fields.lookup k) := by
  rw [readField]
  cases hk : fields.lookup k with
  | some x => rfl
  | none =>
    have hproto : k ∉ prototypeNames := by simpa [inherits, hk] using h
    exact if_neg hproto

theorem setNested_puts : Puts (below root.own) (setNested root path value).atPath path value := by
  induction root, path, value using setNested.induct with
  | case1 => exact Puts.whole
  | case2 root k value =>
    rw [setNested, JsValue.fields_eq]
    exact Puts.field Puts.whole
  | case3 root k l path value ih =>
    rw [setNested, JsValue.fields_eq] at *
    rw [own_readField] at ih
    exact ih.field

theorem deleteNested_of_not_obj (h : ∀ fields, root ≠ .json (.obj fields)) :
    deleteNested root path = none := by
  rw [deleteNested.eq_def]
  split
  · next fields k => exact absurd rfl (h fields)
  · next fields k l path => exact absurd rfl (h fields)
  · rfl

theorem walk_of_not_obj (h : ∀ fields, root ≠ .json (.obj fields)) (hpath : path ≠ []) :
    walk root path = .undefined := by
  rw [walk.eq_def]
  split
  · exact absurd rfl hpath
  · next fields k path => exact absurd rfl (h fields)
  · rfl

theorem own_ne_obj (h : ∀ fields, root ≠ .json (.obj fields)) (fields : List (String × Json)) :
    root.own ≠ some (.obj fields) := by
  intro heq
  cases root with
  | json x => exact h fields (congrArg JsValue.json (some.inj heq))
  | _ => cases heq

theorem deleteNested_deletes (root : JsValue) (hpath : path ≠ []) :
    Deletes root.own path (deleteNested root path) := by
  induction path generalizing root with
  | nil => exact absurd rfl hpath
  | cons k path ih =>
    by_cases hobj : ∃ fields, root = .json (.obj fields)
    · obtain ⟨fields, rfl⟩ := hobj
      cases path with
      | nil =>
        rw [deleteNested]
        split
        · exact Takes.here
        next hfield =>
        have hundefined : readField fields k = .undefined := by
          by_contra hne
          exact hfield (decide_eq_true hne)
        have hnone : below (some (.obj fields)) [k] = none := by
          rw [below_cons, below_nil]
          exact own_readField.symm.trans (congrArg JsValue.own hundefined)
        exact hnone
      | cons l path =>
        have hchild := @ih (readField fields k) (cons_ne_nil l path)
        rw [own_readField] at hchild
        exact hchild.field
    · have hobj' : ∀ fields, root ≠ .json (.obj fields) := not_exists.mp hobj
      rw [deleteNested_of_not_obj hobj']
      exact below_eq_none_of_fields (own_ne_obj hobj') hpath

theorem below_of_deleteNested (root : JsValue) {next : Json} (h : inherits root.own path = false)
    (hnext : deleteNested root path = some next) : below root.own path ≠ none := by
  induction path generalizing root next with
  | nil =>
    rw [deleteNested.eq_def] at hnext
    split at hnext <;> contradiction
  | cons k path ih =>
    by_cases hobj : ∃ fields, root = .json (.obj fields)
    · obtain ⟨fields, rfl⟩ := hobj
      cases path with
      | nil =>
        rw [deleteNested, hasField_eq h] at hnext
        split at hnext
        · next hsome =>
          rw [JsValue.own, below_cons, below_nil]
          exact isSome_iff_ne_none.mp hsome
        · cases hnext
      | cons l path =>
        obtain ⟨child, hchild, -⟩ := map_eq_some_iff.mp hnext
        have hbelow := @ih (readField fields k) child (by rw [own_readField]; exact h) hchild
        rw [own_readField] at hbelow
        exact fun hnone => hbelow (below_cons.symm.trans hnone)
    · rw [deleteNested_of_not_obj (not_exists.mp hobj)] at hnext
      cases hnext

theorem walk_eq (h : inherits root.own path = false) (hpath : path ≠ []) :
    walk root path = .ofOption (below root.own path) := by
  induction path generalizing root with
  | nil => exact absurd rfl hpath
  | cons k path ih =>
    by_cases hobj : ∃ fields, root = .json (.obj fields)
    · obtain ⟨fields, rfl⟩ := hobj
      have hstep : walk (.json (.obj fields)) (k :: path) =
        if hasField fields k then walk (readField fields k) path else .undefined := rfl
      have hbelow : below (JsValue.json (.obj fields)).own (k :: path) =
        below (fields.lookup k) path := below_cons
      rw [hstep, hbelow]
      cases path with
      | nil =>
        rw [hasField_eq h, readField_eq h, below_nil]
        cases fields.lookup k <;> rfl
      | cons l path =>
        have hchild := @ih (readField fields k) (by rw [own_readField]; exact h)
          (cons_ne_nil l path)
        rw [own_readField] at hchild
        split
        · exact hchild
        next hfield =>
        rw [Bool.not_eq_true, hasField, decide_eq_false_iff_not, not_not] at hfield
        rw [← own_readField, hfield]
        rfl
    · have hobj' : ∀ fields, root ≠ .json (.obj fields) := not_exists.mp hobj
      rw [walk_of_not_obj hobj' hpath, below_eq_none_of_fields (own_ne_obj hobj') hpath]
      rfl

theorem walk_json (x : Json) (h : inherits (some x) path = false) :
    walk (.json x) path = .ofOption (x.atPath path) := by
  cases path with
  | nil => rw [walk, Json.atPath_nil]; rfl
  | cons k path => exact walk_eq h (cons_ne_nil k path)

end Idb

/-! ### On the desktop -/

namespace Database

variable {value root : Json}

theorem walk_eq (value : Json) : walk value path = value.atPath path := by
  induction path generalizing value with
  | nil => rw [walk, Json.atPath_nil]
  | cons k path ih =>
    cases value with
    | obj fields => exact congrArg _ (funext ih)
    | _ => rfl

theorem objectFields_eq (x : Json) : objectFields x = fieldsOf (some x) := by
  cases x <;> rfl

theorem below_getD_obj {x : Option Json} {q : List String} (hq : q ≠ []) :
    (x.getD (.obj [])).atPath q = below x q := by
  cases x with
  | some x => rfl
  | none =>
    cases q with
    | nil => exact absurd rfl hq
    | cons k q => rfl

theorem setNested_puts : Puts root.atPath (setNested root path value).atPath path value := by
  induction root, path, value using setNested.induct with
  | case1 => exact Puts.whole
  | case2 root k value =>
    rw [setNested, objectFields_eq]
    rw [← below_some (x := root)]
    exact Puts.whole.field
  | case3 root k l path value child ih =>
    have hchild : child = ((fieldsOf (some root)).lookup k).getD (.obj []) := by
      rw [← objectFields_eq]
    rw [setNested, objectFields_eq, ← hchild]
    exact (ih.congr fun q hq => hchild ▸ below_getD_obj hq).field

theorem deleteNested_deletes (root : Json) (hpath : path ≠ []) :
    Deletes (some root) path (deleteNested root path) := by
  induction path generalizing root with
  | nil => exact absurd rfl hpath
  | cons k path ih =>
    cases root with
    | obj fields =>
      cases path with
      | nil =>
        rw [deleteNested]
        cases hk : fields.lookup k with
        | none =>
          have hnone : below (some (.obj fields)) [k] = none := below_cons.trans (below_nil.trans hk)
          exact hnone
        | some x => exact Takes.here
      | cons l path =>
        rw [deleteNested]
        cases hk : fields.lookup k with
        | none =>
          have hnone : below (some (.obj fields)) (k :: l :: path) = none := by
            exact (congrArg (below · (l :: path)) hk).trans rfl
          exact hnone
        | some child =>
          have hchild := @ih child (cons_ne_nil l path)
          rw [← hk] at hchild
          exact hchild.field
    | _ => exact below_eq_none_of_fields nofun hpath

theorem below_of_deleteNested {next : Json} (h : deleteNested root path = some next) :
    below (some root) path ≠ none ∧ next.NoBigger root := by
  induction path generalizing root next with
  | nil =>
    rw [deleteNested.eq_def] at h
    split at h <;> contradiction
  | cons k path ih =>
    cases root with
    | obj fields =>
      rw [below_cons]
      cases path with
      | nil =>
        obtain ⟨x, hx, rfl⟩ := map_eq_some_iff.mp h
        rw [below_nil]
        exact ⟨fun hnone => (nomatch hx.symm.trans hnone), Json.noBigger_eraseField⟩
      | cons l path =>
        obtain ⟨child, hchild, hmap⟩ := bind_eq_some_iff.mp h
        obtain ⟨x, hx, rfl⟩ := map_eq_some_iff.mp hmap
        obtain ⟨hbelow, hsize⟩ := ih hx
        have hlookup : (fieldsOf (some (.obj fields))).lookup k = some child := hchild
        rw [hlookup]
        exact ⟨hbelow, Json.noBigger_setField hchild hsize⟩
    | _ =>
      cases path <;> cases h

end Database
end Bluetalk.Storage

import Bluetalk.CloudAccount.LocalWrites

/-!
# Entries of a store value

The value of a synced store key, seen as its entries: what `entriesOfStore` finds under an id, and
what `applyStoreEntryToValue` changes. A list must have no id twice for this: of two items with one
id, the entries show the last and a patch replaces the first.
-/

open List

namespace Bluetalk.CloudAccount
open Storage

variable {key id id' : String} {value current : Json} {patch : Option Json} {x : Json}
  {items : List Json}

/-- No two items have the same id; items without one do not count. -/
def ItemsDistinct (key : String) (items : List Json) : Prop :=
  ((items.map (arrayEntryId key)).filter (· ≠ "")).Nodup

/-- No two items of a stored list have the same id. -/
def DistinctIds (key : String) (value : Json) : Prop :=
  arrayStoreKeys.contains key = true → ItemsDistinct key (arrayItems value)

/-- The patch can be an entry of the store key under this id. -/
structure ValidEntry (key id : String) (patch : Option Json) : Prop where
  named : id ≠ ""
  shared : key = "settings" → isDeviceLocalSetting id = false
  placed : arrayStoreKeys.contains key = true → ∀ v ∈ patch, v.isObject ∧ arrayEntryId key v = id

theorem ne_settings_of_array (h : arrayStoreKeys.contains key = true) : key ≠ "settings" := by
  rintro rfl
  revert h
  decide

/-! ## Lists -/

theorem ItemsDistinct.of_cons (h : ItemsDistinct key (x :: items))
    (hx : arrayEntryId key x ≠ "") :
    (items.find? fun y => arrayEntryId key y = arrayEntryId key x) = none := by
  rw [ItemsDistinct, map_cons, filter_cons_of_pos (by simpa using hx), nodup_cons] at h
  rw [find?_eq_none]
  intro y hy
  rw [decide_eq_true_eq]
  intro e
  exact h.1 (mem_filter.mpr ⟨mem_map.mpr ⟨y, hy, e⟩, by simpa using hx⟩)

theorem ItemsDistinct.tail (h : ItemsDistinct key (x :: items)) :
    ItemsDistinct key items := h.sublist ((sublist_cons_self _ _).filter _)

theorem get?_foldl_addArrayEntry (acc : JsObject Json) (hid : id ≠ "")
    (hn : ItemsDistinct key items) :
    (items.foldl (addArrayEntry key) acc).get? id =
      (items.find? fun x => arrayEntryId key x = id).or (acc.get? id) := by
  induction items generalizing acc with
  | nil => rfl
  | cons x items ih =>
    rw [foldl_cons, ih _ hn.tail, find?_cons]
    by_cases hx : arrayEntryId key x = id
    · -- the last item with the id is the only one
      have hlater : (items.find? fun y => arrayEntryId key y = id) = none :=
        hx ▸ hn.of_cons (hx ▸ hid)
      simp [hlater, hx, addArrayEntry, hid]
    have hacc : (addArrayEntry key acc x).get? id = acc.get? id := by
      simp only [addArrayEntry]
      split
      · rfl
      · rw [JsObject.get?_set, if_neg (Ne.symm hx)]
    simp [hx, hacc]

theorem get?_foldl_addArrayEntry_empty {acc : JsObject Json}
    (h : acc.get? "" = none) : (items.foldl (addArrayEntry key) acc).get? "" = none := by
  induction items generalizing acc with
  | nil => exact h
  | cons x items ih =>
    refine ih ?_
    simp only [addArrayEntry]
    split
    · exact h
    · next hx => rw [JsObject.get?_set, if_neg (Ne.symm hx), h]

theorem get?_entriesOfStore_array (hkey : arrayStoreKeys.contains key = true)
    (hd : DistinctIds key value) :
    (entriesOfStore key value).get? id =
      if id = "" then none else (arrayItems value).find? fun x => arrayEntryId key x = id := by
  rw [entriesOfStore, if_neg (ne_settings_of_array hkey), if_pos hkey]
  split
  · next h => exact h ▸ get?_foldl_addArrayEntry_empty rfl
  · next h => simpa using get?_foldl_addArrayEntry .empty h (hd hkey)

/-! ## Objects -/

theorem lookup_filter_fst {α : Type} {p : String → Bool} (fields : List (String × α)) :
    (fields.filter fun x => p x.1).lookup id = if p id then fields.lookup id else none := by
  induction fields with
  | nil => simp
  | cons x fields ih =>
    obtain ⟨k, v⟩ := x
    by_cases hk : id = k
    · subst hk
      cases hp : p id <;> simp [hp, ih]
    · cases hp : p k <;> simp [hp, ih, lookup_cons_ite, hk]

/-- A name that is an entry of a store key that holds an object. -/
def isEntryName (key id : String) : Bool :=
  if key = "settings" then !isDeviceLocalSetting id else id ≠ ""

theorem get?_entriesOfStore_object (hkey : arrayStoreKeys.contains key = false) :
    (entriesOfStore key value).get? id =
      if isEntryName key id then (objectFields value).lookup id else none := by
  simp only [entriesOfStore, isEntryName, hkey]
  split
  · rw [JsObject.get?_ofFields, lookup_filter_fst (p := fun k => !isDeviceLocalSetting k)]
  · rw [if_neg Bool.false_ne_true, JsObject.get?_ofFields, lookup_filter_fst (p := fun k => k ≠ "")]

/-! ## Entries that are there -/

theorem validEntry_of_get? {v : Json} (hid : id ≠ "")
    (h : (entriesOfStore key value).get? id = some v) : ValidEntry key id (some v) := by
  refine ⟨hid, ?_, ?_⟩
  · rintro rfl
    rw [get?_entriesOfStore_object rfl] at h
    split at h
    · next hname => simpa [isEntryName] using hname
    · cases h
  rintro hkey _ ⟨⟩
  rw [entriesOfStore, if_neg (ne_settings_of_array hkey), if_pos hkey] at h
  -- every entry got its place from an item with its id
  have hfold : ∀ (items : List Json) (acc : JsObject Json),
      (∀ id v, acc.get? id = some v → v.isObject ∧ arrayEntryId key v = id) →
      ∀ id v, (items.foldl (addArrayEntry key) acc).get? id = some v →
        v.isObject ∧ arrayEntryId key v = id := by
    intro items
    induction items with
    | nil => exact fun acc hacc => hacc
    | cons x items ih =>
      refine fun acc hacc => ih _ fun id v hv => ?_
      simp only [addArrayEntry] at hv
      split at hv
      · exact hacc id v hv
      next hx =>
      rw [JsObject.get?_set] at hv
      split at hv
      · next hidx =>
        obtain rfl := Option.some.inj hv
        refine ⟨?_, hidx.symm⟩
        by_contra hobj
        exact hx (by simp [arrayEntryId, hobj])
      · exact hacc id v hv
  exact hfold _ .empty (fun _ _ h => by cases h) id v h

/-! ## Applying a patch -/

section
variable {items : List Json} {v : Json}

theorem ItemsDistinct.put (h : ItemsDistinct key items) :
    ItemsDistinct key (put (arrayEntryId key) v items) := by
  rw [ItemsDistinct, map_put]
  split
  · exact h
  next hnew =>
  rw [filter_append]
  refine nodup_append.mpr ⟨h, List.Nodup.sublist filter_sublist (by simp), ?_⟩
  rintro k hk k' hk' rfl
  have : k = arrayEntryId key v := mem_singleton.mp (mem_filter.mp hk').1
  exact hnew (this ▸ (mem_filter.mp hk).1)

theorem ItemsDistinct.find?_eraseP (h : ItemsDistinct key items) (hid : id ≠ "") :
    (items.eraseP fun x => arrayEntryId key x = id).find? (fun x => arrayEntryId key x = id') =
      if id' = id then none else items.find? fun x => arrayEntryId key x = id' := by
  induction items with
  | nil => simp
  | cons x items ih =>
    by_cases hx : arrayEntryId key x = id
    · rw [eraseP_cons_of_pos (by simpa using hx)]
      by_cases he : id' = id
      · rw [if_pos he, he, ← hx]
        exact h.of_cons (hx ▸ hid)
      · have : arrayEntryId key x ≠ id' := fun e => he (e.symm.trans hx)
        simp [he, this]
    rw [eraseP_cons_of_neg (by simpa using hx), find?_cons, find?_cons, ih h.tail]
    by_cases he : arrayEntryId key x = id'
    · have : id' ≠ id := fun e => hx (he.trans e)
      simp [he, this]
    · simp [he]

theorem put_eq_replaceF (hv : arrayEntryId key v = id) : put (arrayEntryId key) v items =
    if (items.find? fun x => arrayEntryId key x = id).isSome then
      items.replaceF fun x => if arrayEntryId key x = id then some v else none
    else items ++ [v] := by
  induction items with
  | nil => rfl
  | cons x items ih =>
    simp only [Bluetalk.put, hv]
    by_cases hx : arrayEntryId key x = id
    · simp [hx, List.replaceF]
    · simp only [hx, if_false, ih, find?_cons, decide_false, List.replaceF]
      split <;> rfl

end

variable (current) in
/-- The list after a patch, if merging a contact keeps what came in. -/
theorem arrayItems_applyStoreEntryToValue (hkey : arrayStoreKeys.contains key = true)
    (hv : ValidEntry key id patch)
    (hmerge : key = "contacts" → ∀ e ∈ (arrayItems current).find? fun x => arrayEntryId key x = id,
      ∀ v ∈ patch, mergeContactIdentity e v = v) :
    arrayItems (applyStoreEntryToValue key current id patch) =
      match patch with
      | none => (arrayItems current).eraseP fun x => arrayEntryId key x = id
      | some v => put (arrayEntryId key) v (arrayItems current) := by
  have hset := ne_settings_of_array hkey
  cases patch with
  | none =>
    simp only [applyStoreEntryToValue, hv.named, hset, hkey, if_false, if_true, false_and]
    rfl
  | some v =>
    obtain ⟨hobj, hplace⟩ := hv.placed hkey v rfl
    simp only [applyStoreEntryToValue, hv.named, hset, hkey, hobj, if_false, if_true, false_and,
      Bool.not_true, Bool.false_eq_true, put_eq_replaceF hplace]
    cases hfind : (arrayItems current).find? fun x => arrayEntryId key x = id with
    | none => rfl
    | some e =>
      have hnext : (if key = "contacts" then mergeContactIdentity e v else v) = v := by
        split
        · next hk => exact hmerge hk e hfind v rfl
        · rfl
      simp only [hnext, Option.isSome_some, if_true]
      rfl

theorem objectFields_applyStoreEntryToValue (hkey : arrayStoreKeys.contains key = false)
    (hv : ValidEntry key id patch) :
    objectFields (applyStoreEntryToValue key current id patch) =
      match patch with
      | none => eraseField id (objectFields current)
      | some v => setField id v (objectFields current) := by
  have hlocal : ¬(key = "settings" ∧ isDeviceLocalSetting id = true) := fun h => by
    rw [hv.shared h.1] at h
    exact absurd h.2 Bool.false_ne_true
  simp only [applyStoreEntryToValue, hv.named, hlocal, hkey, if_false, Bool.false_eq_true]
  cases patch <;> rfl

/-- A patch changes its entry and no other, if merging a contact keeps what came in. -/
theorem get?_applyStoreEntryToValue (hv : ValidEntry key id patch) (hd : DistinctIds key current)
    (hmerge : key = "contacts" → ∀ e ∈ (entriesOfStore key current).get? id, ∀ v ∈ patch,
      mergeContactIdentity e v = v) :
    DistinctIds key (applyStoreEntryToValue key current id patch) ∧ ∀ id',
    (entriesOfStore key (applyStoreEntryToValue key current id patch)).get? id' =
      if id' = id then patch else (entriesOfStore key current).get? id' := by
  cases hkey : arrayStoreKeys.contains key with
  | true =>
    have hd₀ : ItemsDistinct key (arrayItems current) := hd hkey
    have hitems := arrayItems_applyStoreEntryToValue current hkey hv fun hk e he =>
      hmerge hk e (by rwa [get?_entriesOfStore_array hkey hd, if_neg hv.named])
    have hd' : DistinctIds key (applyStoreEntryToValue key current id patch) := fun _ => by
      rw [hitems]
      cases patch with
      | none => exact hd₀.sublist ((eraseP_sublist.map _).filter _)
      | some v => exact hd₀.put
    refine ⟨hd', fun id' => ?_⟩
    rw [get?_entriesOfStore_array hkey hd', get?_entriesOfStore_array hkey hd, hitems]
    by_cases hempty : id' = ""
    · simp [hempty, Ne.symm hv.named]
    cases patch with
    | none => simp only [hempty, if_false, hd₀.find?_eraseP hv.named]
    | some v =>
      simp only [hempty, if_false, find?_put, (hv.placed hkey v rfl).2, eq_comm (a := id)]
  | false =>
    refine ⟨fun h => absurd (hkey.symm.trans h) Bool.false_ne_true, fun id' => ?_⟩
    rw [get?_entriesOfStore_object hkey, get?_entriesOfStore_object hkey,
      objectFields_applyStoreEntryToValue hkey hv]
    have hname : isEntryName key id = true := by
      simp only [isEntryName]
      split
      · next hset => simp [hv.shared hset]
      · simpa using hv.named
    by_cases he : id' = id
    · subst he
      cases patch <;> simp [hname, lookup_eraseField, lookup_setField]
    · cases patch <;> simp [he, lookup_eraseField, lookup_setField]

end Bluetalk.CloudAccount

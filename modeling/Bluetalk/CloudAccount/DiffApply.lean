import Bluetalk.CloudAccount.StoreEntries

/-!
# Differences, applied

The changes of `diffStoreEntries`, applied one by one and in any order, lead to the entries they were
made from. A contact that is already there keeps its name, its picture and its bio where the incoming
entry has none (`mergeContactIdentity`).
-/

open List Option

namespace Bluetalk.CloudAccount

variable {key id field field' : String} {existing incoming value prev cur : Json}
  {fields merged : List (String × Json)} {patch : Option Json}

/-- `applyStoreEntryToValue` of a change of one entry -/
def applyChange (value : Json) : ChangeBody → Json
  | .storeEntry key id patch => applyStoreEntryToValue key value id patch
  | _ => value

def applyChanges (value : Json) (changes : List ChangeBody) : Json := changes.foldl applyChange value

/-- What an entry becomes when a patch arrives where `old` was. -/
def landed (key : String) (old patch : Option Json) : Option Json :=
  match old, patch with
  | some existing, some value =>
    some (if key = "contacts" then mergeContactIdentity existing value else value)
  | _, patch => patch

/-! ## Contacts that are there -/

/-- A field that is kept of the contact that is there. -/
def Keeps (existing : Json) (merged : List (String × Json)) (field : String) : Prop :=
  ((merged.lookup field).getD .null = .null ∨ (merged.lookup field).getD .null = .str "") ∧
    (existing.get field).truthy = true

theorem keepField_of_not (h : ¬Keeps existing merged field) :
    keepField existing merged field = merged := if_neg h

theorem lookup_keepField_ne (h : field' ≠ field) :
    (keepField existing merged field).lookup field' = merged.lookup field' := by
  rw [keepField]
  split
  · rw [lookup_setField, if_neg h]
  · rfl

theorem not_keeps_keepField : ¬Keeps existing (keepField existing merged field) field := by
  by_cases h : Keeps existing merged field
  · have hkept : keepField existing merged field = setField field (existing.get field) merged :=
      if_pos h
    rintro ⟨hempty, -⟩
    rw [hkept, lookup_setField, if_pos rfl, getD_some] at hempty
    have htruthy := h.2
    rcases hempty with hnull | hstr
    · rw [hnull] at htruthy
      cases htruthy
    · rw [hstr] at htruthy
      cases htruthy
  · rwa [keepField_of_not h]

theorem keeps_congr (h : merged.lookup field = fields.lookup field) :
    Keeps existing merged field ↔ Keeps existing fields field := by
  rw [Keeps, Keeps, h]

/-- The fields of an incoming contact, with the name that is there if it has none. -/
def namedFields (existing : Json) (fields : List (String × Json)) : List (String × Json) :=
  if !hasContactName (.obj fields) ((fields.lookup "name").getD .null) &&
      hasContactName (.obj fields) (existing.get "name") then
    setField "name" (existing.get "name") fields
  else fields

theorem mergeContactIdentity_obj (he : existing.isObject = true) :
    mergeContactIdentity existing (.obj fields) = .obj (keepField existing
      (keepField existing (namedFields existing fields) "profilePicture") "bio") := by
  rw [mergeContactIdentity, if_neg (by simp [he])]
  rfl

theorem lookup_namedFields_ne (h : field ≠ "name") :
    (namedFields existing fields).lookup field = fields.lookup field := by
  rw [namedFields]
  split
  · rw [lookup_setField, if_neg h]
  · rfl

theorem hasContactName_congr (h : merged.lookup "id" = fields.lookup "id") (x : Json) :
    hasContactName (.obj merged) x = hasContactName (.obj fields) x := by
  have hget : (Json.obj merged).get "id" = (Json.obj fields).get "id" := by
    rw [Json.get, Json.get, h]
  simp only [hasContactName, hget]

theorem namedFields_self (hid : merged.lookup "id" = fields.lookup "id")
    (hname : merged.lookup "name" = (namedFields existing fields).lookup "name") :
    namedFields existing merged = merged := by
  refine if_neg fun h => ?_
  obtain ⟨hnone, hthere⟩ := (Bool.and_eq_true _ _).mp h
  rw [hasContactName_congr hid, hname] at hnone
  rw [hasContactName_congr hid] at hthere
  rw [namedFields] at hnone
  split at hnone
  · -- the name that was filled in is one
    rw [lookup_setField, if_pos rfl, getD_some, hthere] at hnone
    cases hnone
  · rename_i hkept
    exact hkept ((Bool.and_eq_true _ _).mpr ⟨hnone, hthere⟩)

theorem mergeContactIdentity_merged (he : existing.isObject = true) :
    mergeContactIdentity existing (mergeContactIdentity existing (.obj fields)) =
      mergeContactIdentity existing (.obj fields) := by
  rw [mergeContactIdentity_obj he, mergeContactIdentity_obj he]
  have hother : ∀ field, field ≠ "profilePicture" → field ≠ "bio" →
      (keepField existing (keepField existing (namedFields existing fields) "profilePicture")
        "bio").lookup field = (namedFields existing fields).lookup field := by
    intro field hpicture hbio
    rw [lookup_keepField_ne hbio, lookup_keepField_ne hpicture]
  have hnamed : namedFields existing _ = _ := namedFields_self
    ((hother "id" (by decide) (by decide)).trans (lookup_namedFields_ne (by decide)))
    (hother "name" (by decide) (by decide))
  rw [hnamed, keepField_of_not (fun h : Keeps _ _ "profilePicture" => ?_),
    keepField_of_not not_keeps_keepField]
  exact not_keeps_keepField ((keeps_congr (lookup_keepField_ne (by decide))).mp h)

theorem mergeContactIdentity_self (he : existing.isObject = true) (hobj : existing = .obj fields) :
    mergeContactIdentity existing existing = existing := by
  subst hobj
  have hnot : ∀ field, ¬Keeps (.obj fields) fields field := by
    rintro field ⟨hempty, htruthy⟩
    rw [Json.get] at htruthy
    rcases hempty with hnull | hstr
    · rw [hnull] at htruthy
      cases htruthy
    · rw [hstr] at htruthy
      cases htruthy
  have hnamed : namedFields (.obj fields) fields = fields := if_neg (by simp [Json.get])
  rw [mergeContactIdentity_obj he, hnamed, keepField_of_not (hnot _), keepField_of_not (hnot _)]

theorem lookup_id_merged (he : existing.isObject = true) :
    (mergeContactIdentity existing (.obj fields)).get "id" = (Json.obj fields).get "id" := by
  rw [mergeContactIdentity_obj he, Json.get, lookup_keepField_ne (by decide),
    lookup_keepField_ne (by decide), lookup_namedFields_ne (by decide)]
  rfl

theorem exists_fields (h : arrayEntryId key value ≠ "") : ∃ fields, value = .obj fields := by
  cases value with
  | obj fields => exact ⟨fields, rfl⟩
  | arr items => exact absurd (by simp [arrayEntryId, Json.get, Json.textOrEmpty, Json.truthy]) h
  | null | bool | num | str => exact absurd rfl h

theorem landed_self {old : Option Json} (hold : ∀ v ∈ old, key = "contacts" →
    arrayEntryId key v ≠ "") : landed key old old = old := by
  cases old with
  | none => rfl
  | some v =>
    rw [landed]
    split
    · rename_i hkey
      obtain ⟨fields, rfl⟩ := exists_fields (hold v rfl hkey)
      rw [mergeContactIdentity_self rfl rfl]
    · rfl

/-! ## One change -/

variable (value) in
theorem get?_applyPatch (hv : ValidEntry key id patch) (hd : DistinctIds key value) :
    DistinctIds key (applyStoreEntryToValue key value id patch) ∧ ∀ id',
    (entriesOfStore key (applyStoreEntryToValue key value id patch)).get? id' =
      if id' = id then landed key ((entriesOfStore key value).get? id) patch
      else (entriesOfStore key value).get? id' := by
  cases hfind : (entriesOfStore key value).get? id with
  | none =>
    have hlanded : landed key none patch = patch := by cases patch <;> rfl
    exact get?_applyStoreEntryToValue hv hd fun _ e he => by rw [hfind] at he; cases he
  | some existing =>
    by_cases hmerge : key = "contacts" ∧ ∃ v, patch = some v
    · obtain ⟨rfl, v, rfl⟩ := hmerge
      have harray : arrayStoreKeys.contains "contacts" = true := rfl
      obtain ⟨hobj, hplace⟩ := hv.placed harray v rfl
      obtain ⟨fields, rfl⟩ := exists_fields (hplace ▸ hv.named)
      have hexisting := (validEntry_of_get? hv.named hfind).placed harray existing rfl
      -- the merged contact has the id of what came in, and arrives as it is
      have hid : arrayEntryId "contacts" (mergeContactIdentity existing (.obj fields)) = id := by
        rw [← hplace, mergeContactIdentity_obj hexisting.1, arrayEntryId, arrayEntryId,
          ← mergeContactIdentity_obj hexisting.1, lookup_id_merged hexisting.1,
          mergeContactIdentity_obj hexisting.1]
        rfl
      have hvalid : ValidEntry "contacts" id
          (some (mergeContactIdentity existing (.obj fields))) := by
        refine ⟨hv.named, hv.shared, ?_⟩
        rintro - _ ⟨⟩
        exact ⟨by rw [mergeContactIdentity_obj hexisting.1]; rfl, hid⟩
      have hsame : applyStoreEntryToValue "contacts" value id (some (.obj fields)) =
          applyStoreEntryToValue "contacts" value id
            (some (mergeContactIdentity existing (.obj fields))) := by
        rw [get?_entriesOfStore_array harray hd, if_neg hv.named] at hfind
        have hisObject : (mergeContactIdentity existing (.obj fields)).isObject = true := by
          rw [mergeContactIdentity_obj hexisting.1]
          rfl
        simp only [applyStoreEntryToValue, hfind, hisObject, if_true,
          mergeContactIdentity_merged hexisting.1]
        rfl
      rw [hsame]
      refine get?_applyStoreEntryToValue hvalid hd fun _ e he v hv' => ?_
      rw [hfind] at he
      cases he
      cases hv'
      exact mergeContactIdentity_merged hexisting.1
    · have hlanded : landed key (some existing) patch = patch := by
        cases patch with
        | none => rfl
        | some v => rw [landed, if_neg fun hkey => hmerge ⟨hkey, v, rfl⟩]
      rw [hlanded]
      exact get?_applyStoreEntryToValue hv hd fun hkey e _ v hv' => absurd ⟨hkey, v, hv'⟩ hmerge

/-- A change of an entry that can be one, or that is ignored. -/
def Applicable (key : String) (body : ChangeBody) : Prop :=
  ∃ id patch, body = .storeEntry key id patch ∧ (id = "" ∨ ValidEntry key id patch)

theorem applicable_diff {body : ChangeBody}
    (h : body ∈ diffStoreEntries key cur (entriesOfStore key prev)) : Applicable key body := by
  obtain ⟨id, hdiff, rfl⟩ := mem_diffStoreEntries.mp h
  refine ⟨id, _, rfl, ?_⟩
  by_cases hid : id = ""
  · exact .inl hid
  right
  cases hcur : (entriesOfStore key cur).get? id with
  | some v => exact validEntry_of_get? hid hcur
  | none =>
    -- an entry that is gone was one of the snapshot
    obtain ⟨v, hprev⟩ := ne_none_iff_exists'.mp (Ne.symm (hcur ▸ hdiff))
    exact ⟨hid, (validEntry_of_get? hid hprev).shared, fun _ _ h => by cases h⟩

theorem distinctIds_applyChange {body : ChangeBody} (h : Applicable key body)
    (hd : DistinctIds key value) : DistinctIds key (applyChange value body) := by
  obtain ⟨id, patch, rfl, rfl | hv⟩ := h
  · exact hd
  · exact (get?_applyPatch value hv hd).1

theorem get?_applyChange {id' : String} (h : Applicable key (.storeEntry key id patch))
    (hid : id' ≠ "") (hd : DistinctIds key value) :
    (entriesOfStore key (applyChange value (.storeEntry key id patch))).get? id' =
      if id' = id then landed key ((entriesOfStore key value).get? id) patch
      else (entriesOfStore key value).get? id' := by
  obtain ⟨_, _, ⟨⟩, rfl | hv⟩ := h
  · rw [if_neg hid]
    rfl
  · exact (get?_applyPatch value hv hd).2 id'

theorem lookup_local_applyChange {body : ChangeBody} (h : Applicable "settings" body)
    (hlocal : isDeviceLocalSetting field = true) :
    (objectFields (applyChange value body)).lookup field = (objectFields value).lookup field := by
  obtain ⟨id, patch, rfl, rfl | hv⟩ := h
  · rfl
  have hne : field ≠ id := fun e => by
    rw [e, hv.shared rfl] at hlocal
    cases hlocal
  rw [applyChange, objectFields_applyStoreEntryToValue rfl hv]
  cases patch with
  | none => exact (lookup_eraseField ..).trans (if_neg hne)
  | some v => exact (lookup_setField ..).trans (if_neg hne)

/-! ## All changes -/

variable {changes : List ChangeBody}

theorem get?_applyChanges (final : JsObject Json) (hid : id ≠ "") (hd : DistinctIds key value)
    (hchanges : ∀ body ∈ changes, Applicable key body ∧ ∃ i, body = .storeEntry key i (final.get? i))
    (hnodup : (changes.map ChangeBody.logicalKey).Nodup) :
    (entriesOfStore key (applyChanges value changes)).get? id =
      if .storeEntry key id (final.get? id) ∈ changes then
        landed key ((entriesOfStore key value).get? id) (final.get? id)
      else (entriesOfStore key value).get? id := by
  induction changes generalizing value with
  | nil => rw [if_neg not_mem_nil]; rfl
  | cons body changes ih =>
    rw [map_cons, nodup_cons] at hnodup
    obtain ⟨happly, i, rfl⟩ := hchanges body mem_cons_self
    have hrest := ih (distinctIds_applyChange happly hd)
      (fun body h => hchanges body (mem_cons_of_mem _ h)) hnodup.2
    change (entriesOfStore key (applyChanges (applyChange value _) changes)).get? id = _
    rw [hrest, get?_applyChange happly hid hd]
    by_cases hi : id = i
    · subst hi
      have hlater : ChangeBody.storeEntry key id (final.get? id) ∉ changes := fun h =>
        hnodup.1 (mem_map.mpr ⟨_, h, rfl⟩)
      rw [if_neg hlater, if_pos rfl, if_pos mem_cons_self]
    have hmem : ChangeBody.storeEntry key id (final.get? id) ∈
        .storeEntry key i (final.get? i) :: changes ↔
          ChangeBody.storeEntry key id (final.get? id) ∈ changes := by
      rw [mem_cons, or_iff_right]
      exact fun e => hi (ChangeBody.storeEntry.inj e).2.1
    rw [if_neg hi]
    simp only [hmem]

theorem lookup_local_applyChanges (hchanges : ∀ body ∈ changes, Applicable "settings" body)
    (hlocal : isDeviceLocalSetting field = true) :
    (objectFields (applyChanges value changes)).lookup field =
      (objectFields value).lookup field := by
  induction changes generalizing value with
  | nil => rfl
  | cons body changes ih =>
    have hrest := @ih (applyChange value body) fun body h =>
      hchanges body (mem_cons_of_mem _ h)
    exact hrest.trans (lookup_local_applyChange (hchanges body mem_cons_self) hlocal)

end Bluetalk.CloudAccount

import Bluetalk.Groups.GroupChat

/-!
# Stored groups

A group is normalized before a device takes it and once more before it is stored. What comes out of
that is `Group.Stored`. Normalizing a stored group changes at most a member's name and the time a
member joined (`normalizeGroup_json`): a name that was blank becomes the peer id, cut to 80 code
units, and white space that the cut leaves at the end goes the next time.
-/

open List Option

namespace Bluetalk.Groups

variable {α β ε : Type} {s t field createdBy peerId : String} {m m' : Member}
  {createdAt now now' : Int} {raws : List Json} {ms acc : List Member} {g g₁ : Group}
  {raw at_ : Json} {f : Member → Member}

@[simp] theorem ok_bind {a : α} {f : α → Except ε β} :
    (Except.ok a >>= f) = f a := rfl

theorem bind_eq_ok {x : Except ε α} {f : α → Except ε β} {b : β} :
    x >>= f = .ok b ↔ ∃ a, x = .ok a ∧ f a = .ok b := by
  cases x with
  | error e =>
    constructor
    · intro h
      cases h
    · intro h
      obtain ⟨_, h, -⟩ := h
      cases h
  | ok a =>
    constructor
    · intro h
      exact ⟨a, rfl, h⟩
    · intro h
      obtain ⟨a', ha, h⟩ := h
      rwa [Except.ok.inj ha]

@[simp] theorem finite_jsonOrUndefined {n : Option Int} : finite (jsonOrUndefined n) = n := by
  cases n <;> rfl

@[simp] theorem finite_null : finite .null = none := rfl

@[simp] theorem finite_num {n : Int} : finite (.num n) = some n := rfl

@[simp] theorem ofJson_text {state : MemberState} :
    MemberState.ofJson (.str state.text) = state := by
  cases state <;> rfl

theorem ofJson_active : MemberState.ofJson (.str "active") = .active := rfl

@[simp] theorem roleOfJson_text {role : MemberRole} : MemberRole.ofJson (.str role.text) = role := by
  cases role <;> rfl

theorem orElse_str {y : Json} :
    orElse (.str s) y = if s = "" then y else .str s := by
  by_cases h : s = ""
  · simp [orElse, Json.truthy, h]
  · simp [orElse, Json.truthy, h]

@[simp] theorem cleanString_orElse_null {n : Nat} :
    cleanString (orElse (.str s) .null) n = cleanText s n := by
  rw [orElse_str]
  split
  · next h => rw [h, cleanText_empty, cleanString, textOrEmpty_null, cleanText_empty]
  · exact cleanString_str

@[simp] theorem orElse_orElse_str :
    orElse (orElse (.str s) .null) (.str t) = .str (if s = "" then t else s) := by
  rw [orElse_str]
  split
  · rfl
  · next h => rw [orElse_str, if_neg h]

/-! ### Members -/

/-- What normalizing makes of a member that is stored. -/
def Member.tidied (createdAt : Int) (m : Member) : Member :=
  { m with
    displayName := cleanText m.displayName 80
    joinedAt := m.joinedAt.or (if m.state = .active then some createdAt else none) }

structure Member.Stored (m : Member) : Prop where
  peerId : Clean 96 m.peerId
  identified : m.peerId ≠ ""
  named : cleanText m.displayName 80 ≠ ""

theorem Member.Stored.displayName_ne_empty (h : m.Stored) : m.displayName ≠ "" := by
  intro hempty
  have hnamed := h.named
  rw [hempty, cleanText_empty] at hnamed
  exact hnamed rfl

theorem Member.Stored.tidied (h : m.Stored) :
    (m.tidied createdAt).Stored where
  peerId := h.peerId
  identified := h.identified
  named := cleanText_cleanText_ne_empty (by decide) h.named

theorem Member.get_json :
    m.json.get field = (m.fields.lookup field).getD .null := rfl

theorem normalizeMember_json_eq :
    normalizeMember m.json now = if cleanText m.peerId 96 = "" then none else some
      { m with
        peerId := cleanText m.peerId 96
        displayName := cleanText
          (if m.displayName = "" then cleanText m.peerId 96 else m.displayName) 80
        joinedAt := m.joinedAt.or (if m.state = .active then some now else none) } := by
  simp [normalizeMember, Member.get_json, Member.fields, lookup_cons]

theorem normalizeMember_json (h : m.Stored) :
    normalizeMember m.json now = some (m.tidied now) := by
  have hid : cleanText m.peerId 96 = m.peerId := h.peerId
  rw [normalizeMember_json_eq, hid, if_neg h.identified, if_neg h.displayName_ne_empty]
  rfl

theorem normalizeMembers_append (h : List.Forall₂ (fun raw m => normalizeMember raw createdAt = some m) raws ms) :
    ∀ {acc : List Member}, ((acc ++ ms).map Member.peerId).Nodup →
      normalizeMembers createdAt acc raws = acc ++ ms := by
  induction h with
  | nil =>
    intro acc _
    rw [normalizeMembers, append_nil]
  | @cons raw m raws ms hm hms ih =>
    intro acc hnodup
    have hfresh : m.peerId ∉ acc.map Member.peerId := by
      rw [map_append, map_cons, nodup_append] at hnodup
      exact fun hacc => hnodup.2.2 _ hacc _ mem_cons_self rfl
    rw [normalizeMembers, hm]
    dsimp only
    rw [if_neg hfresh, ih (by rwa [append_assoc]), append_assoc]
    rfl

theorem mem_normalizeMembers (h : m ∈ normalizeMembers createdAt acc raws) :
    m ∈ acc ∨ ∃ raw ∈ raws, normalizeMember raw createdAt = some m := by
  fun_induction normalizeMembers createdAt acc raws with
  | case1 acc => exact .inl h
  | case2 acc raw raws hraw ih =>
    obtain hacc | ⟨r, hr, hm⟩ := ih h
    · exact .inl hacc
    · exact .inr ⟨r, mem_cons_of_mem _ hr, hm⟩
  | case3 acc raw raws m' hraw hseen ih =>
    obtain hacc | ⟨r, hr, hm⟩ := ih h
    · exact .inl hacc
    · exact .inr ⟨r, mem_cons_of_mem _ hr, hm⟩
  | case4 acc raw raws m' hraw hseen ih =>
    obtain hacc | ⟨r, hr, hm⟩ := ih h
    · obtain hacc | hlast := mem_append.mp hacc
      · exact .inl hacc
      · rw [mem_singleton.mp hlast]
        exact .inr ⟨raw, mem_cons_self, hraw⟩
    · exact .inr ⟨r, mem_cons_of_mem _ hr, hm⟩

theorem nodup_normalizeMembers (h : (acc.map Member.peerId).Nodup) :
    ((normalizeMembers createdAt acc raws).map Member.peerId).Nodup := by
  fun_induction normalizeMembers createdAt acc raws with
  | case1 acc => exact h
  | case2 acc raw raws hraw ih | case3 acc raw raws m hraw hseen ih => exact ih h
  | case4 acc raw raws m hraw hseen ih =>
    apply ih
    rw [map_append]
    exact nodup_append.mpr ⟨h, nodup_singleton _, fun a ha b hb e =>
      hseen (mem_singleton.mp hb ▸ e ▸ ha)⟩

@[simp] theorem peerId_asCreator :
    (asCreator createdBy m).peerId = m.peerId := by
  rw [asCreator]
  split <;> rfl

@[simp] theorem displayName_asCreator :
    (asCreator createdBy m).displayName = m.displayName := by
  rw [asCreator]
  split <;> rfl

@[simp] theorem map_peerId_asCreator :
    (ms.map (asCreator createdBy)).map Member.peerId = ms.map Member.peerId := by
  rw [List.map_map]
  exact List.map_congr_left fun _ _ => peerId_asCreator

@[simp] theorem joinedAt_asCreator :
    (asCreator createdBy m).joinedAt = m.joinedAt := by
  rw [asCreator]
  split <;> rfl

theorem state_asCreator_ne (h : m.peerId = createdBy) :
    (asCreator createdBy m).state ≠ .invited := by
  rw [asCreator, if_pos h]
  split
  · exact MemberState.noConfusion
  · assumption

theorem state_of_normalizeMember (h : normalizeMember m.json now = some m') : m'.state = m.state := by
  rw [normalizeMember_json_eq] at h
  split at h
  · cases h
  · obtain rfl := some.inj h
    rfl

/-! ### Groups -/

structure Group.Stored (g : Group) : Prop where
  id : isGroupChatId g.id
  revision : 1 ≤ g.revision
  name : Clean groupMaxNameChars g.name
  named : g.name ≠ ""
  image : Clean groupMaxImageChars g.image
  createdBy : Clean 96 g.createdBy
  members : ∀ m ∈ g.members, m.Stored
  nodup : (g.members.map Member.peerId).Nodup
  founder : ∃ m ∈ g.members, m.peerId = g.createdBy ∧ m.role = .admin ∧ m.state ≠ .invited

theorem Group.Stored.createdBy_ne_empty (h : g.Stored) : g.createdBy ≠ "" := by
  obtain ⟨m, hm, hcreated, -⟩ := h.founder
  rw [← hcreated]
  exact (h.members m hm).identified

theorem Group.Stored.createdBy_mem (h : g.Stored) :
    g.createdBy ∈ g.members.map Member.peerId := by
  obtain ⟨m, hm, hcreated, -⟩ := h.founder
  exact mem_map.mpr ⟨m, hm, hcreated⟩

theorem Group.Stored.asCreator_eq (h : g.Stored) (hm : m ∈ g.members) :
    asCreator g.createdBy m = m := by
  rw [asCreator]
  split
  · next hid =>
    obtain ⟨f, hf, hcreated, hrole, hstate⟩ := h.founder
    obtain rfl := inj_on_of_nodup_map h.nodup hm hf (hid.trans hcreated.symm)
    rw [if_neg hstate, ← hrole]
  · rfl

/-- What normalizing reads of a JSON value is the group. -/
structure Reads (raw : Json) (g : Group) : Prop where
  id : raw.get "id" = .str g.id
  revision : raw.get "revision" = .num g.revision
  name : raw.get "name" = .str g.name
  image : raw.get "image" = .str g.image
  createdAt : raw.get "createdAt" = .num g.createdAt
  createdBy : raw.get "createdBy" = .str g.createdBy
  updatedAt : (finite (raw.get "updatedAt")).getD g.createdAt = g.updatedAt
  members : List.Forall₂ (fun raw m => normalizeMember raw g.createdAt = some m)
    (raw.get "members").items g.members

theorem normalizeGroup_of_reads (hg : g.Stored) (h : Reads raw g)
    (now : Int) : normalizeGroup now raw = .ok g := by
  have hname : cleanText g.name groupMaxNameChars = g.name := hg.name
  have himage : cleanText g.image groupMaxImageChars = g.image := hg.image
  have hcreatedBy : cleanText g.createdBy 96 = g.createdBy := hg.createdBy
  have hmembers : normalizeMembers g.createdAt [] (raw.get "members").items = g.members :=
    normalizeMembers_append h.members hg.nodup
  have hcreator : g.members.map (asCreator g.createdBy) = g.members :=
    (map_congr_left fun m hm => hg.asCreator_eq hm).trans (map_id _)
  have hadmitted : ¬ (g.createdBy = "" ∨ g.createdBy ∉ g.members.map Member.peerId) :=
    not_or.mpr ⟨hg.createdBy_ne_empty, not_not.mpr hg.createdBy_mem⟩
  rw [normalizeGroup, h.id]
  dsimp only
  rw [if_pos hg.id, h.createdAt, h.createdBy, h.revision, h.name, h.image, cleanString_str,
    cleanString_str, cleanString_str, finite_num, finite_num, getD_some, getD_some,
    hcreatedBy, hname, himage, hmembers, if_neg hadmitted, if_neg hg.named, hcreator, h.updatedAt,
    max_eq_right hg.revision]

def Group.tidied (g : Group) : Group :=
  { g with members := g.members.map (Member.tidied g.createdAt) }

theorem Group.Stored.mapMembers (h : g.Stored) (hpeerId : ∀ m, (f m).peerId = m.peerId) (hrole : ∀ m, m.role = .admin → (f m).role = .admin)
    (hstored : ∀ m, m.Stored → (f m).Stored)
    (hstate : ∀ m, m.state ≠ .invited → (f m).state ≠ .invited) :
    Group.Stored { g with members := g.members.map f } where
  id := h.id
  revision := h.revision
  name := h.name
  named := h.named
  image := h.image
  createdBy := h.createdBy
  members := forall_mem_map.mpr fun m hm => hstored m (h.members m hm)
  nodup := by
    have hids : (g.members.map f).map Member.peerId = g.members.map Member.peerId := by
      rw [List.map_map]
      exact List.map_congr_left fun m _ => hpeerId m
    rw [hids]
    exact h.nodup
  founder := by
    obtain ⟨m, hm, hcreated, hadmin, hinvited⟩ := h.founder
    exact ⟨f m, mem_map_of_mem hm, (hpeerId m).trans hcreated, hrole m hadmin,
      hstate m hinvited⟩

theorem Group.Stored.tidied (h : g.Stored) : g.tidied.Stored :=
  h.mapMembers (fun _ => rfl) (fun _ hadmin => hadmin) (fun _ hm => hm.tidied)
    fun _ hstate => hstate

theorem Member.tidied_tidied (h : Clean 80 m.displayName) :
    (m.tidied createdAt).tidied createdAt = m.tidied createdAt := by
  have hclean : cleanText m.displayName 80 = m.displayName := h
  cases hjoined : m.joinedAt <;> simp [Member.tidied, hclean, hjoined]

theorem tidied_member (h : g.tidied = g) (hm : m ∈ g.members) :
    m.tidied g.createdAt = m := by
  have hmembers : g.members.map (Member.tidied g.createdAt) = g.members.map id := by
    rw [List.map_id]
    exact congrArg Group.members h
  exact map_inj_left.mp hmembers m hm

theorem clean_displayName (h : g.tidied = g) (hm : m ∈ g.members) :
    Clean 80 m.displayName := congrArg Member.displayName (tidied_member h hm)

theorem Group.get_json :
    g.json.get field = (g.fields.lookup field).getD .null := rfl

theorem reads_json (h : g.Stored) : Reads g.json g.tidied where
  id := rfl
  revision := rfl
  name := rfl
  image := rfl
  createdAt := rfl
  createdBy := rfl
  updatedAt := rfl
  members := forall₂_map_left_iff.mpr (forall₂_map_right_iff.mpr
    (forall₂_same.mpr fun m hm => normalizeMember_json (h.members m hm)))

theorem normalizeGroup_json (h : g.Stored) (now : Int) :
    normalizeGroup now g.json = .ok g.tidied :=
  normalizeGroup_of_reads h.tidied (reads_json h) now

/-- What normalizing gives, by what it read. -/
structure Normalized (now : Int) (raw : Json) (g : Group) : Prop where
  id : isGroupChatId g.id
  rawId : raw.get "id" = .str g.id
  revision : g.revision = max 1 ((finite (raw.get "revision")).getD 1)
  name : g.name = cleanString (raw.get "name") groupMaxNameChars ∨ g.name = "Neue Gruppe"
  named : g.name ≠ ""
  image : g.image = cleanString (raw.get "image") groupMaxImageChars
  createdBy : g.createdBy = cleanString (raw.get "createdBy") 96
  members : ∃ listed, listed = normalizeMembers g.createdAt [] (raw.get "members").items ∧
    g.createdBy ∈ listed.map Member.peerId ∧ g.members = listed.map (asCreator g.createdBy)

theorem normalized (h : normalizeGroup now raw = .ok g) :
    Normalized now raw g := by
  rw [normalizeGroup] at h
  split at h
  · next id hid =>
    split at h
    · next hgroup =>
      dsimp only at h
      split at h
      · cases h
      next hcreator =>
      obtain rfl := Except.ok.inj h
      exact
        { id := hgroup
          rawId := hid
          revision := rfl
          name := by
            split
            · exact .inr rfl
            · exact .inl rfl
          named := by
            dsimp only
            split
            · decide
            · assumption
          image := rfl
          createdBy := rfl
          members := ⟨_, rfl, not_not.mp (not_or.mp hcreator).2, rfl⟩ }
    · cases h
  · cases h

namespace Normalized

variable {now : Int} {raw : Json} {g : Group}

theorem revision_pos (h : Normalized now raw g) : 1 ≤ g.revision := by
  rw [h.revision]
  exact le_max_left _ _

theorem nodup (h : Normalized now raw g) : (g.members.map Member.peerId).Nodup := by
  obtain ⟨listed, hlisted, -, hmembers⟩ := h.members
  rw [hmembers, map_peerId_asCreator, hlisted]
  exact nodup_normalizeMembers nodup_nil

theorem founder (h : Normalized now raw g) :
    ∃ m ∈ g.members, m.peerId = g.createdBy ∧ m.role = .admin ∧ m.state ≠ .invited := by
  obtain ⟨listed, -, hcreated, hmembers⟩ := h.members
  obtain ⟨m, hm, hid⟩ := mem_map.mp hcreated
  refine ⟨asCreator g.createdBy m, hmembers ▸ mem_map_of_mem hm, ?_, ?_, ?_⟩
  · rw [peerId_asCreator, hid]
  · rw [asCreator, if_pos hid]
  · exact state_asCreator_ne hid

theorem mem (h : Normalized now raw g) {m : Member} (hm : m ∈ g.members) :
    ∃ r ∈ (raw.get "members").items, ∃ m', normalizeMember r g.createdAt = some m' ∧
      m = asCreator g.createdBy m' := by
  obtain ⟨listed, hlisted, -, hmembers⟩ := h.members
  obtain ⟨m', hm', rfl⟩ := mem_map.mp (hmembers ▸ hm)
  obtain hnil | ⟨r, hr, hread⟩ := mem_normalizeMembers (hlisted ▸ hm')
  · exact absurd hnil not_mem_nil
  · exact ⟨r, hr, m', hread, rfl⟩

end Normalized

theorem cleaned_of_normalizeMember (h : normalizeMember raw now = some m) :
    m.peerId ≠ "" ∧ (∃ s, m.peerId = cleanText s 96) ∧ ∃ s, m.displayName = cleanText s 80 := by
  rw [normalizeMember] at h
  split at h
  · cases h
  · next hid =>
    obtain rfl := some.inj h
    exact ⟨hid, ⟨_, rfl⟩, _, rfl⟩

theorem stored_of_normalizeMember (hid : m.peerId = cleanText s 96) (hname : m.displayName = cleanText t 80)
    (h : normalizeMember m.json now = some m') : m'.Stored := by
  rw [normalizeMember_json_eq] at h
  split at h
  · cases h
  next hne =>
  obtain rfl := some.inj h
  refine ⟨hid ▸ clean_cleanText, hne, ?_⟩
  -- the name is kept if there is one, and is the id otherwise
  apply cleanText_cleanText_ne_empty (by decide)
  split
  · exact cleanText_cleanText_ne_empty (by decide) hne
  · next hd =>
    rw [hname] at hd ⊢
    exact cleanText_cleanText_ne_empty (by decide) hd

theorem stored_of_normalized_twice (h₁ : normalizeGroup now raw = .ok g₁) (h : normalizeGroup now' g₁.json = .ok g) :
    g.Stored := by
  have hfirst := normalized h₁
  have hsecond := normalized h
  refine ⟨hsecond.id, hsecond.revision_pos, ?_, hsecond.named, ?_, ?_, ?_, hsecond.nodup,
    hsecond.founder⟩
  · obtain hname | hname := hsecond.name
    · rw [hname, Group.get_json, show g₁.fields.lookup "name" = some (.str g₁.name) from rfl,
        getD_some, cleanString_str]
      obtain hname₁ | hname₁ := hfirst.name
      · rw [hname₁]
        exact clean_cleanText
      · rw [hname₁]
        decide +kernel
    · rw [hname]
      decide +kernel
  · rw [hsecond.image, Group.get_json, show g₁.fields.lookup "image" = some (.str g₁.image) from rfl,
      getD_some, cleanString_str, hfirst.image]
    exact clean_cleanText
  · rw [hsecond.createdBy, Group.get_json,
      show g₁.fields.lookup "createdBy" = some (.str g₁.createdBy) from rfl, getD_some,
      cleanString_str, hfirst.createdBy]
    exact clean_cleanText
  · intro m hm
    obtain ⟨r, hr, m', hread, rfl⟩ := hsecond.mem hm
    obtain ⟨m₁, hm₁, rfl⟩ := mem_map.mp hr
    obtain ⟨r₁, -, m₁', hread₁, rfl⟩ := hfirst.mem hm₁
    obtain ⟨-, ⟨s, hs⟩, t, ht⟩ := cleaned_of_normalizeMember hread₁
    have hstored := stored_of_normalizeMember (peerId_asCreator.trans hs)
      (displayName_asCreator.trans ht) hread
    refine ⟨?_, ?_, ?_⟩
    · rw [peerId_asCreator]
      exact hstored.peerId
    · rw [peerId_asCreator]
      exact hstored.identified
    · rw [displayName_asCreator]
      exact hstored.named

/-! ### Groups that normalizing leaves -/

/-- An id that is not cut, and is no longer than a name -/
def Short (id : String) : Prop := utf16Length id ≤ 80

/-- The id that a listed member is given -/
def listedId (raw : Json) : String := (orElse (raw.get "peerId") (raw.get "id")).textOrEmpty

theorem listedId_eq {id : String} (h : raw.get "peerId" = .str id)
    (hid : raw.get "id" = .null) : listedId raw = id := by
  rw [listedId, h, hid, orElse_str]
  split
  · next hempty => rw [hempty]; rfl
  · exact textOrEmpty_str

theorem listedId_json : listedId m.json = m.peerId := listedId_eq rfl rfl

theorem peerId_of_normalizeMember (h : normalizeMember raw now = some m) : m.peerId = cleanText (listedId raw) 96 := by
  rw [normalizeMember] at h
  split at h
  · cases h
  · obtain rfl := some.inj h
    rfl

theorem joinedAt_of_normalizeMember (h : normalizeMember raw now = some m) (hactive : m.state = .active) : m.joinedAt ≠ none := by
  rw [normalizeMember] at h
  split at h
  · cases h
  obtain rfl := some.inj h
  rw [if_pos hactive]
  cases finite (raw.get "joinedAt") <;> exact some_ne_none _

/-- Normalizing leaves a member under a short id, if its name is missing or not blank. -/
theorem clean_displayName_of_short (hname : m.displayName = cleanText t 80) (hid : Short m'.peerId)
    (h : normalizeMember m.json now = some m') : Clean 80 m'.displayName := by
  rw [normalizeMember_json_eq] at h
  split at h
  · cases h
  obtain rfl := some.inj h
  split
  · exact clean_of_short hid
  · rw [hname]
    exact clean_cleanText

theorem Member.tidied_eq (hname : Clean 80 m.displayName)
    (hjoined : m.state = .active → m.joinedAt ≠ none) :
    m.tidied createdAt = m := by
  have hclean : cleanText m.displayName 80 = m.displayName := hname
  have htime : m.joinedAt.or (if m.state = .active then some createdAt else none) = m.joinedAt := by
    cases hm : m.joinedAt with
    | some n => rfl
    | none =>
      have hinactive : m.state ≠ .active := fun hactive => hjoined hactive hm
      rw [if_neg hinactive]
      rfl
  rw [Member.tidied, hclean, htime]

theorem tidied_of_short (h₁ : normalizeGroup now raw = .ok g₁) (h : normalizeGroup now' g₁.json = .ok g)
    (hids : ∀ r ∈ (raw.get "members").items, Short (listedId r))
    (hcreatedBy : Short (raw.get "createdBy").textOrEmpty) : g.tidied = g := by
  have hfirst := normalized h₁
  have hsecond := normalized h
  have hcreator : cleanText g₁.createdBy 96 = g₁.createdBy := by
    rw [hfirst.createdBy]
    exact clean_of_short (hcreatedBy.trans (by decide))
  have hsame : g.createdBy = g₁.createdBy := by
    have hread : g.createdBy = cleanString (.str g₁.createdBy) 96 := hsecond.createdBy
    rw [hread, cleanString_str, hcreator]
  have hmembers : g.members.map (Member.tidied g.createdAt) = g.members := by
    conv_rhs => rw [← map_id g.members]
    apply map_congr_left
    intro m hm
    obtain ⟨r, hr, m', hread, rfl⟩ := hsecond.mem hm
    obtain ⟨m₁, hm₁, rfl⟩ := mem_map.mp hr
    obtain ⟨r₁, hr₁, m₁', hread₁, rfl⟩ := hfirst.mem hm₁
    obtain ⟨-, -, t, ht⟩ := cleaned_of_normalizeMember hread₁
    have hid₁ : m₁'.peerId = cleanText (listedId r₁) 96 := peerId_of_normalizeMember hread₁
    have hlisted := hids r₁ hr₁
    have hid : m'.peerId = m₁'.peerId := by
      have hagain := peerId_of_normalizeMember hread
      rw [hagain, listedId_json, peerId_asCreator, hid₁]
      exact clean_of_short (hlisted.trans (by decide))
    have hshort : Short m'.peerId := by
      rw [hid, hid₁]
      exact utf16Length_cleanText_le.trans hlisted
    apply Member.tidied_eq
    · rw [displayName_asCreator]
      exact clean_displayName_of_short (displayName_asCreator.trans ht) hshort hread
    intro hactive
    rw [joinedAt_asCreator]
    apply joinedAt_of_normalizeMember hread
    -- the founder was made active the first time
    by_contra hinactive
    have hcreated : m'.peerId = g.createdBy := by
      by_contra hne
      rw [asCreator, if_neg hne] at hactive
      exact hinactive hactive
    have hstate : m'.state = (asCreator g₁.createdBy m₁').state := state_of_normalizeMember hread
    rw [asCreator, if_pos hcreated] at hactive
    split at hactive
    · next hinvited =>
      rw [hid, hsame] at hcreated
      exact state_asCreator_ne hcreated (hstate.symm.trans hinvited)
    · exact hinactive hactive
  rw [Group.tidied, hmembers]

def Group.ShortIds (g : Group) : Prop := ∀ m ∈ g.members, Short m.peerId

theorem shortIds_of_normalized_twice (h₁ : normalizeGroup now raw = .ok g₁) (h : normalizeGroup now' g₁.json = .ok g)
    (hids : ∀ r ∈ (raw.get "members").items, Short (listedId r)) : g.ShortIds := by
  intro m hm
  obtain ⟨r, hr, m', hread, rfl⟩ := (normalized h).mem hm
  obtain ⟨m₁, hm₁, rfl⟩ := mem_map.mp hr
  obtain ⟨r₁, hr₁, m₁', hread₁, rfl⟩ := (normalized h₁).mem hm₁
  have hlisted : listedId (asCreator g₁.createdBy m₁').json = m₁'.peerId :=
    (listedId_json).trans peerId_asCreator
  rw [peerId_asCreator, peerId_of_normalizeMember hread, hlisted, peerId_of_normalizeMember hread₁]
  exact utf16Length_cleanText_le.trans (utf16Length_cleanText_le.trans (hids r₁ hr₁))

/-! ### Members who accept and leave -/

def Member.accepted (at_ : Json) (m : Member) : Member :=
  { m with
    state := .active
    joinedAt := finite (orElse (jsonOrUndefined m.joinedAt) at_)
    removedAt := none }

def Member.departed (state : MemberState) (at_ : Json) (m : Member) : Member :=
  { m with state := state, removedAt := finite at_ }

/-- The group with the next revision, one member changed and all of them normalized. -/
def Group.changed (g : Group) (peerId : String) (f : Member → Member) (at_ : Json) : Group :=
  { g with
    revision := addOne g.revision
    updatedAt := (finite at_).getD g.createdAt
    members := g.members.map fun m => (if m.peerId = peerId then f m else m).tidied g.createdAt }

/-- A change of a member that leaves the id, the name and the role, and does not invite. -/
structure Keeps (f : Member → Member) : Prop where
  peerId : ∀ m, (f m).peerId = m.peerId
  displayName : ∀ m, (f m).displayName = m.displayName
  role : ∀ m, (f m).role = m.role
  state : ∀ m, (f m).state ≠ .invited

theorem keeps_accepted : Keeps (Member.accepted at_) where
  peerId := fun _ => rfl
  displayName := fun _ => rfl
  role := fun _ => rfl
  state := fun _ => MemberState.noConfusion

theorem keeps_departed : Keeps (Member.departed .left at_) where
  peerId := fun _ => rfl
  displayName := fun _ => rfl
  role := fun _ => rfl
  state := fun _ => MemberState.noConfusion

theorem Keeps.stored (hf : Keeps f) (h : m.Stored) :
    (f m).Stored where
  peerId := (hf.peerId m).symm ▸ h.peerId
  identified := (hf.peerId m).symm ▸ h.identified
  named := (hf.displayName m).symm ▸ h.named

theorem Group.Stored.changed (h : g.Stored) (hf : Keeps f) : (g.changed peerId f at_).Stored := by
  have hmembers : Group.Stored { g with members := g.members.map fun m =>
      (if m.peerId = peerId then f m else m).tidied g.createdAt } := by
    apply h.mapMembers
    · intro m
      split
      · exact hf.peerId m
      · rfl
    · intro m hadmin
      split
      · exact (hf.role m).trans hadmin
      · exact hadmin
    · intro m hm
      apply Member.Stored.tidied
      split
      · exact hf.stored hm
      · exact hm
    · intro m hstate
      split
      · exact hf.state m
      · exact hstate
  exact
    { id := hmembers.id, revision := addOne_pos h.revision, name := hmembers.name
      named := hmembers.named, image := hmembers.image, createdBy := hmembers.createdBy
      members := hmembers.members, nodup := hmembers.nodup, founder := hmembers.founder }

theorem tidied_changed (h : g.tidied = g) (hf : Keeps f) : (g.changed peerId f at_).tidied = g.changed peerId f at_ := by
  rw [Group.tidied, Group.changed]
  rw [List.map_map]
  congr 1
  apply List.map_congr_left
  intro m hm
  apply Member.tidied_tidied
  split
  · rw [hf.displayName]
    exact clean_displayName h hm
  · exact clean_displayName h hm

theorem nextGroup_eq (h : g.Stored) (hf : Keeps f)
    {patched : Member → Json} (now : Int)
    (hpatched : ∀ m ∈ g.members,
      normalizeMember (patched m) g.createdAt = some ((f m).tidied g.createdAt)) :
    nextGroup now g at_ (g.members.map fun m => if m.peerId = peerId then patched m else m.json) =
      .ok (g.changed peerId f at_) := by
  apply normalizeGroup_of_reads (h.changed hf)
  refine ⟨rfl, rfl, rfl, rfl, rfl, rfl, rfl, ?_⟩
  apply forall₂_map_left_iff.mpr
  apply forall₂_map_right_iff.mpr
  apply forall₂_same.mpr
  intro m hm
  split
  · exact hpatched m hm
  · exact normalizeMember_json (h.members m hm)

theorem withAcceptedMember_eq (h : g.Stored) (now : Int) : withAcceptedMember now g peerId at_ =
      .ok (g.changed peerId (Member.accepted at_) at_) := by
  apply nextGroup_eq h keeps_accepted
  intro m hm
  have hstored := h.members m hm
  have hid : cleanText m.peerId 96 = m.peerId := hstored.peerId
  simp [normalizeMember, Json.get, spread, setField, Member.fields, lookup_cons, hid,
    hstored.identified, hstored.displayName_ne_empty, Member.tidied, Member.accepted,
    ofJson_active]

theorem withDepartedMember_eq (h : g.Stored) (now : Int) : withDepartedMember now g peerId .left at_ =
      .ok (g.changed peerId (Member.departed .left at_) at_) := by
  apply nextGroup_eq h keeps_departed
  intro m hm
  have hstored := h.members m hm
  have hid : cleanText m.peerId 96 = m.peerId := hstored.peerId
  simp [normalizeMember, Json.get, spread, setField, Member.fields, lookup_cons, hid,
    hstored.identified, hstored.displayName_ne_empty, Member.tidied, Member.departed]

/-! ### Groups that are normalized once more -/

/-- The entries that become members: the first one with each id -/
def listed (seen : List String) : List Json → List Json
  | [] => []
  | raw :: raws =>
    let id := cleanText (listedId raw) 96
    if id = "" ∨ id ∈ seen then listed seen raws else raw :: listed (seen ++ [id]) raws

/-- The name that a listed member is given -/
def listedName (raw : Json) : String :=
  (orElse (orElse (raw.get "displayName") (raw.get "name"))
    (.str (cleanText (listedId raw) 96))).textOrEmpty

/-- The texts of a member can be cleaned again, and it is known since when the founder is there. -/
structure MemberLasting (createdBy : String) (raw : Json) : Prop where
  id : Clean 96 (cleanText (listedId raw) 96)
  name : Clean 80 (cleanText (listedName raw) 80)
  named : cleanText (listedName raw) 80 ≠ ""
  founder : cleanText (listedId raw) 96 = createdBy →
    MemberState.ofJson (raw.get "state") = .invited → finite (raw.get "joinedAt") ≠ none

structure Lasting (raw : Json) : Prop where
  name : Clean groupMaxNameChars (cleanString (raw.get "name") groupMaxNameChars)
  image : Clean groupMaxImageChars (cleanString (raw.get "image") groupMaxImageChars)
  createdBy : Clean 96 (cleanString (raw.get "createdBy") 96)
  members : ∀ r ∈ listed [] (raw.get "members").items,
    MemberLasting (cleanString (raw.get "createdBy") 96) r

theorem normalizeMember_eq_none :
    normalizeMember raw now = none ↔ cleanText (listedId raw) 96 = "" := by
  exact ite_eq_left_iff.trans (by simp [listedId, cleanString])

theorem listedId_ne_empty {seen : List String} (h : raw ∈ listed seen raws) :
    cleanText (listedId raw) 96 ≠ "" := by
  induction raws generalizing seen with
  | nil => exact absurd h not_mem_nil
  | cons r raws ih =>
    rw [listed] at h
    split at h
    · exact ih h
    next hnew =>
    obtain rfl | h := mem_cons.mp h
    · exact fun hempty => hnew (.inl hempty)
    · exact ih h

theorem normalizeMembers_eq : normalizeMembers createdAt acc raws =
    acc ++ (listed (acc.map Member.peerId) raws).filterMap (normalizeMember · createdAt) := by
  fun_induction normalizeMembers createdAt acc raws with
  | case1 acc => exact (append_nil acc).symm
  | case2 acc raw raws hraw ih => rw [ih, listed, if_pos (.inl (normalizeMember_eq_none.mp hraw))]
  | case3 acc raw raws m hraw hseen ih =>
    rw [ih, listed, if_pos (.inr (peerId_of_normalizeMember hraw ▸ hseen))]
  | case4 acc raw raws m hraw hseen ih =>
    have hid := peerId_of_normalizeMember hraw
    have hne : cleanText (listedId raw) 96 ≠ "" := by
      intro hempty
      rw [normalizeMember_eq_none.mpr hempty] at hraw
      cases hraw
    rw [ih, listed, if_neg (not_or.mpr ⟨hne, hid ▸ hseen⟩), filterMap_cons, hraw, map_append, ← hid,
      append_assoc]
    rfl

theorem lasting_member (h : normalizeMember raw createdAt = some m) :
    (asCreator createdBy m).Stored ∧ (asCreator createdBy m).tidied createdAt = asCreator createdBy m ↔
      MemberLasting createdBy raw := by
  have hid := peerId_of_normalizeMember h
  have hne := (cleaned_of_normalizeMember h).1
  obtain ⟨hname, hstate, hjoinedAt⟩ : m.displayName = cleanText (listedName raw) 80 ∧
      m.state = MemberState.ofJson (raw.get "state") ∧ m.joinedAt = (finite (raw.get "joinedAt")).or
        (if MemberState.ofJson (raw.get "state") = .active then some createdAt else none) := by
    rw [normalizeMember] at h
    split at h
    · cases h
    · obtain rfl := some.inj h
      exact ⟨rfl, rfl, rfl⟩
  have hjoined : (asCreator createdBy m).joinedAt.or
      (if (asCreator createdBy m).state = .active then some createdAt else none) =
        (asCreator createdBy m).joinedAt ↔ (m.peerId = createdBy →
          MemberState.ofJson (raw.get "state") = .invited → finite (raw.get "joinedAt") ≠ none) := by
    rw [joinedAt_asCreator, hjoinedAt, asCreator]
    by_cases hfounder : m.peerId = createdBy
    · simp only [hstate, hfounder, true_implies]
      cases MemberState.ofJson (raw.get "state") <;> cases finite (raw.get "joinedAt") <;> simp
    · rw [if_neg hfounder, hstate]
      simp only [hfounder, false_implies, iff_true]
      cases MemberState.ofJson (raw.get "state") <;> cases finite (raw.get "joinedAt") <;> rfl
  constructor
  · rintro ⟨hstored, htidied⟩
    have hname' := congrArg Member.displayName htidied
    have hnamed := hstored.named
    rw [displayName_asCreator] at hname' hnamed
    have hclean : Clean 80 m.displayName := (congrArg (cleanText · 80) displayName_asCreator.symm).trans hname'
    rw [hclean, hname] at hnamed
    exact ⟨hid ▸ peerId_asCreator ▸ hstored.peerId, hname ▸ hclean, hnamed,
      hid ▸ hjoined.mp (congrArg Member.joinedAt htidied)⟩
  · intro H
    have hclean : cleanText m.displayName 80 = m.displayName := hname ▸ H.name
    refine ⟨⟨?_, ?_, ?_⟩, ?_⟩
    · rw [peerId_asCreator, hid]
      exact H.id
    · rwa [peerId_asCreator]
    · rw [displayName_asCreator, hclean, hname]
      exact H.named
    · have hsame : (asCreator createdBy m).displayName = m.displayName := displayName_asCreator
      rw [Member.tidied, hjoined.mpr (hid ▸ H.founder), hsame, hclean, ← hsame]

/-- A group that is normalized stays as it is, whenever it is normalized again, if and only if its
texts can be cleaned again and the founder does not become active without a time. -/
theorem normalizeGroup_lasts_iff (h : normalizeGroup now raw = .ok g) :
    (∀ now', normalizeGroup now' g.json = .ok g) ↔ Lasting raw := by
  have H := normalized h
  obtain ⟨members, hlisted, -, hmembers⟩ := H.members
  rw [normalizeMembers_eq, nil_append] at hlisted
  have hname : Clean groupMaxNameChars g.name ↔
      Clean groupMaxNameChars (cleanString (raw.get "name") groupMaxNameChars) := by
    have hread : g.name = if cleanString (raw.get "name") groupMaxNameChars = "" then "Neue Gruppe"
        else cleanString (raw.get "name") groupMaxNameChars := by
      rw [normalizeGroup, H.rawId] at h
      dsimp only at h
      rw [if_pos H.id] at h
      split at h
      · cases h
      · exact congrArg Group.name (Except.ok.inj h).symm
    rw [hread]
    split
    · next hempty =>
      rw [hempty]
      exact iff_of_true (by decide +kernel) cleanText_empty
    · rfl
  have hall : (∀ m ∈ g.members, m.Stored ∧ m.tidied g.createdAt = m) ↔
      ∀ r ∈ listed [] (raw.get "members").items, MemberLasting g.createdBy r := by
    rw [hmembers, List.forall_mem_map, hlisted]
    constructor
    · intro hm r hr
      cases hread : normalizeMember r g.createdAt with
      | none => exact absurd (normalizeMember_eq_none.mp hread) (listedId_ne_empty hr)
      | some m => exact (lasting_member hread).mp (hm m (mem_filterMap.mpr ⟨r, hr, hread⟩))
    · intro hr m hm
      obtain ⟨r, hmem, hread⟩ := mem_filterMap.mp hm
      exact (lasting_member hread).mpr (hr r hmem)
  constructor
  · intro hagain
    have hstored := stored_of_normalized_twice h (hagain now)
    have htidied : g.tidied = g :=
      Except.ok.inj ((normalizeGroup_json hstored now).symm.trans (hagain now))
    exact ⟨hname.mp hstored.name, H.image ▸ hstored.image, H.createdBy ▸ hstored.createdBy,
      H.createdBy ▸ hall.mp fun m hm => ⟨hstored.members m hm, tidied_member htidied hm⟩⟩
  · intro hlasting now'
    have hmembers := hall.mpr (H.createdBy ▸ hlasting.members)
    have hstored : g.Stored := ⟨H.id, H.revision_pos, hname.mpr hlasting.name, H.named,
      H.image ▸ hlasting.image, H.createdBy ▸ hlasting.createdBy, fun m hm => (hmembers m hm).1,
      H.nodup, H.founder⟩
    have htidied : g.tidied = g := by
      have hsame : g.members.map (Member.tidied g.createdAt) = g.members :=
        (map_congr_left fun m hm => (hmembers m hm).2).trans (map_id _)
      rw [Group.tidied, hsame]
    rw [normalizeGroup_json hstored, htidied]

/-- A group with its founder alone -/
def founded (founder : List (String × Json)) : Json :=
  .obj [("id", .str "group:aaaaaaaa"), ("createdBy", .str "p"), ("createdAt", .num 1),
    ("members", .arr [.obj (("peerId", .str "p") :: founder)])]

theorem exists_ok (h : (normalizeGroup now raw).toOption.isSome = true) :
    ∃ g, normalizeGroup now raw = .ok g := by
  cases hg : normalizeGroup now raw with
  | ok g => exact ⟨g, rfl⟩
  | error e =>
    rw [hg] at h
    cases h

theorem normalizeGroup_lasts_active : ∃ g, normalizeGroup 5 (founded [("state", .str "active")]) = .ok g ∧
    ∀ now', normalizeGroup now' g.json = .ok g := by
  obtain ⟨g, hg⟩ : ∃ g, normalizeGroup 5 (founded [("state", .str "active")]) = .ok g :=
    exists_ok (by decide +kernel)
  refine ⟨g, hg, (normalizeGroup_lasts_iff hg).mpr ⟨?_, ?_, ?_, fun r hr => ?_⟩⟩
  · decide +kernel
  · decide +kernel
  · decide +kernel
  have hlisted : listed [] ((founded [("state", .str "active")]).get "members").items =
      [.obj [("peerId", .str "p"), ("state", .str "active")]] := by decide +kernel
  rw [hlisted] at hr
  obtain rfl := mem_singleton.mp hr
  exact ⟨by decide +kernel, by decide +kernel, by decide +kernel, fun _ h => nomatch h⟩

/-- A founder who is listed without a state joins only when the group is normalized again. -/
theorem founder_joins_later : ∃ now raw now' g, normalizeGroup now raw = .ok g ∧
    normalizeGroup now' g.json ≠ .ok g := by
  obtain ⟨g, hg⟩ : ∃ g, normalizeGroup 5 (founded []) = .ok g := exists_ok (by decide +kernel)
  refine ⟨5, founded [], 6, g, hg, fun h => ?_⟩
  have hfirst : ((normalizeGroup 5 (founded [])).toOption.map fun g =>
      g.members.map Member.joinedAt) = some [none] := by
    decide +kernel
  have hagain : ((normalizeGroup 5 (founded [])).toOption.bind fun g =>
      (normalizeGroup 6 g.json).toOption.map fun g => g.members.map Member.joinedAt) =
        some [some 1] := by
    decide +kernel
  rw [hg] at hfirst hagain
  have hagain : (normalizeGroup 6 g.json).toOption.map (fun g => g.members.map Member.joinedAt) =
      some [some 1] := hagain
  rw [h] at hagain
  exact absurd (hfirst.symm.trans hagain) (by decide)

end Bluetalk.Groups

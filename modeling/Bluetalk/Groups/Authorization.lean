import Bluetalk.Groups.Device
import Bluetalk.Theory.Run

/-!
# Who may change a group, and who founded it

A group that is stored is changed by its admins, or by a member who accepts an invitation or leaves
where an admin is told (`authorized`). Two things stand in the way: a group that normalizing does not
leave as it is changes with every event that is known (`Guarded`), and a revision that is its own
successor does not increase.
-/

open List Option

namespace Bluetalk.Groups

/-- An event that arrives, with the time and the id that the device may use for an answer -/
structure Arrival where
  now : Int
  newId : String
  event : Json
  fromId : String

namespace Device

def receive (d : Device) (a : Arrival) : Device := d.handleGroupEvent a.now a.newId a.event a.fromId

end Device

/-! ### What is claimed of a change -/

/-- A change of a member's own entry that an admin records -/
structure OwnEntry (event : Json) (selfPeerId actorId : String) (g g' : Group) : Prop where
  admin : isGroupAdmin g selfPeerId
  moved : event.get "action" = .str "accept" ∧ stateOf g actorId = some .invited ∧
      stateOf g' actorId = some .active ∨
    event.get "action" = .str "leave" ∧ stateOf g actorId = some .active ∧
      stateOf g' actorId = some .left
  others : ∀ p, p ≠ actorId → getGroupMember g' p = getGroupMember g p
  ids : g'.members.map Member.peerId = g.members.map Member.peerId
  rest : g'.id = g.id ∧ g'.name = g.name ∧ g'.image = g.image ∧ g'.createdAt = g.createdAt ∧
    g'.createdBy = g.createdBy

def Applied.isChange : Applied → Bool
  | .refused _ => false
  | .applied _ duplicate _ _ => !duplicate

/-- What an event may do to a group that is stored. -/
structure Authorized (a : Arrival) (selfPeerId : String) (g g' : Group) : Prop where
  kept : ∀ applied, applyGroupEvent a.now (some g) a.event selfPeerId = .ok applied →
    ¬ applied.isChange → g' = g
  changed : g' ≠ g → g.revision < g'.revision ∧
    (isGroupAdmin g a.fromId ∨ OwnEntry a.event selfPeerId a.fromId g g')

/-- Every group that the device has stored stays stored, changed only as it may be. -/
def Lawful (d : Device) (a : Arrival) : Prop :=
  ∀ groupId g, d.group? groupId = some g →
    ∃ g', (d.receive a).group? groupId = some g' ∧ Authorized a d.ownPeerId g g'

/-! ### When it holds -/

/-- Normalizing leaves the group as it is, or the event brings a newer one; and where a member accepts
or leaves, the revision has a successor. -/
structure Guarded (g : Group) (event : Json) : Prop where
  tidied : g.tidied = g ∨
    (event.get "action" = .str "invite" ∨ event.get "action" = .str "update") ∧
      g.revision < snapshotRevision event
  counted : event.get "action" = .str "accept" ∨ event.get "action" = .str "leave" →
    g.revision < addOne g.revision

def Device.Guards (d : Device) (a : Arrival) : Prop :=
  ∀ g, d.group? (a.event.get "groupId") = some g → Guarded g a.event

/-! ### Events, and sequences of them -/

section

variable {d : Device} {a : Arrival} {g : Group}

theorem authorized_of_replaced {g' : Group} (hg : g.Stored) (hremote : a.fromId ≠ d.ownPeerId)
    (hguarded : Guarded g a.event) (h : Device.Replaced a.now a.event a.fromId d.ownPeerId g g') :
    Authorized a d.ownPeerId g g' := by
  obtain ⟨-, hactor, g₁, duplicate, shouldAccept, shouldBroadcast, happlied, hhandled, hread⟩ := h
  have hactorOf : actorOf a.event = a.fromId := by rw [actorOf, hactor]; rfl
  have hown : a.event.get "actorId" ≠ .str d.ownPeerId := by
    rw [hactor]
    exact fun h => hremote (Json.str.inj h)
  -- what is claimed when the event is a change
  have hchange : g.revision < g'.revision →
      (isGroupAdmin g a.fromId ∨ OwnEntry a.event d.ownPeerId a.fromId g g') →
      duplicate = false → Authorized a d.ownPeerId g g' := by
    intro hrevision hlaw hduplicate
    refine ⟨fun applied h hkept => ?_, fun _ => ⟨hrevision, hlaw⟩⟩
    rw [happlied] at h
    obtain rfl := Except.ok.inj h
    rw [hduplicate] at hkept
    exact absurd rfl hkept
  have htidied : (a.event.get "action" ≠ .str "invite" ∧ a.event.get "action" ≠ .str "update") →
      g.tidied = g := fun haction =>
    hguarded.tidied.resolve_right fun h => h.1.elim haction.1 haction.2
  cases hhandled with
  | known stale =>
    have hsame : g.tidied = g := by
      obtain hself | haccept | hstale := stale
      · exact absurd hself hown
      · apply htidied
        rw [haccept]
        decide
      · exact hguarded.tidied.resolve_right fun h => absurd h.2 (not_lt.mpr hstale)
    rw [hsame, normalizeGroup_json hg] at hread
    have hunchanged : g' = g := (Except.ok.inj hread).symm.trans hsame
    exact ⟨fun _ _ _ => hunchanged, fun h => absurd hunchanged h⟩
  | own actor => exact absurd actor hown
  | invite action read admin id newer | update action read admin id createdBy newer =>
    rw [hactorOf] at admin
    have hrevision := revision_of_json hread (normalized read).revision_pos
    exact hchange (hrevision ▸ newer) (.inl admin) rfl
  | accept action actor admin member invited =>
    have hsame := htidied (by rw [action]; decide)
    rw [hactorOf] at hread member
    rw [hsame, normalizeGroup_json (hg.changed keeps_accepted)] at hread
    obtain rfl := Except.ok.inj hread
    refine hchange (hguarded.counted (.inl action))
      (.inr ⟨admin, .inl ⟨action, ?_, ?_⟩, ?_, ?_, ?_⟩) rfl
    · rw [stateOf, member, map_some, invited]
    · exact stateOf_changed keeps_accepted member
    · exact fun p hp => getGroupMember_changed_of_ne keeps_accepted hsame hp
    · exact map_peerId_changed keeps_accepted
    · exact ⟨rfl, rfl, rfl, rfl, rfl⟩
  | leave action actor admin member active =>
    have hsame := htidied (by rw [action]; decide)
    rw [hactorOf] at hread member
    rw [hsame, normalizeGroup_json (hg.changed keeps_departed)] at hread
    obtain rfl := Except.ok.inj hread
    refine hchange (hguarded.counted (.inr action))
      (.inr ⟨admin, .inr ⟨action, ?_, ?_⟩, ?_, ?_, ?_⟩) rfl
    · rw [stateOf, member, map_some, active]
    · exact stateOf_changed keeps_departed member
    · exact fun p hp => getGroupMember_changed_of_ne keeps_departed hsame hp
    · exact map_peerId_changed keeps_departed
    · exact ⟨rfl, rfl, rfl, rfl, rfl⟩

theorem authorized_self : Authorized a d.ownPeerId g g :=
  ⟨fun _ _ _ => rfl, fun h => absurd rfl h⟩

theorem lawful_receive (hd : d.Stored) (hremote : a.fromId ≠ d.ownPeerId) (hguards : d.Guards a) :
    Lawful d a := by
  intro groupId g hg
  obtain ⟨g', hg', hsame | hreplaced⟩ := 
    @Device.group?_handleGroupEvent d a.now a.newId a.fromId a.event hd groupId g hg
  · exact ⟨g', hg', hsame ▸ authorized_self⟩
  · refine ⟨g', hg', authorized_of_replaced (hd.group hg) hremote (hguards g ?_) hreplaced⟩
    rw [hreplaced.groupId, ← Device.group?_id hg]
    exact hg

end

/-! ### Sequences of events -/

def step (d : Device) (a : Arrival) : Option Device := some (d.receive a)

/-- Every event of a sequence does what it may do. -/
def AllLawful : Device → List Arrival → Prop
  | _, [] => True
  | d, a :: as => Lawful d a ∧ AllLawful (d.receive a) as

theorem ownPeerId_receive {d : Device} {a : Arrival} : (d.receive a).ownPeerId = d.ownPeerId :=
  Device.ownPeerId_handleGroupEvent

/-- In every sequence of events of other peers, a stored group is changed only by its admins, or where
an admin records that a member accepts or leaves, and its revision increases, as long as the group an
event finds is one that normalizing leaves and that has a next revision. -/
theorem authorized {d d' : Device} {as : List Arrival} (hd : d.Stored)
    (hremote : ∀ a ∈ as, a.fromId ≠ d.ownPeerId) (h : Run step Device.Guards d as d') :
    AllLawful d as := by
  induction h with
  | nil => trivial
  | @cons d a d₁ as d' hguards ha hrun ih =>
    obtain rfl := some.inj ha
    rw [forall_mem_cons] at hremote
    refine ⟨lawful_receive hd hremote.1 hguards, ih hd.handleGroupEvent ?_⟩
    rw [ownPeerId_receive]
    exact hremote.2

/-! ### An acceptance -/

def anna : Member := ⟨"anna", "Anna", .admin, .active, 1, some 1, none⟩
def ben : Member := ⟨"ben", "Ben", .member, .invited, 1, none, none⟩

/-- A group of two, of which one is invited -/
def pair (revision : Int) : Group :=
  { id := "group:pair0000", revision := revision, name := "Pair", image := "", createdAt := 1
    createdBy := "anna", updatedAt := 1, members := [anna, ben] }

theorem stored_pair (revision : Int) (h : 1 ≤ revision) : (pair revision).Stored where
  id := (by decide : isGroupChatId "group:pair0000")
  revision := h
  name := (by decide +kernel : Clean groupMaxNameChars "Pair")
  named := (by decide : "Pair" ≠ "")
  image := (by decide +kernel : Clean groupMaxImageChars "")
  createdBy := (by decide +kernel : Clean 96 "anna")
  members := forall_mem_cons.mpr ⟨⟨by decide +kernel, by decide, by decide +kernel⟩,
    forall_mem_singleton.mpr ⟨by decide +kernel, by decide, by decide +kernel⟩⟩
  nodup := (by decide : ["anna", "ben"].Nodup)
  founder := ⟨anna, mem_cons_self, rfl, rfl, MemberState.noConfusion⟩

def annasDevice (revision : Int) : Device := { ownPeerId := "anna", groups := [pair revision] }

theorem stored_annasDevice (revision : Int) (h : 1 ≤ revision) : (annasDevice revision).Stored := by
  intro g hg
  rw [mem_singleton.mp hg]
  exact stored_pair revision h

def benAccepts : Arrival :=
  { now := 2, newId := "group-event:2", fromId := "ben"
    event := .obj (eventBase "accept" "group-event:1" "group:pair0000" "ben" 2) }

theorem authorized_acceptance : AllLawful (annasDevice 1) [benAccepts] := by
  apply authorized (stored_annasDevice 1 (by decide)) (by decide) (.single _ rfl)
  intro g hg
  obtain rfl : pair 1 = g := some.inj hg
  exact ⟨.inl (by decide +kernel), fun _ => by decide⟩

/-- A revision that is its own successor stays when a member accepts. -/
theorem acceptance_not_counted : ¬ ∀ d as, Device.Stored d →
    (∀ a ∈ as, a.fromId ≠ d.ownPeerId) → AllLawful d as := by
  intro h
  obtain ⟨hlawful, -⟩ := h (annasDevice (2 ^ 53)) [benAccepts]
    (stored_annasDevice _ (by decide)) (by decide)
  obtain ⟨g', hg', hauthorized⟩ := hlawful (.str "group:pair0000") (pair (2 ^ 53)) (by decide)
  have hafter : ((annasDevice (2 ^ 53)).receive benAccepts).group? (.str "group:pair0000") =
      some { pair (2 ^ 53) with
        updatedAt := 2
        members := [anna, { ben with state := .active, joinedAt := some 2 }] } := by
    decide +kernel
  obtain rfl := some.inj (hg'.symm.trans hafter)
  exact absurd (hauthorized.changed (by decide)).1 (by decide)

end Bluetalk.Groups

/-!
## The founder of a group

Whoever a group names as its founder is its admin. An update that names another founder is refused;
an invitation to a group that is known is not checked for that, so that any admin can make himself
the founder (`founder_moves`). Without such an invitation a stored group keeps its id and its founder
(`founder_fixed`).
-/

namespace Bluetalk.Groups

def snapshotFounder (event : Json) : String :=
  cleanText (cleanString ((event.get "group").get "createdBy") 96) 96

/-- No admin's newer snapshot of the group that is stored comes as an invitation and names another
founder. -/
def KeepsFounder (d : Device) (a : Arrival) : Prop :=
  ∀ g, d.group? (a.event.get "groupId") = some g → a.event.get "action" = .str "invite" →
    isGroupAdmin g a.fromId → g.revision < snapshotRevision a.event →
      snapshotFounder a.event = g.createdBy

section

variable {now : Int} {g g₁ g' : Group} {d : Device} {a : Arrival}

theorem createdBy_of_replaced (hg : g.Stored) (hkeeps : a.event.get "action" = .str "invite" →
      isGroupAdmin g a.fromId → g.revision < snapshotRevision a.event →
        snapshotFounder a.event = g.createdBy)
    (h : Device.Replaced a.now a.event a.fromId d.ownPeerId g g') : g'.createdBy = g.createdBy := by
  obtain ⟨-, hactor, g₁, duplicate, shouldAccept, shouldBroadcast, -, hhandled, hread⟩ := h
  have hclean : cleanText g.createdBy 96 = g.createdBy := hg.createdBy
  rw [createdBy_of_json hread]
  cases hhandled with
  | known | accept | leave => exact hclean
  | own actor read id createdBy =>
    rw [(normalized read).createdBy, createdBy, cleanString_str, hclean, hclean]
  | invite action read admin id newer =>
    have hactorOf : actorOf a.event = a.fromId := by rw [actorOf, hactor]; rfl
    rw [(normalized read).revision] at newer
    rw [hactorOf] at admin
    rw [(normalized read).createdBy]
    exact hkeeps action admin newer
  | update action read admin id createdBy newer => rw [createdBy, hclean]

theorem founder_receive (hd : d.Stored) (hkeeps : KeepsFounder d a) {groupId : Json}
    (hg : d.group? groupId = some g) :
    ∃ g', (d.receive a).group? groupId = some g' ∧ g'.createdBy = g.createdBy := by
  obtain ⟨g', hg', rfl | hreplaced⟩ :=
    @Device.group?_handleGroupEvent d a.now a.newId a.fromId a.event hd groupId g hg
  · exact ⟨g', hg', rfl⟩
  · refine ⟨g', hg', createdBy_of_replaced (hd.group hg) (hkeeps g ?_) hreplaced⟩
    rw [hreplaced.groupId, ← Device.group?_id hg]
    exact hg

end

/-- Through every sequence of events, whoever they come from, a stored group keeps its id and its
founder, who is an admin, as long as no admin's invitation to it names another founder. -/
theorem founder_fixed {d d' : Device} {as : List Arrival} (hd : d.Stored)
    (h : Run step KeepsFounder d as d') {groupId : Json} {g : Group}
    (hg : d.group? groupId = some g) :
    ∃ g', d'.group? groupId = some g' ∧ g'.id = g.id ∧ g'.createdBy = g.createdBy ∧
      ∃ m ∈ g'.members, m.peerId = g.createdBy ∧ m.role = .admin := by
  induction h generalizing g with
  | nil =>
    obtain ⟨m, hm, hcreated, hadmin, -⟩ := (hd.group hg).founder
    exact ⟨g, hg, rfl, rfl, m, hm, hcreated, hadmin⟩
  | @cons d a d₁ as d' hkeeps ha hrun ih =>
    obtain rfl := some.inj ha
    obtain ⟨g₁, hg₁, hcreated₁⟩ := founder_receive hd hkeeps hg
    obtain ⟨g', hg', hid, hcreated, hfounder⟩ := ih hd.handleGroupEvent hg₁
    have hsame : g₁.id = g.id :=
      Json.str.inj ((Device.group?_id hg₁).symm.trans (Device.group?_id hg))
    rw [hcreated₁] at hcreated hfounder
    exact ⟨g', hg', hid.trans hsame, hcreated, hfounder⟩

/-- The acceptance of an invitation is no snapshot. -/
theorem founder_fixed_acceptance : ∃ g',
    ((annasDevice 1).receive benAccepts).group? (.str "group:pair0000") = some g' ∧
      g'.id = "group:pair0000" ∧ g'.createdBy = "anna" ∧
      ∃ m ∈ g'.members, m.peerId = "anna" ∧ m.role = .admin :=
  founder_fixed (g := pair 1) (stored_annasDevice 1 (by decide))
    (.single (fun g _ haction => absurd haction (by decide)) rfl) (by decide)

/-! ### Another founder -/

def benAsAdmin : Member := ⟨"ben", "Ben", .admin, .active, 1, some 1, none⟩
def carl : Member := ⟨"carl", "Carl", .member, .active, 1, some 1, none⟩

/-- A group of three with two admins, as `createdBy` founded it -/
def trio (revision : Int) (createdBy : String) : Group :=
  { id := "group:trio0000", revision := revision, name := "Trio", image := "", createdAt := 1
    createdBy := createdBy, updatedAt := 1, members := [anna, benAsAdmin, carl] }

theorem stored_trio : (trio 1 "anna").Stored where
  id := by decide
  revision := by decide
  name := by decide +kernel
  named := by decide
  image := by decide +kernel
  createdBy := by decide +kernel
  members := forall_mem_cons.mpr ⟨⟨by decide +kernel, by decide, by decide +kernel⟩,
    forall_mem_cons.mpr ⟨⟨by decide +kernel, by decide, by decide +kernel⟩,
      forall_mem_singleton.mpr ⟨by decide +kernel, by decide, by decide +kernel⟩⟩⟩
  nodup := by decide
  founder := ⟨anna, by decide, rfl, rfl, by decide⟩

def carlsDevice : Device := { ownPeerId := "carl", groups := [trio 1 "anna"] }

/-- Ben invites Carl, who is a member, to the group of which Ben is the founder. -/
def benInvites : Arrival :=
  { now := 2, newId := "group-event:2", fromId := "ben"
    event := .obj (eventBase "invite" "group-event:1" "group:trio0000" "ben" 2 ++
      [("recipientId", .str "carl"), ("group", (trio 2 "ben").json)]) }

theorem founder_moves : ¬ ∀ (d : Device) (as : List Arrival) (groupId : Json) (g g' : Group),
    d.Stored → d.group? groupId = some g → (as.foldl Device.receive d).group? groupId = some g' →
      g'.id = g.id ∧ g'.createdBy = g.createdBy := by
  intro h
  have hstored : carlsDevice.Stored := by
    intro g hg
    rw [mem_singleton.mp hg]
    exact stored_trio
  have hafter : (carlsDevice.receive benInvites).group? (.str "group:trio0000") =
      some (trio 2 "ben") := by decide +kernel
  have hkept := h carlsDevice [benInvites] (.str "group:trio0000") (trio 1 "anna") (trio 2 "ben")
    hstored (by decide) hafter
  exact absurd hkept.2 (by decide)

end Bluetalk.Groups

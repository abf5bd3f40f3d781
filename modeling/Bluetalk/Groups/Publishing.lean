import Bluetalk.Groups.Device

/-!
# What a device sends

Every packet a device sends about a group goes to its connections and, where it has to be answered,
into the outbox. As long as the outbox has room and the event ids differ, what is queued stays queued
(`Grows.kept`).
-/

open List Option

namespace Bluetalk.Groups

def entryId (packetId peerId : String) : String := "control:" ++ packetId ++ ":" ++ peerId

/-- `randomId('group-event:')`: a UUID behind the prefix -/
def eventIdLength : Nat := 48

variable {peerId peerId' : String} {g : Group} {includeInvited : Bool}

theorem entryId_inj {packetId : String}
    (h : entryId packetId peerId = entryId packetId peerId') : peerId = peerId' := by
  have hchars := congrArg String.toList h
  simp only [entryId, String.toList_append] at hchars
  exact String.toList_inj.mp (append_cancel_left hchars)

theorem packetId_of_entryId {a b : String} (ha : a.length = eventIdLength)
    (hb : b.length = eventIdLength) (h : entryId a peerId = entryId b peerId') : a = b := by
  have hchars := congrArg String.toList h
  simp only [entryId, String.toList_append, append_assoc] at hchars
  have hrest := append_cancel_left hchars
  have hlength : a.toList.length = b.toList.length := by
    rw [String.length_toList, String.length_toList, ha, hb]
  exact String.toList_inj.mp (append_inj hrest hlength).1

namespace Device

structure ControlEntry (e : OutboxEntry) : Prop where
  id : e.id = entryId e.packetId e.peerId
  eventId : e.packet.get "eventId" = .str e.packetId

/-- A device with more packets, under new event ids: those it has queued stay queued. -/
structure Grows (Q : Json → Prop) (ids : List String) (n : Nat) (d d' : Device) : Prop where
  sent : ∀ x ∈ d'.sent, x ∈ d.sent ∨ Q x.2
  queued : ∀ e ∈ d'.outbox, e ∈ d.outbox ∨ ControlEntry e ∧ e.packetId ∈ ids ∧ Q e.packet
  kept : ∀ e ∈ d.outbox, (∀ id ∈ ids, ∀ peerId, e.id ≠ entryId id peerId) → e ∈ d'.outbox
  length : d'.outbox.length ≤ d.outbox.length + n

namespace Grows

variable {Q : Json → Prop} {ids ids' : List String} {n m : Nat} {d d₁ d₂ : Device}

theorem of_eq (hsent : d₁.sent = d.sent) (houtbox : d₁.outbox = d.outbox) : Grows Q [] 0 d d₁ where
  sent := fun _ hx => .inl (hsent ▸ hx)
  queued := fun _ he => .inl (houtbox ▸ he)
  kept := fun _ he _ => houtbox.symm ▸ he
  length := by rw [houtbox]; exact Nat.le_add_right _ _

theorem trans (h₁ : Grows Q ids n d d₁) (h₂ : Grows Q ids' m d₁ d₂) :
    Grows Q (ids ++ ids') (n + m) d d₂ where
  sent := by
    intro x hx
    obtain hx | hx := h₂.sent x hx
    · exact h₁.sent x hx
    · exact .inr hx
  queued := by
    intro e he
    obtain he | ⟨hentry, hid, hq⟩ := h₂.queued e he
    · obtain he | ⟨hentry, hid, hq⟩ := h₁.queued e he
      · exact .inl he
      · exact .inr ⟨hentry, mem_append_left _ hid, hq⟩
    · exact .inr ⟨hentry, mem_append_right _ hid, hq⟩
  kept := by
    intro e he hids
    rw [forall_mem_append] at hids
    exact h₂.kept e (h₁.kept e he hids.1) hids.2
  length := by
    have hlength₁ := h₁.length
    have hlength₂ := h₂.length
    omega

theorem weaken (h : Grows Q ids n d d₁) (hids : ids ⊆ ids') (hn : n ≤ m) :
    Grows Q ids' m d d₁ where
  sent := h.sent
  queued := by
    intro e he
    obtain he | ⟨hentry, hid, hq⟩ := h.queued e he
    · exact .inl he
    · exact .inr ⟨hentry, hids hid, hq⟩
  kept := fun e he hfresh => h.kept e he fun id hid => hfresh id (hids hid)
  length := h.length.trans (Nat.add_le_add_left hn _)

theorem mono {Q' : Json → Prop} (hQ : ∀ packet, Q packet → Q' packet) (h : Grows Q ids n d d₁) :
    Grows Q' ids n d d₁ where
  sent := fun x hx => (h.sent x hx).imp_right (hQ x.2)
  queued := by
    intro e he
    obtain he | ⟨hentry, hid, hq⟩ := h.queued e he
    · exact .inl he
    · exact .inr ⟨hentry, hid, hQ _ hq⟩
  kept := h.kept
  length := h.length

theorem transmit {peerId : String} {packet : Json} (hq : Q packet) :
    Grows Q [] 0 d (d.transmit peerId packet) where
  sent := by
    intro x hx
    obtain hx | hx := mem_append.mp hx
    · exact .inl hx
    · rw [mem_singleton.mp hx]
      exact .inr hq
  queued := fun _ he => .inl he
  kept := fun _ he _ => he
  length := Nat.le_add_right _ _

end Grows

section

variable {Q : Json → Prop} {d : Device} {event packet : Json} {id peerId groupId : String}
  {e entry : OutboxEntry} {g : Group} {now : Int} {recipientId : String} {recipients : List String}
  {inviteId : String → String}

theorem outbox_transmit : (d.transmit peerId packet).outbox = d.outbox := rfl

theorem mem_enqueue (hroom : d.outbox.length < 1000) :
    e ∈ (d.enqueue entry).outbox ↔ e ∈ d.outbox ∧ e.id ≠ entry.id ∨ e = entry := by
  have hlength : (d.outbox.filter (fun item => item.id ≠ entry.id) ++ [entry]).length - 1000 = 0 := by
    have hfilter := length_filter_le (fun item => decide (item.id ≠ entry.id)) d.outbox
    rw [length_append, length_singleton]
    omega
  rw [enqueue, persistGroupOutbox, List.rtake, hlength, drop_zero, mem_append,
    mem_filter, mem_singleton, decide_eq_true_eq]

theorem grows_replaceGroup {next : Group} (h : normalizeGroup now next.json = .ok g) :
    Grows Q [] 0 d (d.replaceGroup now next) := by
  rw [replaceGroup_eq h]
  exact .of_eq rfl rfl

theorem sent_enqueue : (d.enqueue entry).sent = d.sent := by
  rw [enqueue, persistGroupOutbox]

theorem length_enqueue :
    (d.enqueue entry).outbox.length ≤ d.outbox.length + 1 := by
  have hfilter := length_filter_le (fun item => decide (item.id ≠ entry.id)) d.outbox
  rw [enqueue, persistGroupOutbox, List.rtake, length_drop, length_append, length_singleton]
  omega

/-- The entry under which an event is queued -/
def controlEntry (event : Json) (groupId peerId : String) : OutboxEntry :=
  entryOf peerId event "control" (event.get "eventId").stringOrEmpty "" groupId

theorem controlEntry_spec (hid : event.get "eventId" = .str id) :
    ControlEntry (controlEntry event groupId peerId) ∧
      (controlEntry event groupId peerId).packetId = id := by
  have hstring : (event.get "eventId").stringOrEmpty = id := by rw [hid]; rfl
  refine ⟨⟨?_, ?_⟩, hstring⟩
  · rw [controlEntry, entryOf, entryId]
    rfl
  · rw [controlEntry, entryOf, hid]
    rfl

theorem sendControl_cons :
    d.sendControl (recipientId :: recipients) event groupId =
      ((d.enqueue (controlEntry event groupId recipientId)).transmit recipientId
        event).sendControl recipients event groupId := by
  rw [sendControl, foldl_cons, sendControl, controlEntry, sendGroupPacket]

theorem grows_enqueue (hroom : d.outbox.length < 1000) (hid : event.get "eventId" = .str id)
    (hq : Q event) : Grows Q [id] 1 d
      ((d.enqueue (controlEntry event groupId peerId)).transmit peerId event) := by
  obtain ⟨hentry, hpacketId⟩ : ControlEntry (controlEntry event groupId peerId) ∧
      (controlEntry event groupId peerId).packetId = id := controlEntry_spec hid
  have henqueue : Grows Q [id] 1 d (d.enqueue (controlEntry event groupId peerId)) := by
    refine ⟨fun _ hx => .inl (sent_enqueue ▸ hx), ?_, ?_, length_enqueue⟩
    · intro e he
      obtain ⟨he, -⟩ | rfl := (mem_enqueue hroom).mp he
      · exact .inl he
      · exact .inr ⟨hentry, hpacketId ▸ mem_singleton_self _, hq⟩
    intro e he hids
    refine (mem_enqueue hroom).mpr (.inl ⟨he, ?_⟩)
    rw [hentry.id, hpacketId]
    exact hids id (mem_singleton_self _) _
  exact henqueue.trans (.transmit hq)

theorem grows_sendControl (hroom : d.outbox.length + recipients.length ≤ 1000) (hid : event.get "eventId" = .str id)
    (hq : Q event) : Grows Q [id] recipients.length d (d.sendControl recipients event groupId) := by
  induction recipients generalizing d with
  | nil => exact ⟨fun _ hx => .inl hx, fun _ he => .inl he, fun _ he _ => he, le_refl _⟩
  | cons recipientId recipients ih =>
    rw [length_cons] at hroom ⊢
    rw [sendControl_cons]
    have hfirst : Grows Q [id] 1 d ((d.enqueue (controlEntry event groupId
        recipientId)).transmit recipientId event) := grows_enqueue (by omega) hid hq
    have hlength := hfirst.length
    have hboth := hfirst.trans (ih (by omega))
    refine ⟨hboth.sent, ?_, ?_, ?_⟩
    · intro e he
      obtain he | ⟨hentry, hmem, hpacket⟩ := hboth.queued e he
      · exact .inl he
      · exact .inr ⟨hentry, by simpa using hmem, hpacket⟩
    · exact fun e he hids => hboth.kept e he fun i hi => hids i (by simpa using hi)
    · have := hboth.length
      omega

theorem kept_sendControl (hroom : d.outbox.length + recipients.length ≤ 1000) (hid : event.get "eventId" = .str id)
    (he : e ∈ d.outbox) (hids : ∀ r ∈ recipients, e.id ≠ entryId id r) :
    e ∈ (d.sendControl recipients event groupId).outbox := by
  induction recipients generalizing d with
  | nil => exact he
  | cons recipientId recipients ih =>
    rw [length_cons] at hroom
    rw [forall_mem_cons] at hids
    rw [sendControl_cons]
    obtain ⟨hentry, hpacketId⟩ : ControlEntry (controlEntry event groupId recipientId) ∧
      (controlEntry event groupId recipientId).packetId = id := controlEntry_spec hid
    have hlength : (d.enqueue (controlEntry event groupId recipientId)).outbox.length ≤
      d.outbox.length + 1 := length_enqueue
    apply ih
    · rw [outbox_transmit]
      omega
    · refine (mem_enqueue (by omega)).mpr (.inl ⟨he, ?_⟩)
      rw [hentry.id, hpacketId]
      exact hids.1
    · exact hids.2

theorem mem_sendControl (hroom : d.outbox.length + recipients.length ≤ 1000) (hid : event.get "eventId" = .str id)
    {r : String} (hr : r ∈ recipients) :
    controlEntry event groupId r ∈ (d.sendControl recipients event groupId).outbox := by
  induction recipients generalizing d with
  | nil => cases hr
  | cons recipientId recipients ih =>
    rw [length_cons] at hroom
    have hlength : (d.enqueue (controlEntry event groupId recipientId)).outbox.length ≤
      d.outbox.length + 1 := length_enqueue
    have hroom' : ((d.enqueue (controlEntry event groupId recipientId)).transmit recipientId
        event).outbox.length + recipients.length ≤ 1000 := by
      rw [outbox_transmit]
      omega
    by_cases hrest : r ∈ recipients
    · exact ih hroom' hrest
    obtain rfl := (mem_cons.mp hr).resolve_right hrest
    obtain ⟨hentry, hpacketId⟩ : ControlEntry (controlEntry event groupId r) ∧
      (controlEntry event groupId r).packetId = id := controlEntry_spec hid
    apply kept_sendControl hroom' hid
    · exact (mem_enqueue (by omega)).mpr (.inr rfl)
    intro r' hr' hsame
    rw [hentry.id, hpacketId] at hsame
    have hpeer : r = r' := entryId_inj hsame
    exact hrest (hpeer ▸ hr')

/-! ### Invitations -/

theorem sameGroups_sendInvites : SameGroups d (d.sendInvites now inviteId g recipients) := by
  induction recipients generalizing d with
  | nil => exact .refl d
  | cons recipientId recipients ih =>
    rw [sendInvites]
    split
    · exact .refl d
    · exact sameGroups_sendControl.trans ih

theorem eventId_of_invite {actorId eventId : String}
    {invite : Json} (h : createGroupInviteEvent g actorId recipientId eventId now = .ok invite) :
    invite.get "eventId" = .str eventId := by
  rw [createGroupInviteEvent] at h
  split at h
  · split at h
    · split at h
      · obtain ⟨g', -, h⟩ := bind_eq_ok.mp h
        obtain rfl := Except.ok.inj h
        rfl
      · cases h
    · cases h
  · cases h

theorem grows_sendInvites (hroom : d.outbox.length + recipients.length ≤ 1000)
    (hq : ∀ r ∈ recipients, ∀ invite,
      createGroupInviteEvent g d.ownPeerId r (inviteId r) now = .ok invite → Q invite) :
    Grows Q (recipients.map inviteId) recipients.length d
      (d.sendInvites now inviteId g recipients) := by
  induction recipients generalizing d with
  | nil => exact ⟨fun _ hx => .inl hx, fun _ he => .inl he, fun _ he _ => he, le_refl _⟩
  | cons recipientId recipients ih =>
    rw [length_cons] at hroom ⊢
    rw [forall_mem_cons] at hq
    rw [sendInvites]
    split
    · exact ⟨fun _ hx => .inl hx, fun _ he => .inl he, fun _ he _ => he, Nat.le_add_right _ _⟩
    next invite hinvite =>
    have hone : d.outbox.length + [recipientId].length ≤ 1000 := by
      rw [length_singleton]
      omega
    have hfirst : Grows Q [inviteId recipientId] [recipientId].length d
        (d.sendControl [recipientId] invite g.id) :=
      grows_sendControl hone (eventId_of_invite hinvite) (hq.1 _ hinvite)
    rw [length_singleton] at hfirst
    have hlength := hfirst.length
    have hown : (d.sendControl [recipientId] invite g.id).ownPeerId = d.ownPeerId :=
      sameGroups_sendControl.ownPeerId
    have hboth := hfirst.trans (ih (by omega) (hown ▸ hq.2))
    rw [Nat.add_comm] at hboth
    exact hboth

end

end Device

/-! ### Snapshots -/

/-- The packet of a member by which a version of the group goes out -/
structure Carries (packet : Json) (actorId eventId : String) (v : Group) : Prop where
  kind : packet.get "kind" = .str groupEventKind
  protocolVersion : packet.get "protocolVersion" = .num groupProtocolVersion
  eventId : packet.get "eventId" = .str eventId
  groupId : packet.get "groupId" = .str v.id
  actorId : packet.get "actorId" = .str actorId
  action : packet.get "action" = .str "update" ∨ packet.get "action" = .str "invite"
  legacy : packet.get "legacyMutation" = .null
  group : packet.get "group" = v.json

section

variable {now : Int} {previous next v : Group} {actorId reason eventId recipientId : String}
  {event : Json}

theorem carries_update
    (h : createGroupUpdateEvent previous next actorId reason eventId now = .ok event) :
    ∃ v, normalizeGroup now next.json = .ok v ∧ Carries event actorId eventId v ∧
      event.get "action" = .str "update" ∧ isGroupAdmin previous actorId ∧ v.id = previous.id ∧
      previous.revision < v.revision := by
  rw [createGroupUpdateEvent] at h
  split at h
  · cases h
  next hadmin =>
  obtain ⟨v, hread, h⟩ := bind_eq_ok.mp h
  split at h
  · cases h
  next hid =>
  split at h
  · cases h
  next hrevision =>
  obtain rfl := Except.ok.inj h
  exact ⟨v, hread, ⟨rfl, rfl, rfl, rfl, rfl, .inl rfl, rfl, rfl⟩, rfl, not_not.mp hadmin,
    not_not.mp hid, not_le.mp hrevision⟩

theorem exists_update (hread : normalizeGroup now next.json = .ok v)
    (hadmin : isGroupAdmin previous actorId) (hid : v.id = previous.id)
    (hrevision : previous.revision < v.revision) :
    ∃ event, createGroupUpdateEvent previous next actorId reason eventId now = .ok event := by
  rw [createGroupUpdateEvent, if_neg (not_not.mpr hadmin), hread]
  exact ⟨_, by rw [ok_bind, if_neg (not_not.mpr hid), if_neg (not_le.mpr hrevision)]; rfl⟩

theorem carries_invite
    (h : createGroupInviteEvent next actorId recipientId eventId now = .ok event) :
    ∃ v, normalizeGroup now next.json = .ok v ∧ Carries event actorId eventId v := by
  rw [createGroupInviteEvent] at h
  split at h
  · split at h
    · split at h
      · obtain ⟨v, hread, h⟩ := bind_eq_ok.mp h
        have hid : v.id = next.id := (Json.str.inj (normalized hread).rawId).symm
        obtain rfl := Except.ok.inj h
        exact ⟨v, hread, ⟨rfl, rfl, rfl, congrArg Json.str hid.symm, rfl, .inr rfl, rfl, rfl⟩⟩
      · cases h
    · cases h
  · cases h

end

/-! ### Leaving -/

/-- What leaving makes of a member's entry -/
def Member.leaving (now : Int) (ownPeerId : String) (promoted : Option String) (m : Member) :
    Member :=
  let left := if m.peerId = ownPeerId then { m with state := .left, removedAt := some now } else m
  if some m.peerId = promoted then { left with role := .admin } else left

/-- The group as a member leaves it -/
def Group.left (now : Int) (ownPeerId : String) (g : Group) : Group :=
  { g with
    revision := addOne g.revision
    updatedAt := now
    members := g.members.map fun m =>
      (m.leaving now ownPeerId (Device.promoted g ownPeerId)).tidied g.createdAt }

section

variable {now : Int} {ownPeerId : String} {promoted : Option String} {m : Member} {g : Group}

theorem Member.peerId_leaving : (m.leaving now ownPeerId promoted).peerId = m.peerId := by
  rw [Member.leaving]
  split <;> split <;> rfl

theorem Member.displayName_leaving :
    (m.leaving now ownPeerId promoted).displayName = m.displayName := by
  rw [Member.leaving]
  split <;> split <;> rfl

theorem Member.Stored.leaving (h : m.Stored) : (m.leaving now ownPeerId promoted).Stored where
  peerId := Member.peerId_leaving.symm ▸ h.peerId
  identified := Member.peerId_leaving.symm ▸ h.identified
  named := Member.displayName_leaving.symm ▸ h.named

theorem Member.role_leaving (h : m.role = .admin) :
    (m.leaving now ownPeerId promoted).role = .admin := by
  rw [Member.leaving]
  split
  · rfl
  · split <;> exact h

theorem Member.state_leaving :
    (m.leaving now ownPeerId promoted).state = if m.peerId = ownPeerId then .left else m.state := by
  rw [Member.leaving]
  split <;> split <;> rfl

theorem Group.Stored.left (h : g.Stored) : (g.left now ownPeerId).Stored := by
  have hmembers : Group.Stored { g with members := g.members.map fun m =>
      (m.leaving now ownPeerId (Device.promoted g ownPeerId)).tidied g.createdAt } := by
    apply h.mapMembers
    · exact fun m => Member.peerId_leaving
    · exact fun m hadmin => Member.role_leaving hadmin
    · exact fun m hm => hm.leaving.tidied
    intro m hstate
    rw [Member.tidied]
    rw [Member.state_leaving]
    split
    · exact MemberState.noConfusion
    · exact hstate
  exact
    { id := hmembers.id, revision := addOne_pos h.revision, name := hmembers.name
      named := hmembers.named, image := hmembers.image, createdBy := hmembers.createdBy
      members := hmembers.members, nodup := hmembers.nodup, founder := hmembers.founder }

theorem leftGroup_eq (h : g.Stored) (now : Int) :
    Device.leftGroup now ownPeerId g = .ok (g.left now ownPeerId) := by
  apply normalizeGroup_of_reads h.left
  refine ⟨rfl, rfl, rfl, rfl, rfl, rfl, rfl, ?_⟩
  apply forall₂_map_left_iff.mpr
  apply forall₂_map_right_iff.mpr
  apply forall₂_same.mpr
  intro m hm
  have hstored := h.members m hm
  have hjson : Json.obj (if some m.peerId = Device.promoted g ownPeerId then
      setField "role" (.str "admin") (if m.peerId = ownPeerId then
        spread m.fields [("state", .str "left"), ("removedAt", .num now)] else m.fields)
      else if m.peerId = ownPeerId then
        spread m.fields [("state", .str "left"), ("removedAt", .num now)] else m.fields) =
      (m.leaving now ownPeerId (Device.promoted g ownPeerId)).json := by
    rw [Member.leaving]
    split <;> split <;> rfl
  rw [hjson]
  exact normalizeMember_json hstored.leaving

theorem tidied_left (h : g.tidied = g) : (g.left now ownPeerId).tidied = g.left now ownPeerId := by
  rw [Group.tidied, Group.left]
  rw [List.map_map]
  congr 1
  apply List.map_congr_left
  intro m hm
  apply Member.tidied_tidied
  rw [Member.displayName_leaving]
  exact clean_displayName h hm

theorem not_active_left : ¬ isActiveGroupMember (g.left now ownPeerId) ownPeerId := by
  have hids : ∀ m : Member, ((m.leaving now ownPeerId (Device.promoted g ownPeerId)).tidied
      g.createdAt).peerId = m.peerId := fun _ => Member.peerId_leaving
  have hlookup : getGroupMember (g.left now ownPeerId) ownPeerId =
      (getGroupMember g ownPeerId).map fun m =>
        (m.leaving now ownPeerId (Device.promoted g ownPeerId)).tidied g.createdAt :=
    getGroupMember_map hids
  rw [isActiveGroupMember, hlookup, Option.any_map]
  cases hm : getGroupMember g ownPeerId with
  | none => exact Bool.false_ne_true
  | some m =>
    rw [Option.any_some, decide_eq_true_eq, Member.tidied]
    rw [Member.state_leaving, if_pos (peerId_of_getGroupMember hm)]
    exact MemberState.noConfusion

end

/-! ### Recipients -/

theorem length_eraseDups_le {ids : List String} : ids.eraseDups.length ≤ ids.length := by
  induction hn : ids.length using Nat.strong_induction_on generalizing ids with
  | h n ih =>
    cases ids with
    | nil => exact Nat.zero_le _
    | cons id ids =>
      have hfilter := length_filter_le (fun b => !b == id) ids
      rw [length_cons] at hn
      rw [eraseDups_cons, length_cons, ← hn]
      have hrest : (ids.filter fun b => !b == id).eraseDups.length ≤
        (ids.filter fun b => !b == id).length := ih _ (by omega) rfl
      omega

theorem length_route_le {selfPeerId : String} :
    (buildTargetedGroupRoute g selfPeerId includeInvited).length ≤ g.members.length := by
  apply length_eraseDups_le.trans
  rw [length_map]
  exact length_filter_le _ _

theorem mem_groupPeerIds {excluded : String} (hne : peerId ≠ excluded)
    (hactive : isActiveGroupMember g peerId) :
    peerId ∈ groupPeerIds g excluded includeInvited := by
  rw [isActiveGroupMember, Option.any_eq_true] at hactive
  obtain ⟨m, hm, hstate⟩ := hactive
  have hid := peerId_of_getGroupMember hm
  rw [groupPeerIds, mem_eraseDups]
  refine mem_map.mpr ⟨m, mem_filter.mpr ⟨mem_of_getGroupMember hm, ?_⟩, hid⟩
  rw [Bool.and_eq_true, decide_eq_true_eq, hid, Bool.or_eq_true]
  exact ⟨hne, .inl hstate⟩

/-! ### What a user does -/

namespace Device

section

variable {d : Device} {now : Int} {updateId newId : String} {inviteId : String → String}
  {contacts : List Json} {groupId : Json} {patch : GroupPatch} {g : Group}
  {ownPeerId peerId : String} {e : OutboxEntry}

theorem updateGroupChat_cases :
    d.updateGroupChat now updateId inviteId contacts groupId patch = d ∨
    ∃ g next v update, d.group? groupId = some g ∧
      updatedGroup now contacts patch d.ownPeerId g = .ok next ∧
      normalizeGroup now next.json = .ok v ∧ Carries update d.ownPeerId updateId v ∧
      update.get "action" = .str "update" ∧ isGroupAdmin g d.ownPeerId ∧ v.id = g.id ∧
      g.revision < v.revision ∧
      d.updateGroupChat now updateId inviteId contacts groupId patch =
        ((d.replaceGroup now next).sendControl
          (existingRecipients now g contacts patch d.ownPeerId) update next.id).sendInvites
            now inviteId next (newIds now g contacts patch) := by
  rw [updateGroupChat]
  split
  · exact .inl rfl
  next g hg =>
  split
  · exact .inl rfl
  split
  · exact .inl rfl
  next next hnext =>
  dsimp only
  split
  · exact .inl rfl
  next update hupdate =>
  obtain ⟨v, hread, hcarries, haction, hadmin, hid, hrevision⟩ := carries_update hupdate
  exact .inr ⟨g, next, v, update, hg, hnext, hread, hcarries, haction, hadmin, hid, hrevision, rfl⟩

theorem updated {next : Group} (h : updatedGroup now contacts patch ownPeerId g = .ok next) :
    ∃ raw, normalizeGroup now raw = .ok next ∧ raw.get "createdBy" = .str g.createdBy ∧
      raw.get "revision" = .num (addOne g.revision) ∧
      ∀ r ∈ (raw.get "members").items,
        (∃ m ∈ g.members, listedId r = m.peerId) ∨ listedId r ∈ patch.addMemberIds := by
  refine ⟨_, h, rfl, rfl, fun r hr => ?_⟩
  obtain hr | hr := mem_append.mp hr
  · obtain ⟨m, hm, rfl⟩ := mem_map.mp hr
    refine .inl ⟨m, hm, ?_⟩
    split
    · exact listedId_eq rfl rfl
    · split
      · exact listedId_eq rfl rfl
      · exact listedId_json
  · obtain ⟨x, hx, rfl⟩ := mem_map.mp hr
    obtain ⟨peerId, hpeer, hcontact⟩ := mem_filterMap.mp hx
    obtain ⟨contact, -, rfl⟩ := map_eq_some_iff.mp hcontact
    have hadded : peerId ∈ patch.addMemberIds :=
      (mem_filter.mp (mem_eraseDups.mp (mem_filter.mp hpeer).1)).1
    have hid : listedId (addedMember now peerId contact) = peerId := listedId_eq rfl rfl
    exact .inr (hid.symm ▸ hadded)

theorem mem_existingRecipients (hne : peerId ≠ ownPeerId)
    (hactive : isActiveGroupMember g peerId) :
    peerId ∈ existingRecipients now g contacts patch ownPeerId := by
  rw [existingRecipients, List.mem_filter, List.mem_eraseDups, decide_eq_true_eq]
  refine ⟨mem_append_left _ (mem_groupPeerIds hne hactive), ?_⟩
  rw [isActiveGroupMember, Option.any_eq_true] at hactive
  obtain ⟨m, hm, hstate⟩ := hactive
  rw [newIds, mem_eraseDups, mem_append, not_or]
  constructor
  · intro hadded
    obtain ⟨x, hx, rfl⟩ := mem_map.mp hadded
    obtain ⟨peerId, hpeer, hcontact⟩ := mem_filterMap.mp hx
    obtain ⟨contact, -, rfl⟩ := map_eq_some_iff.mp hcontact
    have hnew := of_decide_eq_true (mem_filter.mp hpeer).2
    have hid : m.peerId = peerId := peerId_of_getGroupMember hm
    exact hnew (hid ▸ mem_map_of_mem (mem_of_getGroupMember hm))
  · intro hreadded
    have hgone := (mem_filter.mp hreadded).2
    rw [hm, any_some, Bool.or_eq_true, decide_eq_true_eq, decide_eq_true_eq,
      of_decide_eq_true hstate] at hgone
    exact hgone.elim MemberState.noConfusion MemberState.noConfusion

theorem leaveGroupChat_cases (hd : d.Stored) :
    d.leaveGroupChat now newId groupId = d ∨
    ∃ g leave, d.group? groupId = some g ∧ isActiveGroupMember g d.ownPeerId ∧
      createGroupLeaveEvent g d.ownPeerId newId now = .ok leave ∧
      d.leaveGroupChat now newId groupId =
        if isGroupAdmin g d.ownPeerId then
          match createGroupUpdateEvent g (g.left now d.ownPeerId) d.ownPeerId "member-left" newId
            now with
          | .error _ => d.replaceGroup now (g.left now d.ownPeerId)
          | .ok update => (d.replaceGroup now (g.left now d.ownPeerId)).sendControl
              ((otherActive g d.ownPeerId).map Member.peerId) update g.id
        else (d.replaceGroup now (g.left now d.ownPeerId)).sendControl
          ((g.members.filter fun m => m.state = .active && m.role = .admin).map Member.peerId)
          leave g.id := by
  rw [leaveGroupChat]
  split
  · exact .inl rfl
  next g hg =>
  rw [leftGroup_eq (hd.group hg)]
  cases hleave : createGroupLeaveEvent g d.ownPeerId newId now with
  | error e => exact .inl rfl
  | ok leave =>
    have hactive : isActiveGroupMember g d.ownPeerId := by
      rw [createGroupLeaveEvent] at hleave
      split at hleave
      · assumption
      · cases hleave
    exact .inr ⟨g, leave, hg, hactive, hleave, rfl⟩

theorem mem_otherActive (hne : peerId ≠ ownPeerId)
    (hactive : isActiveGroupMember g peerId) :
    peerId ∈ (otherActive g ownPeerId).map Member.peerId := by
  rw [isActiveGroupMember, Option.any_eq_true] at hactive
  obtain ⟨m, hm, hstate⟩ := hactive
  have hid := peerId_of_getGroupMember hm
  refine mem_map.mpr ⟨m, mem_filter.mpr ⟨mem_of_getGroupMember hm, ?_⟩, hid⟩
  rw [Bool.and_eq_true, decide_eq_true_eq, hid]
  exact ⟨hne, hstate⟩

theorem created {id : String} {name image creator : Json} {members : List Json} (h : createGroup id name image creator members now = .ok g) :
    ∃ raw, normalizeGroup now raw = .ok g ∧ g.id = id ∧
      raw.get "createdBy" = creator.get "peerId" ∧
      ∀ r ∈ (raw.get "members").items, listedId r = (creator.get "peerId").textOrEmpty ∨
        ∃ m ∈ members, listedId r = listedId (memberRow now m) := by
  rw [createGroup] at h
  split at h
  · cases h
  next hcreator =>
  obtain ⟨g', hread, h⟩ := bind_eq_ok.mp h
  split at h
  · cases h
  obtain rfl := Except.ok.inj h
  refine ⟨_, hread, (Json.str.inj (normalized hread).rawId).symm, rfl, fun r hr => ?_⟩
  obtain rfl | hr := mem_cons.mp hr
  · have horElse : orElse (creator.get "peerId") .null = creator.get "peerId" :=
      if_pos (not_not.mp hcreator)
    exact .inl (congrArg Json.textOrEmpty horElse)
  · obtain ⟨m, hm, rfl⟩ := mem_map.mp hr
    exact .inr ⟨m, hm, rfl⟩

theorem sendInvites_of_error {e : GroupError} {recipients : List String}
    (h : normalizeGroup now g.json = .error e) : d.sendInvites now inviteId g recipients = d := by
  cases recipients with
  | nil => rfl
  | cons recipientId recipients =>
    rw [sendInvites]
    split
    · rfl
    next invite hinvite =>
    obtain ⟨v, hread, -⟩ := carries_invite hinvite
    rw [h] at hread
    cases hread

theorem createGroupChat_cases {id : String} {name image displayName : Json}
    {memberIds : List String} :
    d.createGroupChat now id inviteId contacts name image displayName memberIds = d ∨
    ∃ g v recipients, normalizeGroup now g.json = .ok v ∧ v.id = id ∧
      (∃ raw, normalizeGroup now raw = .ok g ∧ raw.get "createdBy" = .str d.ownPeerId ∧
        ∀ r ∈ (raw.get "members").items, listedId r = d.ownPeerId ∨ listedId r ∈ memberIds) ∧
      recipients ⊆ memberIds ∧ recipients.length ≤ memberIds.length ∧
      d.createGroupChat now id inviteId contacts name image displayName memberIds =
        (d.replaceGroup now g).sendInvites now inviteId g recipients := by
  rw [createGroupChat]
  split
  · exact .inl rfl
  split
  · exact .inl rfl
  next g hcreate =>
  obtain ⟨raw, hread, hid, hcreatedBy, hlisted⟩ := created hcreate
  cases hstored : normalizeGroup now g.json with
  | error e =>
    left
    rw [replaceGroup, hstored]
    exact sendInvites_of_error hstored
  | ok v =>
    have hv : v.id = id := (Json.str.inj (normalized hstored).rawId).symm.trans hid
    refine .inr ⟨g, v, _, hstored, hv, ⟨raw, hread, hcreatedBy, fun r hr => ?_⟩, ?_, ?_, rfl⟩
    · obtain hown | ⟨m, hm, hrow⟩ := hlisted r hr
      · exact .inl (hown.trans textOrEmpty_str)
      · obtain ⟨x, hx, rfl⟩ := mem_map.mp hm
        obtain ⟨peerId, hpeer, hcontact⟩ := mem_filterMap.mp hx
        obtain ⟨contact, -, rfl⟩ := map_eq_some_iff.mp hcontact
        obtain ⟨hmember, hne⟩ := mem_filter.mp (mem_eraseDups.mp hpeer)
        have hpeerId : peerId ≠ "" := (of_decide_eq_true hne).1
        have hget : (memberRow now (.obj [("peerId", .str peerId),
            ("displayName", contactName contact peerId)])).get "peerId" = .str peerId := by
          have horElse : orElse (.str peerId) .null = .str peerId := by
            rw [orElse_str, if_neg hpeerId]
          exact horElse
        rw [hrow, listedId_eq hget rfl]
        exact .inr hmember
    · intro id hmem
      obtain ⟨x, hx, rfl⟩ := mem_map.mp hmem
      obtain ⟨peerId, hpeer, hcontact⟩ := mem_filterMap.mp hx
      obtain ⟨contact, -, rfl⟩ := map_eq_some_iff.mp hcontact
      exact (mem_filter.mp (mem_eraseDups.mp hpeer)).1
    · rw [length_map]
      exact (length_filterMap_le _ _).trans
        (length_eraseDups_le.trans (length_filter_le _ _))

/-! ### Receipts that arrive -/

variable {receipt : Json} {fromId : String}

theorem sent_handleEventReceipt : (d.handleEventReceipt receipt fromId).sent = d.sent := by
  rw [handleEventReceipt]
  split
  · rw [persistGroupOutbox]
  · rfl

theorem mem_handleEventReceipt (h : e ∈ (d.handleEventReceipt receipt fromId).outbox) : e ∈ d.outbox := by
  rw [handleEventReceipt] at h
  split at h
  · rw [persistGroupOutbox] at h
    generalize 1000 = limit at h
    exact mem_of_mem_filter (mem_of_mem_drop h)
  · exact h

theorem kept_handleEventReceipt (hroom : d.outbox.length ≤ 1000)
    (he : e ∈ d.outbox) : e ∈ (d.handleEventReceipt receipt fromId).outbox ∨
      e.peerId = fromId ∧ .str e.packetId = receipt.get "refEventId" := by
  by_cases hfor : e.peerId = fromId ∧ .str e.packetId = receipt.get "refEventId"
  · exact .inr hfor
  left
  rw [handleEventReceipt]
  split
  · have hlength : (d.outbox.filter fun entry =>
        ¬ (entry.peerId = fromId ∧ .str entry.packetId = receipt.get "refEventId")).length -
          1000 = 0 := Nat.sub_eq_zero_of_le ((length_filter_le _ _).trans hroom)
    rw [persistGroupOutbox, List.rtake, hlength, drop_zero, mem_filter, decide_eq_true_eq]
    exact ⟨he, hfor⟩
  · exact he

/-! ### Events that arrive -/

variable {event : Json} {Q : Json → Prop}

theorem eventId_of_accept {actorId eventId : String} {accept : Json}
    (h : createGroupAcceptEvent g actorId eventId now = .ok accept) :
    accept.get "eventId" = .str eventId := by
  rw [createGroupAcceptEvent] at h
  split at h
  · split at h
    · obtain rfl := Except.ok.inj h
      rfl
    · cases h
  · cases h

theorem grows_acceptInvitation (hroom : d.outbox.length + 1 ≤ 1000)
    (hq : ∀ accept, createGroupAcceptEvent g d.ownPeerId newId now = .ok accept → Q accept) :
    Grows Q [newId] 1 d (d.acceptInvitation now newId fromId g) := by
  rw [acceptInvitation]
  split
  · exact (Grows.of_eq rfl rfl).weaken (nil_subset _) (Nat.zero_le _)
  · next accept haccept =>
    have hlength : d.outbox.length + [fromId].length ≤ 1000 := hroom
    exact grows_sendControl hlength (eventId_of_accept haccept) (hq accept haccept)

theorem grows_publishMembership {current applied : Group}
    (hroom : d.outbox.length + applied.members.length ≤ 1000)
    (hq : ∀ reason update,
      createGroupUpdateEvent current applied d.ownPeerId reason newId now = .ok update → Q update) :
    Grows Q [newId] applied.members.length d
      (d.publishMembership now newId event current applied) := by
  rw [publishMembership]
  split
  · exact (Grows.of_eq rfl rfl).weaken (nil_subset _) (Nat.zero_le _)
  next update hupdate =>
  obtain ⟨v, -, hcarries, -⟩ := carries_update hupdate
  have hroute : d.outbox.length + (buildTargetedGroupRoute applied d.ownPeerId true).length ≤
      1000 := (Nat.add_le_add_left length_route_le _).trans hroom
  exact (grows_sendControl hroute hcarries.eventId (hq _ update hupdate)).weaken
    (List.Subset.refl _) length_route_le

theorem published {g₁ v : Group} {duplicate : Bool} (hfrom : fromId ≠ "")
    (hactor : event.get "actorId" = .str fromId) (hfresh : event.get "eventId" ∉ d.eventIds)
    (hcurrent : d.group? (event.get "groupId") = some g)
    (happlied : applyGroupEvent now (some g) event d.ownPeerId =
      .ok (.applied g₁ duplicate false true))
    (hread : normalizeGroup now g₁.json = .ok v) (hbefore : isGroupAdmin g d.ownPeerId)
    (hadmin : isGroupAdmin g₁ d.ownPeerId) (hid : v.id = g.id)
    (hrevision : g.revision < v.revision)
    (hroom : d.outbox.length + g₁.members.length ≤ 1000) :
    ∃ update, Carries update d.ownPeerId newId v ∧ update.get "action" = .str "update" ∧
      ∀ peerId, peerId ≠ d.ownPeerId → isActiveGroupMember g₁ peerId →
        controlEntry update g₁.id peerId ∈
          (d.handleGroupEvent now newId event fromId).outbox := by
  have hsender : ¬ (fromId = "" ∨ event.get "actorId" ≠ .str fromId) :=
    not_or.mpr ⟨hfrom, not_not.mpr hactor⟩
  set stored := (d.rememberIncomingGroupEvent (event.get "eventId")).replaceGroup now g₁
    with hstored
  have hsame : stored.outbox = d.outbox ∧ stored.ownPeerId = d.ownPeerId := by
    rw [hstored, replaceGroup]
    split <;> exact ⟨rfl, rfl⟩
  have hown : (stored.sendEventReceipt now event fromId).ownPeerId = d.ownPeerId := hsame.2
  have houtbox : (stored.sendEventReceipt now event fromId).outbox = d.outbox := hsame.1
  have hhandled : d.handleGroupEvent now newId event fromId =
      (stored.sendEventReceipt now event fromId).publishMembership now newId event g g₁ := by
    rw [handleGroupEvent, if_neg hsender, if_neg hfresh]
    dsimp only
    rw [hcurrent, happlied]
    dsimp only
    rw [if_pos ⟨rfl, hadmin⟩]
    rfl
  have hupdate : ∀ reason, ∃ update,
      createGroupUpdateEvent g g₁ d.ownPeerId reason newId now = .ok update :=
    fun reason => exists_update hread hbefore hid hrevision
  rw [hhandled, publishMembership, hown]
  split
  · next e herror =>
    obtain ⟨update, hok⟩ := hupdate _
    rw [hok] at herror
    cases herror
  next update hok =>
  obtain ⟨v', hread', hcarries, haction, -⟩ := carries_update hok
  rw [hread] at hread'
  obtain rfl := Except.ok.inj hread'
  refine ⟨update, hcarries, haction, fun peerId hne hactive => ?_⟩
  refine mem_sendControl ?_ hcarries.eventId (mem_groupPeerIds hne hactive)
  rw [houtbox]
  exact (Nat.add_le_add_left length_route_le _).trans hroom

theorem grows_handleGroupEvent
    (hroom : d.outbox.length + 1 ≤ 1000)
    (hroute : ∀ g duplicate shouldAccept,
      applyGroupEvent now (d.group? (event.get "groupId")) event d.ownPeerId =
        .ok (.applied g duplicate shouldAccept true) →
      d.outbox.length + (g.members.length + 1) ≤ 1000)
    (hreceipt : Q (eventReceipt now event d.ownPeerId))
    (haccept : ∀ g duplicate shouldBroadcast accept,
      applyGroupEvent now (d.group? (event.get "groupId")) event d.ownPeerId =
        .ok (.applied g duplicate true shouldBroadcast) →
      createGroupAcceptEvent g d.ownPeerId newId now = .ok accept → Q accept)
    (hupdate : ∀ before g duplicate shouldAccept reason update,
      d.group? (event.get "groupId") = some before →
      applyGroupEvent now (some before) event d.ownPeerId =
        .ok (.applied g duplicate shouldAccept true) →
      createGroupUpdateEvent before g d.ownPeerId reason newId now = .ok update → Q update) :
    ∃ n, Grows Q [newId] n d (d.handleGroupEvent now newId event fromId) := by
  rw [handleGroupEvent]
  split
  · exact ⟨0, (Grows.of_eq rfl rfl).weaken (nil_subset _) (Nat.zero_le _)⟩
  split
  · exact ⟨0, (Grows.transmit hreceipt).weaken (nil_subset _) (Nat.zero_le _)⟩
  dsimp only
  split
  · exact ⟨0, (Grows.of_eq rfl rfl).weaken (nil_subset _) (Nat.zero_le _)⟩
  · exact ⟨0, (Grows.of_eq rfl rfl).weaken (nil_subset _) (Nat.zero_le _)⟩
  next g duplicate shouldAccept shouldBroadcast happlied =>
  set stored := (d.rememberIncomingGroupEvent (event.get "eventId")).replaceGroup now g
    with hstored
  have hsame : stored.sent = d.sent ∧ stored.outbox = d.outbox ∧
      stored.ownPeerId = d.ownPeerId := by
    rw [hstored, replaceGroup]
    split <;> exact ⟨rfl, rfl, rfl⟩
  have hown : stored.ownPeerId = d.ownPeerId := hsame.2.2
  have hanswer : Grows Q [] 0 d (stored.sendEventReceipt now event fromId) := by
    have hq : Q (eventReceipt now event stored.ownPeerId) := hown.symm ▸ hreceipt
    exact (Grows.of_eq hsame.1 hsame.2.1).trans (.transmit hq)
  have houtbox : (stored.sendEventReceipt now event fromId).outbox = d.outbox := hsame.2.1
  have hanswered : Grows Q [newId] 1 d
      (if shouldAccept then (stored.sendEventReceipt now event fromId).acceptInvitation now
        newId fromId g else stored.sendEventReceipt now event fromId) := by
    split
    · next hshould =>
      refine (hanswer.trans (grows_acceptInvitation (by rw [houtbox]; exact hroom) ?_)).weaken
        (List.Subset.refl _) (le_refl _)
      intro accept h
      rw [hshould] at happlied
      exact haccept g duplicate shouldBroadcast accept happlied (hown ▸ h)
    · exact hanswer.weaken (nil_subset _) (Nat.zero_le _)
  have howned : (if shouldAccept then (stored.sendEventReceipt now event
      fromId).acceptInvitation now newId fromId g
      else stored.sendEventReceipt now event fromId).ownPeerId = d.ownPeerId := by
    split
    · exact sameGroups_acceptInvitation.ownPeerId.trans hown
    · exact hown
  split
  · next before hbefore =>
    split
    · next hbroadcast =>
      have hlength := hanswered.length
      have hroute' := hroute g duplicate shouldAccept (hbroadcast.1 ▸ happlied)
      refine ⟨_, (hanswered.trans (grows_publishMembership (by omega) ?_)).weaken
        (by simp) (le_refl _)⟩
      intro reason update h
      rw [howned] at h
      rw [hbefore, hbroadcast.1] at happlied
      exact hupdate before g duplicate shouldAccept reason update hbefore happlied h
    · exact ⟨1, hanswered⟩
  · exact ⟨1, hanswered⟩

end

end Device
end Bluetalk.Groups

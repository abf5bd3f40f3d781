import Bluetalk.Groups.Publishing
import Bluetalk.Theory.Run

/-!
# Whether the members agree

The devices of a group's members, each with its own copy of the group. A user creates the group,
changes it or leaves it; whatever a device has sent arrives at any time, in any order and as often as
it is sent again. Versions are numbered by their revisions only, so that two of one number never
replace each other.

The ghost `history` lists the versions that have been published, the newest first. As long as each of
them is made from the newest (`Serial`), a copy that is not the newest has an update queued for it
(`Inv.links`), and when nothing that is queued changes anything, all active members have the same copy.
-/

open List Function

namespace Bluetalk.Groups

/-- A version of the group, with the event that made it where a member accepted or left -/
structure Version where
  group : Group
  cause : Option Json

structure System where
  devices : String → Device
  history : List Version
  /-- The version that goes out under an event id -/
  carried : String → Option Group
  used : List String

inductive Act
  | create (p : String) (now : Int) (inviteId : String → String) (contacts : List Json)
      (name image displayName : Json) (memberIds : List String)
  | update (p : String) (now : Int) (updateId : String) (inviteId : String → String)
      (contacts : List Json) (patch : Device.GroupPatch)
  | leave (p : String) (now : Int) (newId : String)
  /-- What a device has sent arrives: a group event or the receipt of one. -/
  | deliver (p : String) (i : Nat) (now : Int) (newId : String)

namespace Device

/-- `handleGroupProtocolFrame` of what is no message -/
def handleControl (now : Int) (newId : String) (packet : Json) (fromId : String) (d : Device) :
    Device :=
  if packet.get "kind" = .str groupEventKind then d.handleGroupEvent now newId packet fromId
  else if packet.get "kind" = .str groupReceiptKind then d.handleEventReceipt packet fromId
  else d

end Device

/-- An event by which a member tells of himself -/
def isOwnEvent (packet : Json) : Bool :=
  packet.get "action" = .str "accept" || packet.get "action" = .str "leave"

namespace System

variable (gid : String)

def copy (s : System) (p : String) : Option Group := (s.devices p).group? (.str gid)

/-- The version that a step has made -/
def made (d d' : Device) (cause : Option Json) : Option Version :=
  if d'.group? (.str gid) = d.group? (.str gid) then none
  else (d'.group? (.str gid)).map fun g => ⟨g, cause⟩

/-- The same change may be made twice. -/
def push (v : Option Version) (history : List Version) : List Version :=
  match v with
  | none => history
  | some v => if history.head?.map Version.group = some v.group then history else v :: history

/-- The device `p` has done something, under new event ids. -/
def record (s : System) (p : String) (d : Device) (ids : List String) (v : Option Version) :
    System :=
  { devices := update s.devices p d
    history := push v s.history
    carried := fun id => if id ∈ ids then v.map Version.group else s.carried id
    used := ids ++ s.used }

/-- Event ids are UUIDs behind a prefix, each used once. -/
def fresh (s : System) (id : String) : Bool := id.length = eventIdLength && decide (id ∉ s.used)

def invited (g : Option Group) (now : Int) (contacts : List Json) (patch : Device.GroupPatch) :
    List String :=
  match g with
  | none => []
  | some g => Device.newIds now g contacts patch

def step (s : System) : Act → Option System
  | .create p now inviteId contacts name image displayName memberIds =>
    let ids := memberIds.map inviteId
    let d := (s.devices p).createGroupChat now gid inviteId contacts name image displayName memberIds
    if ids.all s.fresh then some (s.record p d ids (made gid (s.devices p) d none)) else none
  | .update p now updateId inviteId contacts patch =>
    let inviteIds := (invited (s.copy gid p) now contacts patch).map inviteId
    let d := (s.devices p).updateGroupChat now updateId inviteId contacts (.str gid) patch
    if s.fresh updateId && inviteIds.all s.fresh && decide (updateId ∉ inviteIds) then
      some (s.record p d (updateId :: inviteIds) (made gid (s.devices p) d none))
    else none
  | .leave p now newId =>
    let d := (s.devices p).leaveGroupChat now newId (.str gid)
    let published := (s.copy gid p).any fun g => isGroupAdmin g p
    if s.fresh newId then
      some (s.record p d [newId] (if published then made gid (s.devices p) d none else none))
    else none
  | .deliver p i now newId =>
    match (s.devices p).sent[i]? with
    | none => none
    | some (q, packet) =>
      let d := (s.devices q).handleControl now newId packet p
      if s.fresh newId ∧ q ≠ p then
        some (s.record q d [newId]
          (if isOwnEvent packet then made gid (s.devices q) d (some packet) else none))
      else none

/-- Nobody has done anything about the group yet: there is none, or those who have it as active
members have the same copy. -/
structure Start (s : System) : Prop where
  ownPeerId : ∀ p, (s.devices p).ownPeerId = p
  stored : ∀ p, (s.devices p).Stored
  sent : ∀ p, (s.devices p).sent = []
  outbox : ∀ p, (s.devices p).outbox = []
  eventIds : ∀ p id, .str id ∈ (s.devices p).eventIds → id ∈ s.used
  carried : ∀ id, s.carried id = none
  history : ∀ v ∈ s.history, v.group.Stored ∧ v.group.tidied = v.group ∧ v.group.id = gid ∧
    v.group.ShortIds
  single : s.history.length ≤ 1
  copies : ∀ p g, s.copy gid p = some g → g.tidied = g ∧
    ((∃ v ∈ s.history, v.group = g) ∨ ¬ isActiveGroupMember g p)

/-- Nothing that is queued makes a difference where it goes. -/
def AtRest (s : System) : Prop :=
  ∀ p, ∀ e ∈ (s.devices p).outbox, ∀ now newId,
    ((s.devices e.peerId).handleControl now newId e.packet p).group? (.str gid) =
      s.copy gid e.peerId

/-- Whoever has the group as an active member has the same copy as every other. -/
def Agree (s : System) : Prop :=
  ∀ p q g g', s.copy gid p = some g → s.copy gid q = some g' →
    isActiveGroupMember g p → isActiveGroupMember g' q → g = g'

/-! ### One version after the other -/

def Newest (s : System) (p : String) : Prop := s.copy gid p = s.history.head?.map Version.group

def HasRoom (d : Device) (n : Nat) : Prop := d.outbox.length + n ≤ 1000

instance {s : System} {p : String} : Decidable (s.Newest gid p) := inferInstanceAs (Decidable (_ = _))

instance {d : Device} {n : Nat} : Decidable (HasRoom d n) := inferInstanceAs (Decidable (_ ≤ _))

/-- The copy is past a version: another one, and not an older one. -/
def Past (s : System) (u : Group) (q : String) : Prop :=
  ∃ g, s.copy gid q = some g ∧ g ≠ u ∧ u.revision ≤ g.revision

/-- An acceptance or a leaving that the device would record -/
def Records (g : Group) (p : String) (event : Json) : Prop :=
  isGroupAdmin g p ∧
    (event.get "action" = .str "accept" ∧ stateOf g (actorOf event) = some .invited ∨
      event.get "action" = .str "leave" ∧ stateOf g (actorOf event) = some .active)

/-- A change is made on the newest version of the group, by a device whose outbox has room for it and
under a revision that has a successor; what a member tells of himself may be recorded by several
devices, and that he leaves only if his own copy is not one that he would go back from. -/
def Serial (s : System) : Act → Prop
  | .create p _ _ _ _ _ _ memberIds =>
    s.history = [] ∧ (∀ q, s.copy gid q = none) ∧ HasRoom (s.devices p) memberIds.length ∧
      Short p ∧ ∀ id ∈ memberIds, Short id
  | .update p now _ _ contacts patch => ∀ g, s.copy gid p = some g → isGroupAdmin g p →
    s.Newest gid p ∧ g.revision < addOne g.revision ∧ (∀ id ∈ patch.addMemberIds, Short id) ∧
      HasRoom (s.devices p) ((Device.existingRecipients now g contacts patch p).length +
        (Device.newIds now g contacts patch).length)
  | .leave p _ _ => ∀ g, s.copy gid p = some g → isActiveGroupMember g p →
    HasRoom (s.devices p) g.members.length ∧
      (isGroupAdmin g p → s.Newest gid p) ∧ g.revision < addOne g.revision
  | .deliver p i _ _ => ∀ q packet, (s.devices p).sent[i]? = some (q, packet) →
    HasRoom (s.devices q) 1 ∧
      ∀ g, s.copy gid q = some g → isOwnEvent packet → Records g q packet →
        HasRoom (s.devices q) (g.members.length + 1) ∧ g.revision < addOne g.revision ∧
        (s.Newest gid q ∨ ∃ w u rest, s.history = w :: u :: rest ∧ u.group = g ∧
          w.cause = some packet) ∧
        (packet.get "action" = .str "leave" → s.Past gid g p)

/-! ### What holds along the way -/

def versions (s : System) : List Group := s.history.map Version.group

/-- The group as an admin records what a member tells of himself -/
def recorded (g : Group) (event : Json) : Group :=
  if event.get "action" = .str "accept" then
    g.changed (actorOf event) (Member.accepted (event.get "timestamp")) (event.get "timestamp")
  else g.changed (actorOf event) (Member.departed .left (event.get "timestamp"))
    (event.get "timestamp")

/-- An update of an admin of `u` to `w` is queued for the peer. -/
def Queued (s : System) (w u : Group) (q : String) : Prop :=
  ∃ a, ∃ e ∈ (s.devices a).outbox, e.peerId = q ∧ e.packet.get "action" = .str "update" ∧
    Carries e.packet a e.packetId w ∧ isGroupAdmin u a ∧ s.carried e.packetId = some w

/-- A version and the one it was made from -/
structure Link (s : System) (w u : Version) : Prop where
  revision : u.group.revision < w.group.revision
  createdBy : w.group.createdBy = u.group.createdBy
  cause : ∀ event, w.cause = some event → w.group = recorded u.group event
  reach : ∀ q, isActiveGroupMember u.group q → s.Queued w.group u.group q ∨ s.Past gid u.group q

inductive Packet (s : System) (p : String) (packet : Json) : Prop
  | snapshot (id : String) (v : Group) (mem : v ∈ s.versions) (carries : Carries packet p id v)
      (carried : s.carried id = some v) (used : id ∈ s.used)
  | own (id : String) (kind : packet.get "kind" = .str groupEventKind)
      (groupId : packet.get "groupId" = .str gid) (eventId : packet.get "eventId" = .str id)
      (own : isOwnEvent packet)
      (carried : s.carried id = none) (used : id ∈ s.used)
  | receipt (kind : packet.get "kind" = .str groupReceiptKind)

/-- The device remembers the event, or has sent a receipt for it. -/
def Answered (d : Device) (id : String) : Prop :=
  .str id ∈ d.eventIds ∨ ∃ x ∈ d.sent, x.2.get "kind" = .str groupReceiptKind ∧
    x.2.get "refEventId" = .str id

structure Proper (v : Group) : Prop where
  stored : v.Stored
  tidied : v.tidied = v
  id : v.id = gid
  shortIds : v.ShortIds

structure Inv (s : System) : Prop where
  ownPeerId : ∀ p, (s.devices p).ownPeerId = p
  stored : ∀ p, (s.devices p).Stored
  version : ∀ v ∈ s.versions, Proper gid v
  copies : ∀ p g, s.copy gid p = some g →
    g.tidied = g ∧ (g ∈ s.versions ∨ ¬ isActiveGroupMember g p)
  links : ∀ w u, (w, u) ∈ s.history.zip s.history.tail → s.Link gid w u
  sent : ∀ p, ∀ x ∈ (s.devices p).sent, s.Packet gid p x.2
  queued : ∀ p, ∀ e ∈ (s.devices p).outbox, s.Packet gid p e.packet ∧ Device.ControlEntry e ∧
    e.packetId ∈ s.used ∧ e.packetId.length = eventIdLength
  answered : ∀ p id, Answered (s.devices p) id → id ∈ s.used ∧
    ∀ v, s.carried id = some v → ∃ g, s.copy gid p = some g ∧ v.revision ≤ g.revision

theorem inv_of_start {s : System} (h : s.Start gid) : s.Inv gid where
  ownPeerId := h.ownPeerId
  stored := h.stored
  version := by
    intro v hv
    obtain ⟨w, hw, rfl⟩ := mem_map.mp hv
    obtain ⟨hstored, htidied, hid, hshort⟩ := h.history w hw
    exact ⟨hstored, htidied, hid, hshort⟩
  copies := by
    intro p g hg
    obtain ⟨htidied, ⟨v, hv, rfl⟩ | hinactive⟩ := h.copies p g hg
    · exact ⟨htidied, .inl (mem_map_of_mem hv)⟩
    · exact ⟨htidied, .inr hinactive⟩
  links := by
    intro w u hlink
    cases hhistory : s.history with
    | nil =>
      rw [hhistory] at hlink
      cases hlink
    | cons v rest =>
      have hsingle := h.single
      rw [hhistory, length_cons] at hsingle
      obtain rfl : rest = [] := length_eq_zero_iff.mp (by omega)
      rw [hhistory] at hlink
      cases hlink
  sent := by
    intro p x hx
    rw [h.sent p] at hx
    cases hx
  queued := by
    intro p e he
    rw [h.outbox p] at he
    cases he
  answered := by
    intro p id hanswered
    obtain hid | ⟨x, hx, -⟩ := hanswered
    · refine ⟨h.eventIds p id hid, fun v hv => ?_⟩
      rw [h.carried id] at hv
      cases hv
    · rw [h.sent p] at hx
      cases hx

/-! ### What one device does -/

section

variable {gid : String} {s : System} {p q : String} {d' : Device} {ids : List String}
  {v : Option Version}

/-- A copy stays or is replaced by a newer one. -/
def Advances (g : Option Group) (g' : Option Group) : Prop :=
  ∀ x, g = some x → ∃ x', g' = some x' ∧ (x' = x ∨ x.revision < x'.revision)

theorem Advances.refl (g : Option Group) : Advances g g := fun x hx => ⟨x, hx, .inl rfl⟩

theorem copy_record_self : (s.record p d' ids v).copy gid p = d'.group? (.str gid) := by
  rw [copy, System.record]
  dsimp only
  rw [update_self]

theorem copy_record_of_ne (h : q ≠ p) : (s.record p d' ids v).copy gid q = s.copy gid q := by
  rw [copy, System.record]
  dsimp only
  rw [update_of_ne h, copy]

theorem advances_record (h : Advances (s.copy gid p) (d'.group? (.str gid))) :
    Advances (s.copy gid q) ((s.record p d' ids v).copy gid q) := by
  by_cases hq : q = p
  · rw [hq, copy_record_self]
    exact h
  · rw [copy_record_of_ne hq]
    exact .refl _

theorem Past.record {u : Group} (h : s.Past gid u q)
    (hadvances : Advances (s.copy gid p) (d'.group? (.str gid))) :
    (s.record p d' ids v).Past gid u q := by
  obtain ⟨g, hg, hne, hrevision⟩ := h
  have hrecord : Advances (s.copy gid q) ((s.record p d' ids v).copy gid q) :=
    advances_record hadvances
  obtain ⟨g', hg', rfl | hnewer⟩ := hrecord g hg
  · exact ⟨g', hg', hne, hrevision⟩
  · refine ⟨g', hg', ?_, by omega⟩
    rintro rfl
    omega

theorem mem_push {w : Option Version} {history : List Version} {x : Version} (h : x ∈ history) :
    x ∈ push w history := by
  rw [push.eq_def]
  split
  · exact h
  · split
    · exact h
    · exact mem_cons_of_mem _ h

theorem mem_versions_record {g : Group} (h : g ∈ s.versions) :
    g ∈ (s.record p d' ids v).versions := by
  obtain ⟨w, hw, rfl⟩ := mem_map.mp h
  exact mem_map_of_mem (mem_push hw)

variable (hfresh : ∀ id ∈ ids, id ∉ s.used ∧ id.length = eventIdLength)

include hfresh in
theorem carried_record {id : String} (h : id ∈ s.used) :
    (s.record p d' ids v).carried id = s.carried id :=
  if_neg fun hid => (hfresh id hid).1 h

include hfresh in
theorem Packet.record {packet : Json} (h : s.Packet gid q packet) :
    (s.record p d' ids v).Packet gid q packet := by
  cases h with
  | snapshot id w mem carries carried used =>
    exact .snapshot id w (mem_versions_record mem) carries
      ((carried_record hfresh used).trans carried) (mem_append_right _ used)
  | own id kind groupId eventId own carried used =>
    exact .own id kind groupId eventId own ((carried_record hfresh used).trans carried)
      (mem_append_right _ used)
  | receipt kind => exact .receipt kind

/-- Of what a device has queued, an update stays queued or the peer has answered it. -/
def KeepsQueued (s : System) (d d' : Device) : Prop :=
  ∀ e ∈ d.outbox, e ∈ d'.outbox ∨ Answered (s.devices e.peerId) e.packetId

include hfresh in
theorem Link.record {w u : Version} (hinv : s.Inv gid) (h : s.Link gid w u)
    (hadvances : Advances (s.copy gid p) (d'.group? (.str gid)))
    (hkept : s.KeepsQueued (s.devices p) d') : (s.record p d' ids v).Link gid w u where
  revision := h.revision
  createdBy := h.createdBy
  cause := h.cause
  reach := by
    intro q hactive
    obtain ⟨a, e, he, hpeer, haction, hcarries, hadmin, hcarried⟩ | hpast := h.reach q hactive
    · have hqueued := hinv.queued a e he
      have hcarried' : (s.record p d' ids v).carried e.packetId = some w.group :=
        (carried_record hfresh hqueued.2.2.1).trans hcarried
      by_cases ha : a = p
      · subst ha
        obtain he' | hanswered := hkept e he
        · left
          refine ⟨a, e, ?_, hpeer, haction, hcarries, hadmin, hcarried'⟩
          rw [System.record]
          dsimp only
          rwa [update_self]
        -- the peer has a copy that is at least as new as the update
        right
        rw [hpeer] at hanswered
        obtain ⟨g, hg, hrevision⟩ := (hinv.answered q _ hanswered).2 w.group hcarried
        have hlink := h.revision
        refine Past.record ⟨g, hg, ?_, by omega⟩ hadvances
        rintro rfl
        omega
      · left
        refine ⟨a, e, ?_, hpeer, haction, hcarries, hadmin, hcarried'⟩
        rw [System.record]
        dsimp only
        rwa [update_of_ne ha]
    · exact .inr (hpast.record hadvances)

theorem devices_record_self : (s.record p d' ids v).devices p = d' := by
  exact update_self ..

theorem devices_record_of_ne (h : q ≠ p) : (s.record p d' ids v).devices q = s.devices q := by
  exact update_of_ne h ..

include hfresh in
/-- A device that only advances its own copy, and sends in order, keeps what holds. -/
theorem Inv.record (h : s.Inv gid) (hown : d'.ownPeerId = p) (hstored : d'.Stored)
    (hadvances : Advances (s.copy gid p) (d'.group? (.str gid)))
    (hcopy : ∀ g, d'.group? (.str gid) = some g → g.tidied = g ∧
      (g ∈ (s.record p d' ids v).versions ∨ ¬ isActiveGroupMember g p))
    (hsent : ∀ x ∈ d'.sent, x ∈ (s.devices p).sent ∨ (s.record p d' ids v).Packet gid p x.2)
    (hqueued : ∀ e ∈ d'.outbox, e ∈ (s.devices p).outbox ∨
      (s.record p d' ids v).Packet gid p e.packet ∧ Device.ControlEntry e ∧ e.packetId ∈ ids)
    (hkept : s.KeepsQueued (s.devices p) d')
    (hanswered : ∀ id, Answered d' id → Answered (s.devices p) id ∨ id ∈ s.used ∧
      ∀ w, s.carried id = some w → ∃ g, d'.group? (.str gid) = some g ∧ w.revision ≤ g.revision)
    (hpush : (s.record p d' ids v).history = s.history ∨
      ∃ w, (s.record p d' ids v).history = w :: s.history ∧ Proper gid w.group ∧
        ∀ u, s.history.head? = some u → (s.record p d' ids v).Link gid w u) :
    (s.record p d' ids v).Inv gid where
  ownPeerId := by
    intro q
    by_cases hq : q = p
    · rw [hq, devices_record_self, hown]
    · rw [devices_record_of_ne hq, h.ownPeerId]
  stored := by
    intro q
    by_cases hq : q = p
    · rw [hq, devices_record_self]
      exact hstored
    · rw [devices_record_of_ne hq]
      exact h.stored q
  version := by
    intro g hg
    obtain hsame | ⟨w, hw, hproper, -⟩ := hpush
    · rw [versions, hsame] at hg
      exact h.version g hg
    rw [versions, hw, map_cons] at hg
    obtain rfl | hg := mem_cons.mp hg
    · exact hproper
    · exact h.version g hg
  copies := by
    intro q g hg
    by_cases hq : q = p
    · rw [hq] at hg ⊢
      rw [copy_record_self] at hg
      exact hcopy g hg
    rw [copy_record_of_ne hq] at hg
    obtain ⟨htidied, hmem | hinactive⟩ := h.copies q g hg
    · exact ⟨htidied, .inl (mem_versions_record hmem)⟩
    · exact ⟨htidied, .inr hinactive⟩
  links := by
    intro w u hlink
    obtain hsame | ⟨w', hw', -, hnew⟩ := hpush
    · rw [hsame] at hlink
      exact (h.links w u hlink).record hfresh h hadvances hkept
    rw [hw', tail_cons] at hlink
    cases hhistory : s.history with
    | nil =>
      rw [hhistory] at hlink
      cases hlink
    | cons u' rest =>
      rw [hhistory, zip_cons_cons] at hlink
      obtain heq | hlink := mem_cons.mp hlink
      · obtain ⟨rfl, rfl⟩ := Prod.mk.inj heq
        exact hnew u (by rw [hhistory]; rfl)
      · refine (h.links w u ?_).record hfresh h hadvances hkept
        rw [hhistory]
        exact hlink
  sent := by
    intro q x hx
    by_cases hq : q = p
    · rw [hq] at hx ⊢
      rw [devices_record_self] at hx
      obtain hx | hx := hsent x hx
      · exact (h.sent p x hx).record hfresh
      · exact hx
    · rw [devices_record_of_ne hq] at hx
      exact (h.sent q x hx).record hfresh
  queued := by
    intro q e he
    have hold : ∀ q, e ∈ (s.devices q).outbox → (s.record p d' ids v).Packet gid q e.packet ∧
        Device.ControlEntry e ∧ e.packetId ∈ (s.record p d' ids v).used ∧
        e.packetId.length = eventIdLength := by
      intro q he
      obtain ⟨hpacket, hentry, hused, hlength⟩ := h.queued q e he
      exact ⟨hpacket.record hfresh, hentry, mem_append_right _ hused, hlength⟩
    by_cases hq : q = p
    · rw [hq] at he ⊢
      rw [devices_record_self] at he
      obtain he | ⟨hpacket, hentry, hid⟩ := hqueued e he
      · exact hold p he
      · exact ⟨hpacket, hentry, mem_append_left _ hid, (hfresh _ hid).2⟩
    · rw [devices_record_of_ne hq] at he
      exact hold q he
  answered := by
    intro q id hid
    have hrecord : Advances (s.copy gid q) ((s.record p d' ids v).copy gid q) :=
      advances_record hadvances
    have hold : Answered (s.devices q) id → id ∈ (s.record p d' ids v).used ∧
        ∀ w, (s.record p d' ids v).carried id = some w →
          ∃ g, (s.record p d' ids v).copy gid q = some g ∧ w.revision ≤ g.revision := by
      intro hid
      obtain ⟨hused, hcarried⟩ := h.answered q id hid
      refine ⟨mem_append_right _ hused, fun w hw => ?_⟩
      rw [carried_record hfresh hused] at hw
      obtain ⟨g, hg, hrevision⟩ := hcarried w hw
      obtain ⟨g', hg', rfl | hnewer⟩ := hrecord g hg
      · exact ⟨g', hg', hrevision⟩
      · exact ⟨g', hg', by omega⟩
    by_cases hq : q = p
    · subst hq
      rw [devices_record_self] at hid
      obtain hid | ⟨hused, hcarried⟩ := hanswered id hid
      · exact hold hid
      refine ⟨mem_append_right _ hused, fun w hw => ?_⟩
      rw [carried_record hfresh hused] at hw
      rw [copy_record_self]
      exact hcarried w hw
    · rw [devices_record_of_ne hq] at hid
      exact hold hid

end

end System
end Bluetalk.Groups

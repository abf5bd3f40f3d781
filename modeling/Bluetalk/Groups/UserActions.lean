import Bluetalk.Groups.Convergence

/-!
# Groups that a user changes

A user creates a group, changes it or leaves it. What an admin makes of the newest version is the next
one, and it is queued for everybody who was active (`Inv.issue`).
-/

open List Option

namespace Bluetalk.Groups
namespace System

open Device

variable {gid : String} {s : System} {p q : String} {d d' : Device} {ids : List String} {n : Nat}
  {Q : Json → Prop} {v w : Version} {cause : Option Json} {id : String}

theorem made_of_eq (h : d'.group? (.str gid) = d.group? (.str gid)) : made gid d d' cause = none :=
  if_pos h

theorem made_of_ne {g : Group} (h : d'.group? (.str gid) = some g)
    (hne : d.group? (.str gid) ≠ some g) : made gid d d' cause = some ⟨g, cause⟩ := by
  rw [made, h, if_neg (Ne.symm hne), map_some]

theorem fresh_iff : s.fresh id ↔ id ∉ s.used ∧ id.length = eventIdLength := by
  rw [fresh, Bool.and_eq_true, decide_eq_true_eq, decide_eq_true_eq, and_comm]

theorem mem_versions_pushed : w.group ∈ (s.record p d' ids (some w)).versions := by
  rw [versions, System.record, push]
  split
  · next hhead =>
    obtain ⟨u, hu, heq⟩ := map_eq_some_iff.mp hhead
    exact heq ▸ mem_map_of_mem (mem_of_mem_head? hu)
  · exact mem_cons_self

theorem carried_self (h : id ∈ ids) :
    (s.record p d' ids (some w)).carried id = some w.group := if_pos h

theorem Packet.published {packet : Json} (h : id ∈ ids) (hcarries : Carries packet p id w.group) :
    (s.record p d' ids (some w)).Packet gid p packet :=
  .snapshot id w.group mem_versions_pushed hcarries (carried_self h) (mem_append_left _ h)

theorem Inv.keepsQueued (h : s.Inv gid) (hfresh : ∀ id ∈ ids, id ∉ s.used ∧ id.length = eventIdLength)
    (hgrows : Grows Q ids n (s.devices p) d') : s.KeepsQueued (s.devices p) d' := by
  intro e he
  obtain ⟨-, hentry, hused, hlength⟩ := h.queued p e he
  refine .inl (hgrows.kept e he fun id hid peerId hsame => ?_)
  rw [hentry.id] at hsame
  have hid' : e.packetId = id := packetId_of_entryId hlength (hfresh id hid).2 hsame
  exact (hfresh id hid).1 (hid' ▸ hused)

/-- A packet by which a version goes out under one of the ids -/
def Publishes (ids : List String) (p : String) (w : Group) (packet : Json) : Prop :=
  ∃ id ∈ ids, Carries packet p id w

theorem answered_of_grows (hgrows : Grows Q ids n d d') (heventIds : d'.eventIds = d.eventIds)
    (hevents : ∀ packet, Q packet → packet.get "kind" = .str groupEventKind)
    (h : Answered d' id) : Answered d id := by
  obtain hid | ⟨x, hx, hkind, href⟩ := h
  · exact .inl (heventIds ▸ hid)
  obtain hx | hq := hgrows.sent x hx
  · exact .inr ⟨x, hx, hkind, href⟩
  · have hevent := hevents x.2 hq
    rw [hkind] at hevent
    exact absurd (Json.str.inj hevent) (by decide)

theorem Inv.sends (h : s.Inv gid) (hfresh : ∀ id ∈ ids, id ∉ s.used ∧ id.length = eventIdLength)
    {v : Option Version} (hown : d'.ownPeerId = p) (hstored : d'.Stored)
    (hadvances : Advances (s.copy gid p) (d'.group? (.str gid)))
    (hcopy : ∀ g, d'.group? (.str gid) = some g → g.tidied = g ∧
      (g ∈ (s.record p d' ids v).versions ∨ ¬ isActiveGroupMember g p))
    (hgrows : Grows ((s.record p d' ids v).Packet gid p) ids n (s.devices p) d')
    (hanswered : ∀ id, Answered d' id → Answered (s.devices p) id ∨ id ∈ s.used ∧
      ∀ w, s.carried id = some w → ∃ g, d'.group? (.str gid) = some g ∧ w.revision ≤ g.revision)
    (hpush : (s.record p d' ids v).history = s.history ∨
      ∃ w, (s.record p d' ids v).history = w :: s.history ∧ Proper gid w.group ∧
        ∀ u, s.history.head? = some u → (s.record p d' ids v).Link gid w u) :
    (s.record p d' ids v).Inv gid := by
  refine Inv.record hfresh h hown hstored hadvances hcopy hgrows.sent ?_
    (h.keepsQueued hfresh hgrows) hanswered hpush
  intro e he
  obtain he | ⟨hentry, hid, hpacket⟩ := hgrows.queued e he
  · exact .inl he
  · exact .inr ⟨hpacket, hentry, hid⟩

theorem Inv.record_self (h : s.Inv gid)
    (hfresh : ∀ id ∈ ids, id ∉ s.used ∧ id.length = eventIdLength) :
    (s.record p (s.devices p) ids none).Inv gid := by
  have hgrows : Grows ((s.record p (s.devices p) ids none).Packet gid p) ids 0 (s.devices p)
      (s.devices p) := (Grows.of_eq rfl rfl).weaken (nil_subset _) (le_refl _)
  refine h.sends hfresh (h.ownPeerId p) (h.stored p) (.refl _) ?_ hgrows (fun id hid => .inl hid)
    (.inl rfl)
  intro g hg
  obtain ⟨htidied, hmem | hinactive⟩ := h.copies p g hg
  · exact ⟨htidied, .inl (mem_versions_record hmem)⟩
  · exact ⟨htidied, .inr hinactive⟩

theorem Inv.publish {g w : Group} (h : s.Inv gid)
    (hfresh : ∀ id ∈ ids, id ∉ s.used ∧ id.length = eventIdLength)
    (hg : s.copy gid p = some g) (hnewest : s.Newest gid p) (hadmin : isGroupAdmin g p)
    (hown : d'.ownPeerId = p) (hstored : d'.Stored) (hw : d'.group? (.str gid) = some w)
    (hproper : Proper gid w) (hrevision : g.revision < w.revision)
    (hcreatedBy : w.createdBy = g.createdBy)
    (hcause : ∀ event, cause = some event → w = recorded g event)
    (hgrows : Grows ((s.record p d' ids (some ⟨w, cause⟩)).Packet gid p) ids n (s.devices p) d')
    (hanswered : ∀ id, Answered d' id → Answered (s.devices p) id ∨ id ∈ s.used ∧
      ∀ v, s.carried id = some v → ∃ g, d'.group? (.str gid) = some g ∧ v.revision ≤ g.revision)
    (hreach : ∀ q, q ≠ p → isActiveGroupMember g q →
      (∃ e ∈ d'.outbox, e.peerId = q ∧ e.packet.get "action" = .str "update" ∧
        Carries e.packet p e.packetId w ∧ e.packetId ∈ ids) ∨ s.Past gid g q) :
    (s.record p d' ids (some ⟨w, cause⟩)).Inv gid := by
  have hne : w ≠ g := by
    rintro rfl
    omega
  have hhead : s.history.head?.map Version.group = some g := hnewest.symm.trans hg
  have hadvances : Advances (s.copy gid p) (d'.group? (.str gid)) := by
    intro x hx
    obtain rfl := some.inj (hg.symm.trans hx)
    exact ⟨w, hw, .inr hrevision⟩
  have hhistory : (s.record p d' ids (some ⟨w, cause⟩)).history = ⟨w, cause⟩ :: s.history := by
    exact if_neg fun hsame => hne (some.inj (hsame.symm.trans hhead))
  have hcopy' : (s.record p d' ids (some ⟨w, cause⟩)).copy gid p = some w :=
    copy_record_self.trans hw
  refine h.sends hfresh hown hstored hadvances ?_ hgrows hanswered
    (.inr ⟨⟨w, cause⟩, hhistory, hproper, fun u hu => ?_⟩)
  · intro x hx
    obtain rfl := some.inj (hw.symm.trans hx)
    exact ⟨hproper.tidied, .inl mem_versions_pushed⟩
  rw [hu] at hhead
  obtain rfl : u.group = g := some.inj hhead
  refine ⟨hrevision, hcreatedBy, hcause, fun q hactive => ?_⟩
  by_cases hq : q = p
  · rw [hq]
    exact .inr ⟨w, hcopy', hne, by omega⟩
  obtain ⟨e, he, hpeer, haction, hcarries, hid⟩ | hpast := hreach q hq hactive
  · refine .inl ⟨p, e, ?_, hpeer, haction, hcarries, hadmin, carried_self hid⟩
    rw [devices_record_self]
    exact he
  · exact .inr (hpast.record hadvances)

/-- The update by which a version goes out -/
structure Update (update : Json) (p : String) (id : String) (w : Group) (ids : List String) :
    Prop where
  carries : Carries update p id w
  action : update.get "action" = .str "update"
  mem : id ∈ ids

theorem Update.queued {update : Json} {w : Group} {groupId : String} (h : Update update p id w ids)
    (he : controlEntry update groupId q ∈ d'.outbox) :
    ∃ e ∈ d'.outbox, e.peerId = q ∧ e.packet.get "action" = .str "update" ∧
      Carries e.packet p e.packetId w ∧ e.packetId ∈ ids := by
  obtain ⟨-, hpacketId⟩ : ControlEntry (controlEntry update groupId q) ∧
    (controlEntry update groupId q).packetId = id := controlEntry_spec h.carries.eventId
  refine ⟨_, he, rfl, h.action, ?_, ?_⟩
  · rw [hpacketId]
    exact h.carries
  · rw [hpacketId]
    exact h.mem

/-! ### What a user does -/

theorem stores {next w : Group} {now : Int} (hd : d.Stored)
    (hread : normalizeGroup now next.json = .ok w) (hw : Proper gid w)
    (hsame : SameGroups (d.replaceGroup now next) d') :
    d'.ownPeerId = d.ownPeerId ∧ d'.Stored ∧ d'.group? (.str gid) = some w ∧
      d'.eventIds = d.eventIds := by
  refine ⟨?_, hsame.stored (hd.replaceGroup hread hw.stored), ?_, ?_⟩
  · rw [hsame.ownPeerId, replaceGroup_eq hread]
  · rw [hsame.group?, find?_replaceGroup hread, if_pos hw.id]
  · rw [hsame.eventIds, replaceGroup_eq hread]

theorem Inv.issue {g next w : Group} {now : Int} {update : Json} {groupId : String} (h : s.Inv gid)
    (hfresh : ∀ id ∈ ids, id ∉ s.used ∧ id.length = eventIdLength)
    (hg : s.copy gid p = some g) (hnewest : s.Newest gid p) (hadmin : isGroupAdmin g p)
    (hread : normalizeGroup now next.json = .ok w) (hproper : Proper gid w)
    (hrevision : g.revision < w.revision) (hcreatedBy : w.createdBy = g.createdBy)
    (hsame : SameGroups ((s.devices p).replaceGroup now next) d')
    (hgrows : Grows (Publishes ids p w) ids n (s.devices p) d') (hupdate : Update update p id w ids)
    (hqueued : ∀ q, q ≠ p → isActiveGroupMember g q → controlEntry update groupId q ∈ d'.outbox) :
    (s.record p d' ids (made gid (s.devices p) d' none)).Inv gid := by
  obtain ⟨hown, hstored, hw, heventIds⟩ := stores (h.stored p) hread hproper hsame
  have hne : (s.devices p).group? (.str gid) ≠ some w := by
    intro hw
    obtain rfl := some.inj (hg.symm.trans hw)
    omega
  rw [made_of_ne hw hne]
  refine h.publish hfresh hg hnewest hadmin (hown.trans (h.ownPeerId p)) hstored hw hproper
    hrevision hcreatedBy ?_ (hgrows.mono ?_) ?_ ?_
  · intro event hcause
    cases hcause
  · rintro packet ⟨id, hid, hcarries⟩
    exact .published hid hcarries
  · refine fun id hid => .inl (answered_of_grows hgrows heventIds ?_ hid)
    rintro packet ⟨id, -, hcarries⟩
    exact hcarries.kind
  · exact fun q hq hactive => .inl (hupdate.queued (hqueued q hq hactive))

theorem Newest.mem {g : Group} (h : s.Newest gid p) (hg : s.copy gid p = some g) :
    g ∈ s.versions := by
  obtain ⟨v, hv, rfl⟩ := map_eq_some_iff.mp (h.symm.trans hg)
  exact mem_map_of_mem (mem_of_mem_head? hv)

theorem Proper.short {g : Group} (h : Proper gid g) (hid : id ∈ g.members.map Member.peerId) :
    Short id := by
  obtain ⟨m, hm, rfl⟩ := mem_map.mp hid
  exact h.shortIds m hm

section

variable {s' : System} {now : Int} {newId updateId : String} {inviteId : String → String}
  {contacts : List Json} {patch : GroupPatch}

theorem Proper.updated {g next w : Group} (hg : Proper gid g)
    (hnext : updatedGroup now contacts patch p g = .ok next)
    (hread : normalizeGroup now next.json = .ok w) (hid : w.id = g.id)
    (hadded : ∀ id ∈ patch.addMemberIds, Short id) : Proper gid w ∧ w.createdBy = g.createdBy := by
  obtain ⟨raw, hraw, hcreatedBy, -, hlisted⟩ := Device.updated hnext
  have hids : ∀ r ∈ (raw.get "members").items, Short (listedId r) := by
    intro r hr
    obtain ⟨m, hm, hid⟩ | hid := hlisted r hr
    · exact hid ▸ hg.shortIds m hm
    · exact hadded _ hid
  have hcreator : Short (raw.get "createdBy").textOrEmpty := by
    rw [hcreatedBy, textOrEmpty_str]
    exact hg.short hg.stored.createdBy_mem
  refine ⟨⟨stored_of_normalized_twice hraw hread, tidied_of_short hraw hread hids hcreator,
    hid.trans hg.id, shortIds_of_normalized_twice hraw hread hids⟩, ?_⟩
  have hclean : cleanText g.createdBy 96 = g.createdBy := hg.stored.createdBy
  rw [createdBy_of_json hread, (normalized hraw).createdBy, hcreatedBy, cleanString_str, hclean,
    hclean]

theorem grows_update {g w : Group} {update : Json} {recipients invitees : List String}
    (hread : normalizeGroup now g.json = .ok w) (hown : d.ownPeerId = p)
    (hupdate : update.get "eventId" = .str updateId)
    (happart : ∀ id ∈ invitees.map inviteId, id.length = eventIdLength ∧ updateId ≠ id)
    (hlength : updateId.length = eventIdLength)
    (hroom : d.outbox.length + (recipients.length + invitees.length) ≤ 1000) (hq : Q update)
    (hinvite : ∀ r ∈ invitees, ∀ invite,
      createGroupInviteEvent g p r (inviteId r) now = .ok invite → Q invite) :
    Grows Q (updateId :: invitees.map inviteId) (recipients.length + invitees.length) d
        (((d.replaceGroup now g).sendControl recipients update g.id).sendInvites now inviteId g
          invitees) ∧
      ∀ r ∈ recipients, controlEntry update g.id r ∈
        (((d.replaceGroup now g).sendControl recipients update g.id).sendInvites now inviteId g
          invitees).outbox := by
  have hstored : Grows Q [] 0 d (d.replaceGroup now g) := grows_replaceGroup hread
  have hlength₀ := hstored.length
  have hroom₁ : (d.replaceGroup now g).outbox.length + recipients.length ≤ 1000 := by omega
  have hupdated : Grows Q [updateId] recipients.length (d.replaceGroup now g)
      ((d.replaceGroup now g).sendControl recipients update g.id) :=
    grows_sendControl hroom₁ hupdate hq
  have hlength₁ := hupdated.length
  have hactor : ((d.replaceGroup now g).sendControl recipients update g.id).ownPeerId = p := by
    rw [sameGroups_sendControl.ownPeerId, replaceGroup_eq hread]
    exact hown
  have hinvited : Grows Q (invitees.map inviteId) invitees.length
      ((d.replaceGroup now g).sendControl recipients update g.id)
      (((d.replaceGroup now g).sendControl recipients update g.id).sendInvites now inviteId g
        invitees) := grows_sendInvites (by omega) (hactor.symm ▸ hinvite)
  refine ⟨((hstored.trans hupdated).trans hinvited).weaken (List.Subset.refl _) (by omega), ?_⟩
  intro r hr
  obtain ⟨hentry, hpacketId⟩ : ControlEntry (controlEntry update g.id r) ∧
    (controlEntry update g.id r).packetId = updateId := controlEntry_spec hupdate
  refine hinvited.kept _ (mem_sendControl hroom₁ hupdate hr) fun id hid peerId hsame => ?_
  rw [hentry.id, hpacketId] at hsame
  exact (happart id hid).2 (packetId_of_entryId hlength (happart id hid).1 hsame)

theorem Inv.update (h : s.Inv gid) (hok : Serial gid s (.update p now updateId inviteId contacts patch))
    (hstep : step gid s (.update p now updateId inviteId contacts patch) = some s') :
    s'.Inv gid := by
  rw [step] at hstep
  split at hstep
  · next hids =>
    obtain rfl := some.inj hstep
    obtain ⟨hids, happart⟩ := (Bool.and_eq_true _ _).mp hids
    obtain ⟨hupdateId, hinviteIds⟩ := (Bool.and_eq_true _ _).mp hids
    have hfresh : ∀ id ∈ updateId :: (invited (s.copy gid p) now contacts patch).map inviteId,
        id ∉ s.used ∧ id.length = eventIdLength := by
      rw [forall_mem_cons]
      exact ⟨fresh_iff.mp hupdateId, fun id hid => fresh_iff.mp (all_eq_true.mp hinviteIds id hid)⟩
    obtain hsame | ⟨g, next, w, update, hg, hnext, hread, hcarries, haction, hadmin, hid, hrevision,
      hd'⟩ := @updateGroupChat_cases (s.devices p) now updateId inviteId contacts (.str gid) patch
    · rw [hsame, made_of_eq rfl]
      exact h.record_self hfresh
    rw [h.ownPeerId p] at hcarries hadmin hnext hd'
    have hcopy : s.copy gid p = some g := hg
    obtain ⟨hnewest, -, hadded, hroom⟩ := hok g hcopy hadmin
    rw [hcopy, invited] at hfresh happart ⊢
    have hcurrent : Proper gid g := h.version g (hnewest.mem hcopy)
    obtain ⟨hproper, hcreatedBy⟩ := hcurrent.updated hnext hread hid hadded
    have hids' : ∀ id ∈ (newIds now g contacts patch).map inviteId,
        id.length = eventIdLength ∧ updateId ≠ id := by
      refine fun id hid => ⟨(hfresh id (mem_cons_of_mem _ hid)).2, ?_⟩
      rintro rfl
      exact of_decide_eq_true happart hid
    have hpublished : Publishes (updateId :: (newIds now g contacts patch).map inviteId) p w
        update := ⟨updateId, mem_cons_self, hcarries⟩
    have hinvites : ∀ r ∈ newIds now g contacts patch, ∀ invite,
        createGroupInviteEvent next p r (inviteId r) now = .ok invite →
          Publishes (updateId :: (newIds now g contacts patch).map inviteId) p w invite := by
      intro r hr invite hinvite
      obtain ⟨w', hread', hcarries'⟩ := carries_invite hinvite
      obtain rfl := Except.ok.inj (hread.symm.trans hread')
      exact ⟨_, mem_cons_of_mem _ (mem_map_of_mem hr), hcarries'⟩
    obtain ⟨hgrows, hqueued⟩ := grows_update hread (h.ownPeerId p) hcarries.eventId hids'
      (hfresh updateId mem_cons_self).2 hroom hpublished hinvites
    have hsame : SameGroups ((s.devices p).replaceGroup now next)
        ((((s.devices p).replaceGroup now next).sendControl
          (existingRecipients now g contacts patch p) update next.id).sendInvites now inviteId
            next (newIds now g contacts patch)) :=
      sameGroups_sendControl.trans sameGroups_sendInvites
    rw [← hd'] at hgrows hqueued hsame
    exact h.issue hfresh hcopy hnewest hadmin hread hproper hrevision hcreatedBy hsame hgrows
      ⟨hcarries, haction, mem_cons_self⟩
      fun q hq hactive => hqueued q (mem_existingRecipients hq hactive)
  · cases hstep

theorem own_leave {g : Group} {leave : Json} (h : createGroupLeaveEvent g p newId now = .ok leave) :
    leave.get "kind" = .str groupEventKind ∧ leave.get "groupId" = .str g.id ∧
      leave.get "eventId" = .str newId ∧ isOwnEvent leave := by
  rw [createGroupLeaveEvent] at h
  split at h
  · obtain rfl := Except.ok.inj h
    exact ⟨rfl, rfl, rfl, rfl⟩
  · cases h

theorem Proper.left {g : Group} (h : Proper gid g) (now : Int) (p : String) :
    Proper gid (g.left now p) ∧ normalizeGroup now (g.left now p).json = .ok (g.left now p) := by
  have htidied : (g.left now p).tidied = g.left now p := tidied_left h.tidied
  have hread : normalizeGroup now (g.left now p).json = .ok (g.left now p).tidied :=
    normalizeGroup_json h.stored.left now
  refine ⟨⟨h.stored.left, htidied, h.id, ?_⟩, hread.trans (congrArg Except.ok htidied)⟩
  intro m' hm'
  obtain ⟨m, hm, rfl⟩ := mem_map.mp hm'
  have hid : ((m.leaving now p (promoted g p)).tidied g.createdAt).peerId = m.peerId :=
    Member.peerId_leaving
  exact hid.symm ▸ h.shortIds m hm

theorem Inv.leave (h : s.Inv gid) (hok : Serial gid s (.leave p now newId))
    (hstep : step gid s (.leave p now newId) = some s') : s'.Inv gid := by
  rw [step] at hstep
  split at hstep
  · next hid =>
    obtain rfl := some.inj hstep
    have hfresh : ∀ id ∈ [newId], id ∉ s.used ∧ id.length = eventIdLength := by
      rw [forall_mem_singleton]
      exact fresh_iff.mp hid
    obtain hsame | ⟨g, leave, hg, hactive, hleave, hd'⟩ :=
      @leaveGroupChat_cases (s.devices p) now newId (.str gid) (h.stored p)
    · rw [hsame, made_of_eq rfl, ite_self]
      exact h.record_self hfresh
    rw [h.ownPeerId p] at hactive hleave hd'
    have hcopy : s.copy gid p = some g := hg
    obtain ⟨hroom, hnewest, hrevision⟩ := hok g hcopy hactive
    have hcurrent : Proper gid g := by
      obtain ⟨-, hmem | hinactive⟩ := h.copies p g hcopy
      · exact h.version g hmem
      · exact absurd hactive hinactive
    obtain ⟨hproper, hread⟩ := hcurrent.left now p
    rw [hcopy, any_some, hd']
    by_cases hadmin : isGroupAdmin g p
    · -- the update of an admin
      rw [if_pos hadmin, if_pos hadmin]
      have hexists : ∃ update, createGroupUpdateEvent g (g.left now p) p "member-left" newId now =
        .ok update := exists_update hread hadmin rfl hrevision
      obtain ⟨update, hupdate⟩ := hexists
      obtain ⟨w, hread', hcarries, haction, -⟩ := carries_update hupdate
      obtain rfl := Except.ok.inj (hread.symm.trans hread')
      rw [hupdate]
      have hstored : Grows (Publishes [newId] p (g.left now p)) [] 0 (s.devices p)
        ((s.devices p).replaceGroup now (g.left now p)) := grows_replaceGroup hread
      have hlength := hstored.length
      have hroom' : ((s.devices p).replaceGroup now (g.left now p)).outbox.length +
          ((otherActive g p).map Member.peerId).length ≤ 1000 := by
        have hothers : (otherActive g p).length ≤ g.members.length := length_filter_le _ _
        rw [length_map]
        rw [HasRoom] at hroom
        omega
      have hpublished : Publishes [newId] p (g.left now p) update :=
        ⟨newId, mem_singleton_self _, hcarries⟩
      have hsent : Grows (Publishes [newId] p (g.left now p)) [newId]
          ((otherActive g p).map Member.peerId).length
          ((s.devices p).replaceGroup now (g.left now p))
          (((s.devices p).replaceGroup now (g.left now p)).sendControl
            ((otherActive g p).map Member.peerId) update g.id) :=
        grows_sendControl hroom' hcarries.eventId hpublished
      exact h.issue hfresh hcopy (hnewest hadmin) hadmin hread hproper hrevision rfl
        sameGroups_sendControl (hstored.trans hsent)
        ⟨hcarries, haction, mem_singleton_self _⟩
        fun q hq hq' => mem_sendControl hroom' hcarries.eventId (mem_otherActive hq hq')
    · -- a member tells the admins, and there is no new version
      rw [if_neg hadmin, if_neg hadmin]
      obtain ⟨hkind, hgroupId, heventId, hown⟩ := own_leave hleave
      have hstored : Grows (· = leave) [] 0 (s.devices p)
        ((s.devices p).replaceGroup now (g.left now p)) := grows_replaceGroup hread
      have hlength := hstored.length
      have hroom' : ((s.devices p).replaceGroup now (g.left now p)).outbox.length +
          ((g.members.filter fun m => m.state = .active && m.role = .admin).map
            Member.peerId).length ≤ 1000 := by
        have hadmins : (g.members.filter fun m => m.state = .active && m.role = .admin).length ≤
          g.members.length := length_filter_le _ _
        rw [length_map]
        rw [HasRoom] at hroom
        omega
      have hsent : Grows (· = leave) [newId] _ _ (((s.devices p).replaceGroup now
          (g.left now p)).sendControl ((g.members.filter fun m =>
            m.state = .active && m.role = .admin).map Member.peerId) leave g.id) :=
        grows_sendControl hroom' heventId rfl
      obtain ⟨howner, hdevice, hw, heventIds⟩ :=
        stores (h.stored p) hread hproper sameGroups_sendControl
      have hgrows := hstored.trans hsent
      have hadvances : Advances (s.copy gid p) (some (g.left now p)) := by
        intro x hx
        obtain rfl := some.inj (hcopy.symm.trans hx)
        exact ⟨_, rfl, .inr hrevision⟩
      refine h.sends hfresh (howner.trans (h.ownPeerId p)) hdevice (hw.symm ▸ hadvances) ?_
        (hgrows.mono ?_) ?_ (.inl rfl)
      · intro x hx
        obtain rfl := some.inj (hw.symm.trans hx)
        exact ⟨hproper.tidied, .inr not_active_left⟩
      · rintro packet rfl
        exact .own newId hkind (hgroupId.trans (congrArg Json.str hcurrent.id)) heventId hown
          (if_pos (mem_singleton_self _)) (mem_append_left _ (mem_singleton_self _))
      · refine fun id hid => .inl (answered_of_grows hgrows heventIds ?_ hid)
        rintro packet rfl
        exact hkind
  · cases hstep

theorem Inv.create {name image displayName : Json} {memberIds : List String} (h : s.Inv gid)
    (hok : Serial gid s (.create p now inviteId contacts name image displayName memberIds))
    (hstep : step gid s (.create p now inviteId contacts name image displayName memberIds) =
      some s') : s'.Inv gid := by
  rw [step] at hstep
  split at hstep
  · next hids =>
    obtain rfl := some.inj hstep
    have hfresh : ∀ id ∈ memberIds.map inviteId, id ∉ s.used ∧ id.length = eventIdLength :=
      fun id hid => fresh_iff.mp (all_eq_true.mp hids id hid)
    obtain hsame | ⟨g, w, recipients, hread, hid, ⟨raw, hraw, hcreatedBy, hlisted⟩, hsubset, hlength,
      hd'⟩ := @createGroupChat_cases (s.devices p) now inviteId contacts gid name image displayName
        memberIds
    · rw [hsame, made_of_eq rfl]
      exact h.record_self hfresh
    rw [h.ownPeerId p] at hcreatedBy hlisted
    obtain ⟨hhistory, hcopies, hroom, hshort, hmembers⟩ := hok
    have hlistedShort : ∀ r ∈ (raw.get "members").items, Short (listedId r) := by
      intro r hr
      obtain hown | hmem := hlisted r hr
      · exact hown.symm ▸ hshort
      · exact hmembers _ hmem
    have hcreator : Short (raw.get "createdBy").textOrEmpty := by
      rw [hcreatedBy, textOrEmpty_str]
      exact hshort
    have hproper : Proper gid w := ⟨stored_of_normalized_twice hraw hread,
      tidied_of_short hraw hread hlistedShort hcreator, hid,
      shortIds_of_normalized_twice hraw hread hlistedShort⟩
    have hstored : Grows (Publishes (memberIds.map inviteId) p w) [] 0 (s.devices p)
      ((s.devices p).replaceGroup now g) := grows_replaceGroup hread
    have hstoredLength := hstored.length
    have hactor : ((s.devices p).replaceGroup now g).ownPeerId = p := by
      rw [replaceGroup_eq hread]
      exact h.ownPeerId p
    have hinvites : ∀ r ∈ recipients, ∀ invite,
        createGroupInviteEvent g ((s.devices p).replaceGroup now g).ownPeerId r (inviteId r) now =
          .ok invite → Publishes (memberIds.map inviteId) p w invite := by
      intro r hr invite hinvite
      rw [hactor] at hinvite
      obtain ⟨w', hread', hcarries⟩ := carries_invite hinvite
      obtain rfl := Except.ok.inj (hread.symm.trans hread')
      exact ⟨_, mem_map_of_mem (hsubset hr), hcarries⟩
    rw [HasRoom] at hroom
    have hgrows := hstored.trans (grows_sendInvites (by omega) hinvites)
    have hsame : SameGroups ((s.devices p).replaceGroup now g)
        (((s.devices p).replaceGroup now g).sendInvites now inviteId g recipients) :=
      sameGroups_sendInvites
    obtain ⟨howner, hdevice, hw, heventIds⟩ := stores (h.stored p) hread hproper hsame
    rw [← hd'] at hgrows howner hdevice hw heventIds
    have hnone : s.copy gid p = none := hcopies p
    have hne : (s.devices p).group? (.str gid) ≠ some w := by
      intro hsome
      cases hnone.symm.trans hsome
    rw [made_of_ne hw hne]
    have hfirst : ∀ d', (s.record p d' (memberIds.map inviteId) (some ⟨w, none⟩)).history =
        [⟨w, none⟩] := by
      intro d'
      rw [System.record]
      dsimp only
      rw [push.eq_def, hhistory]
      refine if_neg ?_
      intro hsame
      cases hsame
    refine h.sends hfresh (howner.trans (h.ownPeerId p)) hdevice ?_ ?_
      ((hgrows.weaken (map_subset _ hsubset) (le_refl _)).mono ?_) ?_
      (.inr ⟨⟨w, none⟩, (hfirst _).trans (by rw [hhistory]), hproper, fun u hu => ?_⟩)
    · intro x hx
      cases hnone.symm.trans hx
    · intro x hx
      obtain rfl := some.inj (hw.symm.trans hx)
      exact ⟨hproper.tidied, .inl mem_versions_pushed⟩
    · rintro packet ⟨id, hid, hcarries⟩
      exact .published hid hcarries
    · refine fun id hid => .inl (answered_of_grows hgrows heventIds ?_ hid)
      rintro packet ⟨id, -, hcarries⟩
      exact hcarries.kind
    · rw [hhistory] at hu
      cases hu
  · cases hstep

end

end System
end Bluetalk.Groups

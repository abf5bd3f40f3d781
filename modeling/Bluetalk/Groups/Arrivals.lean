import Bluetalk.Groups.UserActions

/-!
# Events that arrive at a group

A receipt takes away what its sender has answered, a version is taken if it is newer, and what a member
tells of himself is recorded by an admin as the next version.
-/

open List Option

namespace Bluetalk.Groups
namespace System

open Device

variable {gid : String} {s : System} {p q : String} {d d' : Device} {ids : List String} {n : Nat}
  {Q : Json → Prop} {v w : Version} {cause : Option Json} {id : String}

theorem active_of_admin {g : Group} (h : isGroupAdmin g p) : isActiveGroupMember g p := by
  rw [isGroupAdmin, Option.any_eq_true] at h
  obtain ⟨m, hm, hadmin⟩ := h
  rw [isActiveGroupMember, hm, any_some]
  exact ((Bool.and_eq_true _ _).mp hadmin).1

section

variable {g : Group} {event : Json} {now : Int} {eventId packet : Json} {newId : String}
  {g₁ : Group} {duplicate shouldAccept shouldBroadcast : Bool}

theorem keeps_recorded : ∃ f, Keeps f ∧
    recorded g event = g.changed (actorOf event) f (event.get "timestamp") ∧
    ∀ m : Member, (f m).state = if event.get "action" = .str "accept" then .active else .left := by
  rw [recorded]
  split
  · exact ⟨_, keeps_accepted, rfl, fun _ => rfl⟩
  · exact ⟨_, keeps_departed, rfl, fun _ => rfl⟩

theorem Proper.recorded (h : Proper gid g) (event : Json) (now : Int) :
    Proper gid (recorded g event) ∧
      normalizeGroup now (recorded g event).json = .ok (recorded g event) := by
  obtain ⟨f, hf, heq, -⟩ := @keeps_recorded g event
  rw [heq]
  have hstored : (g.changed (actorOf event) f (event.get "timestamp")).Stored := h.stored.changed hf
  have htidied : (g.changed (actorOf event) f (event.get "timestamp")).tidied =
    g.changed (actorOf event) f (event.get "timestamp") := tidied_changed h.tidied hf
  refine ⟨⟨hstored, htidied, h.id, ?_⟩,
    (normalizeGroup_json hstored now).trans (congrArg Except.ok htidied)⟩
  intro m hm
  have hids : (g.changed (actorOf event) f (event.get "timestamp")).tidied.members.map
    Member.peerId = g.members.map Member.peerId := map_peerId_changed hf
  rw [htidied] at hids
  exact h.short (hids ▸ mem_map_of_mem hm)

theorem revision_recorded : (recorded g event).revision = addOne g.revision := by
  rw [recorded]
  split <;> rfl

theorem createdBy_recorded : (recorded g event).createdBy = g.createdBy := by
  rw [recorded]
  split <;> rfl

theorem length_recorded : (recorded g event).members.length = g.members.length := by
  obtain ⟨f, -, heq, -⟩ := @keeps_recorded g event
  rw [heq, Group.changed, length_map]

theorem getGroupMember_recorded_of_ne (h : g.tidied = g) (hne : q ≠ actorOf event) :
    getGroupMember (recorded g event) q = getGroupMember g q := by
  obtain ⟨f, hf, heq, -⟩ := @keeps_recorded g event
  have htidied : (g.changed (actorOf event) f (event.get "timestamp")).tidied =
    g.changed (actorOf event) f (event.get "timestamp") := tidied_changed h hf
  rw [heq, ← htidied]
  exact getGroupMember_changed_of_ne hf h hne

theorem isActiveGroupMember_recorded (h : g.tidied = g) (hactive : isActiveGroupMember g q)
    (hleave : q = actorOf event → event.get "action" = .str "accept") :
    isActiveGroupMember (recorded g event) q := by
  by_cases hq : q = actorOf event
  · subst hq
    obtain ⟨f, hf, heq, hstate⟩ := @keeps_recorded g event
    have htidied : (g.changed (actorOf event) f (event.get "timestamp")).tidied =
      g.changed (actorOf event) f (event.get "timestamp") := tidied_changed h hf
    rw [isActiveGroupMember, Option.any_eq_true] at hactive
    obtain ⟨m, hm, -⟩ := hactive
    have hchanged : stateOf (g.changed (actorOf event) f (event.get "timestamp")).tidied
      (actorOf event) = some (f m).state := stateOf_changed hf hm
    rw [htidied, ← heq, hstate, if_pos (hleave rfl), stateOf] at hchanged
    obtain ⟨m', hm', hactive⟩ := map_eq_some_iff.mp hchanged
    rw [isActiveGroupMember, hm', any_some, hactive]
    rfl
  · rw [isActiveGroupMember, getGroupMember_recorded_of_ne h hq]
    exact hactive

theorem mem_rememberGroupEventId {eventIds : List Json} {x : Json}
    (h : x ∈ (rememberGroupEventId eventIds eventId).eventIds) : x ∈ eventIds ∨ x = eventId := by
  rw [rememberGroupEventId] at h
  split at h
  · exact .inl (mem_of_mem_filter h)
  generalize groupEventHistoryLimit = limit at h
  obtain hx | hx := mem_append.mp (mem_of_mem_drop h)
  · exact .inl (mem_of_mem_filter hx)
  · exact .inr (mem_singleton.mp hx)

theorem answered_handleGroupEvent {fromId : String}
    (hgrows : Grows Q ids n d (d.handleGroupEvent now newId event fromId))
    (hreceipts : ∀ packet, Q packet → packet.get "kind" = .str groupReceiptKind →
      packet.get "refEventId" = event.get "eventId")
    (h : Answered (d.handleGroupEvent now newId event fromId) id) :
    Answered d id ∨ event.get "eventId" = .str id ∧
      ∃ g, d.Stores now event g (d.handleGroupEvent now newId event fromId) := by
  have hsent : ∀ x ∈ (d.handleGroupEvent now newId event fromId).sent,
      x.2.get "kind" = .str groupReceiptKind → x.2.get "refEventId" = .str id →
        Answered d id ∨ event.get "eventId" = .str id := by
    intro x hx hkind href
    obtain hx | hq := hgrows.sent x hx
    · exact .inl (.inr ⟨x, hx, hkind, href⟩)
    · exact .inr ((hreceipts x.2 hq hkind).symm.trans href)
  obtain hsame | ⟨hknown, hagain⟩ | ⟨g, -, -, -, hstores⟩ := @handleGroupEvent_split d now newId fromId event
  · exact .inl (hsame ▸ h)
  · obtain hid | ⟨x, hx, hkind, href⟩ := h
    · rw [hagain] at hid
      exact .inl (.inl hid)
    · obtain hold | hid := hsent x hx hkind href
      · exact .inl hold
      · exact .inl (.inl (hid ▸ hknown))
  · obtain hid | ⟨x, hx, hkind, href⟩ := h
    · have heventIds : ((d.rememberIncomingGroupEvent (event.get "eventId")).replaceGroup now
          g).eventIds = (rememberGroupEventId d.eventIds (event.get "eventId")).eventIds := by
        rw [replaceGroup]
        split <;> rfl
      rw [hstores.same.eventIds, heventIds] at hid
      obtain hid | hid := mem_rememberGroupEventId hid
      · exact .inl (.inl hid)
      · exact .inr ⟨hid.symm, g, hstores⟩
    · exact (hsent x hx hkind href).imp_right fun hid => ⟨hid, g, hstores⟩

theorem actorOf_eq (h : event.get "actorId" = .str p) : actorOf event = p := by
  rw [actorOf, h]
  rfl

theorem snapshotRevision_eq {w : Group} (h : w.Stored) (hgroup : event.get "group" = w.json) :
    snapshotRevision event = w.revision := by
  have hread : snapshotRevision event = max 1 w.revision := by
    rw [snapshotRevision, hgroup]
    rfl
  rw [hread, max_eq_right h.revision]

/-- A snapshot replaces the group of a device if it is newer. -/
theorem snapshot_applied {w : Group} (hw : Proper gid w) (hcarries : Carries event p id w) (hpq : p ≠ q) (hd : d.Stored)
    (hown : d.ownPeerId = q) (htidied : ∀ g, d.group? (.str gid) = some g → g.tidied = g)
    (h : applyGroupEvent now (d.group? (event.get "groupId")) event d.ownPeerId =
      .ok (.applied g₁ duplicate shouldAccept shouldBroadcast)) :
    shouldBroadcast = false ∧
      ((g₁ = w ∧ ∀ g, d.group? (.str gid) = some g → g.revision < w.revision) ∨
        d.group? (.str gid) = some g₁ ∧ w.revision ≤ g₁.revision) := by
  have hread : ∀ g', normalizeGroup now (event.get "group") = .ok g' → g' = w := by
    intro g' hread
    rw [hcarries.group, normalizeGroup_json hw.stored, hw.tidied] at hread
    exact (Except.ok.inj hread).symm
  have hother : event.get "action" ≠ .str "accept" ∧ event.get "action" ≠ .str "leave" := by
    obtain haction | haction := hcarries.action <;> rw [haction] <;> decide
  rw [hcarries.groupId, hw.id, hown] at h
  cases hcurrent : d.group? (.str gid) with
  | none =>
    rw [hcurrent] at h
    obtain ⟨hinvited, hquiet⟩ := applied_of_new h
    refine ⟨hquiet, .inl ⟨hread g₁ hinvited.read, fun g hg => ?_⟩⟩
    cases hg
  | some g =>
    rw [hcurrent] at h
    have hid : event.get "groupId" = .str g.id :=
      (hcarries.groupId.trans (congrArg Json.str hw.id)).trans (group?_id hcurrent)
    have hhandled := handled (hd.group hcurrent) hid h
    cases hhandled with
    | known stale =>
      rw [htidied g hcurrent]
      obtain hself | haccept | hstale := stale
      · rw [hcarries.actorId] at hself
        exact absurd (Json.str.inj hself) hpq
      · exact absurd haccept hother.1
      · rw [snapshotRevision_eq hw.stored hcarries.group] at hstale
        exact ⟨rfl, .inr ⟨rfl, hstale⟩⟩
    | own actor =>
      rw [hcarries.actorId] at actor
      exact absurd (Json.str.inj actor) hpq
    | invite action read admin id newer | update action read admin id createdBy newer =>
      obtain rfl := hread _ read
      refine ⟨rfl, .inl ⟨rfl, fun g' hg' => ?_⟩⟩
      obtain rfl := some.inj hg'
      exact newer
    | accept action => exact absurd action hother.1
    | leave action => exact absurd action hother.2

theorem own_applied (hown : isOwnEvent event) (hgroupId : event.get "groupId" = .str gid)
    (hactor : event.get "actorId" = .str p) (hpq : p ≠ q) (hd : d.Stored) (howner : d.ownPeerId = q)
    (htidied : ∀ g, d.group? (.str gid) = some g → g.tidied = g)
    (h : applyGroupEvent now (d.group? (event.get "groupId")) event d.ownPeerId =
      .ok (.applied g₁ duplicate shouldAccept shouldBroadcast)) :
    shouldAccept = false ∧ ∃ g, d.group? (.str gid) = some g ∧
      (g₁ = g ∧ shouldBroadcast = false ∨
        g₁ = recorded g event ∧ shouldBroadcast = true ∧ Records g q event) := by
  have hother : event.get "action" ≠ .str "invite" ∧ event.get "action" ≠ .str "update" := by
    obtain haction | haction := (Bool.or_eq_true _ _).mp hown <;>
      rw [of_decide_eq_true haction] <;> decide
  rw [hgroupId, howner] at h
  cases hcurrent : d.group? (.str gid) with
  | none =>
    rw [hcurrent] at h
    exact absurd (invited_of_new h).action hother.1
  | some g =>
    rw [hcurrent] at h
    have hsame := htidied g hcurrent
    have hhandled := handled (hd.group hcurrent) (hgroupId.trans (group?_id hcurrent)) h
    cases hhandled with
    | known => exact ⟨rfl, g, rfl, .inl ⟨hsame, rfl⟩⟩
    | own actor =>
      rw [hactor] at actor
      exact absurd (Json.str.inj actor) hpq
    | invite action => exact absurd action hother.1
    | update action => exact absurd action hother.2
    | accept action actor admin member invited =>
      refine ⟨rfl, g, rfl, .inr ⟨?_, rfl, admin, .inl ⟨action, ?_⟩⟩⟩
      · rw [hsame, recorded, if_pos action]
      · rw [stateOf, member, map_some, invited]
    | leave action actor admin member active =>
      have hleave : event.get "action" ≠ .str "accept" := by
        rw [action]
        decide
      refine ⟨rfl, g, rfl, .inr ⟨?_, rfl, admin, .inr ⟨action, ?_⟩⟩⟩
      · rw [hsame, recorded, if_neg hleave]
      · rw [stateOf, member, map_some, active]

theorem Inv.receipt {receipt : Json} (h : s.Inv gid)
    (hfresh : ∀ id ∈ ids, id ∉ s.used ∧ id.length = eventIdLength)
    (hsent : (q, receipt) ∈ (s.devices p).sent)
    (hkind : receipt.get "kind" = .str groupReceiptKind) (hroom : HasRoom (s.devices q) 1) :
    (s.record q ((s.devices q).handleEventReceipt receipt p) ids none).Inv gid := by
  have hsame : SameGroups (s.devices q) ((s.devices q).handleEventReceipt receipt p) :=
    sameGroups_handleEventReceipt
  have hcopy : ((s.devices q).handleEventReceipt receipt p).group? (.str gid) = s.copy gid q :=
    hsame.group?
  refine Inv.record hfresh h (hsame.ownPeerId.trans (h.ownPeerId q)) (hsame.stored (h.stored q)) ?_
    ?_ ?_ ?_ ?_ ?_ (.inl rfl)
  · rw [hcopy]
    exact .refl _
  · intro g hg
    rw [hcopy] at hg
    obtain ⟨htidied, hmem | hinactive⟩ := h.copies q g hg
    · exact ⟨htidied, .inl (mem_versions_record hmem)⟩
    · exact ⟨htidied, .inr hinactive⟩
  · intro x hx
    rw [sent_handleEventReceipt] at hx
    exact .inl hx
  · exact fun e he => .inl (mem_handleEventReceipt he)
  · intro e he
    rw [HasRoom] at hroom
    obtain hkept | ⟨hpeer, hfor⟩ : e ∈ ((s.devices q).handleEventReceipt receipt p).outbox ∨
      e.peerId = p ∧ .str e.packetId = receipt.get "refEventId" :=
        kept_handleEventReceipt (by omega) he
    · exact .inl hkept
    · rw [hpeer]
      exact .inr (.inr ⟨_, hsent, hkind, hfor.symm⟩)
  · intro id hid
    left
    obtain hid | ⟨x, hx, hkind, href⟩ := hid
    · rw [hsame.eventIds] at hid
      exact .inl hid
    · rw [sent_handleEventReceipt] at hx
      exact .inr ⟨x, hx, hkind, href⟩

theorem own_accept {accept : Json}
    (h : createGroupAcceptEvent g p newId now = .ok accept) :
    accept.get "kind" = .str groupEventKind ∧ accept.get "groupId" = .str g.id ∧
      accept.get "eventId" = .str newId ∧ isOwnEvent accept := by
  rw [createGroupAcceptEvent] at h
  split at h
  · split at h
    · obtain rfl := Except.ok.inj h
      exact ⟨rfl, rfl, rfl, rfl⟩
    · cases h
  · cases h

theorem group?_stored (hg : g.Stored) (htidied : g.tidied = g) (hid : g.id = gid)
    (hsame : SameGroups ((d.rememberIncomingGroupEvent eventId).replaceGroup now g) d') :
    d'.group? (.str gid) = some g := by
  have hread : normalizeGroup now g.json = .ok g :=
    (normalizeGroup_json hg now).trans (congrArg Except.ok htidied)
  rw [hsame.group?, find?_replaceGroup hread, if_pos hid]

theorem Inv.snapshot {w : Group} (h : s.Inv gid)
    (hfresh : ∀ id ∈ [newId], id ∉ s.used ∧ id.length = eventIdLength) (hpq : p ≠ q)
    (hmem : w ∈ s.versions) (hcarries : Carries packet p id w) (hcarried : s.carried id = some w)
    (hused : id ∈ s.used) (hroom : HasRoom (s.devices q) 1) :
    (s.record q ((s.devices q).handleGroupEvent now newId packet p) [newId] none).Inv gid := by
  have hw : Proper gid w := h.version w hmem
  have htidied : ∀ g, (s.devices q).group? (.str gid) = some g → g.tidied = g :=
    fun g hg => (h.copies q g hg).1
  have happlied : ∀ {g₁ : Group} {duplicate shouldAccept shouldBroadcast : Bool},
      applyGroupEvent now ((s.devices q).group? (packet.get "groupId")) packet
        (s.devices q).ownPeerId = .ok (.applied g₁ duplicate shouldAccept shouldBroadcast) →
      shouldBroadcast = false ∧
        ((g₁ = w ∧ ∀ g, (s.devices q).group? (.str gid) = some g → g.revision < w.revision) ∨
          (s.devices q).group? (.str gid) = some g₁ ∧ w.revision ≤ g₁.revision) :=
    fun happlied => snapshot_applied hw hcarries hpq (h.stored q) (h.ownPeerId q) htidied happlied
  have hstored : ∀ {g₁ : Group} {duplicate shouldAccept shouldBroadcast : Bool},
      applyGroupEvent now ((s.devices q).group? (packet.get "groupId")) packet
        (s.devices q).ownPeerId = .ok (.applied g₁ duplicate shouldAccept shouldBroadcast) →
      SameGroups (((s.devices q).rememberIncomingGroupEvent (packet.get "eventId")).replaceGroup
        now g₁) ((s.devices q).handleGroupEvent now newId packet p) →
      ((s.devices q).handleGroupEvent now newId packet p).group? (.str gid) = some g₁ := by
    intro g₁ duplicate shouldAccept shouldBroadcast happ hsame
    obtain ⟨-, ⟨rfl, -⟩ | ⟨hcurrent, -⟩⟩ := happlied happ
    · exact group?_stored hw.stored hw.tidied hw.id hsame
    · exact group?_stored ((h.stored q).group hcurrent) (htidied g₁ hcurrent)
        (Json.str.inj (group?_id hcurrent)).symm hsame
  have hgroup : ((s.devices q).handleGroupEvent now newId packet p).group? (.str gid) =
        s.copy gid q ∨
      ((s.devices q).handleGroupEvent now newId packet p).group? (.str gid) = some w ∧
        ∀ g, s.copy gid q = some g → g.revision < w.revision := by
    obtain hsame | ⟨-, hagain⟩ | ⟨g₁, -, -, -, ⟨_, _, _, happ⟩, hsame⟩ := @handleGroupEvent_split (s.devices q) now newId p packet
    · rw [hsame]
      exact .inl rfl
    · rw [hagain]
      exact .inl rfl
    rw [hstored happ hsame]
    obtain ⟨-, ⟨rfl, hnewer⟩ | ⟨hcurrent, -⟩⟩ := happlied happ
    · exact .inr ⟨rfl, hnewer⟩
    · exact .inl hcurrent.symm
  have hadvances : Advances (s.copy gid q)
      (((s.devices q).handleGroupEvent now newId packet p).group? (.str gid)) := by
    obtain hsame | ⟨hnew, hnewer⟩ := hgroup
    · rw [hsame]
      exact .refl _
    · rw [hnew]
      exact fun g hg => ⟨w, rfl, .inr (hnewer g hg)⟩
  obtain ⟨n, hgrows⟩ : ∃ n, Grows (fun x => (s.record q
      ((s.devices q).handleGroupEvent now newId packet p) [newId] none).Packet gid q x ∧
        (x.get "kind" = .str groupReceiptKind → x.get "refEventId" = packet.get "eventId"))
      [newId] n (s.devices q) ((s.devices q).handleGroupEvent now newId packet p) := by
    refine grows_handleGroupEvent hroom ?_ ⟨.receipt rfl, fun _ => rfl⟩ ?_ ?_
    · intro g duplicate shouldAccept happ
      exact absurd (happlied happ).1 Bool.noConfusion
    · intro g duplicate shouldBroadcast accept happ haccept
      obtain ⟨hkind, hgroupId, heventId, hown⟩ := own_accept haccept
      have hid : g.id = gid := by
        obtain ⟨-, ⟨rfl, -⟩ | ⟨hcurrent, -⟩⟩ := happlied happ
        · exact hw.id
        · exact (Json.str.inj (group?_id hcurrent)).symm
      refine ⟨.own newId hkind (hgroupId.trans (congrArg Json.str hid)) heventId hown
        (if_pos (mem_singleton_self _)) (mem_append_left _ (mem_singleton_self _)), ?_⟩
      intro hreceipt
      rw [hkind] at hreceipt
      exact absurd (Json.str.inj hreceipt) (by decide)
    · intro before g duplicate shouldAccept reason update hbefore happ
      rw [← hbefore] at happ
      exact absurd (happlied happ).1 Bool.noConfusion
  refine h.sends hfresh (ownPeerId_handleGroupEvent.trans (h.ownPeerId q)) (h.stored q).handleGroupEvent
    hadvances ?_ (hgrows.mono fun _ hx => hx.1) ?_ (.inl rfl)
  · intro g hg
    obtain hsame | ⟨hnew, -⟩ := hgroup
    · rw [hsame] at hg
      obtain ⟨htidied, hversion | hinactive⟩ := h.copies q g hg
      · exact ⟨htidied, .inl (mem_versions_record hversion)⟩
      · exact ⟨htidied, .inr hinactive⟩
    · obtain rfl := some.inj (hnew.symm.trans hg)
      exact ⟨hw.tidied, .inl (mem_versions_record hmem)⟩
  · intro id' hid'
    obtain hold | ⟨heventId, g₁, ⟨_, _, _, happ⟩, hsame⟩ :=
      answered_handleGroupEvent hgrows (fun _ hx => hx.2) hid'
    · exact .inl hold
    obtain rfl : id = id' := Json.str.inj (hcarries.eventId.symm.trans heventId)
    refine .inr ⟨hused, fun v hv => ⟨g₁, hstored happ hsame, ?_⟩⟩
    obtain rfl := some.inj (hcarried.symm.trans hv)
    obtain ⟨-, ⟨rfl, -⟩ | ⟨-, hstale⟩⟩ := happlied happ
    · exact le_refl _
    · exact hstale

theorem grows_own {v : Option Version} (hroom : HasRoom (s.devices q) 1)
    (happ : applyGroupEvent now ((s.devices q).group? (packet.get "groupId")) packet
      (s.devices q).ownPeerId = .ok (.applied g₁ duplicate false shouldBroadcast))
    (hroute : shouldBroadcast = true → (s.devices q).outbox.length + (g₁.members.length + 1) ≤ 1000)
    (hupdate : ∀ before reason update, (s.devices q).group? (packet.get "groupId") = some before →
      createGroupUpdateEvent before g₁ (s.devices q).ownPeerId reason newId now = .ok update →
        shouldBroadcast = true → (s.record q d' [newId] v).Packet gid q update ∧
          update.get "kind" = .str groupEventKind) :
    ∃ n, Grows (fun x => (s.record q d' [newId] v).Packet gid q x ∧
        (x.get "kind" = .str groupReceiptKind → x.get "refEventId" = packet.get "eventId"))
      [newId] n (s.devices q) ((s.devices q).handleGroupEvent now newId packet p) := by
  have hsame : ∀ {g : Group} {duplicate' shouldAccept shouldBroadcast' : Bool},
      applyGroupEvent now ((s.devices q).group? (packet.get "groupId")) packet
        (s.devices q).ownPeerId = .ok (.applied g duplicate' shouldAccept shouldBroadcast') →
      g₁ = g ∧ shouldAccept = false ∧ shouldBroadcast = shouldBroadcast' := by
    intro g duplicate' shouldAccept shouldBroadcast' happ'
    obtain ⟨hg, -, haccept, hbroadcast⟩ :=
      Applied.applied.inj (Except.ok.inj (happ.symm.trans happ'))
    exact ⟨hg, haccept.symm, hbroadcast⟩
  refine grows_handleGroupEvent hroom ?_ ⟨.receipt rfl, fun _ => rfl⟩ ?_ ?_
  · intro g duplicate' shouldAccept happ'
    obtain ⟨rfl, -, hbroadcast⟩ := hsame happ'
    exact hroute hbroadcast
  · intro g duplicate' shouldBroadcast' accept happ' haccept
    exact absurd (hsame happ').2.1 Bool.noConfusion
  intro before g duplicate' shouldAccept reason update hbefore happ' hupdated
  rw [← hbefore] at happ'
  obtain ⟨rfl, -, hbroadcast⟩ := hsame happ'
  obtain ⟨hpacket, hkind⟩ := hupdate before reason update hbefore hupdated hbroadcast
  refine ⟨hpacket, fun hreceipt => ?_⟩
  rw [hkind] at hreceipt
  exact absurd (Json.str.inj hreceipt) (by decide)

theorem Inv.own (h : s.Inv gid)
    (hfresh : ∀ id ∈ [newId], id ∉ s.used ∧ id.length = eventIdLength) (hpq : p ≠ q)
    (hgroupId : packet.get "groupId" = .str gid) (heventId : packet.get "eventId" = .str id)
    (hown : isOwnEvent packet) (hcarried : s.carried id = none) (hused : id ∈ s.used)
    (hroom : HasRoom (s.devices q) 1)
    (hrecords : ∀ g, s.copy gid q = some g → Records g q packet →
      HasRoom (s.devices q) (g.members.length + 1) ∧ g.revision < addOne g.revision ∧
        (s.Newest gid q ∨ ∃ w u rest, s.history = w :: u :: rest ∧ u.group = g ∧
          w.cause = some packet) ∧
        (packet.get "action" = .str "leave" → s.Past gid g p)) :
    (s.record q ((s.devices q).handleGroupEvent now newId packet p) [newId]
      (made gid (s.devices q) ((s.devices q).handleGroupEvent now newId packet p)
        (some packet))).Inv gid := by
  have hanswered : ∀ {Q : Json → Prop} {n : Nat}, Grows Q [newId] n (s.devices q)
        ((s.devices q).handleGroupEvent now newId packet p) →
      (∀ x, Q x → x.get "kind" = .str groupReceiptKind →
        x.get "refEventId" = packet.get "eventId") →
      ∀ id', Answered ((s.devices q).handleGroupEvent now newId packet p) id' →
        Answered (s.devices q) id' ∨ id' ∈ s.used ∧ ∀ w, s.carried id' = some w →
          ∃ g, ((s.devices q).handleGroupEvent now newId packet p).group? (.str gid) = some g ∧
            w.revision ≤ g.revision := by
    intro Q n hgrows hreceipts id' hid'
    obtain hold | ⟨hid, -⟩ := answered_handleGroupEvent hgrows hreceipts hid'
    · exact .inl hold
    obtain rfl : id = id' := Json.str.inj (heventId.symm.trans hid)
    refine .inr ⟨hused, fun w hw => ?_⟩
    rw [hcarried] at hw
    cases hw
  have hsilent : ∀ {n : Nat}, Grows (fun x => (s.record q
        ((s.devices q).handleGroupEvent now newId packet p) [newId] none).Packet gid q x ∧
          (x.get "kind" = .str groupReceiptKind → x.get "refEventId" = packet.get "eventId"))
        [newId] n (s.devices q) ((s.devices q).handleGroupEvent now newId packet p) →
      ((s.devices q).handleGroupEvent now newId packet p).group? (.str gid) = s.copy gid q →
      (s.record q ((s.devices q).handleGroupEvent now newId packet p) [newId]
        (made gid (s.devices q) ((s.devices q).handleGroupEvent now newId packet p)
          (some packet))).Inv gid := by
    intro n hgrows hsame
    rw [made_of_eq hsame]
    refine h.sends hfresh (ownPeerId_handleGroupEvent.trans (h.ownPeerId q))
      (h.stored q).handleGroupEvent ?_ ?_ (hgrows.mono fun _ hx => hx.1)
      (hanswered hgrows fun _ hx => hx.2) (.inl rfl)
    · rw [hsame]
      exact .refl _
    intro g hg
    rw [hsame] at hg
    obtain ⟨htidied, hversion | hinactive⟩ := h.copies q g hg
    · exact ⟨htidied, .inl (mem_versions_record hversion)⟩
    · exact ⟨htidied, .inr hinactive⟩
  have hfinal := @handleGroupEvent_split (s.devices q) now newId p packet
  obtain hsame | ⟨-, hagain⟩ | ⟨g₁, hfrom, hactor, hnew,
    ⟨duplicate, shouldAccept, shouldBroadcast, happ⟩, hsame⟩ := hfinal
  · rw [hsame, made_of_eq rfl]
    exact h.record_self hfresh
  · refine hsilent (n := 0) ?_ ?_
    · rw [hagain]
      exact (Grows.transmit ⟨.receipt rfl, fun _ => rfl⟩).weaken (nil_subset _) (le_refl _)
    · rw [hagain]
      rfl
  · have htidied : ∀ g, (s.devices q).group? (.str gid) = some g → g.tidied = g :=
      fun g hg => (h.copies q g hg).1
    obtain ⟨rfl, g, hcurrent, ⟨rfl, rfl⟩ | ⟨rfl, rfl, hrecord⟩⟩ :=
      own_applied hown hgroupId hactor hpq (h.stored q) (h.ownPeerId q) htidied happ
    · -- it has been recorded before
      obtain ⟨n, hgrows⟩ : ∃ n, Grows (fun x => (s.record q
          ((s.devices q).handleGroupEvent now newId packet p) [newId] none).Packet gid q x ∧
            (x.get "kind" = .str groupReceiptKind → x.get "refEventId" = packet.get "eventId"))
          [newId] n (s.devices q) ((s.devices q).handleGroupEvent now newId packet p) := by
        refine grows_own hroom happ ?_ ?_
        · intro hbroadcast
          cases hbroadcast
        · intro before reason update _ _ hbroadcast
          cases hbroadcast
      refine hsilent hgrows ?_
      rw [group?_stored ((h.stored q).group hcurrent) (htidied g₁ hcurrent)
        (Json.str.inj (group?_id hcurrent)).symm hsame]
      exact hcurrent.symm
    · have hcopy : s.copy gid q = some g := hcurrent
      obtain ⟨hroute, hrevision, hmade, hleaver⟩ := hrecords g hcopy hrecord
      have hcurrentProper : Proper gid g := by
        obtain ⟨-, hmem | hinactive⟩ := h.copies q g hcopy
        · exact h.version g hmem
        · exact absurd (active_of_admin hrecord.1) hinactive
      obtain ⟨hproper, hread⟩ := hcurrentProper.recorded packet now
      have hw : ((s.devices q).handleGroupEvent now newId packet p).group? (.str gid) =
        some (recorded g packet) := group?_stored hproper.stored hproper.tidied hproper.id hsame
      have hnewer : g.revision < (recorded g packet).revision := by
        rw [revision_recorded]
        exact hrevision
      have hne : (s.devices q).group? (.str gid) ≠ some (recorded g packet) := by
        intro heq
        have hsame : g = recorded g packet := some.inj (hcurrent.symm.trans heq)
        rw [← hsame] at hnewer
        omega
      have hroute' : (s.devices q).outbox.length + ((recorded g packet).members.length + 1) ≤ 1000 := by
        rw [length_recorded]
        exact hroute
      have hcurrent' : (s.devices q).group? (packet.get "groupId") = some g := by
        rw [hgroupId]
        exact hcurrent
      rw [made_of_ne hw hne]
      obtain ⟨n, hgrows⟩ : ∃ n, Grows (fun x => (s.record q
          ((s.devices q).handleGroupEvent now newId packet p) [newId]
            (some ⟨recorded g packet, some packet⟩)).Packet gid q x ∧
            (x.get "kind" = .str groupReceiptKind → x.get "refEventId" = packet.get "eventId"))
          [newId] n (s.devices q) ((s.devices q).handleGroupEvent now newId packet p) := by
        refine grows_own hroom happ (fun _ => hroute') ?_
        intro before reason update hbefore hupdate _
        obtain ⟨w, hread', hcarries, -⟩ := carries_update hupdate
        obtain rfl := Except.ok.inj (hread.symm.trans hread')
        rw [h.ownPeerId q] at hcarries
        exact ⟨.published (mem_singleton_self _) hcarries, hcarries.kind⟩
      obtain hnewest | ⟨w, u, rest, hhistory, rfl, hcause⟩ := hmade
      · -- a version that is new
        refine h.publish hfresh hcopy hnewest hrecord.1
          (ownPeerId_handleGroupEvent.trans (h.ownPeerId q)) (h.stored q).handleGroupEvent hw hproper
          hnewer createdBy_recorded ?_ (hgrows.mono fun _ hx => hx.1)
          (hanswered hgrows fun _ hx => hx.2) ?_
        · intro event hevent
          rw [some.inj hevent]
        intro q' hq' hactive
        have hactor' : actorOf packet = p := actorOf_eq hactor
        by_cases hleave : q' = p ∧ packet.get "action" = .str "leave"
        · rw [hleave.1]
          exact .inr (hleaver hleave.2)
        left
        rw [hcurrent'] at happ
        have hadmin : isGroupAdmin (recorded g packet) q := by
          rw [isGroupAdmin, getGroupMember_recorded_of_ne hcurrentProper.tidied
            (hactor'.symm ▸ Ne.symm hpq)]
          exact hrecord.1
        have hbefore : isGroupAdmin g (s.devices q).ownPeerId := by
          rw [h.ownPeerId q]
          exact hrecord.1
        have hafter : isGroupAdmin (recorded g packet) (s.devices q).ownPeerId := by
          rw [h.ownPeerId q]
          exact hadmin
        have hid : (recorded g packet).id = g.id := hproper.id.trans hcurrentProper.id.symm
        obtain ⟨update, hcarries, haction, hqueued⟩ := published hfrom hactor hnew hcurrent' happ
          hread hbefore hafter hid hnewer (by omega)
        rw [h.ownPeerId q] at hcarries hqueued
        have hupdate : Update update q newId (recorded g packet) [newId] :=
          ⟨hcarries, haction, mem_singleton_self _⟩
        refine hupdate.queued (hqueued q' hq' ?_)
        refine isActiveGroupMember_recorded hcurrentProper.tidied hactive fun hactor => ?_
        rw [hactor'] at hactor
        obtain haccept | hdeparts := (Bool.or_eq_true _ _).mp hown
        · exact of_decide_eq_true haccept
        · exact absurd ⟨hactor, of_decide_eq_true hdeparts⟩ hleave
      · -- the version another admin has made of the event
        have hlink : s.Link gid w u := h.links w u (by rw [hhistory]; exact mem_cons_self)
        have hagain : w.group = recorded u.group packet := hlink.cause packet hcause
        refine h.sends hfresh (ownPeerId_handleGroupEvent.trans (h.ownPeerId q))
          (h.stored q).handleGroupEvent ?_ ?_ (hgrows.mono fun _ hx => hx.1)
          (hanswered hgrows fun _ hx => hx.2) (.inl ?_)
        · intro x hx
          obtain rfl := some.inj (hcopy.symm.trans hx)
          exact ⟨_, hw, .inr hnewer⟩
        · intro x hx
          obtain rfl := some.inj (hw.symm.trans hx)
          exact ⟨hproper.tidied, .inl mem_versions_pushed⟩
        · rw [System.record]
          refine if_pos ?_
          rw [hhistory, head?_cons, map_some, hagain]

end

end System
end Bluetalk.Groups

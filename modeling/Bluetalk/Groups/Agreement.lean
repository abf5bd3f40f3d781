import Bluetalk.Groups.Arrivals
import Bluetalk.Groups.Authorization

/-!
# The members agree

What every action keeps (`Inv.step`), and what is left when nothing that is queued makes a difference:
a copy that is not the newest would still take the update that is queued for it.
-/

open List Option

namespace Bluetalk.Groups
namespace System

open Device

variable {gid : String} {s : System} {p : String} {d : Device} {id : String}

/-! ### Runs -/

section

variable {s' : System} {now : Int} {newId : String} {i : Nat} {a : Act} {g : Group} {q : String}

theorem Inv.deliver (h : s.Inv gid) (hok : Serial gid s (.deliver p i now newId))
    (hstep : step gid s (.deliver p i now newId) = some s') : s'.Inv gid := by
  rw [step] at hstep
  split at hstep
  · cases hstep
  next q packet hsent =>
  split at hstep
  · next hids =>
    obtain ⟨hid, hpq⟩ := hids
    obtain rfl := some.inj hstep
    have hfresh : ∀ id ∈ [newId], id ∉ s.used ∧ id.length = eventIdLength := by
      rw [forall_mem_singleton]
      exact fresh_iff.mp hid
    obtain ⟨hroom, hrecords⟩ := hok q packet hsent
    have hmem : (q, packet) ∈ (s.devices p).sent := mem_of_getElem? hsent
    have hpacket : s.Packet gid p packet := h.sent p _ hmem
    cases hpacket with
    | snapshot id w mem carries carried used =>
      have hother : ¬ isOwnEvent packet := by
        rw [isOwnEvent]
        obtain haction | haction := carries.action <;> rw [haction] <;> decide
      rw [if_neg hother, handleControl, if_pos carries.kind]
      exact h.snapshot hfresh (Ne.symm hpq) mem carries carried used hroom
    | own id kind groupId eventId own carried used =>
      rw [if_pos own, handleControl, if_pos kind]
      exact h.own hfresh (Ne.symm hpq) groupId eventId own carried used hroom
        fun g hg hrecord => hrecords g hg own hrecord
    | receipt kind =>
      have hevent : ¬ packet.get "kind" = .str groupEventKind := by
        rw [kind]
        decide
      rw [handleControl, if_neg hevent, if_pos kind]
      have hsame : SameGroups (s.devices q) ((s.devices q).handleEventReceipt packet p) :=
        sameGroups_handleEventReceipt
      rw [made_of_eq hsame.group?, ite_self]
      exact h.receipt hfresh hmem kind hroom
  · cases hstep

theorem Inv.step (hok : Serial gid s a) (h : s.Inv gid)
    (hstep : System.step gid s a = some s') : s'.Inv gid := by
  cases a with
  | create => exact h.create hok hstep
  | update => exact h.update hok hstep
  | leave => exact h.leave hok hstep
  | deliver => exact h.deliver hok hstep

/-! ### Nothing makes a difference -/

theorem head_or_link {history : List Version} (h : g ∈ history.map Version.group) :
    history.head?.map Version.group = some g ∨
      ∃ w u, (w, u) ∈ history.zip history.tail ∧ u.group = g := by
  induction history with
  | nil => cases h
  | cons w history ih =>
    obtain rfl | h := mem_cons.mp h
    · exact .inl rfl
    right
    cases history with
    | nil => cases h
    | cons u rest =>
      obtain hhead | ⟨w', u', hmem, hu⟩ := ih h
      · exact ⟨w, u, mem_cons_self, some.inj hhead⟩
      · exact ⟨w', u', mem_cons_of_mem _ hmem, hu⟩

theorem takes_update {w u : Group} {update : Json} {a : String} (hu : Proper gid u) (hw : Proper gid w) (hcurrent : d.group? (.str gid) = some u)
    (hcarries : Carries update a id w) (haction : update.get "action" = .str "update")
    (hlength : id.length = eventIdLength) (hadmin : isGroupAdmin u a)
    (hcreatedBy : w.createdBy = u.createdBy) (hrevision : u.revision < w.revision)
    (hnew : .str id ∉ d.eventIds) :
    (d.handleControl now newId update a).group? (.str gid) = some w := by
  have ha : a ≠ "" := by
    rw [isGroupAdmin, Option.any_eq_true] at hadmin
    obtain ⟨m, hm, -⟩ := hadmin
    rw [← peerId_of_getGroupMember hm]
    exact (hu.stored.members m (mem_of_getGroupMember hm)).identified
  have hid : id ≠ "" := by
    rintro rfl
    exact absurd hlength (by decide)
  have hread : normalizeGroup now (update.get "group") = .ok w := by
    rw [hcarries.group, normalizeGroup_json hw.stored, hw.tidied]
  have hevent : isGroupEvent update := by
    rw [isGroupEvent, hcarries.kind, hcarries.protocolVersion, hcarries.groupId, hcarries.eventId,
      hcarries.actorId]
    simp [Json.stringOrEmpty, Json.truthy, hw.stored.id, ha, hid]
  have hupdate : applyUpdate now u.tidied update d.ownPeerId = .ok (.changed w) := by
    have hlegacy : ¬ (isLegacy update ∧ (update.get "patch").truthy) := by
      rw [isLegacy, hcarries.legacy]
      exact fun hlegacy => Bool.false_ne_true hlegacy.1
    have hactor : (update.get "actorId").stringOrEmpty = a := actorOf_eq hcarries.actorId
    have hsame : ¬ (w.id ≠ u.tidied.id ∨ w.createdBy ≠ u.tidied.createdBy) := by
      rw [hu.tidied, not_or, not_not, not_not]
      exact ⟨hw.id.trans hu.id.symm, hcreatedBy⟩
    have hnewer : ¬ w.revision ≤ u.tidied.revision := by
      rw [hu.tidied]
      omega
    rw [applyUpdate, if_neg hlegacy, hactor, isGroupAdmin_tidied, if_neg (not_not.mpr hadmin), hread]
    dsimp only
    rw [if_neg hsame, if_neg hnewer]
  have happlied : applyGroupEvent now (some u) update d.ownPeerId =
      .ok (.applied w false false false) := by
    have hinvite : ¬ update.get "action" = .str "invite" := by rw [haction]; decide
    have haccept : ¬ update.get "action" = .str "accept" := by rw [haction]; decide
    have hgroupId : Json.str u.id = update.get "groupId" := by
      rw [hcarries.groupId, hw.id, hu.id]
    rw [applyGroupEvent, if_neg (not_not.mpr hevent), if_neg hinvite,
      if_neg (not_not.mpr hgroupId), normalizeGroup_json hu.stored, ok_bind, if_neg haccept,
      if_pos haction]
    exact hupdate
  have hsender : ¬ (a = "" ∨ update.get "actorId" ≠ .str a) :=
    not_or.mpr ⟨ha, not_not.mpr hcarries.actorId⟩
  have hgroup : d.group? (update.get "groupId") = some u := by
    rw [hcarries.groupId, hw.id]
    exact hcurrent
  have hstored : normalizeGroup now w.json = .ok w :=
    (normalizeGroup_json hw.stored now).trans (congrArg Except.ok hw.tidied)
  rw [handleControl, if_pos hcarries.kind, handleGroupEvent, if_neg hsender,
    if_neg (hcarries.eventId ▸ hnew)]
  dsimp only
  rw [hgroup, happlied]
  dsimp only
  rw [if_neg Bool.false_ne_true, if_neg fun hshould => Bool.false_ne_true hshould.1]
  have hsame : SameGroups ((d.rememberIncomingGroupEvent (update.get "eventId")).replaceGroup now w)
      (((d.rememberIncomingGroupEvent (update.get "eventId")).replaceGroup now w).sendEventReceipt
        now update a) := sameGroups_transmit
  rw [hsame.group?, find?_replaceGroup hstored, if_pos hw.id]

theorem Inv.newest (h : s.Inv gid) (hrest : s.AtRest gid) (hg : s.copy gid p = some g)
    (hactive : isActiveGroupMember g p) : s.Newest gid p := by
  obtain ⟨-, hmem | hinactive⟩ := h.copies p g hg
  · obtain hhead | ⟨w, u, hlink, rfl⟩ := head_or_link hmem
    · exact hg.trans hhead.symm
    · have hlinked := h.links w u hlink
      have hw : w.group ∈ s.versions := mem_map_of_mem (of_mem_zip hlink).1
      obtain ⟨a, e, he, hpeer, haction, hcarries, hadmin, hcarried⟩ | ⟨g', hg', hne, -⟩ :=
        hlinked.reach p hactive
      · -- taking the update would make a difference
        obtain ⟨-, -, -, hlength⟩ := h.queued a e he
        have hnew : .str e.packetId ∉ (s.devices p).eventIds := by
          intro hknown
          obtain ⟨g', hg', hrevision⟩ := (h.answered p _ (.inl hknown)).2 _ hcarried
          obtain rfl := some.inj (hg.symm.trans hg')
          have hnewer := hlinked.revision
          omega
        have htaken : ((s.devices p).handleControl 0 "" e.packet a).group? (.str gid) = some w.group :=
          takes_update (h.version _ hmem) (h.version _ hw) hg hcarries haction hlength hadmin
            hlinked.createdBy hlinked.revision hnew
        have hsame := hrest a e he 0 ""
        rw [hpeer, htaken, hg] at hsame
        have hnewer := hlinked.revision
        rw [some.inj hsame] at hnewer
        omega
      · exact absurd (some.inj (hg'.symm.trans hg)) hne
  · exact absurd hactive hinactive

/-- In every run in which each version is made from the newest, all active members have the same group
once nothing that is queued makes a difference. -/
theorem convergence {as : List Act} (hs : s.Start gid) (h : Run (System.step gid) (Serial gid) s as s')
    (hrest : s'.AtRest gid) : s'.Agree gid := by
  have hinv : s'.Inv gid :=
    h.invariant (fun hok hinv hstep => hinv.step hok hstep) (inv_of_start gid hs)
  intro p q g g' hg hg' hactive hactive'
  have hp : s'.Newest gid p := hinv.newest hrest hg hactive
  have hq : s'.Newest gid q := hinv.newest hrest hg' hactive'
  exact some.inj ((hg.symm.trans hp).trans (hq.symm.trans hg'))

/-! ### What an action leaves alone -/

/-- The device that an action is about -/
def touched (s : System) : Act → Option String
  | .create p .. | .update p .. | .leave p .. => some p
  | .deliver p i .. => (s.devices p).sent[i]?.map Prod.fst

theorem devices_step (h : System.step gid s a = some s')
    (hq : s.touched a ≠ some q) : s'.devices q = s.devices q := by
  have hrecord : ∀ p d ids v, s.touched a = some p → (s.record p d ids v).devices q = s.devices q := by
    intro p d ids v hp
    refine devices_record_of_ne fun hqp => hq ?_
    rw [hp, hqp]
  cases a with
  | create | update | leave =>
    rw [System.step] at h
    split at h
    · obtain rfl := some.inj h
      exact hrecord _ _ _ _ rfl
    · cases h
  | deliver p i =>
    rw [System.step] at h
    split at h
    · cases h
    next r packet hsent =>
    split at h
    · obtain rfl := some.inj h
      exact hrecord _ _ _ _ (congrArg (Option.map Prod.fst) hsent)
    · cases h

theorem devices_run {peerIds : List String} {as : List Act} (h : Run (System.step gid) (fun s a => (s.touched a).all (· ∈ peerIds) = true) s as s')
    (hq : q ∉ peerIds) : s'.devices q = s.devices q := by
  refine h.related (I := fun _ => True) (R := fun s s' => s'.devices q = s.devices q) (fun _ => rfl)
    ?_ (fun _ _ _ => trivial) ?_ trivial
  · intro s₁ s₂ s₃ h₁ h₂
    exact h₂.trans h₁
  intro s a s' hok _ hstep
  refine devices_step hstep fun htouched => hq ?_
  rw [htouched, all_some, decide_eq_true_eq] at hok
  exact hok

end

/-! ### Two admins -/

/-- Anna and Ben are admins. -/
def duo : Group :=
  { id := "group:duo00000", revision := 1, name := "Duo", image := "", createdAt := 1
    createdBy := "anna", updatedAt := 1, members := [anna, benAsAdmin] }

theorem stored_duo : duo.Stored where
  id := by decide
  revision := by decide
  name := by decide +kernel
  named := by decide
  image := by decide +kernel
  createdBy := by decide +kernel
  members := forall_mem_cons.mpr ⟨⟨by decide +kernel, by decide, by decide +kernel⟩,
    forall_mem_singleton.mpr ⟨by decide +kernel, by decide, by decide +kernel⟩⟩
  nodup := by decide
  founder := ⟨anna, by decide, rfl, rfl, by decide⟩

def duoIds : List String := ["anna", "ben"]

def duoSystem : System :=
  { devices := fun p => { ownPeerId := p, groups := if p ∈ duoIds then [duo] else [] }
    history := [⟨duo, none⟩]
    carried := fun _ => none
    used := [] }

def duoEventId (n : Nat) : String :=
  "group-event:00000000-0000-0000-0000-00000000000" ++ toString n

theorem start_duo : duoSystem.Start "group:duo00000" where
  ownPeerId _ := rfl
  stored p g hg := by
    rw [duoSystem] at hg
    dsimp only at hg
    split at hg
    · rw [mem_singleton.mp hg]
      exact stored_duo
    · cases hg
  sent _ := rfl
  outbox _ := rfl
  eventIds _ _ hid := by cases hid
  carried _ := rfl
  history v hv := by
    rw [mem_singleton.mp hv]
    have hshort : ∀ m ∈ duo.members, utf16Length m.peerId ≤ 80 := by decide +kernel
    exact ⟨stored_duo, by decide +kernel, rfl, hshort⟩
  single := by decide
  copies p g hg := by
    rw [copy, duoSystem] at hg
    dsimp only at hg
    split at hg
    · obtain rfl : duo = g := some.inj hg
      exact ⟨by decide +kernel, .inl ⟨_, mem_singleton_self _, rfl⟩⟩
    · cases hg

def renames (p : String) (n : Nat) (name : String) : Act :=
  .update p 5 (duoEventId n) (fun peerId => peerId) [] { name := some (.str name) }

/-- Anna renames the group. Ben gets to know it, and she gets to know that. -/
def annaRenames : List Act :=
  [renames "anna" 0 "Chor", .deliver "anna" 0 6 (duoEventId 1), .deliver "ben" 0 7 (duoEventId 2)]

/-- Changes of the newest version, and what arrives of snapshots and receipts -/
def plain (gid : String) (s : System) : Act → Bool
  | .update p now _ _ contacts patch => (s.copy gid p).all fun g =>
    decide (s.Newest gid p) && decide (g.revision < addOne g.revision) &&
      patch.addMemberIds.isEmpty &&
      decide (HasRoom (s.devices p) ((existingRecipients now g contacts patch p).length +
        (newIds now g contacts patch).length))
  | .deliver p i _ _ => (s.devices p).sent[i]?.all fun x =>
    decide (HasRoom (s.devices x.1) 1) && !isOwnEvent x.2
  | _ => false

theorem serial_of_plain {a : Act} (h : plain gid s a) : Serial gid s a := by
  cases a with
  | create | leave => cases h
  | update p now updateId inviteId contacts patch =>
    intro g hg _
    rw [plain, hg, Option.all_some] at h
    simp only [Bool.and_eq_true, decide_eq_true_eq, List.isEmpty_iff] at h
    obtain ⟨⟨⟨hnewest, hrevision⟩, hadded⟩, hroom⟩ := h
    refine ⟨hnewest, hrevision, fun id hid => ?_, hroom⟩
    rw [hadded] at hid
    cases hid
  | deliver p i now newId =>
    intro q packet hsent
    rw [plain, hsent, Option.all_some, Bool.and_eq_true, decide_eq_true_eq, Bool.not_eq_true'] at h
    refine ⟨h.1, fun g _ hown => ?_⟩
    rw [h.2] at hown
    cases hown

theorem atRest_duo {s' : System} {as : List Act}
    (h : Run (System.step "group:duo00000") (fun s a => (s.touched a).all (· ∈ duoIds) = true)
      duoSystem as s')
    (hempty : ∀ p ∈ duoIds, (s'.devices p).outbox = []) : s'.AtRest "group:duo00000" := by
  intro p e he
  by_cases hp : p ∈ duoIds
  · rw [hempty p hp] at he
    cases he
  · rw [devices_run h hp] at he
    cases he

theorem convergence_duo : ∃ s', exec (System.step "group:duo00000") duoSystem annaRenames = some s' ∧
    s'.Agree "group:duo00000" ∧ (s'.copy "group:duo00000" "ben").map Group.name = some "Chor" := by
  have hexec : (exec (System.step "group:duo00000") duoSystem annaRenames).any fun s' =>
      decide (∀ p ∈ duoIds, (s'.devices p).outbox = []) &&
        (s'.copy "group:duo00000" "ben").map Group.name = some "Chor" := by decide +kernel
  obtain ⟨s', hs', hend⟩ := (any_eq_true _ _).mp hexec
  rw [Bool.and_eq_true, decide_eq_true_eq, decide_eq_true_eq] at hend
  have hplain : allowed (System.step "group:duo00000") (plain "group:duo00000") duoSystem
    annaRenames := by decide +kernel
  have hrun : Run (System.step "group:duo00000") (Serial "group:duo00000") duoSystem annaRenames s' :=
    (Run.of_allowed hplain hs').mono fun _ _ => serial_of_plain
  have htouched : allowed (System.step "group:duo00000")
    (fun s a => (s.touched a).all (· ∈ duoIds)) duoSystem annaRenames := by decide +kernel
  exact ⟨s', hs', convergence start_duo hrun (atRest_duo (.of_allowed htouched hs') hend.1), hend.2⟩

/-- The group as one of the two has renamed it -/
def renamed (name : String) : Group := { duo with revision := 2, name := name, updatedAt := 5 }

/-- The device of one of the two when it has renamed the group and has told the other -/
def renamer (p q : String) (n : Nat) (name : String) : Device :=
  let update : Json := .obj (eventBase "update" (duoEventId n) "group:duo00000" p 5 ++
    [("reason", .str "group-info"), ("group", (renamed name).json)])
  { ownPeerId := p
    groups := [renamed name]
    outbox := [controlEntry update "group:duo00000" q]
    sent := [(q, update)] }

theorem step_renames {q : String} {n : Nat} {name : String} (hfresh : s.fresh (duoEventId n))
    (hcopy : s.copy "group:duo00000" p = some duo) (hname : name ≠ "Duo")
    (hd : (s.devices p).updateGroupChat 5 (duoEventId n) (fun peerId => peerId) []
      (.str "group:duo00000") { name := some (.str name) } = renamer p q n name) :
    System.step "group:duo00000" s (renames p n name) =
      some (s.record p (renamer p q n name) [duoEventId n] (some ⟨renamed name, none⟩)) := by
  have hinvited : invited (s.copy "group:duo00000" p) 5 [] { name := some (.str name) } = [] := by
    rw [hcopy]
    rfl
  have hgroup : (renamer p q n name).group? (.str "group:duo00000") = some (renamed name) := rfl
  have hne : (s.devices p).group? (.str "group:duo00000") ≠ some (renamed name) := by
    intro hsame
    exact hname (congrArg Group.name (some.inj (hcopy.symm.trans hsame))).symm
  rw [renames, System.step, hinvited, hd, map_nil, made_of_ne hgroup hne]
  refine if_pos ?_
  rw [hfresh]
  rfl

/-- Anna and Ben rename the group before either hears of the other. -/
def divided : System :=
  (duoSystem.record "anna" (renamer "anna" "ben" 0 "Chor") [duoEventId 0]
    (some ⟨renamed "Chor", none⟩)).record "ben" (renamer "ben" "anna" 1 "Band") [duoEventId 1]
    (some ⟨renamed "Band", none⟩)

theorem run_divided : Run (System.step "group:duo00000")
    (fun s a => (s.touched a).all (· ∈ duoIds) = true) duoSystem
    [renames "anna" 0 "Chor", renames "ben" 1 "Band"] divided := by
  have hanna : System.step "group:duo00000" duoSystem (renames "anna" 0 "Chor") =
      some (duoSystem.record "anna" (renamer "anna" "ben" 0 "Chor") [duoEventId 0]
        (some ⟨renamed "Chor", none⟩)) :=
    step_renames (by decide +kernel) (by decide +kernel) (by decide) (by decide +kernel)
  have hben : System.step "group:duo00000" (duoSystem.record "anna" (renamer "anna" "ben" 0 "Chor")
      [duoEventId 0] (some ⟨renamed "Chor", none⟩)) (renames "ben" 1 "Band") = some divided :=
    step_renames (by decide +kernel) (by decide +kernel) (by decide) (by decide +kernel)
  exact .cons rfl hanna (.cons rfl hben .nil)

/-- Each hears of the other, and each hears of that. -/
def bothHear : List Act :=
  [.deliver "anna" 0 6 (duoEventId 2), .deliver "ben" 0 6 (duoEventId 3),
    .deliver "ben" 1 7 (duoEventId 4), .deliver "anna" 1 7 (duoEventId 5)]

theorem names_differ : ¬ ∀ gid s as s', Start gid s → FreeRun (System.step gid) s as s' →
    s'.AtRest gid → s'.Agree gid := by
  intro h
  have hexec : (exec (System.step "group:duo00000") divided bothHear).any fun s' =>
      decide (∀ p ∈ duoIds, (s'.devices p).outbox = []) &&
        ((s'.copy "group:duo00000" "anna").any fun g => (s'.copy "group:duo00000" "ben").any fun g' =>
          isActiveGroupMember g "anna" && isActiveGroupMember g' "ben" &&
            decide (g.name ≠ g'.name)) := by
    decide +kernel
  obtain ⟨s', hs', hend⟩ := (any_eq_true _ _).mp hexec
  rw [Bool.and_eq_true, decide_eq_true_eq] at hend
  obtain ⟨hempty, hdiffer⟩ := hend
  obtain ⟨g, hg, hdiffer⟩ := (any_eq_true _ _).mp hdiffer
  obtain ⟨g', hg', hdiffer⟩ := (any_eq_true _ _).mp hdiffer
  rw [Bool.and_eq_true, Bool.and_eq_true, decide_eq_true_eq] at hdiffer
  obtain ⟨⟨hanna, hben⟩, hne⟩ := hdiffer
  have htouched : allowed (System.step "group:duo00000")
    (fun s a => (s.touched a).all (· ∈ duoIds)) divided bothHear := by decide +kernel
  have hrun := run_divided.append (.of_allowed htouched hs')
  have hagree : s'.Agree "group:duo00000" :=
    h "group:duo00000" duoSystem _ s' start_duo hrun.free (atRest_duo hrun hempty)
  exact hne (congrArg Group.name (hagree "anna" "ben" g g' hg hg' hanna hben))

end System
end Bluetalk.Groups

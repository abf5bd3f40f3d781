import Bluetalk.Groups.Normal

/-!
# What an event does to a stored group

`applyGroupEvent` for a group that is stored, one constructor of `Handled` for each way it can end.
-/

open List Option

namespace Bluetalk.Groups

/-! ### Looking up members -/

variable {g g' : Group} {peerId : String} {m : Member} {now : Int}

theorem getGroupMember_map {f : Member → Member} (hf : ∀ m, (f m).peerId = m.peerId) :
    getGroupMember { g with members := g.members.map f } peerId =
      (getGroupMember g peerId).map f := by
  rw [getGroupMember, find?_map]
  have hsame : ((fun m : Member => decide (m.peerId = peerId)) ∘ f) =
      fun m => decide (m.peerId = peerId) := by
    funext m
    rw [Function.comp_apply, hf]
  rw [hsame, getGroupMember]

@[simp] theorem getGroupMember_tidied :
    getGroupMember g.tidied peerId = (getGroupMember g peerId).map (Member.tidied g.createdAt) :=
  getGroupMember_map (f := Member.tidied g.createdAt) fun _ => rfl

@[simp] theorem isActiveGroupMember_tidied :
    isActiveGroupMember g.tidied peerId = isActiveGroupMember g peerId := by
  rw [isActiveGroupMember, getGroupMember_tidied, Option.any_map]
  rfl

@[simp] theorem isGroupAdmin_tidied :
    isGroupAdmin g.tidied peerId = isGroupAdmin g peerId := by
  rw [isGroupAdmin, getGroupMember_tidied, Option.any_map]
  rfl

theorem peerId_of_getGroupMember (h : getGroupMember g peerId = some m) : m.peerId = peerId := by
  have hid := find?_some h
  exact of_decide_eq_true hid

theorem mem_of_getGroupMember (h : getGroupMember g peerId = some m) : m ∈ g.members := by
  exact mem_of_find?_eq_some h

/-! ### What a change leaves -/

def stateOf (g : Group) (peerId : String) : Option MemberState :=
  (getGroupMember g peerId).map Member.state

section

variable {g : Group} {f : Member → Member} {at_ : Json} {actorId : String} {peerId : String}

theorem getGroupMember_changed (hf : Keeps f) :
    getGroupMember (g.changed actorId f at_) peerId = (getGroupMember g peerId).map fun m =>
      (if m.peerId = actorId then f m else m).tidied g.createdAt := by
  have hids : ∀ m : Member,
      ((if m.peerId = actorId then f m else m).tidied g.createdAt).peerId = m.peerId := by
    intro m
    rw [Member.tidied]
    split
    · exact hf.peerId m
    · rfl
  exact getGroupMember_map hids

theorem stateOf_changed (hf : Keeps f) {m : Member} (hm : getGroupMember g actorId = some m) :
    stateOf (g.changed actorId f at_).tidied actorId = some (f m).state := by
  have hid := peerId_of_getGroupMember hm
  rw [stateOf, getGroupMember_tidied, getGroupMember_changed hf, hm, map_some,
    map_some, map_some, if_pos hid]
  rfl

theorem getGroupMember_changed_of_ne (hf : Keeps f) (htidied : g.tidied = g) (hne : peerId ≠ actorId) :
    getGroupMember (g.changed actorId f at_).tidied peerId = getGroupMember g peerId := by
  rw [getGroupMember_tidied, getGroupMember_changed hf]
  cases hm : getGroupMember g peerId with
  | none => rfl
  | some m =>
    have hid := peerId_of_getGroupMember hm
    have hsame := tidied_member htidied (mem_of_getGroupMember hm)
    rw [map_some, map_some, if_neg (hid ▸ hne), hsame]
    exact congrArg some hsame

theorem map_peerId_changed (hf : Keeps f) :
    (g.changed actorId f at_).tidied.members.map Member.peerId = g.members.map Member.peerId := by
  rw [Group.tidied, Group.changed, List.map_map, List.map_map]
  apply List.map_congr_left
  intro m _
  rw [Function.comp_apply, Function.comp_apply, Member.tidied, Member.tidied]
  split
  · exact hf.peerId m
  · rfl

end

theorem revision_of_json (h : normalizeGroup now g.json = .ok g')
    (hg : 1 ≤ g.revision) : g'.revision = g.revision := by
  have hread : g'.revision = max 1 g.revision := (normalized h).revision
  rw [hread, max_eq_right hg]

theorem createdBy_of_json (h : normalizeGroup now g.json = .ok g') :
    g'.createdBy = cleanText g.createdBy 96 := by
  have hread : g'.createdBy = cleanString (.str g.createdBy) 96 := (normalized h).createdBy
  rw [hread, cleanString_str]

/-! ### Events -/

/-- The id of the member who sent an event -/
def actorOf (event : Json) : String := (event.get "actorId").stringOrEmpty

def snapshotRevision (event : Json) : Int :=
  max 1 ((finite ((event.get "group").get "revision")).getD 1)

/-- What comes out of an event about a stored group. A change that the device makes itself by an old
kind of event is told no more about than that the group keeps its id and its founder. -/
inductive Handled (now : Int) (g : Group) (event : Json) (selfPeerId : String) : Applied → Prop
  | refused (error : String) : Handled now g event selfPeerId (.refused error)
  | known (stale : event.get "actorId" = .str selfPeerId ∨ event.get "action" = .str "accept" ∨
      snapshotRevision event ≤ g.revision) : Handled now g event selfPeerId (.known g.tidied)
  | own {raw : Json} {g' : Group} (actor : event.get "actorId" = .str selfPeerId)
      (read : normalizeGroup now raw = .ok g') (id : raw.get "id" = .str g.id)
      (createdBy : raw.get "createdBy" = .str g.createdBy) :
      Handled now g event selfPeerId (.changed g')
  | invite {g' : Group} (action : event.get "action" = .str "invite")
      (read : normalizeGroup now (event.get "group") = .ok g')
      (admin : isGroupAdmin g (actorOf event)) (id : g'.id = g.id)
      (newer : g.revision < g'.revision) (shouldAccept : Bool) :
      Handled now g event selfPeerId (.applied g' false shouldAccept false)
  | update {g' : Group} (action : event.get "action" = .str "update")
      (read : normalizeGroup now (event.get "group") = .ok g')
      (admin : isGroupAdmin g (actorOf event)) (id : g'.id = g.id)
      (createdBy : g'.createdBy = g.createdBy) (newer : g.revision < g'.revision) :
      Handled now g event selfPeerId (.changed g')
  | accept {m : Member} (action : event.get "action" = .str "accept")
      (actor : event.get "actorId" ≠ .str selfPeerId) (admin : isGroupAdmin g selfPeerId)
      (member : getGroupMember g (actorOf event) = some m) (invited : m.state = .invited) :
      Handled now g event selfPeerId (.applied
        (g.tidied.changed (actorOf event) (Member.accepted (event.get "timestamp"))
          (event.get "timestamp")) false false true)
  | leave {m : Member} (action : event.get "action" = .str "leave")
      (actor : event.get "actorId" ≠ .str selfPeerId) (admin : isGroupAdmin g selfPeerId)
      (member : getGroupMember g (actorOf event) = some m) (active : m.state = .active) :
      Handled now g event selfPeerId (.applied
        (g.tidied.changed (actorOf event) (Member.departed .left (event.get "timestamp"))
          (event.get "timestamp")) false false true)

theorem get_spread_last {fields : List (String × Json)} {patch : List (String × Json)}
    {field : String} {value : Json} (h : patch.reverse.lookup field = some value) :
    (Json.obj (spread fields patch)).get field = value := by
  induction patch using List.reverseRecOn with
  | nil => cases h
  | append_singleton patch x ih =>
    rw [reverse_concat, ← Prod.mk.eta (p := x), lookup_cons_ite] at h
    rw [Json.get, spread, foldl_concat, lookup_setField]
    split
    · next hx =>
      rw [if_pos hx] at h
      rw [some.inj h]
      rfl
    · next hx =>
      rw [if_neg hx] at h
      exact ih h

section

variable {now : Int} {g : Group} {event : Json} {selfPeerId : String} {applied : Applied}
  {duplicate shouldAccept shouldBroadcast : Bool}

theorem handled_invite (hg : g.Stored) (hid : event.get "groupId" = .str g.id)
    (haction : event.get "action" = .str "invite")
    (h : applyInvite now (some g) event selfPeerId = .ok applied) :
    Handled now g event selfPeerId applied := by
  rw [applyInvite.eq_def] at h
  dsimp only at h
  split at h
  · -- the device's own invitation
    next g₀ _ hsome =>
    obtain rfl := some.inj hsome
    rw [normalizeGroup_json hg, ok_bind] at h
    split at h
    · obtain rfl := Except.ok.inj h
      exact .refused _
    next hown =>
    split at h
    · obtain rfl := Except.ok.inj h
      exact .known (.inl (not_not.mp hown).2)
    · obtain ⟨g', hread, h⟩ := bind_eq_ok.mp h
      obtain rfl := Except.ok.inj h
      exact .own (not_not.mp hown).2 hread rfl rfl
  · split at h
    · obtain rfl := Except.ok.inj h
      exact .refused _
    · split at h
      · obtain rfl := Except.ok.inj h
        exact .refused _
      · next g' hread =>
        split at h
        · obtain rfl := Except.ok.inj h
          exact .refused _
        next hauthorized =>
        rw [normalizeGroup_json hg, ok_bind] at h
        split at h
        · obtain rfl := Except.ok.inj h
          exact .refused _
        next hadmin =>
        split at h
        · next hstale =>
          obtain rfl := Except.ok.inj h
          rw [(normalized hread).revision] at hstale
          exact .known (.inr (.inr hstale))
        next hnewer =>
        rw [isGroupAdmin_tidied, not_not] at hadmin
        have hsame : g'.id = g.id :=
          Json.str.inj ((not_not.mp (not_or.mp hauthorized).1).trans hid)
        split at h
        · split at h
          · obtain rfl := Except.ok.inj h
            exact .invite haction hread hadmin hsame (not_le.mp hnewer) _
          · obtain rfl := Except.ok.inj h
            exact .refused _
        · obtain rfl := Except.ok.inj h
          exact .refused _

theorem handled_accept (hg : g.Stored) (haction : event.get "action" = .str "accept")
    (h : applyAccept now g.tidied event selfPeerId = .ok applied) :
    Handled now g event selfPeerId applied := by
  rw [applyAccept] at h
  split at h
  · -- the device's own acceptance
    next hlegacy =>
    split at h
    · obtain rfl := Except.ok.inj h
      exact .refused _
    split at h
    · obtain rfl := Except.ok.inj h
      exact .known (.inr (.inl haction))
    obtain ⟨g', hread, h⟩ := bind_eq_ok.mp h
    obtain rfl := Except.ok.inj h
    rw [withAcceptedMember, nextGroup] at hread
    exact .own hlegacy.2 hread rfl rfl
  · split at h
    · obtain rfl := Except.ok.inj h
      exact .refused _
    · next hactor =>
      split at h
      · obtain rfl := Except.ok.inj h
        exact .refused _
      next hadmin =>
      rw [isGroupAdmin_tidied, not_not] at hadmin
      split at h
      · obtain rfl := Except.ok.inj h
        exact .refused _
      next m hm =>
      split at h
      · obtain rfl := Except.ok.inj h
        exact .known (.inr (.inl haction))
      next hactive =>
      obtain ⟨hm, hstate⟩ := filter_eq_some_iff.mp hm
      rw [getGroupMember_tidied] at hm
      obtain ⟨m, hmember, rfl⟩ := map_eq_some_iff.mp hm
      have hinvited : m.state = .invited := by
        rw [Member.isInvitedOrActive, Bool.or_eq_true, decide_eq_true_eq,
          decide_eq_true_eq] at hstate
        exact hstate.resolve_right hactive
      rw [withAcceptedMember_eq hg.tidied, ok_bind] at h
      obtain rfl := Except.ok.inj h
      exact .accept haction hactor hadmin hmember hinvited

theorem handled_update (haction : event.get "action" = .str "update")
    (h : applyUpdate now g.tidied event selfPeerId = .ok applied) :
    Handled now g event selfPeerId applied := by
  rw [applyUpdate] at h
  split at h
  · -- the device's own change
    split at h
    · obtain rfl := Except.ok.inj h
      exact .refused _
    next hown =>
    obtain ⟨g', hread, h⟩ := bind_eq_ok.mp h
    obtain rfl := Except.ok.inj h
    exact .own (not_not.mp hown).2 hread (get_spread_last rfl) (get_spread_last rfl)
  · split at h
    · obtain rfl := Except.ok.inj h
      exact .refused _
    · next hadmin =>
      rw [isGroupAdmin_tidied, not_not] at hadmin
      split at h
      · obtain rfl := Except.ok.inj h
        exact .refused _
      next g' hread =>
      split at h
      · obtain rfl := Except.ok.inj h
        exact .refused _
      next hidentity =>
      obtain ⟨hid, hcreatedBy⟩ := not_or.mp hidentity
      split at h
      · next hstale =>
        obtain rfl := Except.ok.inj h
        rw [(normalized hread).revision] at hstale
        exact .known (.inr (.inr hstale))
      next hnewer =>
      obtain rfl := Except.ok.inj h
      exact .update haction hread hadmin (not_not.mp hid) (not_not.mp hcreatedBy)
        (not_le.mp hnewer)

theorem handled_leave (hg : g.Stored) (haction : event.get "action" = .str "leave")
    (h : applyLeave now g.tidied event selfPeerId = .ok applied) :
    Handled now g event selfPeerId applied := by
  rw [applyLeave] at h
  split at h
  · obtain rfl := Except.ok.inj h
    exact .refused _
  next hactor =>
  split at h
  · obtain rfl := Except.ok.inj h
    exact .refused _
  next hadmin =>
  rw [isGroupAdmin_tidied, not_not] at hadmin
  split at h
  · obtain rfl := Except.ok.inj h
    exact .refused _
  next hactive =>
  rw [isActiveGroupMember_tidied, not_not, isActiveGroupMember, Option.any_eq_true] at hactive
  obtain ⟨m, hm, hstate⟩ := hactive
  rw [withDepartedMember_eq hg.tidied, ok_bind] at h
  obtain rfl := Except.ok.inj h
  exact .leave haction hactor hadmin hm (of_decide_eq_true hstate)

theorem handled (hg : g.Stored) (hid : event.get "groupId" = .str g.id)
    (h : applyGroupEvent now (some g) event selfPeerId = .ok applied) :
    Handled now g event selfPeerId applied := by
  rw [applyGroupEvent] at h
  split at h
  · obtain rfl := Except.ok.inj h
    exact .refused _
  split at h
  · next haction => exact handled_invite hg hid haction h
  rw [if_neg (not_not.mpr hid.symm), normalizeGroup_json hg, ok_bind] at h
  split at h
  · next haction => exact handled_accept hg haction h
  split at h
  · next haction => exact handled_update haction h
  split at h
  · next haction => exact handled_leave hg haction h
  · obtain rfl := Except.ok.inj h
    exact .refused _

/-- A group that is new to the device comes as the snapshot of an invitation. -/
structure Invited (now : Int) (event : Json) (selfPeerId : String) (g : Group) : Prop where
  action : event.get "action" = .str "invite"
  recipientId : event.get "recipientId" = .str selfPeerId
  read : normalizeGroup now (event.get "group") = .ok g
  id : event.get "groupId" = .str g.id
  admin : isGroupAdmin g (actorOf event)

theorem applied_of_new (h : applyGroupEvent now none event selfPeerId =
      .ok (.applied g duplicate shouldAccept shouldBroadcast)) :
    Invited now event selfPeerId g ∧ shouldBroadcast = false := by
  rw [applyGroupEvent] at h
  split at h
  · cases Except.ok.inj h
  split at h
  · next haction =>
    rw [applyInvite.eq_def] at h
    dsimp only at h
    split at h
    · next hsome => cases hsome
    split at h
    · cases Except.ok.inj h
    next hrecipient =>
    split at h
    · cases Except.ok.inj h
    next g' hread =>
    split at h
    · cases Except.ok.inj h
    next hauthorized =>
    obtain ⟨hid, hadmin⟩ := not_or.mp hauthorized
    have hsnapshot : g' = g ∧ shouldBroadcast = false := by
      split at h
      · split at h
        · obtain ⟨hg, -, -, hquiet⟩ := Applied.applied.inj (Except.ok.inj h)
          exact ⟨hg, hquiet.symm⟩
        · cases Except.ok.inj h
      · cases Except.ok.inj h
    obtain ⟨rfl, hquiet⟩ := hsnapshot
    exact ⟨⟨haction, not_not.mp hrecipient, hread, (not_not.mp hid).symm,
      not_not.mp hadmin⟩, hquiet⟩
  · cases Except.ok.inj h

theorem invited_of_new (h : applyGroupEvent now none event selfPeerId =
      .ok (.applied g duplicate shouldAccept shouldBroadcast)) :
    Invited now event selfPeerId g := (applied_of_new h).1

theorem Handled.stored {now' : Int} {g₁ g' : Group} (h : Handled now g event selfPeerId (.applied g₁ duplicate shouldAccept shouldBroadcast))
    (hg : g.Stored) (hread : normalizeGroup now' g₁.json = .ok g') : g'.Stored ∧ g'.id = g.id := by
  have hid : g'.id = g₁.id := (Json.str.inj (normalized hread).rawId).symm
  rw [hid]
  cases h with
  | known =>
    rw [normalizeGroup_json hg.tidied] at hread
    exact ⟨Except.ok.inj hread ▸ hg.tidied.tidied, rfl⟩
  | own actor read id createdBy =>
    refine ⟨stored_of_normalized_twice read hread, ?_⟩
    exact Json.str.inj ((normalized read).rawId.symm.trans id)
  | invite action read admin id newer | update action read admin id createdBy newer =>
    exact ⟨stored_of_normalized_twice read hread, id⟩
  | accept action actor admin member invited =>
    have hchanged : (g.tidied.changed (actorOf event) (Member.accepted (event.get "timestamp"))
        (event.get "timestamp")).Stored := hg.tidied.changed keeps_accepted
    rw [normalizeGroup_json hchanged] at hread
    exact ⟨Except.ok.inj hread ▸ hchanged.tidied, rfl⟩
  | leave action actor admin member active =>
    have hchanged : (g.tidied.changed (actorOf event)
        (Member.departed .left (event.get "timestamp")) (event.get "timestamp")).Stored :=
      hg.tidied.changed keeps_departed
    rw [normalizeGroup_json hchanged] at hread
    exact ⟨Except.ok.inj hread ▸ hchanged.tidied, rfl⟩

end

end Bluetalk.Groups

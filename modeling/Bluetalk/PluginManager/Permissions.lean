import Bluetalk.PluginManager.Manager
import Bluetalk.Theory.Run

/-!
# Permissions

What every record says of its permissions, and that its entry in the registry says the same. An
operation either fails, and memory is as it was, or leaves records and registry sound and adds no
grant but those it was given.
-/

open Option Function

namespace Bluetalk.PluginManager

variable {V : Type} {m : Manager V} {fate : FsStep → Fate} {uuid : String}
  {w w' : World V} {state state' : ManagerState V} {id : String} {record : PluginRecord V}

/-! ## Sound records -/

structure PluginRecord.Sound (record : PluginRecord V) (m : Manager V) (id : String)
    (registry : PersistedRegistry) : Prop where
  id_eq : record.id = id
  requested : record.grantedPermissions ⊆ record.manifest.requestedPermissions
  known : record.grantedPermissions ⊆ m.permissionRegistry.permissions
  missing : record.missingPermissions =
    record.manifest.requestedPermissions \ record.grantedPermissions
  enabled : record.enabled = true → record.missingPermissions = ∅
  persisted : registry.plugins id = some record.persisted

/-- Every record is sound. -/
def ManagerState.Sound (m : Manager V) (state : ManagerState V) : Prop :=
  ∀ id record, state.records id = some record → record.Sound m id state.registry

/-- What is granted to a plugin -/
def ManagerState.granted (state : ManagerState V) (id : String) : Finset String :=
  ((state.registry.plugins id).map (·.grantedPermissions)).getD ∅

/-- Nothing is granted that was not granted before or is one of `passed`. -/
def ManagerState.Within (passed : Finset String) (state state' : ManagerState V) : Prop :=
  ∀ id, state'.granted id ⊆ state.granted id ∪ passed

namespace ManagerState

theorem granted_eq (h : state.Sound m) (hrecord : state.records id = some record) :
    state.granted id = record.grantedPermissions := by
  rw [granted, (h id record hrecord).persisted]
  rfl

theorem Within.refl (passed : Finset String) : state.Within passed state :=
  fun _ => Finset.subset_union_left

theorem Within.trans {state'' : ManagerState V} {passed passed' : Finset String}
    (h : state.Within passed state') (h' : state'.Within passed' state'') :
    state.Within (passed ∪ passed') state'' := by
  intro id
  refine (h' id).trans ?_
  rw [← Finset.union_assoc]
  exact Finset.union_subset_union_left (h id)

theorem Sound.update (h : state.Sound m) {removedBundled : Finset String}
    (hrecord : record.Sound m id
      ⟨update state.registry.plugins id (some record.persisted), removedBundled⟩) :
    Sound m
      { records := update state.records id (some record)
        registry :=
          ⟨update state.registry.plugins id (some record.persisted), removedBundled⟩ } := by
  intro id' record' h'
  dsimp only at h' ⊢
  by_cases hid : id' = id
  · subst hid
    rw [update_self] at h'
    cases h'
    exact hrecord
  rw [update_of_ne hid] at h'
  have hsound := h id' record' h'
  exact ⟨hsound.id_eq, hsound.requested, hsound.known, hsound.missing, hsound.enabled,
    (update_of_ne hid _ _).trans hsound.persisted⟩

theorem Within.update {records : String → Option (PluginRecord V)} {removedBundled : Finset String}
    {passed : Finset String} {persisted : PersistedPluginState}
    (h : persisted.grantedPermissions ⊆ state.granted id ∪ passed) :
    state.Within passed
      ⟨⟨update state.registry.plugins id (some persisted), removedBundled⟩, records⟩ := by
  intro id'
  rw [granted]
  dsimp only
  by_cases hid : id' = id
  · subst hid
    rw [update_self]
    exact h
  · rw [update_of_ne hid]
    exact Finset.subset_union_left

theorem Sound.remove (h : state.Sound m) (id : String) (record : PluginRecord V) :
    (state.remove id record).Sound m := by
  intro id' record' h'
  rw [ManagerState.remove] at h' ⊢
  dsimp only at h' ⊢
  have hid : id' ≠ id := by
    rintro rfl
    rw [update_self] at h'
    cases h'
  rw [update_of_ne hid] at h'
  have hsound := h id' record' h'
  exact ⟨hsound.id_eq, hsound.requested, hsound.known, hsound.missing, hsound.enabled,
    (update_of_ne hid _ _).trans hsound.persisted⟩

theorem Within.remove (state : ManagerState V) (id : String) (record : PluginRecord V)
    (passed : Finset String) : state.Within passed (state.remove id record) := by
  intro id'
  rw [granted, ManagerState.remove]
  dsimp only
  by_cases hid : id' = id
  · subst hid
    rw [update_self]
    exact Finset.empty_subset _
  · rw [update_of_ne hid]
    exact Finset.subset_union_left

theorem Sound.clearRemoval (h : state.Sound m) (id : String) : (state.clearRemoval id).Sound m :=
  fun id' record' h' =>
    let hsound := h id' record' h'
    ⟨hsound.id_eq, hsound.requested, hsound.known, hsound.missing, hsound.enabled, hsound.persisted⟩

end ManagerState

/-! ## Sound steps -/

theorem id_of_candidate {plugins : String → Option Package} {validated : ValidatedPackage V}
    (h : candidate m plugins id = some validated) :
    validated.manifest.id = id ∧ validated.manifest.Sound m.toHost := by
  rw [candidate] at h
  split at h
  · obtain ⟨package, -, h⟩ := bind_eq_some_iff.mp h
    split at h
    · rename_i validated' hvalidated
      split at h
      · rename_i hid
        cases h
        exact ⟨hid, sound_of_validatePackageDirectory hvalidated⟩
      · cases h
    · cases h
  · cases h

theorem reconcile_granted (persisted : Option PersistedPluginState)
    (manifest : PluginManifestV2 V) :
    (reconcile m persisted manifest).grantedPermissions ⊆
        (persisted.map (·.grantedPermissions)).getD ∅ ∧
      (reconcile m persisted manifest).grantedPermissions ⊆ manifest.requestedPermissions ∧
      (reconcile m persisted manifest).grantedPermissions ⊆ m.permissionRegistry.permissions := by
  refine ⟨?_, ?_, ?_⟩
  · refine (Finset.filter_subset _ _).trans ?_
    cases persisted <;> exact fun _ => id
  · exact fun _ hmem => (Finset.mem_filter.mp hmem).2.1
  · exact fun _ hmem => of_decide_eq_true (Finset.mem_filter.mp hmem).2.2

theorem sound_scanned (m : Manager V) (plugins : String → Option Package)
    (registry : PersistedRegistry) : (scanned m plugins registry).Sound m := by
  intro id record h
  obtain ⟨validated, hcandidate, rfl⟩ := map_eq_some_iff.mp h
  obtain ⟨-, hrequested, hknown⟩ :=
    reconcile_granted (m := m) (registry.plugins id) validated.manifest
  refine ⟨(id_of_candidate hcandidate).1, hrequested, hknown, rfl, fun henabled => ?_, ?_⟩
  · exact of_decide_eq_true (Bool.and_eq_true_iff.mp henabled).2
  rw [scanned]
  dsimp only
  rw [hcandidate]
  rfl

theorem within_scanned (m : Manager V) (plugins : String → Option Package)
    (state : ManagerState V) : state.Within ∅ (scanned m plugins state.registry) := by
  intro id
  rw [Finset.union_empty, ManagerState.granted, scanned]
  dsimp only
  cases candidate m plugins id with
  | none => exact Finset.Subset.refl _
  | some validated => exact (reconcile_granted (m := m) _ _).1

/-! ## Grants that are asked for -/

theorem subset_of_checkGrants {registry : PermissionRegistry} {requested grants : Finset String}
    (h : checkGrants (V := V) registry id requested grants = .ok ()) :
    grants ⊆ registry.permissions ∧ grants ⊆ requested := by
  rw [checkGrants] at h
  have hnone : ∀ grant ∈ grants, (registry.contains grant && decide (grant ∈ requested)) = true := by
    split at h
    · rename_i hmin
      intro grant hmem
      have hempty := Finset.filter_eq_empty_iff.mp (Finset.min_eq_top.mp hmin) hmem
      simpa using hempty
    rename_i grant hmin
    have hmem := (Finset.mem_filter.mp (Finset.mem_of_min hmin)).2
    simp only [except_bind_eq_ok, ensure_eq_ok] at h
    obtain ⟨_, hknown, hrequested⟩ := h
    rw [hknown, hrequested] at hmem
    cases hmem
  simp only [Bool.and_eq_true, decide_eq_true_eq] at hnone
  exact ⟨fun grant hmem => of_decide_eq_true (hnone grant hmem).1, fun grant hmem => (hnone grant hmem).2⟩

/-- The record that an installation makes -/
structure Planned (m : Manager V) (existing : Option (PluginRecord V)) (package : ValidatedPackage V)
    (options : InstallOptions) (record : PluginRecord V) : Prop where
  id_eq : record.id = package.manifest.id
  manifest_eq : record.manifest = package.manifest
  origin_eq : record.origin = options.origin
  granted : record.grantedPermissions =
    (existing.map (·.grantedPermissions)).getD ∅ ∩ package.manifest.requestedPermissions ∪
      options.grants
  missing : record.missingPermissions =
    package.manifest.requestedPermissions \ record.grantedPermissions
  enabled : record.enabled = true → record.missingPermissions = ∅
  known : options.grants ⊆ m.permissionRegistry.permissions
  requested : options.grants ⊆ package.manifest.requestedPermissions

theorem planned_of_planInstall [LinearOrder V] {existing : Option (PluginRecord V)} {targetExists : Bool}
    {package : ValidatedPackage V} {options : InstallOptions}
    (h : planInstall m existing targetExists package options = .ok record) :
    Planned m existing package options record := by
  simp only [planInstall, except_bind_eq_ok, ensure_eq_ok] at h
  obtain ⟨_, -, _, -, _, -, _, -, _, hgrants, _, -, h⟩ := h
  cases h
  obtain ⟨hknown, hrequested⟩ := subset_of_checkGrants hgrants
  exact ⟨rfl, rfl, rfl, rfl, rfl,
    fun henabled => of_decide_eq_true (Bool.and_eq_true_iff.mp henabled).2, hknown, hrequested⟩

theorem Planned.sound {package : ValidatedPackage V} {options : InstallOptions}
    (h : Planned m (state.records package.manifest.id) package options record)
    (H : state.Sound m) : (state.put record).Sound m := by
  refine H.update ⟨rfl, ?_, ?_, ?_, h.enabled, update_self _ _ _⟩
  · rw [h.granted, h.manifest_eq]
    exact Finset.union_subset Finset.inter_subset_right h.requested
  · rw [h.granted]
    refine Finset.union_subset (Finset.inter_subset_left.trans ?_) h.known
    cases hrecord : state.records package.manifest.id with
    | none => exact Finset.empty_subset _
    | some existing => exact (H _ _ hrecord).known
  · rw [h.missing, h.manifest_eq]

theorem Planned.within {package : ValidatedPackage V} {options : InstallOptions}
    (h : Planned m (state.records package.manifest.id) package options record)
    (H : state.Sound m) : state.Within options.grants (state.put record) := by
  refine ManagerState.Within.update ?_
  rw [PluginRecord.persisted, h.granted, h.id_eq]
  refine Finset.union_subset_union_left (Finset.inter_subset_left.trans ?_)
  cases hrecord : state.records package.manifest.id with
  | none => exact Finset.empty_subset _
  | some existing => exact (ManagerState.granted_eq H hrecord).ge

/-! ## The operations -/

/-- However an operation ends, records are sound and nothing but what was passed is granted. -/
def Lawful {α : Type} (m : Manager V) (passed : Finset String) (w : World V) (p : Fs V α) : Prop :=
  p.Ensures w (fun _ w' => w'.state.Sound m ∧ w.state.Within passed w'.state)
    (fun _ w' => w'.state.Sound m ∧ w.state.Within passed w'.state) fun _ => True

theorem lawful_of_leaves {α : Type} {p : Fs V α} {passed : Finset String} (H : w.state.Sound m)
    (h : p.Leaves World.state) : Lawful m passed w p := by
  have hsame : ∀ w' : World V, w'.state = w.state →
      w'.state.Sound m ∧ w.state.Within passed w'.state := by
    intro w' h'
    rw [h']
    exact ⟨H, .refl passed⟩
  exact (h w).mono (fun _ => hsame) (fun _ => hsame) fun _ _ => trivial

namespace Lawful

variable {α β : Type} {p : Fs V α} {f : α → Fs V β} {h : PluginError V → Fs V α}
  {passed passed' : Finset String}

theorem weaken (hw : w'.state.Sound m ∧ w.state.Within passed w'.state) :
    w'.state.Sound m ∧ w.state.Within (passed ∪ passed') w'.state :=
  ⟨hw.1, fun id => (hw.2 id).trans (Finset.union_subset_union_right Finset.subset_union_left)⟩

theorem after (hw : w.state.Within passed w'.state) (H : Lawful m passed' w' p) :
    Prog.Ensures p w' (fun _ w'' => w''.state.Sound m ∧ w.state.Within (passed ∪ passed') w''.state)
      (fun _ w'' => w''.state.Sound m ∧ w.state.Within (passed ∪ passed') w''.state)
      fun _ => True :=
  Prog.Ensures.mono H (fun _ _ h => ⟨h.1, hw.trans h.2⟩) (fun _ _ h => ⟨h.1, hw.trans h.2⟩)
    fun _ => id

theorem bind (H : Lawful m passed w p)
    (hf : ∀ a w', w'.state.Sound m → Lawful m passed' w' (f a)) :
    Lawful m (passed ∪ passed') w (p >>= f) :=
  Prog.ensures_bind.mpr (Prog.Ensures.mono H (fun a w' hw => (hf a w' hw.1).after hw.2)
    (fun _ _ => weaken) fun _ => id)

theorem handle (H : Lawful m passed w p)
    (hh : ∀ e w', w'.state.Sound m → Lawful m passed' w' (h e)) :
    Lawful m (passed ∪ passed') w (p.handle h) :=
  Prog.ensures_handle.mpr (Prog.Ensures.mono H (fun _ _ => weaken)
    (fun e w' hw => (hh e w' hw.1).after hw.2) fun _ => id)

theorem bind_leaves (H : Lawful m passed w p) (hf : ∀ a, (f a).Leaves World.state) :
    Lawful m passed w (p >>= f) := by
  have hafter : ∀ a w', w'.state.Sound m → Lawful m ∅ w' (f a) :=
    fun a _ hw => lawful_of_leaves hw (hf a)
  have hbind := H.bind hafter
  rwa [Finset.union_empty] at hbind

theorem handle_leaves (H : Lawful m passed w p) (hh : ∀ e, (h e).Leaves World.state) :
    Lawful m passed w (p.handle h) := by
  have hafter : ∀ e w', w'.state.Sound m → Lawful m ∅ w' (h e) :=
    fun e _ hw => lawful_of_leaves hw (hh e)
  have hhandle := H.handle hafter
  rwa [Finset.union_empty] at hhandle

theorem leaves_bind (H : w.state.Sound m) (hp : p.Leaves World.state)
    (hf : ∀ a w', w'.state.Sound m → Lawful m passed w' (f a)) : Lawful m passed w (p >>= f) := by
  have hfirst : Lawful m ∅ w p := lawful_of_leaves H hp
  have hbind := hfirst.bind hf
  rwa [Finset.empty_union] at hbind

end Lawful

theorem lawful_persistOr {passed : Finset String} {undo : Fs V Unit} (H : w.state.Sound m)
    (hundo : undo.Leaves World.state) (hw : w'.state.Sound m)
    (hwithin : w.state.Within passed w'.state) :
    (persistOr m fate w.state undo).Ensures w'
      (fun _ w'' => w''.state.Sound m ∧ w.state.Within passed w''.state)
      (fun _ w'' => w''.state.Sound m ∧ w.state.Within passed w''.state) fun _ => True := by
  refine (ensures_persistOr hundo).mono (fun _ w'' h => ?_) (fun _ w'' h => ?_) fun _ _ => trivial
  · rw [h]
    exact ⟨hw, hwithin⟩
  · rw [h]
    exact ⟨H, .refl passed⟩

theorem sound_grantTo {grants : Finset String} {removedBundled : Finset String}
    (H : w.state.Sound m) (hrecord : w.state.records id = some record)
    (hknown : grants ⊆ m.permissionRegistry.permissions)
    (hrequested : grants ⊆ record.manifest.requestedPermissions) :
    (grantTo record grants).Sound m id
      ⟨update w.state.registry.plugins id (some (grantTo record grants).persisted),
        removedBundled⟩ :=
  ⟨(H id record hrecord).id_eq, hrequested, hknown, rfl,
    fun henabled => of_decide_eq_true (Bool.and_eq_true_iff.mp henabled).2,
    update_self _ _ _⟩

theorem find_eq_ok (h : find state id = .ok record) : state.records id = some record := by
  rw [find] at h
  split at h
  · cases h
  · rename_i record' hrecord
    cases h
    exact hrecord

theorem lawful_setGrants (H : w.state.Sound m) {grants passed : Finset String}
    (hsub : grants ⊆ w.state.granted id ∪ passed) :
    Lawful m passed w (setGrants m fate id grants) := by
  rw [Lawful, setGrants]
  simp only [Prog.ensures_bind, Prog.ensures_get, ensures_check, ensures_setState]
  have hsame : w.state.Sound m ∧ w.state.Within passed w.state := ⟨H, .refl passed⟩
  refine ⟨fun _ _ => ⟨fun record hfind => ⟨fun _ hgrants => ?_, fun _ _ => hsame⟩,
    fun _ _ => hsame⟩, fun _ _ => hsame⟩
  obtain ⟨hknown, hrequested⟩ := subset_of_checkGrants hgrants
  refine Prog.Ensures.mono (lawful_persistOr H (Prog.leaves_pure _)
    (H.update (sound_grantTo H (find_eq_ok hfind) hknown hrequested))
    (ManagerState.Within.update hsub))
    (fun _ w₂ h₂ => ⟨fun _ _ => h₂, fun _ _ => h₂⟩) (fun _ _ h => h) fun _ h => h

theorem lawful_findGrants (H : w.state.Sound m) {passed : Finset String}
    (grants : Finset String → Finset String) (hsub : ∀ granted, grants granted ⊆ granted ∪ passed) :
    Lawful m passed w (do
      let w ← Prog.get
      let record ← check (find w.state id)
      setGrants m fate id (grants record.grantedPermissions)) := by
  rw [Lawful]
  simp only [Prog.ensures_bind, Prog.ensures_get, ensures_check]
  refine ⟨fun record hfind => lawful_setGrants H ?_, fun _ _ => ⟨H, .refl passed⟩⟩
  rw [ManagerState.granted_eq H (find_eq_ok hfind)]
  exact hsub _

theorem lawful_grant (H : w.state.Sound m) (id permission : String) :
    Lawful m {permission} w (grant m fate id permission) :=
  lawful_findGrants H (insert permission) fun granted => by
    rw [Finset.union_comm, Finset.insert_eq]

theorem lawful_revoke (H : w.state.Sound m) (id permission : String) :
    Lawful m ∅ w (revoke m fate id permission) :=
  lawful_findGrants H (·.erase permission) fun _ =>
    (Finset.erase_subset _ _).trans Finset.subset_union_left

theorem lawful_setEnabled (H : w.state.Sound m) (id : String) (enabled : Bool) :
    Lawful m ∅ w (setEnabled m fate id enabled) := by
  rw [Lawful, setEnabled]
  simp only [Prog.ensures_bind, Prog.ensures_get, ensures_check, ensures_setState]
  have hsame : w.state.Sound m ∧ w.state.Within ∅ w.state := ⟨H, .refl ∅⟩
  refine ⟨fun _ _ => ⟨fun record hfind => ⟨fun _ hmissing => ?_, fun _ _ => hsame⟩,
    fun _ _ => hsame⟩, fun _ _ => hsame⟩
  have hrecord := H id record (find_eq_ok hfind)
  -- The entry is there, so that the record does not stay changed without it.
  rw [hrecord.persisted]
  simp only [Prog.ensures_bind, Prog.ensures_get, ensures_check, ensures_setState]
  have hupdate : ({ record with enabled } : PluginRecord V).Sound m id
      ⟨update w.state.registry.plugins id
        (some ({ record with enabled } : PluginRecord V).persisted),
        w.state.registry.removedBundled⟩ := by
    refine ⟨hrecord.id_eq, hrecord.requested, hrecord.known, hrecord.missing, fun henabled => ?_,
      update_self _ _ _⟩
    dsimp only at henabled ⊢
    rw [henabled] at hmissing
    simpa using hmissing
  refine Prog.Ensures.mono (lawful_persistOr H (Prog.leaves_pure _) (H.update hupdate)
    (ManagerState.Within.update ?_))
    (fun _ w₂ h₂ => ⟨fun _ _ => h₂, fun _ _ => h₂⟩) (fun _ _ h => h) fun _ h => h
  rw [ManagerState.granted_eq H (find_eq_ok hfind)]
  exact Finset.subset_union_left

theorem lawful_uninstall (H : w.state.Sound m) (id : String) :
    Lawful m ∅ w (uninstall m fate id) := by
  rw [Lawful, uninstall]
  simp only [Prog.ensures_bind, Prog.ensures_get, ensures_check]
  have hsame : ∀ w' : World V, w'.state = w.state →
      w'.state.Sound m ∧ w.state.Within ∅ w'.state := by
    intro w' h'
    rw [h']
    exact ⟨H, .refl _⟩
  refine ⟨fun _ _ => ?_, fun _ _ => hsame w rfl⟩
  cases hrecord : w.state.records id with
  | none => exact hsame w rfl
  | some record =>
    simp only [Prog.ensures_bind, ensures_setState]
    refine ((state_fsStep _ _).when w).mono (fun _ w₁ h₁ => ?_) (fun _ => hsame) fun _ _ => trivial
    refine Prog.Ensures.mono (lawful_persistOr H (state_fsStep _ _).ignore.when
      (H.remove id record) (.remove w.state id record ∅)) (fun _ w₂ h₂ => ?_) (fun _ _ h => h)
      fun _ h => h
    have hremove : ∀ w' : World V, w'.state = w₂.state →
        w'.state.Sound m ∧ w.state.Within ∅ w'.state := by
      intro w' h'
      rw [h']
      exact h₂
    refine ((Prog.leaves_get.bind fun _ => state_removeDirAll _ _ _ _).when w₂).mono
      (fun _ => hremove) (fun _ => hremove) fun _ _ => trivial

theorem lawful_scan (H : w.state.Sound m) : Lawful m ∅ w (scan m fate) := by
  rw [Lawful, scan]
  exact lawful_persistOr H (Prog.leaves_pure _) (sound_scanned m _ _)
    (within_scanned m w.disk.plugins w.state)

theorem lawful_clearBundledRemoval (H : w.state.Sound m) (id : String) :
    Lawful m ∅ w (clearBundledRemoval m fate id) := by
  refine Lawful.leaves_bind H (leaves_check _) fun _ w₁ H₁ => ?_
  rw [Lawful]
  exact lawful_persistOr H₁ (Prog.leaves_pure _) (H₁.clearRemoval id) fun _ =>
    Finset.subset_union_left

/-! ### Installations -/

variable [LinearOrder V]

theorem lawful_finishInstall {package : ValidatedPackage V} (H : w.state.Sound m)
    (options : InstallOptions) :
    Lawful m options.grants w (finishInstall m fate uuid package options) := by
  have hsame : ∀ w' : World V, w'.state = w.state →
      w'.state.Sound m ∧ w.state.Within options.grants w'.state := by
    intro w' h'
    rw [h']
    exact ⟨H, .refl _⟩
  rw [Lawful, finishInstall]
  simp only [Prog.ensures_bind, Prog.ensures_get, ensures_check]
  refine ⟨fun record hplan => ?_, fun _ _ => hsame w rfl⟩
  have hplan := planned_of_planInstall hplan
  refine (state_swapIn _ _ _ _ w).mono (fun _ w₁ _ => ?_) (fun _ => hsame) fun _ _ => trivial
  refine (lawful_persistOr H (state_rollBack _ _ _) (hplan.sound H) (hplan.within H)).mono
    (fun _ w₂ h₂ => ?_) (fun _ _ => id) fun _ _ => trivial
  refine (state_dropBackup _ _ w₂).mono (fun _ w₃ h₃ => ?_) (fun _ w₃ h₃ => ?_) fun _ _ => trivial
  · rw [Prog.ensures_pure, h₃]
    exact h₂
  · rw [h₃]
    exact h₂

theorem lawful_installStaged {fill : Fs V Unit} (H : w.state.Sound m)
    (hfill : fill.Leaves World.state) (options : InstallOptions) :
    Lawful m options.grants w (installStaged m fate uuid fill options) := by
  refine Lawful.leaves_bind H (state_fsStep _ _) fun _ w₁ H₁ => Lawful.bind_leaves ?_ fun _ =>
    (leaves_dropStaging (fun _ _ => rfl) fate).bind fun _ => Prog.leaves_pure _
  refine Lawful.handle_leaves ?_ fun e => (leaves_dropStaging (fun _ _ => rfl) fate).bind fun _ => Prog.leaves_fail e
  exact Lawful.leaves_bind H₁ hfill fun _ w₂ H₂ => Lawful.leaves_bind H₂ Prog.leaves_get
    fun _ w₃ H₃ => Lawful.leaves_bind H₃ (leaves_check _) fun _ w₄ H₄ => lawful_finishInstall H₄ _

theorem lawful_installFromDirectory (H : w.state.Sound m) (source : Package)
    (options : InstallOptions) :
    Lawful m options.grants w (installFromDirectory m fate uuid source options) :=
  lawful_installStaged H (leaves_copyPackageDirectory (fun _ _ => rfl) m fate source) options

theorem lawful_installPayload (H : w.state.Sound m) (files : List (String × Bytes))
    (options : InstallOptions) :
    Lawful m options.grants w (installPayload m fate uuid files options) :=
  lawful_installStaged H (leaves_writePayload (fun _ _ => rfl) m fate files) options

/-- What is granted with a bundled package -/
def BundledSeedOptions.passes (options : BundledSeedOptions) (manifest : PluginManifestV2 V) :
    Finset String :=
  if options.grantAllRequested then manifest.requestedPermissions else ∅

theorem lawful_seedPackage (H : w.state.Sound m) (source : Package) (package : ValidatedPackage V)
    (options : BundledSeedOptions) :
    Lawful m (options.passes package.manifest) w
      (seedPackage m fate uuid source package options) := by
  refine Lawful.leaves_bind H Prog.leaves_get fun w₁ w₂ H₂ => ?_
  dsimp only
  split
  · exact lawful_of_leaves H₂ (Prog.leaves_pure _)
  split
  · exact lawful_of_leaves H₂ (Prog.leaves_fail _)
  split
  · exact lawful_of_leaves H₂ (Prog.leaves_pure _)
  let install := seedInstallOptions package.manifest (w₁.state.records package.manifest.id)
    options
  have hinstall : Lawful m install.grants w₂ (installFromDirectory m fate uuid source install) :=
    lawful_installFromDirectory H₂ source install
  have hclear : ∀ w₃ : World V, w₃.state.Sound m → Lawful m ∅ w₃ (do
      Prog.when options.restoreRemoved <|
        clearBundledRemoval m (fate ∘ .clearing) package.manifest.id
      pure (if (w₁.state.records package.manifest.id).isSome then Seeded.updated
        else .installed)) := by
    intro w₃ H₃
    refine Lawful.bind_leaves ?_ fun _ => Prog.leaves_pure _
    cases options.restoreRemoved with
    | false => exact lawful_of_leaves H₃ (Prog.leaves_pure _)
    | true => exact lawful_clearBundledRemoval H₃ _
  have hbind := hinstall.bind fun _ w₃ H₃ => hclear w₃ H₃
  rw [Finset.union_empty] at hbind
  exact hbind

/-- All that the bundled packages request, where it is granted with them -/
def seedGrants (m : Manager V) (options : BundledSeedOptions) :
    List (String × Package) → Finset String
  | [] => ∅
  | (_, source) :: rest =>
    (match validatePackageDirectory m.toHost source with
      | .ok package => options.passes package.manifest
      | .error _ => ∅) ∪ seedGrants m options rest

theorem lawful_seedBundledFrom {fortune : Nat → Fortune} (H : w.state.Sound m)
    (options : BundledSeedOptions) (n : Nat) (sources : List (String × Package))
    (report : BundledSeedReport V) :
    Lawful m (seedGrants m options sources) w (seedBundledFrom m fortune options n sources report) := by
  induction sources generalizing n report w with
  | nil => exact lawful_of_leaves H (Prog.leaves_pure _)
  | cons entry rest ih =>
    obtain ⟨label, source⟩ := entry
    refine Lawful.bind ?_ fun report w' H' => ih H' _ _
    rw [seedEntry]
    cases validatePackageDirectory m.toHost source with
    | error e => exact lawful_of_leaves H (Prog.leaves_pure _)
    | ok package =>
      exact ((lawful_seedPackage H source package options).bind_leaves fun _ =>
        Prog.leaves_pure _).handle_leaves fun _ => Prog.leaves_pure _

/-! ## Runs -/

/-- What is done with a manager, and what happens to the directories behind its back -/
inductive Operation
  | installFromDirectory (source : Package) (options : InstallOptions)
  | installPayload (files : List (String × Bytes)) (options : InstallOptions)
  | seed (sources : List (String × Package)) (options : BundledSeedOptions)
  | setGrants (id : String) (grants : Finset String)
  | grant (id permission : String)
  | revoke (id permission : String)
  | setEnabled (id : String) (enabled : Bool)
  | uninstall (id : String)
  | clearBundledRemoval (id : String)
  | scan
  | touch (plugins : String → Option Package)

/-- The permissions that an operation is given -/
def Operation.passed (m : Manager V) : Operation → Finset String
  | .installFromDirectory _ options => options.grants
  | .installPayload _ options => options.grants
  | .seed sources options => seedGrants m options sources
  | .setGrants _ grants => grants
  | .grant _ permission => {permission}
  | _ => ∅

/-- An operation, of whose result only what it leaves behind is kept -/
def Operation.run (m : Manager V) (fortune : Nat → Fortune) : Operation → Fs V Unit
  | .installFromDirectory source options => do
    let _ ← PluginManager.installFromDirectory m (fortune 0).fate (fortune 0).uuid source options
  | .installPayload files options => do
    let _ ← PluginManager.installPayload m (fortune 0).fate (fortune 0).uuid files options
  | .seed sources options => do
    let _ ← seedBundledFrom m fortune options 0 sources {}
  | .setGrants id grants => do
    let _ ← PluginManager.setGrants m (fortune 0).fate id grants
  | .grant id permission => do
    let _ ← PluginManager.grant m (fortune 0).fate id permission
  | .revoke id permission => do
    let _ ← PluginManager.revoke m (fortune 0).fate id permission
  | .setEnabled id enabled => do
    let _ ← PluginManager.setEnabled m (fortune 0).fate id enabled
  | .uninstall id => do
    let _ ← PluginManager.uninstall m (fortune 0).fate id
  | .clearBundledRemoval id => PluginManager.clearBundledRemoval m (fortune 0).fate id
  | .scan => PluginManager.scan m (fortune 0).fate
  | .touch plugins => Prog.modify fun w => { w with disk := { w.disk with plugins } }

theorem lawful_run (H : w.state.Sound m) (fortune : Nat → Fortune) (op : Operation) :
    Lawful m (op.passed m) w (op.run m fortune) := by
  have hdrop : ∀ {α : Type} (a : α), (pure () : Fs V Unit).Leaves (World.state (V := V)) :=
    fun _ => Prog.leaves_pure _
  cases op with
  | installFromDirectory source options =>
    exact (lawful_installFromDirectory H source options).bind_leaves hdrop
  | installPayload files options => exact (lawful_installPayload H files options).bind_leaves hdrop
  | seed sources options => exact (lawful_seedBundledFrom H options 0 sources {}).bind_leaves hdrop
  | setGrants id grants =>
    exact (lawful_setGrants H Finset.subset_union_right).bind_leaves hdrop
  | grant id permission => exact (lawful_grant H id permission).bind_leaves hdrop
  | revoke id permission => exact (lawful_revoke H id permission).bind_leaves hdrop
  | setEnabled id enabled => exact (lawful_setEnabled H id enabled).bind_leaves hdrop
  | uninstall id => exact (lawful_uninstall H id).bind_leaves hdrop
  | clearBundledRemoval id => exact lawful_clearBundledRemoval H id
  | scan => exact lawful_scan H
  | touch plugins => exact ⟨H, .refl _⟩

/-- A step of a run: an operation with what the world decides during it, unless the process dies -/
def Manager.step (m : Manager V) (w : World V) (op : Operation × (Nat → Fortune)) :
    Option (World V) :=
  match op.1.run m op.2 w with
  | (.died, _) => none
  | (_, w') => some w'

theorem lawful_step {op : Operation × (Nat → Fortune)} (H : w.state.Sound m)
    (h : m.step w op = some w') :
    w'.state.Sound m ∧ w.state.Within (op.1.passed m) w'.state := by
  have hlawful := lawful_run H op.2 op.1
  rw [Lawful, Prog.Ensures] at hlawful
  rw [Manager.step] at h
  generalize op.1.run m op.2 w = r at h hlawful
  obtain ⟨a | e | _, w₁⟩ := r
  · cases h
    exact hlawful
  · cases h
    exact hlawful
  · cases h

/-- A manager has come up on what lay on the disk. -/
def Started (m : Manager V) (w : World V) : Prop :=
  ∃ disk, PluginManager.start m ⟨{}, disk⟩ = (.done (), w)

omit [LinearOrder V] in
theorem Started.sound (h : Started m w) : w.state.Sound m := by
  obtain ⟨disk, h⟩ := h
  have hstart : (start m).Ensures ⟨{}, disk⟩ (fun _ w' => w'.state.Sound m) (fun _ _ => True)
      fun _ => True := by
    rw [start]
    simp only [Prog.ensures_bind, Prog.ensures_modify]
    -- Whatever the recovery has done, the scan that follows makes the records anew.
    refine Prog.ensures_of_forall (fun _ w₁ => ?_) (fun _ _ => trivial) fun _ => trivial
    rw [scan]
    refine (ensures_persistOr (Prog.leaves_pure _)).mono (fun _ w₂ h₂ => ?_) (fun _ _ _ => trivial)
      fun _ _ => trivial
    rw [h₂]
    exact sound_scanned m _ _
  rw [Prog.Ensures, h] at hstart
  exact hstart

theorem peerSend_valid :
    ∀ permission ∈ ({"peer:send"} : Finset String), validPermissionName permission = true := by
  decide +kernel

/-- A manager that reads the manifests it is given, and writes every registry -/
def managerOf (manifests : List (PluginManifestV2 Nat)) : Manager Nat where
  supportedApiVersion := 1
  limits := {}
  permissionRegistry := ⟨{"peer:send"}, peerSend_valid⟩
  fromSlice
    | [n] => manifests[n.toNat]?
    | _ => none
  registryBytes _ := 0
  registryBytes_erase _ _ := le_rfl

/-- What a manager finds that comes up for the first time -/
def firstWorld (m : Manager Nat) : World Nat := (start m ⟨{}, {}⟩).2

theorem started_firstWorld (manifests : List (PluginManifestV2 Nat)) :
    Started (managerOf manifests) (firstWorld (managerOf manifests)) := ⟨{}, rfl⟩

/-- A plugin with nothing but a trusted user interface -/
def trustedPlugin (id : String) (version : Nat) (permissions : List String) :
    PluginManifestV2 Nat where
  schemaVersion := 2
  id
  name := id
  version
  apiVersion version := version = 1
  ui := some ⟨"ui.js", .trustedRenderer⟩
  permissions

/-- The files of the plugin whose manifest is number `n` -/
def trustedFiles (n : UInt8) : List (String × Bytes) := [("manifest.json", [n]), ("ui.js", [])]

def allWork : Nat → Fortune := fun _ => ⟨fun _ => .works, "0"⟩

end Bluetalk.PluginManager

import Bluetalk.PluginManager.Undisturbed

/-!
# All or nothing

An operation that fails at one step on the disk leaves memory, the registry file and the plugins'
directories as they were. Two steps come too late for that: the removal of a directory that is in
the trash already, and the note that a bundled plugin is wanted again.
-/

open Option Function

namespace Bluetalk.PluginManager

variable {V : Type} {m : Manager V} {fate : FsStep → Fate} {uuid : String}
  {w w' : World V} {id : String} {registry : PersistedRegistry} {undo : Fs V Unit} {α β : Type}
  {f : FsStep}

/-- Memory, the directories of the plugins and the registry file are what they were. -/
structure Unchanged (w w' : World V) : Prop where
  state : w'.state = w.state
  plugins : w'.disk.plugins = w.disk.plugins
  registryFile : w'.disk.registryFile = w.disk.registryFile

theorem Unchanged.refl (w : World V) : Unchanged w w := ⟨rfl, rfl, rfl⟩

/-- What counts -/
def World.kept (w : World V) := (w.state, w.disk.plugins, w.disk.registryFile)

theorem file_persistRegistry (hback : fate .putBackOld = .works) :
    (persistRegistry m fate registry).Ensures w
      (fun _ w' => w'.disk.registryFile = some registry)
      (fun _ w' => w'.disk.registryFile = w.disk.registryFile) fun _ => True := by
  rw [persistRegistry]
  split
  · rfl
  · simp only [Prog.ensures_bind, Prog.ensures_get, Prog.ensures_handle, Prog.ensures_when,
      Prog.ensures_ignore, Prog.ensures_fail, ensures_fsStep, hback]
    cases hfile : w.disk.registryFile <;> simp

theorem failed_persistOr {snapshot : ManagerState V} {R : World V → Prop}
    (hback : fate .putBackOld = .works)
    (hundo : ∀ w', w'.beside = { w with state := snapshot }.beside →
      w'.disk.registryFile = w.disk.registryFile →
      undo.Ensures w' (fun _ => R) (fun _ => R) fun _ => True) :
    (persistOr m fate snapshot undo).Ensures w (fun _ _ => True) (fun _ => R) fun _ => True := by
  rw [persistOr]
  simp only [Prog.ensures_bind, Prog.ensures_get, Prog.ensures_handle, ensures_setState,
    Prog.ensures_fail]
  refine (file_persistRegistry hback).and (beside_persistRegistry m fate _ w) |>.mono
    (fun _ _ _ => trivial) (fun e w' h => ?_) fun _ _ => trivial
  obtain ⟨hfile, hbeside⟩ := h
  refine hundo _ ?_ hfile
  simp only [World.beside, Prod.mk.injEq] at hbeside ⊢
  exact ⟨trivial, hbeside.2⟩

/-! ## Directories -/

/-- A directory has taken the place of the plugin's, of which there is a backup. -/
structure Swapped (w w' : World V) (id : String) : Prop where
  state : w'.state = w.state
  registryFile : w'.disk.registryFile = w.disk.registryFile
  plugins : ∃ package, w'.disk.plugins = update w.disk.plugins id (some package)
  backups : ∀ old, w.disk.plugins id = some old →
    ∃ name backups, w'.disk.backups = (name, old) :: backups

theorem swapIn_spec (hroll : ∀ s : FsStep, s.isRollback = true → fate s = .works) :
    (swapIn fate uuid id (w.disk.plugins id).isSome).Ensures w (fun _ w' => Swapped w w' id)
      (fun _ w' => Unchanged w w') fun _ => True := by
  have hrestore := hroll .restore rfl
  simp only [swapIn, Prog.ensures_bind, Prog.ensures_handle, Prog.ensures_when,
    Prog.ensures_ignore, Prog.ensures_fail, ensures_fsStep, hrestore, reduceCtorEq, false_implies,
    forall_const, and_true, implies_true]
  cases hold : w.disk.plugins id with
  | none =>
    simp only [isSome_none, Bool.false_eq_true, false_implies, true_and, forall_const]
    refine ⟨fun _ => ⟨rfl, rfl, ⟨_, rfl⟩, ?_⟩, fun _ => .refl w⟩
    rw [hold]
    exact fun _ h => by cases h
  | some old =>
    have hbackUp : w.disk.backUp id (backupName uuid id) = _ := Disk.backUp_eq hold
    simp only [isSome_some, forall_const, Bool.true_eq_false, false_implies, and_true]
    rw [hbackUp]
    refine ⟨fun _ => ⟨fun _ => ⟨rfl, rfl, ⟨w.disk.newestStaged, ?_⟩, ?_⟩, fun _ => ⟨rfl, ?_, rfl⟩⟩,
      fun _ => .refl w⟩
    · exact update_idem _ _ _
    · rw [hold]
      exact fun _ h => ⟨_, _, by cases h; rfl⟩
    · exact update_back hold

/-- What was there before comes back, and nothing else is touched. -/
def BackTo (w₀ w w' : World V) : Prop :=
  w'.state = w.state ∧ w'.disk.plugins = w₀.disk.plugins ∧
    w'.disk.registryFile = w.disk.registryFile

theorem rollBack_spec {w₀ : World V} (hroll : ∀ s : FsStep, s.isRollback = true → fate s = .works)
    (hplugins : ∃ package, w.disk.plugins = update w₀.disk.plugins id (some package))
    (hbackups : ∀ old, w₀.disk.plugins id = some old →
      ∃ name backups, w.disk.backups = (name, old) :: backups) :
    (rollBack fate id (w₀.disk.plugins id).isSome).Ensures w (fun _ => BackTo w₀ w)
      (fun _ => BackTo w₀ w) fun _ => True := by
  have hdiscard := hroll .discard rfl
  have hrestore := hroll .restore rfl
  obtain ⟨package, hpackage⟩ := hplugins
  have hplugin : w.disk.plugins id = some package := by rw [hpackage, update_self]
  have htrash := Disk.toTrash_eq hplugin
  -- The removal of what is in the trash by then touches nothing else.
  have hremove : ∀ w₁ : World V, BackTo w₀ w w₁ →
      (removeDirAll fate .removeFailed Disk.leaveTrash (w₁.disk.trash.headD []) 0).Ensures w₁
        (fun _ => BackTo w₀ w) (fun _ => BackTo w₀ w) fun _ => True := by
    intro w₁ h₁
    have hleaves : (removeDirAll fate .removeFailed Disk.leaveTrash (w₁.disk.trash.headD []) 0 :
        Fs V Unit).Leaves World.kept :=
      leaves_removeDirAll (fun _ _ => rfl) _ _
    have hback : ∀ w₂ : World V, w₂.kept = w₁.kept → BackTo w₀ w w₂ := by
      intro w₂ h₂
      simp only [World.kept, Prod.mk.injEq] at h₂
      rw [BackTo, h₂.1, h₂.2.1, h₂.2.2]
      exact h₁
    exact (hleaves w₁).mono (fun _ => hback) (fun _ => hback) fun _ _ => trivial
  simp only [rollBack, Prog.ensures_bind, Prog.ensures_when, Prog.ensures_ignore, Prog.ensures_get,
    ensures_fsStep, hdiscard, hrestore, reduceCtorEq, false_implies, forall_const, and_true,
    implies_true]
  rw [htrash]
  cases hold : w₀.disk.plugins id with
  | none =>
    simp only [isSome_none, Bool.false_eq_true, false_implies, true_and, forall_const]
    have hgone : update w.disk.plugins id none = w₀.disk.plugins := by
      rw [hpackage]
      exact update_back hold
    exact hremove { w with disk := { w.disk with
      plugins := update w.disk.plugins id none, trash := package :: w.disk.trash } }
      ⟨rfl, hgone, rfl⟩
  | some old =>
    obtain ⟨name, backups, hnewest⟩ := hbackups old hold
    simp only [isSome_some, Bool.true_eq_false, false_implies, and_true, forall_const]
    have hrestored : Disk.restore id { w.disk with
        plugins := update w.disk.plugins id none
        trash := package :: w.disk.trash } = _ := Disk.restore_eq hnewest
    rw [hrestored]
    refine hremove { w with disk := _ } ⟨rfl, ?_, rfl⟩
    rw [hpackage, update_idem]
    exact update_back hold

/-! ## Operations -/

/-- Where the operation fails, nothing has changed. -/
def Atomic {α : Type} (p : Fs V α) (w : World V) : Prop :=
  p.Ensures w (fun _ _ => True) (fun _ w' => Unchanged w w') fun _ => True

theorem atomic_finishInstall [LinearOrder V]
    (hroll : ∀ s : FsStep, s.isRollback = true → fate s = .works) (package : ValidatedPackage V)
    (options : InstallOptions) : Atomic (finishInstall m fate uuid package options) w := by
  rw [Atomic, finishInstall]
  simp only [Prog.ensures_bind, Prog.ensures_get, ensures_check]
  refine ⟨fun record _ => ?_, fun _ _ => .refl w⟩
  refine (swapIn_spec hroll).mono (fun _ w₁ h₁ => ?_) (fun _ _ h => h) fun _ _ => trivial
  refine (failed_persistOr (R := Unchanged w) (hroll .putBackOld rfl) fun w₂ hbeside hfile => ?_).mono
    (fun _ w₃ _ => ?_) (fun _ _ h => h) fun _ _ => trivial
  · simp only [World.beside, Prod.mk.injEq] at hbeside
    obtain ⟨hstate, hplugins, -, hbackups, -⟩ := hbeside
    have hback : ∀ w₃, BackTo w w₂ w₃ → Unchanged w w₃ := fun w₃ h₃ =>
      ⟨h₃.1.trans hstate, h₃.2.1, h₃.2.2.trans (hfile.trans h₁.registryFile)⟩
    refine (rollBack_spec hroll ?_ ?_).mono (fun _ => hback) (fun _ => hback) fun _ _ => trivial
    · rw [hplugins]
      exact h₁.plugins
    · rw [hbackups]
      exact h₁.backups
  · rw [dropBackup]
    simp only [Prog.ensures_when, Prog.ensures_ignore, Prog.ensures_pure]
    exact ⟨fun _ => Prog.ensures_of_forall (fun _ _ => trivial) (fun _ _ => trivial)
      fun _ => trivial, fun _ => trivial⟩

theorem Atomic.leaves_bind {p : Fs V α} {f : α → Fs V β}
    (hp : p.Leaves World.kept)
    (hf : ∀ a w', Atomic (f a) w') : Atomic (p >>= f) w := by
  refine Prog.ensures_bind.mpr ((hp w).mono (fun a w₁ h₁ => ?_) (fun _ w₁ h₁ => ?_)
    fun _ _ => trivial)
  · refine Prog.Ensures.mono (hf a w₁) (fun _ _ h => h) (fun _ w₂ h₂ => ?_) fun _ h => h
    simp only [World.kept, Prod.mk.injEq] at h₁
    exact ⟨h₂.state.trans h₁.1, h₂.plugins.trans h₁.2.1, h₂.registryFile.trans h₁.2.2⟩
  · simp only [World.kept, Prod.mk.injEq] at h₁
    exact ⟨h₁.1, h₁.2.1, h₁.2.2⟩

theorem Atomic.handle_fail {p : Fs V α} (hp : Atomic p w)
    (hundo : undo.Leaves World.kept) :
    Atomic (p.handle fun e => do undo; Prog.fail e) w := by
  rw [Atomic]
  simp only [Prog.ensures_handle, Prog.ensures_bind, Prog.ensures_fail]
  refine Prog.Ensures.mono hp (fun _ _ h => h) (fun e w₁ h₁ => ?_) fun _ h => h
  have hback : ∀ w₂ : World V, w₂.kept = w₁.kept → Unchanged w w₂ := by
    intro w₂ h₂
    simp only [World.kept, Prod.mk.injEq] at h₂
    exact ⟨h₂.1.trans h₁.state, h₂.2.1.trans h₁.plugins, h₂.2.2.trans h₁.registryFile⟩
  exact (hundo w₁).mono (fun _ => hback) (fun _ => hback) fun _ _ => trivial

theorem Atomic.bind_safe {p : Fs V α} {f : α → Fs V β} (hp : Atomic p w)
    (hf : ∀ a w', (f a).Ensures w' (fun _ _ => True) (fun _ _ => False) fun _ => True) :
    Atomic (p >>= f) w :=
  Prog.ensures_bind.mpr (Prog.Ensures.mono hp
    (fun a w' _ => (hf a w').mono (fun _ _ h => h) (fun _ _ => False.elim) fun _ h => h)
    (fun _ _ h => h) fun _ h => h)

theorem safe_dropStaging (fate : FsStep → Fate) (a : α) (w : World V) :
    (do dropStaging fate; pure a : Fs V α).Ensures w (fun _ _ => True) (fun _ _ => False)
      fun _ => True := by
  rw [dropStaging]
  simp only [Prog.ensures_bind, Prog.ensures_get, Prog.ensures_ignore, Prog.ensures_pure]
  exact Prog.ensures_of_forall (fun _ _ => trivial) (fun _ _ => trivial) fun _ => trivial

theorem atomic_persistOr {state : ManagerState V} (hback : fate .putBackOld = .works) :
    (persistOr m fate w.state (pure ())).Ensures { w with state } (fun _ w' => w'.state = state)
      (fun _ w' => Unchanged w w') fun _ => True := by
  have hfailed : (persistOr m fate w.state (pure ())).Ensures { w with state } (fun _ _ => True)
      (fun _ w' => Unchanged w w') fun _ => True := by
    refine failed_persistOr hback fun w₂ hbeside hfile => ?_
    simp only [World.beside, Prod.mk.injEq] at hbeside
    exact ⟨hbeside.1, hbeside.2.1, hfile⟩
  exact ((ensures_persistOr (Prog.leaves_pure _)).and hfailed).mono (fun _ _ h => h.1)
    (fun _ _ h => h.2) fun _ h => h.2

/-! ## The law -/

/-- The operations that change what is installed. Seeding, which goes on after an error, is taken
package by package. -/
inductive Change
  | installFromDirectory (source : Package) (options : InstallOptions)
  | installPayload (files : List (String × Bytes)) (options : InstallOptions)
  | seedPackage (source : Package) (options : BundledSeedOptions)
  | setGrants (id : String) (grants : Finset String)
  | setEnabled (id : String) (enabled : Bool)
  | uninstall (id : String)

def Change.run [LinearOrder V] (m : Manager V) (fate : FsStep → Fate) (uuid : String) :
    Change → Fs V Unit
  | .installFromDirectory source options => do
    let _ ← PluginManager.installFromDirectory m fate uuid source options
  | .installPayload files options => do
    let _ ← PluginManager.installPayload m fate uuid files options
  | .seedPackage source options => do
    let package ← check (validatePackageDirectory m.toHost source)
    let _ ← PluginManager.seedPackage m fate uuid source package options
  | .setGrants id grants => do
    let _ ← PluginManager.setGrants m fate id grants
  | .setEnabled id enabled => do
    let _ ← PluginManager.setEnabled m fate id enabled
  | .uninstall id => do
    let _ ← PluginManager.uninstall m fate id

/-- Only the step `f` fails. -/
def FsStep.failing (f : FsStep) (s : FsStep) : Fate := if s = f then .fails else .works

/-- The steps of clearing that can fail: there is a registry file by then, and no old backup. -/
def FsStep.failsClearing : FsStep → Bool
  | .clearing .createTemp | .clearing .writeTemp | .clearing .moveOld | .clearing .moveNew => true
  | _ => false

/-- Whether a bundled package is installed when nothing fails -/
def seedInstalls [LinearOrder V] (m : Manager V) (w : World V) (source : Package)
    (options : BundledSeedOptions) : Bool :=
  match validatePackageDirectory m.toHost source with
  | .error _ => false
  | .ok package =>
    let existing := w.state.records package.manifest.id
    !(existing.any fun record => record.origin = .user) &&
      !(existing.any fun record => package.manifest.version ≤ record.manifest.version) &&
      match planInstall m existing (w.disk.plugins package.manifest.id).isSome package
        (seedInstallOptions package.manifest existing options) with
      | .error _ => false
      | .ok record => m.fits (w.state.put record).registry

/-- Whether an uninstallation gets as far as removing step `n` from the trash -/
def uninstallRemoves (m : Manager V) (w : World V) (id : String) (n : Nat) : Bool :=
  validPluginId id &&
    ((w.state.records id).any fun record => m.fits (w.state.remove id record).registry) &&
    (w.disk.plugins id).any fun package => n ≤ package.length

/-- Whether the step `f` fails after the change is made -/
def Change.failsLate [LinearOrder V] (m : Manager V) (w : World V) (f : FsStep) : Change → Bool
  | .seedPackage source options =>
    options.restoreRemoved && f.failsClearing && seedInstalls m w source options
  | .uninstall id =>
    match f with
    | .removeTrash n => uninstallRemoves m w id n
    | _ => false
  | _ => false

theorem atomic_installStaged [LinearOrder V]
    (hroll : ∀ s : FsStep, s.isRollback = true → fate s = .works)
    {fill : Fs V Unit} (hfill : fill.Leaves World.kept) (options : InstallOptions) :
    Atomic (installStaged m fate uuid fill options) w := by
  refine Atomic.leaves_bind (leaves_fsStep fun _ => rfl) fun _ w₁ => Atomic.bind_safe ?_
    fun record w₂ => safe_dropStaging fate record w₂
  refine Atomic.handle_fail ?_ (leaves_dropStaging (fun _ _ => rfl) fate)
  exact Atomic.leaves_bind hfill fun _ w₂ => Atomic.leaves_bind Prog.leaves_get fun _ w₃ =>
    Atomic.leaves_bind (leaves_check _) fun package w₄ => atomic_finishInstall hroll package options

/-! ### One failing step -/

theorem failing_ne (f s : FsStep) (h : s ≠ f) : f.failing s = .works := if_neg h

theorem failing_rollback (h : f.isRollback = false) (s : FsStep)
    (hs : s.isRollback = true) : f.failing s = .works := by
  refine failing_ne f s ?_
  rintro rfl
  rw [h] at hs
  cases hs

theorem find_of_update {records : String → Option (PluginRecord V)} {record : PluginRecord V} :
    find ⟨registry, update records id (some record)⟩ id = .ok record := by
  rw [find]
  dsimp only
  rw [update_self]

theorem atomic_setGrants (hback : fate .putBackOld = .works) (id : String)
    (grants : Finset String) : Atomic (setGrants m fate id grants) w := by
  rw [Atomic, setGrants]
  simp only [Prog.ensures_bind, Prog.ensures_get, ensures_check, ensures_setState]
  refine ⟨fun _ _ => ⟨fun record _ => ⟨fun _ _ => ?_, fun _ _ => .refl w⟩, fun _ _ => .refl w⟩,
    fun _ _ => .refl w⟩
  refine (atomic_persistOr hback).mono (fun _ w₁ h₁ => ⟨fun _ _ => trivial, fun e he => ?_⟩)
    (fun _ _ h => h) fun _ h => h
  rw [h₁, find_of_update] at he
  cases he

theorem atomic_setEnabled (H : w.state.Sound m) (hback : fate .putBackOld = .works) (id : String)
    (enabled : Bool) : Atomic (setEnabled m fate id enabled) w := by
  rw [Atomic, setEnabled]
  simp only [Prog.ensures_bind, Prog.ensures_get, ensures_check, ensures_setState]
  refine ⟨fun _ _ => ⟨fun record hfind => ⟨fun _ _ => ?_, fun _ _ => .refl w⟩, fun _ _ => .refl w⟩,
    fun _ _ => .refl w⟩
  rw [(H id record (find_eq_ok hfind)).persisted]
  simp only [Prog.ensures_bind, Prog.ensures_get, ensures_check, ensures_setState]
  refine (atomic_persistOr hback).mono (fun _ w₁ h₁ => ⟨fun _ _ => trivial, fun e he => ?_⟩)
    (fun _ _ h => h) fun _ h => h
  rw [h₁, find_of_update] at he
  cases he

theorem atomic_uninstall [LinearOrder V] (hf : f.isRollback = false)
    (hlate : (Change.uninstall id).failsLate m w f = false) :
    Atomic (uninstall m f.failing id) w := by
  rw [Atomic, uninstall]
  simp only [Prog.ensures_bind, Prog.ensures_get, ensures_check]
  refine ⟨fun _ hid => ?_, fun _ _ => .refl w⟩
  have hback := failing_rollback hf .putBackOld rfl
  cases hrecord : w.state.records id with
  | none => trivial
  | some record =>
    simp only [Prog.ensures_bind, ensures_setState, Prog.ensures_when]
    cases hplugin : w.disk.plugins id with
    | none =>
      simp only [isSome_none, Bool.false_eq_true, false_implies, true_and, forall_const]
      exact (atomic_persistOr hback).mono (fun _ _ _ => trivial) (fun _ _ h => h) fun _ h => h
    | some package =>
      have htrash := Disk.toTrash_eq hplugin
      simp only [isSome_some, Bool.true_eq_false, false_implies, and_true, forall_const,
        ensures_fsStep, htrash]
      refine ⟨fun _ => ?_, fun _ => .refl w, fun _ => trivial⟩
      refine (done_persistOr.and (failed_persistOr (R := Unchanged w) hback ?_)).mono
        (fun _ w₂ h₂ => ?_) (fun _ _ h => h.2) fun _ h => h.2
      · intro w₂ hbeside hfile
        simp only [World.beside, Prod.mk.injEq] at hbeside
        obtain ⟨hstate, hplugins, -, -, hnewest⟩ := hbeside
        simp only [Prog.ensures_when, Prog.ensures_ignore, ensures_fsStep,
          failing_rollback hf .takeBack rfl, reduceCtorEq, Bool.true_eq_false, false_implies,
          and_true, forall_const, Disk.takeBack_eq hnewest]
        refine ⟨hstate, ?_, hfile⟩
        rw [hplugins]
        exact update_back hplugin
      · -- Where the removal gets under way, the failing step is none of it.
        obtain ⟨⟨hfits, hbeside⟩, -⟩ := h₂
        simp only [World.beside, Prod.mk.injEq] at hbeside
        rw [Prog.ensures_get, hbeside.2.2.2.2, List.headD_cons]
        refine (completes_removeDirAll fun k _ hk => failing_ne _ _ ?_).mono (fun _ _ _ => trivial)
          (fun _ _ => False.elim) fun _ => False.elim
        rintro rfl
        have hlong : k ≤ package.length := by omega
        rw [Change.failsLate, uninstallRemoves, hrecord, hplugin, any_some, any_some,
          hfits, decide_eq_true hlong] at hlate
        rw [validatePluginId, ensure_eq_ok] at hid
        rw [hid] at hlate
        cases hlate

theorem uninstall_late {n : Nat} (h : uninstallRemoves m w id n = true) :
    (uninstall m (FsStep.removeTrash n).failing id).Ensures w (fun _ _ => False)
      (fun _ w' => ¬Unchanged w w') fun _ => False := by
  rw [uninstallRemoves, Bool.and_eq_true, Bool.and_eq_true] at h
  obtain ⟨⟨hid, hfits⟩, hlong⟩ := h
  obtain ⟨record, hrecord, hfits⟩ := (any_eq_true _ _).mp hfits
  obtain ⟨package, hplugin, hlong⟩ := (any_eq_true _ _).mp hlong
  have hworks : ∀ s : FsStep, s ≠ .removeTrash n → (FsStep.removeTrash n).failing s = .works :=
    fun s => failing_ne _ s
  have hvalid : (validatePluginId id : Except (PluginError V) Unit) = .ok () := ensure_eq_ok.mpr hid
  rw [uninstall]
  simp only [Prog.ensures_bind, Prog.ensures_get, ensures_check, hvalid, hrecord,
    forall_const, reduceCtorEq, false_implies, implies_true, and_true, ensures_setState,
    Prog.ensures_when, hplugin, isSome_some, Bool.true_eq_false, ensures_fsStep,
    hworks .toTrash (by simp), Disk.toTrash_eq hplugin]
  refine (goes_persistOr (fun s hs => hworks s ?_) hfits).ensures ?_
  · rintro rfl
    cases hs
  refine (fails_removeDirAll (Nat.zero_le n) ?_ (if_pos rfl) fun i hi => hworks _ ?_).mono
    (fun _ _ => False.elim) (fun _ w' h' hsame => ?_) fun _ => False.elim
  · rw [Nat.zero_add]
    exact of_decide_eq_true hlong
  · simpa using hi
  have hgone := congrArg (fun state : ManagerState V => state.records id)
    (h'.symm.trans hsame.state)
  dsimp only [World.written, ManagerState.remove] at hgone
  rw [update_self, hrecord] at hgone
  cases hgone

/-! ### Clearing -/

theorem safe_persistRegistry (hworks : ∀ s : FsStep, (FsStep.clearing s).failsClearing = true →
      fate s = .works)
    (hstale : fate .removeStaleBackup = .works ∨ w.disk.registryBackup = none)
    (hfits : m.fits registry = true) :
    (persistRegistry m fate registry).Ensures w (fun _ _ => True) (fun _ _ => False)
      fun _ => True := by
  rw [persistRegistry, hfits, Bool.not_true, if_neg Bool.false_ne_true]
  simp only [Prog.ensures_bind, Prog.ensures_get, Prog.ensures_handle, Prog.ensures_when,
    Prog.ensures_ignore, Prog.ensures_fail, ensures_fsStep, hworks .createTemp rfl,
    hworks .writeTemp rfl, hworks .moveOld rfl, hworks .moveNew rfl, reduceCtorEq, false_implies,
    forall_const, and_true, implies_true]
  refine fun hsome => ⟨trivial, fun hfails => ?_⟩
  rcases hstale with hstale | hstale
  · rw [hstale] at hfails
    cases hfails
  · rw [hstale] at hsome
    cases hsome

theorem fails_persistRegistry (hf : f.failsClearing = true)
    (hfile : w.disk.registryFile.isSome = true) (hbackup : w.disk.registryBackup = none)
    (hfits : m.fits registry = true) :
    (persistRegistry m (f.failing ∘ .clearing) registry).Ensures w (fun _ _ => False)
      (fun _ _ => True) fun _ => False := by
  rw [persistRegistry, hfits, Bool.not_true, if_neg Bool.false_ne_true]
  simp only [Prog.ensures_bind, Prog.ensures_get, Prog.ensures_handle, Prog.ensures_when,
    Prog.ensures_ignore, Prog.ensures_fail, ensures_fsStep, Function.comp_apply, hbackup, hfile,
    isSome_none, Bool.false_eq_true, Bool.true_eq_false, false_implies, true_and, and_true,
    forall_const, implies_true, id]
  cases f with
  | clearing s =>
    cases s with
    | createTemp | writeTemp | moveOld | moveNew => simp [FsStep.failing]
    | _ => cases hf
  | _ => cases hf

theorem safe_clearBundledRemoval (hid : validPluginId id = true)
    (hworks : ∀ s : FsStep, (FsStep.clearing s).failsClearing = true → fate s = .works)
    (hstale : fate .removeStaleBackup = .works ∨ w.disk.registryBackup = none)
    (hfits : m.fits w.state.registry = true) :
    (clearBundledRemoval m fate id).Ensures w (fun _ _ => True) (fun _ _ => False)
      fun _ => True := by
  have hvalid : (validatePluginId id : Except (PluginError V) Unit) = .ok () := ensure_eq_ok.mpr hid
  have hcleared : m.fits (w.state.clearRemoval id).registry = true :=
    decide_eq_true ((m.registryBytes_erase _ id).trans (of_decide_eq_true hfits))
  rw [clearBundledRemoval]
  simp only [persistOr, Prog.ensures_bind, Prog.ensures_get, ensures_check, hvalid, ensures_setState,
    Prog.ensures_handle, forall_const, reduceCtorEq, false_implies, implies_true, and_true]
  exact (safe_persistRegistry (w := { w with state := w.state.clearRemoval id }) hworks hstale
    hcleared).mono (fun _ _ h => h) (fun _ _ => False.elim) fun _ h => h

theorem fails_clearBundledRemoval (hf : f.failsClearing = true)
    (hid : validPluginId id = true) (hfile : w.disk.registryFile.isSome = true)
    (hbackup : w.disk.registryBackup = none) (hfits : m.fits w.state.registry = true) :
    (clearBundledRemoval m (f.failing ∘ .clearing) id).Ensures w (fun _ _ => False)
      (fun _ w' => w'.state = w.state) fun _ => False := by
  have hvalid : (validatePluginId id : Except (PluginError V) Unit) = .ok () := ensure_eq_ok.mpr hid
  have hcleared : m.fits (w.state.clearRemoval id).registry = true :=
    decide_eq_true ((m.registryBytes_erase _ id).trans (of_decide_eq_true hfits))
  rw [clearBundledRemoval]
  simp only [persistOr, Prog.ensures_bind, Prog.ensures_get, ensures_check, hvalid, ensures_setState,
    Prog.ensures_handle, Prog.ensures_pure, Prog.ensures_fail, forall_const, reduceCtorEq,
    implies_true, and_true]
  exact fails_persistRegistry (w := { w with state := w.state.clearRemoval id }) hf hfile hbackup
    hcleared

/-! ### Seeding -/

variable [LinearOrder V] {source : Package} {package : ValidatedPackage V}
  {options : BundledSeedOptions}

theorem seedInstalls_of_installed (hvalid : validatePackageDirectory m.toHost source = .ok package)
    (huser : ¬((w.state.records package.manifest.id).any fun record => record.origin = .user) = true)
    (hversion : ¬((w.state.records package.manifest.id).any fun record =>
      package.manifest.version ≤ record.manifest.version) = true)
    (h : Installed m w w' package
      (seedInstallOptions package.manifest (w.state.records package.manifest.id) options)) :
    seedInstalls m w source options = true ∧ m.fits w'.state.registry = true := by
  obtain ⟨record, hplan, hfits, hstate⟩ := h
  rw [hstate]
  refine ⟨?_, hfits⟩
  rw [seedInstalls, hvalid]
  dsimp only
  rw [hplan, Bool.eq_false_iff.mpr huser, Bool.eq_false_iff.mpr hversion]
  exact hfits

theorem backup_installFromDirectory {options : InstallOptions}
    (hvalid : validatePackageDirectory m.toHost source = .ok package) :
    (installFromDirectory m fate uuid source options).Ensures w
      (fun _ w' => (∀ s : FsStep, s.isClearing = false → fate s = .works) →
        w'.disk.registryBackup = none) (fun _ _ => True) fun _ => True := by
  by_cases hplan : ∃ w', Installed m w w' package options
  · obtain ⟨w', record, hplan, hfits, -⟩ := hplan
    by_cases hworks : ∀ s : FsStep, s.isClearing = false → fate s = .works
    · exact (completes_installFromDirectory hworks hvalid hplan hfits).mono
        (fun _ _ h _ => h.2.2) (fun _ _ _ => trivial) fun _ _ => trivial
    · exact Prog.ensures_of_forall (fun _ _ h => absurd h hworks) (fun _ _ => trivial)
        fun _ => trivial
  · exact (done_installFromDirectory hvalid).mono (fun _ w' h => absurd ⟨w', h⟩ hplan)
      (fun _ _ _ => trivial) fun _ _ => trivial

theorem atomic_seedPackage (hf : f.isRollback = false)
    (hvalid : validatePackageDirectory m.toHost source = .ok package)
    (hlate : (Change.seedPackage source options).failsLate m w f = false) :
    Atomic (seedPackage m f.failing uuid source package options) w := by
  rw [Atomic, seedPackage]
  simp only [Prog.ensures_bind, Prog.ensures_get]
  split
  · trivial
  split
  · exact .refl w
  split
  · trivial
  rename_i hremoved huser hversion
  simp only [Prog.ensures_bind, Prog.ensures_when, Prog.ensures_pure]
  have hatomic : Atomic (installFromDirectory m f.failing uuid source
      (seedInstallOptions package.manifest (w.state.records package.manifest.id) options)) w :=
    atomic_installStaged (failing_rollback hf)
      (leaves_copyPackageDirectory (fun _ _ => rfl) m f.failing source) _
  refine (done_installFromDirectory hvalid).and
    (hatomic.and (backup_installFromDirectory hvalid)) |>.mono (fun _ w₁ h₁ => ?_)
    (fun _ _ h => h.2.1) fun _ _ => trivial
  obtain ⟨hinstalls, hfits⟩ := seedInstalls_of_installed hvalid huser hversion h₁.1
  refine ⟨fun hrestore => ?_, fun _ => trivial⟩
  have hid := (sound_of_validatePackageDirectory hvalid).id
  rw [Change.failsLate, hrestore, hinstalls, Bool.true_and, Bool.and_true] at hlate
  have hworks : ∀ s : FsStep, (FsStep.clearing s).failsClearing = true →
      (f.failing ∘ FsStep.clearing) s = .works := by
    intro s hs
    refine failing_ne _ _ ?_
    rintro rfl
    rw [hs] at hlate
    cases hlate
  refine (safe_clearBundledRemoval hid hworks ?_ hfits).mono (fun _ _ h => h)
    (fun _ _ => False.elim) fun _ _ => trivial
  by_cases hstale : FsStep.clearing .removeStaleBackup = f
  · refine .inr (h₁.2.2 fun s hs => failing_ne f s ?_)
    rintro rfl
    rw [← hstale] at hs
    cases hs
  · exact .inl (failing_ne f _ hstale)

theorem seed_late (hrestore : options.restoreRemoved = true)
    (hf : f.failsClearing = true) (hinstalls : seedInstalls m w source options = true) :
    ((Change.seedPackage source options).run m f.failing uuid).Ensures w (fun _ _ => False)
      (fun _ w' => ¬Unchanged w w') fun _ => False := by
  rw [seedInstalls] at hinstalls
  cases hvalid : validatePackageDirectory m.toHost source with
  | error e =>
    rw [hvalid] at hinstalls
    cases hinstalls
  | ok package =>
    rw [hvalid] at hinstalls
    rw [Bool.and_eq_true, Bool.and_eq_true, Bool.not_eq_true', Bool.not_eq_true'] at hinstalls
    obtain ⟨⟨huser, hversion⟩, hinstalls⟩ := hinstalls
    cases hplan : planInstall m (w.state.records package.manifest.id)
        (w.disk.plugins package.manifest.id).isSome package
        (seedInstallOptions package.manifest (w.state.records package.manifest.id) options) with
    | error e =>
      rw [hplan] at hinstalls
      cases hinstalls
    | ok record =>
      rw [hplan] at hinstalls
      have hworks : ∀ s : FsStep, s.isClearing = false → f.failing s = .works := by
        intro s hs
        refine failing_ne f s ?_
        rintro rfl
        cases s with
        | clearing s => cases hs
        | _ => cases hf
      have hplanned := planned_of_planInstall hplan
      have hnew : w.state.put record ≠ w.state := by
        intro hsame
        have hrecord := congrArg (fun state : ManagerState V => state.records record.id) hsame
        dsimp only [ManagerState.put] at hrecord
        rw [update_self, hplanned.id_eq] at hrecord
        rw [← hrecord, any_some, hplanned.manifest_eq, decide_eq_false_iff_not] at hversion
        exact hversion le_rfl
      rw [Change.run]
      simp only [Prog.ensures_bind, ensures_check, hvalid, Except.ok.injEq, forall_eq',
        reduceCtorEq, false_implies, implies_true, and_true, seedPackage, Prog.ensures_get]
      rw [hrestore, if_neg (by simp), huser, hversion, if_neg Bool.false_ne_true,
        if_neg Bool.false_ne_true]
      simp only [Prog.ensures_bind, Prog.ensures_when, Prog.ensures_pure, forall_const,
        Bool.true_eq_false, false_implies, and_true]
      refine (completes_installFromDirectory hworks hvalid hplan hinstalls).mono
        (fun _ w₁ h₁ => ?_) (fun _ _ => False.elim) fun _ => False.elim
      obtain ⟨hstate, hfile, hbackup⟩ := h₁
      refine (fails_clearBundledRemoval hf (sound_of_validatePackageDirectory hvalid).id hfile
        hbackup (hstate ▸ hinstalls)).mono (fun _ _ => False.elim) (fun _ w₂ h₂ hsame => ?_)
        fun _ => False.elim
      exact hnew (hstate.symm.trans (h₂.symm.trans hsame.state))

/-! ## Every operation -/

theorem atomic_run (H : w.state.Sound m) (hf : f.isRollback = false) (op : Change)
    (hlate : op.failsLate m w f = false) : Atomic (op.run m f.failing uuid) w := by
  have hroll := failing_rollback hf
  have hback := hroll .putBackOld rfl
  have hdone : ∀ {α : Type} (_ : α) (w' : World V), (pure () : Fs V Unit).Ensures w'
      (fun _ _ => True) (fun _ _ => False) fun _ => True := fun _ _ => trivial
  cases op with
  | installFromDirectory source options =>
    exact (atomic_installStaged hroll
      (leaves_copyPackageDirectory (fun _ _ => rfl) m f.failing source) options).bind_safe hdone
  | installPayload files options =>
    exact (atomic_installStaged hroll
      (leaves_writePayload (fun _ _ => rfl) m f.failing files) options).bind_safe hdone
  | seedPackage source options =>
    rw [Atomic, Change.run, Prog.ensures_bind, ensures_check]
    exact ⟨fun package hvalid => (atomic_seedPackage hf hvalid hlate).bind_safe hdone,
      fun _ _ => .refl w⟩
  | setGrants id grants => exact (atomic_setGrants hback id grants).bind_safe hdone
  | setEnabled id enabled => exact (atomic_setEnabled H hback id enabled).bind_safe hdone
  | uninstall id => exact (atomic_uninstall hf hlate).bind_safe hdone

theorem late_run (uuid : String) (op : Change) (hlate : op.failsLate m w f = true) :
    (op.run m f.failing uuid).Ensures w (fun _ _ => False) (fun _ w' => ¬Unchanged w w')
      fun _ => False := by
  cases op with
  | seedPackage source options =>
    rw [Change.failsLate, Bool.and_eq_true, Bool.and_eq_true] at hlate
    exact seed_late hlate.1.1 hlate.1.2 hlate.2
  | uninstall id =>
    cases f with
    | removeTrash n =>
      rw [Change.run, Prog.ensures_bind]
      exact (uninstall_late hlate).mono (fun _ _ => False.elim) (fun _ _ h => h) fun _ h => h
    | _ => cases hlate
  | _ => cases hlate

/-- In every state of a manager and with every step that may fail, an operation that fails changes
nothing, unless it is the step that comes too late. -/
theorem atomic_iff_not_late {w₀ : World V} {ops : List (Operation × (Nat → Fortune))} {f : FsStep}
    (hstarted : Started m w₀) (hrun : FreeRun m.step w₀ ops w) (hf : f.isRollback = false)
    (op : Change) (uuid : String) :
    Atomic (op.run m f.failing uuid) w ↔ op.failsLate m w f = false := by
  refine ⟨fun hatomic => ?_, atomic_run ?_ hf op⟩
  · rw [Bool.eq_false_iff]
    intro hlate
    have hboth := (late_run uuid op hlate).and hatomic
    exact Prog.Ensures.elim (hboth.mono (fun _ _ h => h.1) (fun _ _ h => h.1 h.2) fun _ h => h.1)
  · exact hrun.invariant (I := fun w => w.state.Sound m) (fun _ H hstep => (lawful_step H hstep).1)
      hstarted.sound

/-- A plugin is uninstalled, but what is left of it in the trash cannot be removed: an error is
reported, and the plugin is gone. -/
theorem uninstall_reportsError : ∃ w,
    exec (managerOf [trustedPlugin "chess" 1 ["peer:send"]]).step
      (firstWorld (managerOf [trustedPlugin "chess" 1 ["peer:send"]]))
      [(.installPayload (trustedFiles 0) {}, allWork)] = some w ∧
    ¬Atomic ((Change.uninstall "chess").run (managerOf [trustedPlugin "chess" 1 ["peer:send"]])
      (FsStep.removeTrash 0).failing "1") w := by
  have hexec : ((exec (managerOf [trustedPlugin "chess" 1 ["peer:send"]]).step
      (firstWorld (managerOf [trustedPlugin "chess" 1 ["peer:send"]]))
      [(.installPayload (trustedFiles 0) {}, allWork)]).any fun w =>
      match (Change.uninstall "chess").run (managerOf [trustedPlugin "chess" 1 ["peer:send"]])
        (FsStep.removeTrash 0).failing "1" w with
      | (.failed _, w') => (w.disk.plugins "chess").isSome && (w'.disk.plugins "chess").isNone
      | _ => false) = true := by
    decide +kernel
  obtain ⟨w, hw, hgone⟩ := (any_eq_true _ _).mp hexec
  refine ⟨w, hw, fun hatomic => ?_⟩
  rw [Atomic, Prog.Ensures] at hatomic
  split at hgone
  · rename_i e w' hfailed
    rw [hfailed] at hatomic
    rw [hatomic.plugins, Bool.and_eq_true, ← not_isSome] at hgone
    rw [hgone.1] at hgone
    cases hgone.2
  · cases hgone

/-- A registry that cannot be written changes nothing. -/
theorem atomic_iff_writeTemp : ∃ w,
    exec (managerOf [trustedPlugin "chess" 1 ["peer:send"]]).step
      (firstWorld (managerOf [trustedPlugin "chess" 1 ["peer:send"]]))
      [(.installPayload (trustedFiles 0) {}, allWork)] = some w ∧
    Atomic ((Change.uninstall "chess").run (managerOf [trustedPlugin "chess" 1 ["peer:send"]])
      (FsStep.writeTemp).failing "1") w := by
  have hexec : ((exec (managerOf [trustedPlugin "chess" 1 ["peer:send"]]).step
      (firstWorld (managerOf [trustedPlugin "chess" 1 ["peer:send"]]))
      [(.installPayload (trustedFiles 0) {}, allWork)]).any fun w =>
      (w.state.records "chess").isSome) = true := by
    decide +kernel
  obtain ⟨w, hw, -⟩ := (any_eq_true _ _).mp hexec
  exact ⟨w, hw, (atomic_iff_not_late (started_firstWorld _) (.of_exec hw) rfl _ "1").mpr rfl⟩

end Bluetalk.PluginManager

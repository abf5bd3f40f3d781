import Bluetalk.PluginManager.Undisturbed

/-!
# Recovery after a crash

What `PluginManager::new` makes of what a process leaves behind that dies in an installation. It
goes by the names of the backups: a name is taken for the backup of what stands before the first
`--` in it, which is not the plugin where that is in the plugin's id.
-/

open List Option Function

namespace Bluetalk.PluginManager

variable {V : Type} {m : Manager V} {uuid : String} {w w' : World V} {d : Disk} {id name : String}
  {registry : PersistedRegistry} {plugins plugins' : String → Option Package} {f : FsStep}

/-! ## The start -/

/-- What a start goes by -/
@[ext] structure Remains where
  plugins : String → Option Package
  backups : List (String × Package)
  registry : Option PersistedRegistry

def Disk.remains (d : Disk) : Remains :=
  ⟨d.plugins, d.backups, d.registryFile.or d.registryBackup⟩

/-- The directories of the plugins when the backups are put back, unless one has a bad name -/
def putBack : (String → Option Package) → List (String × Package) → Option (String → Option Package)
  | plugins, [] => some plugins
  | plugins, (name, package) :: rest =>
    (backupId name).bind fun id =>
      if validPluginId id then
        putBack (if (plugins id).isSome then plugins
          else update plugins id (some package)) rest
      else none

def Remains.putBack (r : Remains) : Option (String → Option Package) :=
  PluginManager.putBack r.plugins (r.backups.insertionSort fun a b => a.1 ≤ b.1)

/-- A manager that has come up -/
def World.up (m : Manager V) (plugins : String → Option Package) (registry : PersistedRegistry) :
    World V :=
  ⟨scanned m plugins registry,
    { plugins, registryFile := some (scanned m plugins registry).registry }⟩

theorem reconcile_reconcile (persisted : Option PersistedPluginState)
    (manifest : PluginManifestV2 V) :
    reconcile m (some (reconcile m persisted manifest)) manifest =
      reconcile m persisted manifest := by
  rw [reconcile, getD_some]
  simp only [reconcile, Finset.filter_filter, and_self, Bool.and_assoc, Bool.and_self]

theorem scanned_scanned (m : Manager V) (plugins : String → Option Package)
    (registry : PersistedRegistry) :
    scanned m plugins (scanned m plugins registry).registry = scanned m plugins registry := by
  simp only [scanned, ManagerState.mk.injEq, PersistedRegistry.mk.injEq, and_true]
  refine ⟨funext fun id => ?_, funext fun id => ?_⟩
  · cases candidate m plugins id with
    | none => rfl
    | some validated => simp only [reconcile_reconcile]
  · cases candidate m plugins id with
    | none => rfl
    | some validated => simp only [map_some, reconcile_reconcile]

theorem ensures_recoverBackups (list : List (String × Package)) :
    (recoverBackups list).Ensures w
      (fun _ w' => ∃ plugins, putBack w.disk.plugins list = some plugins ∧
        w' = { w with disk := { w.disk with
          plugins, backups := w.disk.backups.filter fun backup => backup.1 ∉ list.map (·.1) } })
      (fun _ _ => putBack w.disk.plugins list = none) fun _ => False := by
  induction list generalizing w with
  | nil => simp [recoverBackups, putBack]
  | cons backup rest ih =>
    obtain ⟨name, package⟩ := backup
    rw [recoverBackups, putBack]
    cases hid : backupId name with
    | none => rfl
    | some id =>
      simp only [Prog.ensures_bind, Prog.ensures_modify, ensures_check, Option.bind_some]
      cases hvalid : validPluginId id with
      | false => exact ⟨fun _ h => (by cases h), fun _ _ => if_neg Bool.false_ne_true⟩
      | true =>
        refine ⟨fun _ _ => ?_, fun _ h => (by cases h)⟩
        have hstep : (if (w.disk.plugins id).isSome = true
              then { w.disk with backups := w.disk.backups.filter (·.1 ≠ name) }
              else { w.disk with
                plugins := Function.update w.disk.plugins id (some package)
                backups := w.disk.backups.filter (·.1 ≠ name) }) =
            { w.disk with
              plugins := if (w.disk.plugins id).isSome then w.disk.plugins
                else Function.update w.disk.plugins id (some package)
              backups := w.disk.backups.filter (·.1 ≠ name) } := by
          split <;> rfl
        rw [hstep]
        refine ih.mono (fun _ w₁ h₁ => ?_) (fun _ _ h₁ => h₁) fun _ => False.elim
        obtain ⟨plugins, hplugins, rfl⟩ := h₁
        refine ⟨plugins, hplugins, ?_⟩
        simp only [List.filter_filter, List.map_cons, List.mem_cons, not_or]
        congr 3
        funext backup
        simp [Bool.and_comm]

theorem filter_sorted (backups : List (String × Package)) :
    (backups.filter fun backup =>
      backup.1 ∉ (backups.insertionSort fun a b => a.1 ≤ b.1).map (·.1)) = [] := by
  rw [filter_eq_nil_iff]
  intro backup hmem
  rw [decide_eq_true_eq, not_not]
  exact mem_map_of_mem ((mem_insertionSort _).mpr hmem)

theorem ensures_start {s : ManagerState V} : (start m).Ensures ⟨s, d⟩
    (fun _ w' => ∃ plugins, d.remains.putBack = some plugins ∧
      m.fits (scanned m plugins (d.remains.registry.getD {})).registry = true ∧
        w' = World.up m plugins (d.remains.registry.getD {}))
    (fun _ _ => ∀ plugins, d.remains.putBack = some plugins →
      m.fits (scanned m plugins (d.remains.registry.getD {})).registry = false)
    fun _ => False := by
  have hrecovered : d.recoverRegistryFile =
      { d with registryFile := d.remains.registry, registryBackup := none, temps := 0 } := by
    rw [Disk.recoverRegistryFile, Disk.remains]
    cases d.registryFile <;> cases d.registryBackup <;> rfl
  rw [start, recoverInterruptedInstalls]
  simp only [Prog.ensures_bind, Prog.ensures_modify, Prog.ensures_get, hrecovered]
  refine (ensures_recoverBackups _).mono (fun _ w₁ h₁ => ?_) (fun _ _ h₁ plugins h => ?_)
    fun _ => False.elim
  · obtain ⟨plugins, hplugins, rfl⟩ := h₁
    rw [scan]
    simp only [Prog.ensures_bind, Prog.ensures_get, ensures_setState, filter_sorted]
    cases hfits : m.fits (scanned m plugins (d.remains.registry.getD {})).registry with
    | true =>
      refine (goes_persistOr (fun _ _ => rfl) hfits).ensures ⟨plugins, hplugins, hfits, rfl⟩
    | false =>
      rw [persistOr]
      simp only [Prog.ensures_bind, Prog.ensures_get, Prog.ensures_handle, ensures_setState,
        persistRegistry, hfits]
      intro plugins' h
      obtain rfl : plugins = plugins' := some.inj (hplugins.symm.trans h)
      exact hfits
  · cases h₁.symm.trans h

theorem start_eq_done {state : ManagerState V} : start m ⟨state, d⟩ = (.done (), w') ↔
    ∃ plugins, d.remains.putBack = some plugins ∧
      m.fits (scanned m plugins (d.remains.registry.getD {})).registry = true ∧
        w' = World.up m plugins (d.remains.registry.getD {}) := by
  have hstart := ensures_start (m := m) (d := d) (s := state)
  rw [Prog.Ensures] at hstart
  constructor
  · intro h
    rw [h] at hstart
    exact hstart
  rintro ⟨plugins, hplugins, hfits, rfl⟩
  generalize start m ⟨state, d⟩ = r at hstart ⊢
  obtain ⟨a | e | _, w₁⟩ := r
  · obtain ⟨plugins', hplugins', -, rfl⟩ := hstart
    rw [hplugins] at hplugins'
    cases hplugins'
    rfl
  · rw [hstart plugins hplugins] at hfits
    cases hfits
  · exact hstart.elim

/-! ## What is settled -/

/-- Memory, the directories and the registry file agree, as they do after a start. -/
structure Settled (m : Manager V) (w : World V) : Prop where
  scanned : scanned m w.disk.plugins w.state.registry = w.state
  fits : m.fits w.state.registry = true
  backups : w.disk.backups = []
  registryFile : w.disk.registryFile = some w.state.registry
  registryBackup : w.disk.registryBackup = none

theorem Started.settled (h : Started m w) : Settled m w := by
  obtain ⟨disk, h⟩ := h
  obtain ⟨plugins, -, hfits, rfl⟩ := start_eq_done.mp h
  exact ⟨scanned_scanned m _ _, hfits, rfl, rfl, rfl⟩

theorem Settled.sound (H : Settled m w) : w.state.Sound m := by
  rw [← H.scanned]
  exact sound_scanned m _ _

theorem Settled.remains (H : Settled m w) :
    w.disk.remains = ⟨w.disk.plugins, [], some w.state.registry⟩ := by
  rw [Disk.remains, H.backups, H.registryFile, some_or]

theorem start_up {state : ManagerState V}
    (hfits : m.fits (PluginManager.scanned m plugins registry).registry = true) :
    start m ⟨state, (World.up m plugins registry).disk⟩ = (.done (), World.up m plugins registry) := by
  refine start_eq_done.mpr ⟨plugins, rfl, ?_, ?_⟩
  · simpa only [World.up, Disk.remains, some_or, getD_some, scanned_scanned]
  · simp only [World.up, Disk.remains, some_or, getD_some, scanned_scanned]

/-! ## The process dies -/

/-- The process dies at the step `f`. -/
def FsStep.dying (f s : FsStep) : Fate := if s = f then .dies else .works

theorem ensures_dying {s : FsStep} {g : Disk → Disk} {Q : Unit → World V → Prop}
    {E : PluginError V → World V → Prop} {D : World V → Prop} :
    (step f.dying s g).Ensures w Q E D ↔
      (s ≠ f → Q () { w with disk := g w.disk }) ∧ (s = f → D w) := by
  rw [ensures_fsStep, FsStep.dying]
  split <;> simp [*]

/-- The steps at which the registry is not written yet -/
def FsStep.isBeforeWritten : FsStep → Bool
  | createTemp | writeTemp | moveOld | moveNew => true
  | _ => false

theorem dying_persistRegistry (hfile : w.disk.registryFile.isSome = true)
    (hbackup : w.disk.registryBackup = none) (hfits : m.fits registry = true) :
    (persistRegistry m f.dying registry).Ensures w
      (fun _ w' => w' = w.written registry ∧ f.isBeforeWritten = false ∧ f ≠ .removeOld)
      (fun _ _ => False)
      fun w' => f.isBeforeWritten = true ∧ w'.disk.remains = w.disk.remains ∨
        f = .removeOld ∧ w'.disk.remains = { w.disk.remains with registry := some registry } := by
  obtain ⟨state, plugins, staging, backups, trash, file, backup, temps⟩ := w
  obtain ⟨file, rfl⟩ := isSome_iff_exists.mp hfile
  subst hbackup
  rw [persistRegistry, hfits, Bool.not_true, if_neg Bool.false_ne_true]
  simp only [Prog.ensures_bind, Prog.ensures_get, Prog.ensures_handle, Prog.ensures_when,
    Prog.ensures_ignore, Prog.ensures_fail, ensures_dying, isSome_none, isSome_some,
    Bool.false_eq_true, Bool.true_eq_false, false_implies, true_and, and_true, forall_const, id]
  cases f <;> simp [World.written, FsStep.isBeforeWritten, Disk.remains]

theorem leaveBackup_eq {backup r : Package} {backups : List (String × Package)}
    (h : d.backups = (name, backup) :: backups) :
    d.leaveBackup none = { d with backups } ∧
      d.leaveBackup (some r) = { d with backups := (name, r) :: backups } := by
  simp only [Disk.leaveBackup, h, tail_cons, and_self]

theorem dying_removeBackup {backup : Package} {n : Nat}
    (hbackups : w.disk.backups = [(name, backup)]) :
    (removeDirAll f.dying .removeBackup Disk.leaveBackup backup n).Ensures w
      (fun _ w' => w'.disk.remains = ⟨w.disk.plugins, [], w.disk.remains.registry⟩ ∧
        ∀ k, f = .removeBackup (n + k) → backup.length < k)
      (fun _ _ => False)
      fun w' => ∃ k, k ≤ backup.length ∧ f = .removeBackup (n + k) ∧
        w'.disk.remains = ⟨w.disk.plugins, [(name, backup.drop k)], w.disk.remains.registry⟩ := by
  induction backup generalizing n w with
  | nil =>
    rw [removeDirAll, ensures_dying, (leaveBackup_eq (r := []) hbackups).1]
    refine ⟨fun hne => ⟨rfl, fun k hk => ?_⟩, fun heq => ⟨0, le_rfl, heq.symm, ?_⟩⟩
    · cases k with
      | zero => exact absurd hk.symm hne
      | succ k => exact Nat.succ_pos k
    · rw [Disk.remains, hbackups]
      rfl
  | cons entry rest ih =>
    rw [removeDirAll, Prog.ensures_bind, ensures_dying, (leaveBackup_eq hbackups).2]
    refine ⟨fun hne => ?_, fun heq => ⟨0, Nat.zero_le _, heq.symm, ?_⟩⟩
    · refine (ih (n := n + 1) rfl).mono (fun _ w' h => ⟨h.1, fun k hk => ?_⟩)
        (fun _ _ => False.elim) fun w' h => ?_
      · cases k with
        | zero => exact absurd hk.symm hne
        | succ k =>
          have hlong := h.2 k (by rw [hk, Nat.add_right_comm, Nat.add_assoc])
          rw [length_cons]
          omega
      · obtain ⟨k, hk, hf, hw'⟩ := h
        refine ⟨k + 1, ?_, ?_, hw'⟩
        · rw [length_cons]
          omega
        · rw [hf, Nat.add_right_comm, Nat.add_assoc]
    · rw [Disk.remains, hbackups]
      rfl

theorem dying_removeDirAll {τ : Type} {g : World V → τ} {name : Nat → FsStep}
    {leave : Option Package → Disk → Disk}
    (hg : ∀ left w, g { w with disk := leave left w.disk } = g w) (package : Package) (n : Nat) :
    (removeDirAll f.dying name leave package n).Ensures w (fun _ w' => g w' = g w)
      (fun _ w' => g w' = g w) fun w' => g w' = g w ∧ ∃ k, f = name k := by
  induction package generalizing n w with
  | nil =>
    rw [removeDirAll, ensures_dying]
    exact ⟨fun _ => hg none w, fun heq => ⟨rfl, n, heq.symm⟩⟩
  | cons entry rest ih =>
    rw [removeDirAll, Prog.ensures_bind, ensures_dying]
    refine ⟨fun _ => ?_, fun heq => ⟨rfl, n, heq.symm⟩⟩
    have hrest := ih (w := { w with disk := leave (some rest) w.disk }) (n := n + 1)
    rwa [hg (some rest) w] at hrest

/-! ## What is left behind -/

/-- What an installation that nothing disturbs puts in place -/
structure Outcome (V : Type) where
  package : Package
  record : PluginRecord V

section

variable (w : World V) (uuid : String) (o : Outcome V)

/-- The backup of the directory that the plugin had -/
def Outcome.backups : List (String × Package) :=
  ((w.disk.plugins o.record.id).map (backupName uuid o.record.id, ·)).toList

/-- The plugin has no directory, but a backup. -/
def Outcome.between : Remains :=
  ⟨update w.disk.plugins o.record.id none, o.backups w uuid, some w.state.registry⟩

/-- The new directory is in place, the registry is not written. -/
def Outcome.swapped : Remains :=
  ⟨update w.disk.plugins o.record.id (some o.package), o.backups w uuid,
    some w.state.registry⟩

/-- The registry is written, with what is left of the backup. -/
def Outcome.written (backups : List (String × Package)) : Remains :=
  ⟨update w.disk.plugins o.record.id (some o.package), backups,
    some (w.state.put o.record).registry⟩

/-- What is left behind where the process dies half way -/
def Outcome.scene (m : Manager V) : FsStep → Option Remains
  | .cutOver => if (w.disk.plugins o.record.id).isSome then some (o.between w uuid) else none
  | .discard => if m.fits (w.state.put o.record).registry then none else some (o.swapped w uuid)
  | .restore =>
    if !m.fits (w.state.put o.record).registry && (w.disk.plugins o.record.id).isSome then
      some (o.between w uuid)
    else none
  | .createTemp | .writeTemp | .moveOld | .moveNew =>
    if m.fits (w.state.put o.record).registry then some (o.swapped w uuid) else none
  | .removeOld =>
    if m.fits (w.state.put o.record).registry then some (o.written w (o.backups w uuid)) else none
  | .removeBackup n =>
    if m.fits (w.state.put o.record).registry then
      (w.disk.plugins o.record.id).bind fun old =>
        if n ≤ old.length then
          some (o.written w [(backupName uuid o.record.id, old.drop n)])
        else none
    else none
  | _ => none

end

variable {o : Outcome V}

theorem dying_rollBack {plugins₀ : String → Option Package} {package : Package}
    (hplugins : w.disk.plugins = update plugins₀ id (some package))
    (hbackups : w.disk.backups = ((plugins₀ id).map (name, ·)).toList) :
    (rollBack f.dying id (plugins₀ id).isSome).Ensures w
      (fun _ w' => w'.disk.remains = ⟨plugins₀, [], w.disk.remains.registry⟩ ∧ f ≠ .discard ∧
        ((plugins₀ id).isSome = true → f ≠ .restore))
      (fun _ _ => False)
      fun w' => f = .discard ∧ w'.disk.remains = w.disk.remains ∨
        f = .restore ∧ (plugins₀ id).isSome = true ∧ w'.disk.remains =
          ⟨update plugins₀ id none, w.disk.backups, w.disk.remains.registry⟩ ∨
        (∃ k, f = .removeFailed k) ∧
          w'.disk.remains = ⟨plugins₀, [], w.disk.remains.registry⟩ := by
  have hplugin : w.disk.plugins id = some package := by rw [hplugins, update_self]
  simp only [rollBack, Prog.ensures_bind, Prog.ensures_when, Prog.ensures_ignore, Prog.ensures_get,
    ensures_dying, Disk.toTrash_eq hplugin]
  have hremove : ∀ (w₁ : World V) (trash : Package),
      w₁.disk.remains = ⟨plugins₀, [], w.disk.remains.registry⟩ →
      (removeDirAll f.dying .removeFailed Disk.leaveTrash trash 0).Ensures w₁
        (fun _ w' => w'.disk.remains = ⟨plugins₀, [], w.disk.remains.registry⟩)
        (fun _ w' => w'.disk.remains = ⟨plugins₀, [], w.disk.remains.registry⟩)
        fun w' => (∃ k, f = .removeFailed k) ∧
          w'.disk.remains = ⟨plugins₀, [], w.disk.remains.registry⟩ := by
    intro w₁ trash h₁
    rw [← h₁]
    exact (dying_removeDirAll (g := fun w : World V => w.disk.remains) (fun _ _ => rfl) trash 0).mono
      (fun _ _ h => h) (fun _ _ h => h) fun _ h => h.symm
  refine ⟨fun hdiscard => ⟨fun hsome => ⟨fun hrestore => ?_, fun heq => ?_⟩, fun hnone => ?_⟩,
    fun heq => .inl ⟨heq.symm, trivial⟩⟩
  · obtain ⟨old, hold⟩ := isSome_iff_exists.mp hsome
    rw [hold, map_some, toList_some] at hbackups
    have hrestored : Disk.restore id { w.disk with
        plugins := update w.disk.plugins id none
        trash := package :: w.disk.trash } = _ := Disk.restore_eq hbackups
    rw [hrestored]
    refine (hremove _ _ ?_).mono (fun _ _ h => ⟨h, hdiscard.symm, fun _ => hrestore.symm⟩)
      (fun _ _ h => ⟨h, hdiscard.symm, fun _ => hrestore.symm⟩) fun _ h => .inr (.inr h)
    rw [Disk.remains, hplugins, update_idem, update_back hold]
    rfl
  · refine .inr (.inl ⟨heq.symm, hsome, ?_⟩)
    rw [Disk.remains, hplugins, update_idem]
    rfl
  · have hempty : plugins₀ id = none := not_isSome_iff_eq_none.mp (by rw [hnone]; decide)
    rw [hempty, map_none, toList_none] at hbackups
    have hne : (plugins₀ id).isSome = true → f ≠ .restore := fun h => by
      rw [hnone] at h
      cases h
    refine (hremove _ _ ?_).mono (fun _ _ h => ⟨h, hdiscard.symm, hne⟩)
      (fun _ _ h => ⟨h, hdiscard.symm, hne⟩) fun _ h => .inr (.inr h)
    have hback : update (update plugins₀ id (some package)) id none = plugins₀ :=
      update_back hempty
    rw [Disk.remains, hplugins, hbackups, hback]
    rfl

/-- The new directory is in place, and memory is changed. -/
structure Outcome.InPlace (o : Outcome V) (w : World V) (uuid : String) (w' : World V) : Prop where
  state : w'.state = w.state.put o.record
  plugins : w'.disk.plugins = update w.disk.plugins o.record.id (some o.package)
  backups : w'.disk.backups = o.backups w uuid
  registryFile : w'.disk.registryFile = some w.state.registry
  registryBackup : w'.disk.registryBackup = none

theorem Outcome.InPlace.remains (h : o.InPlace w uuid w') : w'.disk.remains = o.swapped w uuid := by
  rw [Disk.remains, h.plugins, h.backups, h.registryFile]
  rfl

theorem scene_before (hbefore : f.isBeforeWritten = true)
    (hfits : m.fits (w.state.put o.record).registry = true) :
    o.scene w uuid m f = some (o.swapped w uuid) := by
  cases f with
  | createTemp | writeTemp | moveOld | moveNew => exact if_pos hfits
  | _ => cases hbefore

theorem scene_done (hfits : m.fits (w.state.put o.record).registry = true)
    (hcut : (w.disk.plugins o.record.id).isSome = true → f ≠ .cutOver)
    (hbefore : f.isBeforeWritten = false) (hold : f ≠ .removeOld)
    (hbackup : ∀ old k, w.disk.plugins o.record.id = some old → f = .removeBackup k →
      old.length < k) : o.scene w uuid m f = none := by
  cases f with
  | cutOver => exact if_neg fun h => hcut h rfl
  | discard => exact if_pos hfits
  | restore => exact if_neg (by simp [hfits])
  | removeOld => exact absurd rfl hold
  | removeBackup n =>
    rw [Outcome.scene, if_pos hfits]
    cases hplugin : w.disk.plugins o.record.id with
    | none => rfl
    | some old => exact if_neg (Nat.not_le.mpr (hbackup old n hplugin rfl))
  | createTemp | writeTemp | moveOld | moveNew => cases hbefore
  | _ => rfl

theorem scene_undone (hfits : m.fits (w.state.put o.record).registry = false)
    (hcut : (w.disk.plugins o.record.id).isSome = true → f ≠ .cutOver) (hdiscard : f ≠ .discard)
    (hrestore : (w.disk.plugins o.record.id).isSome = true → f ≠ .restore) :
    o.scene w uuid m f = none := by
  have hnot : ¬m.fits (w.state.put o.record).registry = true := by rw [hfits]; decide
  cases f with
  | cutOver => exact if_neg fun h => hcut h rfl
  | discard => exact absurd rfl hdiscard
  | restore => exact if_neg fun h => hrestore (Bool.and_eq_true_iff.mp h).2 rfl
  | removeOld | removeBackup n | createTemp | writeTemp | moveOld | moveNew => exact if_neg hnot
  | _ => rfl

theorem dying_commit (H : Settled m w) (h : o.InPlace w uuid w')
    (hcut : (w.disk.plugins o.record.id).isSome = true → f ≠ .cutOver) :
    (do
      persistOr m f.dying w.state (rollBack f.dying o.record.id (w.disk.plugins o.record.id).isSome)
      dropBackup f.dying (w.disk.plugins o.record.id).isSome : Fs V Unit).Ensures w'
      (fun _ w'' => o.scene w uuid m f = none ∧ w''.disk.remains = o.written w [] ∧
        m.fits (w.state.put o.record).registry = true)
      (fun _ w'' => o.scene w uuid m f = none ∧ w''.disk.remains = w.disk.remains)
      fun w'' => w''.disk.remains = (o.scene w uuid m f).getD w.disk.remains := by
  have hremains := h.remains
  simp only [persistOr, Prog.ensures_bind, Prog.ensures_get, Prog.ensures_handle, ensures_setState,
    Prog.ensures_fail, h.state]
  cases hfits : m.fits (w.state.put o.record).registry with
  | false =>
    rw [persistRegistry, hfits, Bool.not_false, if_pos rfl, Prog.ensures_fail]
    have hregistry : w'.disk.remains.registry = some w.state.registry := by rw [hremains]; rfl
    have hback : w.disk.remains = ⟨w.disk.plugins, [], w'.disk.remains.registry⟩ := by
      rw [H.remains, hregistry]
    refine (dying_rollBack (w := { w' with state := w.state }) h.plugins h.backups).mono
      (fun _ w₁ h₁ => ?_) (fun _ _ => False.elim) fun w₁ h₁ => ?_
    · rw [hback]
      exact ⟨scene_undone hfits hcut h₁.2.1 h₁.2.2, h₁.1⟩
    obtain ⟨rfl, h₁⟩ | ⟨rfl, hsome, h₁⟩ | ⟨⟨k, rfl⟩, h₁⟩ := h₁
    · rw [h₁, Outcome.scene, hfits, if_neg Bool.false_ne_true, getD_some]
      exact hremains
    · rw [h₁, Outcome.scene, hfits, hsome, if_pos (by decide), getD_some]
      exact congrArg₂ (Remains.mk _) h.backups hregistry
    · rw [h₁, hback]
      rfl
  | true =>
    refine (dying_persistRegistry (by rw [h.registryFile]; rfl) h.registryBackup hfits).mono
      (fun _ w₁ h₁ => ?_) (fun _ _ => False.elim) fun w₁ h₁ => ?_
    · obtain ⟨rfl, hbefore, hold⟩ := h₁
      rw [dropBackup]
      simp only [Prog.ensures_when, Prog.ensures_ignore, Prog.ensures_bind, Prog.ensures_get]
      refine ⟨fun hsome => ?_, fun hnone => ?_⟩
      · obtain ⟨old, hplugin⟩ := isSome_iff_exists.mp hsome
        have hbackups : (w'.written (w.state.put o.record).registry).disk.backups =
            [(backupName uuid o.record.id, old)] := by
          rw [World.written, h.backups, Outcome.backups, hplugin]
          rfl
        have hplugins : (w'.written (w.state.put o.record).registry).disk.plugins =
            update w.disk.plugins o.record.id (some o.package) := h.plugins
        rw [hbackups]
        have hdone : (∀ k, f = .removeBackup (0 + k) → old.length < k) →
            o.scene w uuid m f = none := by
          intro hlong
          refine scene_done hfits hcut hbefore hold fun old' k hplugin' hk => ?_
          obtain rfl : old = old' := some.inj (hplugin.symm.trans hplugin')
          exact hlong k (by rw [hk, Nat.zero_add])
        refine (dying_removeBackup hbackups).mono (fun _ w₂ h₂ => ⟨hdone h₂.2, ?_, trivial⟩)
          (fun _ _ => False.elim) fun w₂ h₂ => ?_
        · rw [h₂.1, hplugins]
          rfl
        obtain ⟨k, hk, rfl, h₂⟩ := h₂
        rw [h₂, hplugins, Outcome.scene, if_pos hfits, hplugin, bind_some,
          if_pos (by rwa [Nat.zero_add]), getD_some, Nat.zero_add]
        rfl
      · have hempty : w.disk.plugins o.record.id = none :=
          not_isSome_iff_eq_none.mp (by rw [hnone]; decide)
        refine ⟨scene_done hfits hcut hbefore hold fun old k hplugin => ?_, ?_, trivial⟩
        · rw [hempty] at hplugin
          cases hplugin
        · rw [Disk.remains, World.written, h.plugins, h.backups, Outcome.backups, hempty]
          rfl
    · obtain ⟨hbefore, h₁⟩ | ⟨rfl, h₁⟩ := h₁
      · rw [h₁, hremains]
        rw [scene_before hbefore hfits, getD_some]
      · rw [h₁, hremains, Outcome.scene, if_pos hfits, getD_some]
        rfl

theorem dying_finishInstall [LinearOrder V] (H : Settled m w) {package : ValidatedPackage V}
    {options : InstallOptions} {record : PluginRecord V}
    (hplan : planInstall m (w.state.records package.manifest.id)
      (w.disk.plugins package.manifest.id).isSome package options = .ok record)
    (ho : o = ⟨w.disk.newestStaged, record⟩) :
    (finishInstall m f.dying uuid package options).Ensures w
      (fun _ w' => o.scene w uuid m f = none ∧ w'.disk.remains = o.written w [] ∧
        m.fits (w.state.put o.record).registry = true)
      (fun _ w' => o.scene w uuid m f = none ∧ w'.disk.remains = w.disk.remains)
      fun w' => w'.disk.remains = (o.scene w uuid m f).getD w.disk.remains := by
  have hid : o.record.id = package.manifest.id := by rw [ho, (planned_of_planInstall hplan).id_eq]
  have hrecord : o.record = record := by rw [ho]
  have hpackage : o.package = w.disk.newestStaged := by rw [ho]
  rw [finishInstall, ← hid]
  rw [← hid] at hplan
  simp only [Prog.ensures_bind, Prog.ensures_get, ensures_check, hplan, Except.ok.injEq, forall_eq',
    reduceCtorEq, false_implies, implies_true, and_true, swapIn, Prog.ensures_when,
    Prog.ensures_handle, Prog.ensures_pure, ensures_dying, ensures_setState, ← hrecord]
  refine ⟨fun hsome => ⟨fun hbackUp => ⟨fun hcut => ?_, fun hcut => ?_⟩, fun hbackUp => ?_⟩,
    fun hnone => ⟨fun hcut => ?_, fun hcut => ?_⟩⟩
  · obtain ⟨old, hplugin⟩ := isSome_iff_exists.mp hsome
    refine Prog.ensures_bind.mp (dying_commit H ?_ fun _ => hcut.symm)
    rw [Disk.backUp_eq hplugin]
    refine ⟨rfl, ?_, ?_, H.registryFile, H.registryBackup⟩
    · rw [hpackage]
      exact update_idem _ _ _
    · rw [Outcome.backups, hplugin]
      exact congrArg (_ :: ·) H.backups
  · obtain ⟨old, hplugin⟩ := isSome_iff_exists.mp hsome
    rw [← hcut, Outcome.scene, if_pos hsome, getD_some, Disk.backUp_eq hplugin,
      Outcome.between, Outcome.backups, hplugin, Disk.remains, H.backups, H.registryFile]
    rfl
  · rw [← hbackUp]
    rfl
  · have hempty : w.disk.plugins o.record.id = none :=
      not_isSome_iff_eq_none.mp (by rw [hnone]; decide)
    refine Prog.ensures_bind.mp (dying_commit H ?_ fun _ => hcut.symm)
    refine ⟨rfl, ?_, ?_, H.registryFile, H.registryBackup⟩
    · rw [hpackage]
      rfl
    · rw [Outcome.backups, hempty]
      exact H.backups
  · rw [← hcut, Outcome.scene, hnone, if_neg Bool.false_ne_true]
    rfl

/-! ## Installations -/

inductive Install
  | directory (source : Package)
  | payload (files : List (String × Bytes))

namespace Install

def fill (m : Manager V) (fate : FsStep → Fate) : Install → Fs V Unit
  | .directory source => copyPackageDirectory m fate source
  | .payload files => writePayload m fate files

def run [LinearOrder V] (m : Manager V) (fate : FsStep → Fate) (uuid : String)
    (options : InstallOptions) : Install → Fs V (PluginRecord V)
  | .directory source => installFromDirectory m fate uuid source options
  | .payload files => installPayload m fate uuid files options

/-- What lies in the staging directory when nothing disturbs the installation -/
def staged (m : Manager V) : Install → Option Package
  | .directory source =>
    match validatePackageDirectory m.toHost source with
    | .ok _ => some source
    | .error _ => none
  | .payload files =>
    match checkPayload m files with
    | .ok () =>
      match files.foldlM (placeFile (V := V)) [] with
      | .ok package => some package
      | .error _ => none
    | .error _ => none

/-- What the installation puts in place when nothing disturbs it -/
def outcome [LinearOrder V] (m : Manager V) (w : World V) (options : InstallOptions)
    (install : Install) : Option (Outcome V) :=
  (install.staged m).bind fun staged =>
    match validatePackageDirectory m.toHost staged with
    | .error _ => none
    | .ok package =>
      match planInstall m (w.state.records package.manifest.id)
        (w.disk.plugins package.manifest.id).isSome package options with
      | .error _ => none
      | .ok record => some ⟨staged, record⟩

variable {install : Install} {options : InstallOptions} {fate : FsStep → Fate}

theorem done_writeFiles (hworks : ∀ n, fate (.stage n) = .works) {n : Nat}
    {files : List (String × Bytes)} {package : Package} {staging : List Package}
    (hstaging : w.disk.staging = package :: staging) :
    (writeFiles fate n files).Ensures w
      (fun _ w' => files.foldlM (placeFile (V := V)) package = .ok w'.disk.newestStaged)
      (fun _ _ => ∃ e, files.foldlM (placeFile (V := V)) package = .error e) fun _ => False := by
  induction files generalizing n w package with
  | nil =>
    rw [writeFiles, Prog.ensures_pure, Disk.newestStaged, hstaging]
    rfl
  | cons file rest ih =>
    rw [writeFiles]
    simp only [Prog.ensures_bind, Prog.ensures_get, ensures_check, ensures_fsStep, hworks,
      reduceCtorEq, false_implies, and_true, forall_const, Disk.newestStaged, hstaging,
      headD_cons, foldlM_cons]
    refine ⟨fun placed hplaced => ?_, fun e he => ⟨e, by rw [he]; rfl⟩⟩
    rw [hplaced]
    refine ih ?_
    rw [Disk.leaveStaging, hstaging]
    rfl

theorem done_fill (hworks : ∀ n, fate (.stage n) = .works) {staging : List Package}
    (hstaging : w.disk.staging = [] :: staging) :
    (install.fill m fate).Ensures w (fun _ w' => install.staged m = some w'.disk.newestStaged)
      (fun _ _ => install.staged m = none) fun _ => False := by
  cases install with
  | directory source =>
    rw [fill, staged]
    cases hvalid : validatePackageDirectory m.toHost source with
    | error e =>
      rw [copyPackageDirectory, hvalid]
      rfl
    | ok package => exact (goes_copyPackageDirectory hworks hstaging hvalid).ensures rfl
  | payload files =>
    rw [fill, staged, writePayload]
    cases hcheck : checkPayload m files with
    | error e => rfl
    | ok u =>
      refine (done_writeFiles hworks hstaging).mono (fun _ w' h => ?_) (fun _ _ h => ?_)
        fun _ => False.elim
      · rw [h]
      · obtain ⟨e, he⟩ := h
        rw [he]

/-- What staging leaves alone -/
def unstaged (w : World V) :=
  (w.state, w.disk.plugins, w.disk.backups, w.disk.registryFile, w.disk.registryBackup)

theorem leaves_fill (install : Install) (m : Manager V) (fate : FsStep → Fate) :
    (install.fill m fate).Leaves unstaged := by
  cases install with
  | directory source => exact leaves_copyPackageDirectory (fun _ _ => rfl) m fate source
  | payload files => exact leaves_writePayload (fun _ _ => rfl) m fate files

theorem remains_of_unstaged (h : unstaged w' = unstaged w) : w'.disk.remains = w.disk.remains := by
  simp only [unstaged, Prod.mk.injEq] at h
  obtain ⟨-, hplugins, hbackups, hfile, hbackup⟩ := h
  rw [Disk.remains, Disk.remains, hplugins, hbackups, hfile, hbackup]

theorem settled_of_unstaged (h : unstaged w' = unstaged w) (H : Settled m w) : Settled m w' := by
  simp only [unstaged, Prod.mk.injEq] at h
  obtain ⟨hstate, hplugins, hbackups, hfile, hbackup⟩ := h
  refine ⟨?_, ?_, hbackups.trans H.backups, ?_, hbackup.trans H.registryBackup⟩
  · rw [hstate, hplugins]
    exact H.scanned
  · rw [hstate]
    exact H.fits
  · rw [hfile, hstate]
    exact H.registryFile

/-- What is left behind where the process dies half way through the installation -/
def scene [LinearOrder V] (m : Manager V) (w : World V) (uuid : String) (options : InstallOptions)
    (f : FsStep) (install : Install) : Option Remains :=
  (install.outcome m w options).bind fun o => o.scene w uuid m f

/-- Where the process may have died: in one of the scenes, before the installation, or after it -/
def LeftBehind [LinearOrder V] (m : Manager V) (w : World V) (uuid : String)
    (options : InstallOptions) (f : FsStep) (install : Install) (d : Disk) : Prop :=
  d.remains = (install.scene m w uuid options f).getD w.disk.remains ∨
    install.scene m w uuid options f = none ∧
      ∃ o, install.outcome m w options = some o ∧ d.remains = o.written w [] ∧
        m.fits (w.state.put o.record).registry = true

theorem dying_dropStaging (f : FsStep) (w : World V) :
    (dropStaging f.dying).Ensures w (fun _ w' => w'.disk.remains = w.disk.remains)
      (fun _ _ => False)
      fun w' => w'.disk.remains = w.disk.remains ∧ ∃ k, f = .dropStaging k := by
  rw [dropStaging]
  simp only [Prog.ensures_bind, Prog.ensures_get, Prog.ensures_ignore]
  exact dying_removeDirAll (g := fun w : World V => w.disk.remains) (fun _ _ => rfl) _ _

theorem dying_fill {staging : List Package} (hstaging : w.disk.staging = [] :: staging) :
    (install.fill m f.dying).Ensures w
      (fun _ w' => unstaged w' = unstaged w ∧
        ((∀ k, f ≠ .stage k) → install.staged m = some w'.disk.newestStaged))
      (fun _ w' => unstaged w' = unstaged w ∧ ((∀ k, f ≠ .stage k) → install.staged m = none))
      fun w' => unstaged w' = unstaged w ∧ ∃ k, f = .stage k := by
  have hleaves := leaves_fill install m f.dying w
  by_cases hf : ∃ k, f = .stage k
  · exact hleaves.mono (fun _ _ h => ⟨h, fun hne => absurd hf (not_exists.mpr hne)⟩)
      (fun _ _ h => ⟨h, fun hne => absurd hf (not_exists.mpr hne)⟩) fun _ h => ⟨h, hf⟩
  · have hworks : ∀ n, f.dying (.stage n) = .works := fun n => if_neg fun h => hf ⟨n, h.symm⟩
    exact (hleaves.and (done_fill hworks hstaging)).mono (fun _ _ h => ⟨h.1, fun _ => h.2⟩)
      (fun _ _ h => ⟨h.1, fun _ => h.2⟩) fun _ h => h.2.elim

theorem scene_eq_none [LinearOrder V] {s : FsStep}
    (hs : ∀ o : Outcome V, o.scene w uuid m s = none) :
    install.scene m w uuid options s = none := by
  rw [scene]
  cases install.outcome m w options with
  | none => rfl
  | some o => exact hs o

theorem scene_of_stage [LinearOrder V] {k : Nat} :
    install.scene m w uuid options (.stage k) = none :=
  scene_eq_none fun _ => rfl

theorem dying_staged [LinearOrder V] (H : Settled m w) (hw : unstaged w' = unstaged w)
    (hstaged : (∀ k, f ≠ .stage k) → install.staged m = some w'.disk.newestStaged) :
    (do
      let package ← check (validatePackageDirectory m.toHost w'.disk.newestStaged)
      finishInstall m f.dying uuid package options : Fs V (PluginRecord V)).Ensures w'
      (fun _ w'' => install.scene m w uuid options f = none ∧ ((∀ k, f ≠ .stage k) →
        ∃ o, install.outcome m w options = some o ∧ w''.disk.remains = o.written w [] ∧
          m.fits (w.state.put o.record).registry = true))
      (fun _ w'' => install.scene m w uuid options f = none ∧ w''.disk.remains = w.disk.remains)
      fun w'' => w''.disk.remains = (install.scene m w uuid options f).getD w.disk.remains := by
  have H' := settled_of_unstaged hw H
  have hremains := remains_of_unstaged hw
  simp only [unstaged, Prod.mk.injEq] at hw
  obtain ⟨hstate, hplugins, -⟩ := hw
  have hnone : ((∀ k, f ≠ .stage k) → install.outcome m w options = none) →
      install.scene m w uuid options f = none := by
    intro h
    by_cases hf : ∃ k, f = .stage k
    · obtain ⟨k, rfl⟩ := hf
      exact scene_of_stage
    · rw [scene, h (not_exists.mp hf)]
      rfl
  rw [Prog.ensures_bind, ensures_check]
  refine ⟨fun package hvalid => ?_, fun e he => ⟨hnone fun hf => ?_, hremains⟩⟩
  · cases hplan : planInstall m (w'.state.records package.manifest.id)
        (w'.disk.plugins package.manifest.id).isSome package options with
    | error e =>
      rw [finishInstall]
      simp only [Prog.ensures_bind, Prog.ensures_get, ensures_check, hplan, Except.error.injEq,
        forall_eq', reduceCtorEq, false_implies, implies_true, true_and]
      refine ⟨hnone fun hf => ?_, hremains⟩
      rw [hstate, hplugins] at hplan
      rw [outcome, hstaged hf, bind_some, hvalid]
      dsimp only
      rw [hplan]
    | ok record =>
      have houtcome : (∀ k, f ≠ .stage k) →
          install.outcome m w options = some ⟨w'.disk.newestStaged, record⟩ := by
        intro hf
        rw [hstate, hplugins] at hplan
        rw [outcome, hstaged hf, bind_some, hvalid]
        dsimp only
        rw [hplan]
      have hscene : install.scene m w uuid options f =
          (⟨w'.disk.newestStaged, record⟩ : Outcome V).scene w' uuid m f := by
        by_cases hf : ∃ k, f = .stage k
        · obtain ⟨k, rfl⟩ := hf
          exact scene_of_stage
        · rw [scene, houtcome (not_exists.mp hf), bind_some]
          simp only [Outcome.scene, Outcome.between, Outcome.swapped, Outcome.written,
            Outcome.backups, hstate, hplugins]
      rw [hscene, ← hremains]
      refine (dying_finishInstall H' hplan rfl).mono (fun _ w₁ h₁ => ⟨h₁.1, fun hf => ?_⟩)
        (fun _ _ h => h) fun _ h => h
      refine ⟨_, houtcome hf, ?_⟩
      simpa only [Outcome.written, hstate, hplugins] using h₁.2
  · rw [outcome, hstaged hf, bind_some, he]

theorem dying_run [LinearOrder V] (H : Settled m w) :
    (install.run m f.dying uuid options).Ensures w
      (fun _ _ => install.scene m w uuid options f = none)
      (fun _ _ => install.scene m w uuid options f = none)
      fun w' => install.LeftBehind m w uuid options f w'.disk := by
  have hrun : install.run m f.dying uuid options =
      installStaged m f.dying uuid (install.fill m f.dying) options := by
    cases install <;> rfl
  rw [hrun, installStaged]
  simp only [Prog.ensures_bind, Prog.ensures_handle, Prog.ensures_get, ensures_dying,
    Prog.ensures_fail, Prog.ensures_pure]
  refine ⟨fun _ => ?_, fun hcreate => .inl ?_⟩
  · refine (dying_fill rfl).mono (fun _ w₂ h₂ => ?_) (fun e w₂ h₂ => ?_) fun w₂ h₂ => .inl ?_
    · refine Prog.ensures_bind.mp ((dying_staged H h₂.1 h₂.2).mono (fun _ w₃ h₃ => ?_)
        (fun e w₃ h₃ => ?_) fun w₃ h₃ => .inl h₃)
      · refine (dying_dropStaging f w₃).mono (fun _ _ _ => h₃.1) (fun _ _ => False.elim)
          fun w₄ h₄ => ?_
        obtain ⟨hremains, k, rfl⟩ := h₄
        obtain ⟨o, ho, hwritten, hfits⟩ := h₃.2 fun k => by simp
        exact .inr ⟨h₃.1, o, ho, hremains.trans hwritten, hfits⟩
      · refine (dying_dropStaging f w₃).mono (fun _ _ _ => h₃.1) (fun _ _ => False.elim)
          fun w₄ h₄ => .inl ?_
        rw [h₃.1]
        exact h₄.1.trans h₃.2
    · have hsame : w₂.disk.remains = w.disk.remains := remains_of_unstaged h₂.1
      have hnone : install.scene m w uuid options f = none := by
        by_cases hf : ∃ k, f = .stage k
        · obtain ⟨k, rfl⟩ := hf
          exact scene_of_stage
        · rw [scene, outcome, h₂.2 (not_exists.mp hf)]
          rfl
      refine (dying_dropStaging f w₂).mono (fun _ _ _ => hnone) (fun _ _ => False.elim)
        fun w₃ h₃ => .inl ?_
      rw [hnone]
      exact h₃.1.trans hsame
    · obtain ⟨hsame, k, rfl⟩ := h₂
      rw [scene_of_stage]
      exact remains_of_unstaged hsame
  · rw [scene_eq_none (s := f) fun o => by rw [← hcreate]; rfl]
    rfl

end Install

/-! ## The names of backups -/

theorem splitOnce_append {text rest : List Char} (h : text.getLast? ≠ some '-') :
    splitOnce (text ++ '-' :: '-' :: rest) =
      some (((splitOnce text).map fun split => (split.1, split.2 ++ '-' :: '-' :: rest)).getD
        (text, rest)) := by
  fun_induction splitOnce text with
  | case1 | case2 after => rfl
  | case3 c text hdash ih =>
    have hlast : text.getLast? ≠ some '-' := by
      cases text with
      | nil => simp
      | cons => simpa using h
    -- No `--` begins here: not in the text, nor where it ends.
    have hgo : splitOnce (c :: (text ++ '-' :: '-' :: rest)) =
        (splitOnce (text ++ '-' :: '-' :: rest)).map fun split => (c :: split.1, split.2) := by
      rw [splitOnce]
      intro after hc htext
      cases text with
      | nil => exact h (by rw [hc]; rfl)
      | cons c' text =>
        rw [cons_append, List.cons.injEq] at htext
        exact hdash text hc (by rw [htext.1])
    rw [cons_append, hgo, ih hlast]
    cases splitOnce text with
    | none | some split => rfl

/-- What a plugin's backup is taken for: the plugin's, unless there is a `--` in its id. -/
def backedUpAs (id : String) : String :=
  ((splitOnce id.toList).map fun split => String.ofList split.1).getD id

theorem backupId_backupName (hid : validPluginId id = true) :
    backupId (backupName uuid id) = some (backedUpAs id) := by
  have hlast : id.toList.getLast? ≠ some '-' := by
    intro hdash
    simp only [validPluginId, Bool.and_eq_true] at hid
    rw [hdash] at hid
    exact absurd hid.2 (by decide)
  have hname : (backupName uuid id).toList = id.toList ++ '-' :: '-' :: uuid.toList := by
    simp only [backupName, String.toList_append, append_assoc]
    rfl
  rw [backupId, hname, splitOnce_append hlast, backedUpAs]
  cases splitOnce id.toList with
  | none => exact congrArg some (String.ofList_toList)
  | some split => rfl

/-! ## Recovery -/

/-- A start succeeds on what lies on the disk. The plugin has its old directory or the complete new
one, all other plugins have theirs, the registry file is the old one or the complete new one, and a
second start changes nothing. -/
def Recovered (m : Manager V) (w : World V) (outcome : Option (Outcome V)) (d : Disk) : Prop :=
  ∃ w', start m ⟨{}, d⟩ = (.done (), w') ∧
    (∀ name, w'.disk.plugins name = w.disk.plugins name ∨
      ∃ o, outcome = some o ∧ name = o.record.id ∧ w'.disk.plugins name = some o.package) ∧
    (w'.disk.registryFile = w.disk.registryFile ∨
      ∃ o, outcome = some o ∧ w'.disk.registryFile = some (w.state.put o.record).registry) ∧
    start m ⟨{}, w'.disk⟩ = (.done (), w')

/-- Whether a backup of the plugin can be taken for that of the plugin, or of one that is there -/
def backupFound (w : World V) (id : String) : Bool :=
  validPluginId (backedUpAs id) &&
    (decide (backedUpAs id = id) || (w.disk.plugins (backedUpAs id)).isSome)

/-- The entry that a start makes of the old one for the new package -/
def Outcome.scannedEntry (m : Manager V) (w : World V) (o : Outcome V) : PersistedPluginState :=
  reconcile m (w.state.registry.plugins o.record.id) o.record.manifest

/-- Whether it is the old entry, or the new one -/
def Outcome.entryKept (m : Manager V) (w : World V) (o : Outcome V) : Bool :=
  decide (w.state.registry.plugins o.record.id = some (o.scannedEntry m w)) ||
    decide (o.scannedEntry m w = o.record.persisted) && m.fits (w.state.put o.record).registry

/-- Whether all is well after the process has died at the step `f` -/
def Outcome.survives (m : Manager V) (w : World V) (o : Outcome V) (f : FsStep) : Bool :=
  let old := w.disk.plugins o.record.id
  let fits := m.fits (w.state.put o.record).registry
  let restored := old.isNone || decide (backedUpAs o.record.id = o.record.id)
  let dropped := old.isNone || backupFound w o.record.id
  match f with
  | .cutOver => restored
  | .restore => fits || restored
  | .discard => fits || (dropped && o.entryKept m w)
  | .createTemp | .writeTemp | .moveOld | .moveNew => !fits || (dropped && o.entryKept m w)
  | .removeOld => !fits || dropped
  | .removeBackup n => !fits || !old.any (n ≤ ·.length) || dropped
  | _ => true

def Install.survives [LinearOrder V] (m : Manager V) (w : World V) (options : InstallOptions)
    (f : FsStep) (install : Install) : Bool :=
  (install.outcome m w options).all fun o => o.survives m w f

theorem recovered_iff {outcome : Option (Outcome V)} : Recovered m w outcome d ↔
    ∃ plugins, d.remains.putBack = some plugins ∧
      m.fits (scanned m plugins (d.remains.registry.getD {})).registry = true ∧
      (∀ name, plugins name = w.disk.plugins name ∨
        ∃ o, outcome = some o ∧ name = o.record.id ∧ plugins name = some o.package) ∧
      (some (scanned m plugins (d.remains.registry.getD {})).registry = w.disk.registryFile ∨
        ∃ o, outcome = some o ∧ (scanned m plugins (d.remains.registry.getD {})).registry =
          (w.state.put o.record).registry) := by
  constructor
  · rintro ⟨w', hstart, hplugins, hregistry, -⟩
    obtain ⟨plugins, hput, hfits, rfl⟩ := start_eq_done.mp hstart
    refine ⟨plugins, hput, hfits, hplugins, hregistry.imp_right ?_⟩
    rintro ⟨o, ho, hregistry⟩
    exact ⟨o, ho, some.inj hregistry⟩
  rintro ⟨plugins, hput, hfits, hplugins, hregistry⟩
  refine ⟨_, start_eq_done.mpr ⟨plugins, hput, hfits, rfl⟩, hplugins, hregistry.imp_right ?_,
    start_up hfits⟩
  rintro ⟨o, ho, hregistry⟩
  exact ⟨o, ho, congrArg some hregistry⟩

theorem recovered_of_putBack (H : Settled m w) {outcome : Option (Outcome V)}
    (hput : d.remains.putBack = some w.disk.plugins)
    (hregistry : d.remains.registry = some w.state.registry) : Recovered m w outcome d := by
  rw [recovered_iff, hregistry]
  refine ⟨w.disk.plugins, hput, ?_, fun _ => .inl rfl, .inl ?_⟩
  · rw [getD_some, H.scanned]
    exact H.fits
  · rw [getD_some, H.scanned, H.registryFile]

theorem recovered_same (H : Settled m w) {outcome : Option (Outcome V)}
    (h : d.remains = w.disk.remains) : Recovered m w outcome d := by
  refine recovered_of_putBack H ?_ ?_
  · rw [h, H.remains]
    rfl
  · rw [h, H.remains]

theorem putBack_backup (hid : validPluginId id = true) (package : Package)
    (registry : Option PersistedRegistry) :
    (⟨plugins, [(backupName uuid id, package)], registry⟩ : Remains).putBack =
      if validPluginId (backedUpAs id) then
        some (if (plugins (backedUpAs id)).isSome then plugins
          else update plugins (backedUpAs id) (some package))
      else none := by
  change putBack plugins [(backupName uuid id, package)] = _
  rw [putBack, backupId_backupName hid]
  rfl

theorem recovered_between (H : Settled m w) (hid : validPluginId o.record.id = true)
    (hold : (w.disk.plugins o.record.id).isSome = true) (h : d.remains = o.between w uuid) :
    Recovered m w (some o) d ↔ backedUpAs o.record.id = o.record.id := by
  obtain ⟨old, hplugin⟩ := isSome_iff_exists.mp hold
  have hbetween : d.remains = ⟨update w.disk.plugins o.record.id none,
      [(backupName uuid o.record.id, old)], some w.state.registry⟩ := by
    rw [h, Outcome.between, Outcome.backups, hplugin]
    rfl
  have hput := congrArg Remains.putBack hbetween
  rw [putBack_backup hid] at hput
  constructor
  · intro hrecovered
    obtain ⟨plugins, hput', -, hdirs, -⟩ := recovered_iff.mp hrecovered
    rw [hput'] at hput
    by_contra hne
    have hnone : plugins o.record.id = none := by
      split at hput
      · cases hput
        split
        · rw [update_self]
        · rw [update_of_ne (Ne.symm hne), update_self]
      · cases hput
    rcases hdirs o.record.id with hsame | ⟨o', -, -, hnew⟩
    · rw [hnone, hplugin] at hsame
      cases hsame
    · rw [hnone] at hnew
      cases hnew
  · intro heq
    rw [heq, if_pos hid, update_self, isSome_none, if_neg Bool.false_ne_true,
      update_back hplugin] at hput
    exact recovered_of_putBack H hput (by rw [hbetween])

/-- The registry with an entry in place of the one it has -/
def PersistedRegistry.withEntry (registry : PersistedRegistry) (id : String)
    (entry : PersistedPluginState) : PersistedRegistry :=
  { registry with plugins := update registry.plugins id (some entry) }

theorem withEntry_eq_self {entry : PersistedPluginState} :
    registry.withEntry id entry = registry ↔ registry.plugins id = some entry := by
  refine ⟨fun h => ?_, fun h => ?_⟩
  · rw [← congrArg PersistedRegistry.plugins h, PersistedRegistry.withEntry]
    exact update_self _ _ _
  · rw [PersistedRegistry.withEntry, ← h, update_eq_self]

theorem withEntry_inj {entry entry' : PersistedPluginState} :
    registry.withEntry id entry = registry.withEntry id entry' ↔ entry = entry' := by
  refine ⟨fun h => ?_, fun h => by rw [h]⟩
  have hid := congrFun (congrArg PersistedRegistry.plugins h) id
  dsimp only [PersistedRegistry.withEntry] at hid
  rw [update_self, update_self] at hid
  exact some.inj hid

/-- What is known of an outcome when all is settled before -/
structure Outcome.Valid (m : Manager V) (w : World V) (o : Outcome V) : Prop where
  id : validPluginId o.record.id = true
  package : ∃ package, validatePackageDirectory m.toHost o.package = .ok package ∧
    package.manifest = o.record.manifest ∧ o.record.id = package.manifest.id
  entry : reconcile m (some o.record.persisted) o.record.manifest = o.record.persisted

theorem PluginRecord.Sound.reconcile {record : PluginRecord V} (h : record.Sound m id registry) :
    PluginManager.reconcile m (some record.persisted) record.manifest = record.persisted := by
  have hgranted : (record.grantedPermissions.filter fun permission =>
      permission ∈ record.manifest.requestedPermissions ∧
        m.permissionRegistry.contains permission) = record.grantedPermissions :=
    Finset.filter_true_of_mem fun _ hmem =>
      ⟨h.requested hmem, decide_eq_true (h.known hmem)⟩
  rw [PluginManager.reconcile, getD_some, PluginRecord.persisted]
  rw [hgranted, ← h.missing]
  cases henabled : record.enabled with
  | false => rfl
  | true => rw [h.enabled henabled, decide_eq_true rfl, Bool.and_true]

theorem Install.valid_outcome [LinearOrder V] (H : Settled m w) {install : Install}
    {options : InstallOptions} (h : install.outcome m w options = some o) : o.Valid m w := by
  rw [Install.outcome, bind_eq_some_iff] at h
  obtain ⟨staged, -, h⟩ := h
  split at h
  · cases h
  rename_i package hvalid
  split at h
  · cases h
  rename_i record hplan
  cases h
  have hplanned := planned_of_planInstall hplan
  have hsound := hplanned.sound H.sound package.manifest.id record
    (by rw [ManagerState.put, hplanned.id_eq]; exact update_self _ _ _)
  refine ⟨?_, ⟨package, hvalid, hplanned.manifest_eq.symm, hplanned.id_eq⟩, hsound.reconcile⟩
  rw [hplanned.id_eq]
  exact (sound_of_validatePackageDirectory hvalid).id

theorem scanned_new (H : Settled m w) (ho : o.Valid m w)
    (hother : ∀ other, other ≠ o.record.id →
      registry.plugins other = w.state.registry.plugins other) :
    (scanned m (update w.disk.plugins o.record.id (some o.package)) registry).registry =
      registry.withEntry o.record.id
        (reconcile m (registry.plugins o.record.id) o.record.manifest) := by
  obtain ⟨package, hvalid, hmanifest, hid⟩ := ho.package
  rw [scanned, PersistedRegistry.withEntry]
  dsimp only
  congr 1
  funext other
  by_cases hname : other = o.record.id
  · subst hname
    rw [candidate, if_pos ho.id, update_self, bind_some, hvalid]
    dsimp only
    rw [if_pos hid.symm, update_self]
    dsimp only
    rw [hmanifest]
  have hsettled := congrArg (fun state : ManagerState V => state.registry.plugins other) H.scanned
  have hcandidate : candidate m (update w.disk.plugins o.record.id (some o.package)) other =
      candidate m w.disk.plugins other := by
    rw [candidate, candidate, update_of_ne hname]
  rw [hcandidate, update_of_ne hname, hother other hname]
  exact hsettled

theorem putBack_found (hfound : backupFound w o.record.id = true)
    (hid : validPluginId o.record.id = true) (package : Package)
    (registry : Option PersistedRegistry) :
    (⟨update w.disk.plugins o.record.id (some o.package),
      [(backupName uuid o.record.id, package)], registry⟩ : Remains).putBack =
        some (update w.disk.plugins o.record.id (some o.package)) := by
  rw [backupFound, Bool.and_eq_true, Bool.or_eq_true, decide_eq_true_eq] at hfound
  have hthere : (update w.disk.plugins o.record.id (some o.package)
      (backedUpAs o.record.id)).isSome = true := by
    by_cases hsame : backedUpAs o.record.id = o.record.id
    · rw [hsame, update_self]
      rfl
    · rw [update_of_ne hsame]
      exact hfound.2.resolve_left hsame
  rw [putBack_backup hid, if_pos hfound.1, if_pos hthere]

theorem putBack_lost (hlost : backupFound w o.record.id = false)
    (hid : validPluginId o.record.id = true) {package : Package}
    {registry : Option PersistedRegistry}
    (hput : (⟨update w.disk.plugins o.record.id (some o.package),
      [(backupName uuid o.record.id, package)], registry⟩ : Remains).putBack = some plugins) :
    ∃ other, other ≠ o.record.id ∧ plugins other ≠ w.disk.plugins other := by
  rw [putBack_backup hid] at hput
  split at hput
  · rename_i hvalid
    rw [backupFound, hvalid, Bool.true_and, Bool.or_eq_false_iff, decide_eq_false_iff_not] at hlost
    obtain ⟨hne, hnone⟩ := hlost
    rw [update_of_ne hne, hnone, if_neg Bool.false_ne_true] at hput
    cases hput
    refine ⟨backedUpAs o.record.id, hne, fun hsame => ?_⟩
    rw [update_self] at hsame
    rw [← hsame] at hnone
    cases hnone
  · cases hput

theorem recovered_new (H : Settled m w) (ho : o.Valid m w) {backups : List (String × Package)}
    (hbackups : backups = [] ∨ ∃ package, backups = [(backupName uuid o.record.id, package)])
    (h : d.remains = ⟨update w.disk.plugins o.record.id (some o.package), backups,
      some registry⟩) :
    Recovered m w (some o) d ↔ (backups = [] ∨ backupFound w o.record.id = true) ∧
      m.fits (scanned m (update w.disk.plugins o.record.id (some o.package))
        registry).registry = true ∧
      ((scanned m (update w.disk.plugins o.record.id (some o.package)) registry).registry =
        w.state.registry ∨
      (scanned m (update w.disk.plugins o.record.id (some o.package)) registry).registry =
        (w.state.put o.record).registry) := by
  rw [recovered_iff, h, H.registryFile]
  constructor
  · rintro ⟨plugins, hput, hfits, hdirs, hregistry⟩
    have hfound : backups = [] ∨ backupFound w o.record.id = true := by
      obtain rfl | ⟨package, rfl⟩ := hbackups
      · exact .inl rfl
      refine .inr (Bool.eq_true_of_not_eq_false fun hlost => ?_)
      obtain ⟨other, hne, hchanged⟩ := putBack_lost hlost ho.id hput
      rcases hdirs other with hsame | ⟨o', ho', hname, -⟩
      · exact hchanged hsame
      · cases ho'
        exact hne hname
    obtain rfl : plugins = update w.disk.plugins o.record.id (some o.package) := by
      obtain rfl | ⟨package, rfl⟩ := hbackups
      · exact (some.inj hput).symm
      · rw [putBack_found (hfound.resolve_left (by simp)) ho.id] at hput
        exact (some.inj hput).symm
    refine ⟨hfound, hfits, hregistry.imp some.inj ?_⟩
    rintro ⟨o', ho', hnew⟩
    cases ho'
    exact hnew
  · rintro ⟨hfound, hfits, hregistry⟩
    refine ⟨update w.disk.plugins o.record.id (some o.package), ?_, hfits, fun name => ?_,
      hregistry.imp (congrArg some) fun hnew => ⟨o, rfl, hnew⟩⟩
    · obtain rfl | ⟨package, rfl⟩ := hbackups
      · rfl
      · exact putBack_found (hfound.resolve_left (by simp)) ho.id package _
    by_cases hname : name = o.record.id
    · subst hname
      exact .inr ⟨o, rfl, rfl, update_self _ _ _⟩
    · exact .inl (update_of_ne hname _ _)

theorem backups_eq (o : Outcome V) (w : World V) (uuid : String) :
    o.backups w uuid = [] ∧ (w.disk.plugins o.record.id).isNone = true ∨
      (w.disk.plugins o.record.id).isNone = false ∧
        ∃ package, o.backups w uuid = [(backupName uuid o.record.id, package)] := by
  rw [Outcome.backups]
  cases w.disk.plugins o.record.id with
  | none => exact .inl ⟨rfl, rfl⟩
  | some old => exact .inr ⟨rfl, old, rfl⟩

theorem dropped_iff : (o.backups w uuid = [] ∨ backupFound w o.record.id = true) ↔
    ((w.disk.plugins o.record.id).isNone || backupFound w o.record.id) = true := by
  rw [Bool.or_eq_true]
  refine or_congr_left ?_
  obtain ⟨hnil, hnone⟩ | ⟨hnone, package, hbackups⟩ := backups_eq o w uuid
  · simp [hnil, hnone]
  · simp [hbackups, hnone]

theorem recovered_swapped (H : Settled m w) (ho : o.Valid m w) (h : d.remains = o.swapped w uuid) :
    Recovered m w (some o) d ↔
      ((w.disk.plugins o.record.id).isNone || backupFound w o.record.id) = true ∧
        o.entryKept m w = true := by
  have hbackups := (backups_eq o w uuid).imp And.left And.right
  rw [recovered_new H ho hbackups h, dropped_iff, scanned_new H ho fun _ _ => rfl]
  refine and_congr_right fun _ => ?_
  rw [Outcome.entryKept, Bool.or_eq_true, Bool.and_eq_true, decide_eq_true_eq, decide_eq_true_eq]
  have hput : (w.state.put o.record).registry =
      w.state.registry.withEntry o.record.id o.record.persisted := rfl
  rw [← Outcome.scannedEntry, hput, withEntry_eq_self, withEntry_inj]
  constructor
  · rintro ⟨hfits, hold | hnew⟩
    · exact .inl hold
    · exact .inr ⟨hnew, hnew ▸ hfits⟩
  · rintro (hold | ⟨hnew, hfits⟩)
    · exact ⟨(withEntry_eq_self.mpr hold).symm ▸ H.fits, .inl hold⟩
    · exact ⟨hnew.symm ▸ hfits, .inr hnew⟩

theorem recovered_written (uuid : String) (H : Settled m w) (ho : o.Valid m w)
    (hfits : m.fits (w.state.put o.record).registry = true) {backups : List (String × Package)}
    (hbackups : backups = [] ∨ ∃ package, backups = [(backupName uuid o.record.id, package)])
    (h : d.remains = o.written w backups) :
    Recovered m w (some o) d ↔ backups = [] ∨ backupFound w o.record.id = true := by
  have hentry : (w.state.put o.record).registry.plugins o.record.id = some o.record.persisted :=
    update_self _ _ _
  have hscanned : (scanned m (update w.disk.plugins o.record.id (some o.package))
      (w.state.put o.record).registry).registry = (w.state.put o.record).registry := by
    rw [scanned_new H ho fun other hother => update_of_ne hother _ _, hentry, ho.entry,
      withEntry_eq_self, hentry]
  rw [recovered_new H ho hbackups h, hscanned]
  exact ⟨And.left, fun hfound => ⟨hfound, hfits, .inr rfl⟩⟩

/-! ## The law -/

theorem recovered_scene (H : Settled m w) (ho : o.Valid m w) {r : Remains}
    (hscene : o.scene w uuid m f = some r) (h : d.remains = r) :
    Recovered m w (some o) d ↔ o.survives m w f = true := by
  have hbetween : (w.disk.plugins o.record.id).isSome = true → r = o.between w uuid →
      (Recovered m w (some o) d ↔ ((w.disk.plugins o.record.id).isNone ||
        decide (backedUpAs o.record.id = o.record.id)) = true) := by
    rintro hold rfl
    rw [recovered_between H ho.id hold h, Bool.or_eq_true, decide_eq_true_eq, isNone_iff_eq_none]
    exact (or_iff_right fun hnone => by rw [hnone] at hold; cases hold).symm
  have hswapped : r = o.swapped w uuid →
      (Recovered m w (some o) d ↔ (((w.disk.plugins o.record.id).isNone ||
        backupFound w o.record.id) && o.entryKept m w) = true) := by
    rintro rfl
    rw [recovered_swapped H ho h, Bool.and_eq_true]
  have hbefore : m.fits (w.state.put o.record).registry = true ∧ some (o.swapped w uuid) = some r →
      (Recovered m w (some o) d ↔ (!m.fits (w.state.put o.record).registry ||
        ((w.disk.plugins o.record.id).isNone || backupFound w o.record.id) &&
          o.entryKept m w) = true) := by
    rintro ⟨hfits, hr⟩
    rw [hfits, Bool.not_true, Bool.false_or]
    exact hswapped (some.inj hr).symm
  cases f with
  | cutOver =>
    rw [Outcome.scene, ite_none_right_eq_some] at hscene
    exact hbetween hscene.1 (some.inj hscene.2).symm
  | discard =>
    rw [Outcome.scene, ite_none_left_eq_some] at hscene
    rw [Outcome.survives, Bool.eq_false_iff.mpr hscene.1, Bool.false_or]
    exact hswapped (some.inj hscene.2).symm
  | restore =>
    rw [Outcome.scene, ite_none_right_eq_some, Bool.and_eq_true, Bool.not_eq_true'] at hscene
    rw [Outcome.survives, hscene.1.1, Bool.false_or]
    exact hbetween hscene.1.2 (some.inj hscene.2).symm
  | createTemp | writeTemp | moveOld | moveNew =>
    exact hbefore (ite_none_right_eq_some.mp hscene)
  | removeOld =>
    rw [Outcome.scene, ite_none_right_eq_some] at hscene
    obtain ⟨hfits, hr⟩ := hscene
    cases hr
    rw [recovered_written uuid H ho hfits ((backups_eq o w uuid).imp And.left And.right) h, dropped_iff,
      Outcome.survives, hfits, Bool.not_true, Bool.false_or]
  | removeBackup n =>
    rw [Outcome.scene, ite_none_right_eq_some] at hscene
    obtain ⟨hfits, hr⟩ := hscene
    obtain ⟨old, hplugin, hr⟩ := bind_eq_some_iff.mp hr
    rw [ite_none_right_eq_some] at hr
    obtain ⟨hn, hr⟩ := hr
    cases hr
    rw [recovered_written uuid H ho hfits (.inr ⟨_, rfl⟩) h, Outcome.survives, hfits, hplugin]
    simp [hn]
  | _ => cases hscene

theorem survives_of_scene (hscene : o.scene w uuid m f = none) : o.survives m w f = true := by
  cases f with
  | cutOver | discard | createTemp | writeTemp | moveOld | moveNew | removeOld =>
    simp_all [Outcome.scene, Outcome.survives]
  | restore =>
    cases hfits : m.fits (w.state.put o.record).registry with
    | true => rw [Outcome.survives, hfits, Bool.true_or]
    | false => simp_all [Outcome.scene, Outcome.survives]
  | removeBackup n =>
    cases hplugin : w.disk.plugins o.record.id with
    | none => simp [Outcome.survives, hplugin]
    | some old =>
      cases hfits : m.fits (w.state.put o.record).registry with
      | true => simp_all [Outcome.scene, Outcome.survives]
      | false => rw [Outcome.survives, hfits, Bool.not_false, Bool.true_or, Bool.true_or]
  | _ => rfl

variable [LinearOrder V]

variable {install : Install} {options : InstallOptions}

/-- A process dies at some step of an installation. What it leaves behind is recovered if and only if
the step allows it. -/
theorem recovers_iff (H : Settled m w) (install : Install) (options : InstallOptions) (f : FsStep)
    (uuid : String) : (install.run m f.dying uuid options).Ensures w (fun _ _ => True)
      (fun _ _ => True) (fun w' => Recovered m w (install.outcome m w options) w'.disk) ↔
      install.survives m w options f = true := by
  have hrun : (install.run m f.dying uuid options).Ensures w
      (fun _ _ => install.scene m w uuid options f = none)
      (fun _ _ => install.scene m w uuid options f = none)
      fun w' => install.LeftBehind m w uuid options f w'.disk := install.dying_run H
  cases hscene : install.scene m w uuid options f with
  | none =>
    have hsurvives : install.survives m w options f = true := by
      rw [Install.survives]
      cases houtcome : install.outcome m w options with
      | none => rfl
      | some o =>
        rw [Install.scene, houtcome, bind_some] at hscene
        exact survives_of_scene hscene
    refine iff_of_true (hrun.mono (fun _ _ _ => trivial) (fun _ _ _ => trivial) fun w' h => ?_)
      hsurvives
    obtain hsame | ⟨-, o, ho, hwritten, hfits⟩ := h
    · rw [hscene, getD_none] at hsame
      exact recovered_same H hsame
    · rw [ho]
      exact (recovered_written uuid H (Install.valid_outcome H ho) hfits (.inl rfl) hwritten).mpr (.inl rfl)
  | some r =>
    rw [hscene] at hrun
    obtain ⟨o, ho, hr⟩ := bind_eq_some_iff.mp hscene
    have hiff : ∀ w' : World V, install.LeftBehind m w uuid options f w'.disk →
        (Recovered m w (install.outcome m w options) w'.disk ↔
          install.survives m w options f = true) := by
      intro w' h
      obtain hleft | ⟨hnone, -⟩ := h
      · rw [hscene, getD_some] at hleft
        rw [Install.survives, ho, all_some]
        exact recovered_scene H (Install.valid_outcome H ho) hr hleft
      · rw [hscene] at hnone
        cases hnone
    constructor
    · intro h
      exact Prog.Ensures.elim ((hrun.and h).mono (fun _ _ h => (by cases h.1)) (fun _ _ h => (by cases h.1))
        fun w' h => (hiff w' h.1).mp h.2)
    · intro hsurvives
      exact hrun.mono (fun _ _ _ => trivial) (fun _ _ _ => trivial)
        fun w' h => (hiff w' h).mpr hsurvives

/-- The directory of the plugin whose manifest is number `n` -/
def trustedPackage (n : UInt8) : Package := [("manifest.json", .file [n]), ("ui.js", .file [])]

def twoVersions (id : String) : Manager Nat := managerOf [trustedPlugin id 1 [], trustedPlugin id 2 []]

/-- A manager that has come up with the first version of the plugin -/
def firstVersion (id : String) : World Nat :=
  (start (twoVersions id)
    ⟨{}, { plugins := update (fun _ => none) id (some (trustedPackage 0)) }⟩).2

theorem started_firstVersion (id : String) : Started (twoVersions id) (firstVersion id) :=
  ⟨{ plugins := update (fun _ => none) id (some (trustedPackage 0)) }, rfl⟩

/-- The second version is installed, and the process dies when the first one is a backup. -/
theorem recovers_chess : ((Install.directory (trustedPackage 1)).run (twoVersions "chess")
      FsStep.cutOver.dying "0" { replaceExisting := true }).Ensures (firstVersion "chess")
      (fun _ _ => True) (fun _ _ => True) (fun w' => Recovered (twoVersions "chess")
        (firstVersion "chess") ((Install.directory (trustedPackage 1)).outcome (twoVersions "chess")
          (firstVersion "chess") { replaceExisting := true }) w'.disk) :=
  (recovers_iff (started_firstVersion "chess").settled _ _ _ _).mpr (by decide +kernel)

/-- After a crash the plugin with a `--` in its id is gone, and there is one of another id. -/
def movesAway : Bool :=
  match (Install.directory (trustedPackage 1)).run (twoVersions "a--b") FsStep.cutOver.dying "0"
      { replaceExisting := true } (firstVersion "a--b") with
  | (.died, w') =>
    match start (twoVersions "a--b") ⟨{}, w'.disk⟩ with
    | (.done (), w'') =>
      ((firstVersion "a--b").disk.plugins "a--b").isSome &&
        (w''.disk.plugins "a--b").isNone && (w''.disk.plugins "a").isSome
    | _ => false
  | _ => false

/-- The same with the plugin `a--b`: its backup is taken for that of a plugin `a`. -/
theorem separator_notRecovered : ¬((Install.directory (trustedPackage 1)).run (twoVersions "a--b")
      FsStep.cutOver.dying "0" { replaceExisting := true }).Ensures (firstVersion "a--b")
      (fun _ _ => True) (fun _ _ => True) (fun w' => Recovered (twoVersions "a--b")
        (firstVersion "a--b") ((Install.directory (trustedPackage 1)).outcome (twoVersions "a--b")
          (firstVersion "a--b") { replaceExisting := true }) w'.disk) := by
  have hlost : movesAway = true := by decide +kernel
  intro h
  rw [Prog.Ensures] at h
  rw [movesAway] at hlost
  split at hlost
  · rename_i w' hdied
    rw [hdied] at h
    obtain ⟨w'', hstart, hdirs, -⟩ := h
    rw [hstart] at hlost
    simp only [Bool.and_eq_true, isNone_iff_eq_none] at hlost
    rcases hdirs "a--b" with hsame | ⟨o, -, -, hnew⟩
    · rw [← hsame, hlost.1.2] at hlost
      cases hlost.1.1
    · rw [hlost.1.2] at hnew
      cases hnew
  · cases hlost

end Bluetalk.PluginManager

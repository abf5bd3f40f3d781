import Bluetalk.PluginManager.Permissions

/-!
# Operations that are not disturbed

What the parts of an operation leave behind when their steps work, exactly.
-/

open List Function

namespace Bluetalk.PluginManager

variable {V : Type} {m : Manager V} {fate : FsStep → Fate} {uuid : String}
  {w w' : World V} {id : String} {registry : PersistedRegistry} {snapshot : ManagerState V}
  {undo : Fs V Unit} {walk walk' : Walk} {limits : PluginLimits} {suffix : String} {n : Nat}
  {source staged : Package} {staging : List Package} {package : ValidatedPackage V}
  {name : Nat → FsStep} {leave : Option Package → Disk → Disk} {options : InstallOptions}
  {record : PluginRecord V}

/-- The program is done, in the world `w'`. -/
def Goes (p : Fs V Unit) (w w' : World V) : Prop :=
  p.Ensures w (fun _ w'' => w'' = w') (fun _ _ => False) fun _ => False

theorem Goes.ensures {p : Fs V Unit} {Q : Unit → World V → Prop}
    {E : PluginError V → World V → Prop} {D : World V → Prop} (hp : Goes p w w') (hQ : Q () w') :
    p.Ensures w Q E D := by
  refine Prog.Ensures.mono hp ?_ (fun _ _ => False.elim) fun _ => False.elim
  rintro _ _ rfl
  exact hQ

theorem update_back {plugins : String → Option Package} {package old : Option Package}
    (h : plugins id = old) :
    update (update plugins id package) id old = plugins := by
  rw [update_idem, ← h, update_eq_self]

/-- The steps with which the registry is written -/
def FsStep.isWriting : FsStep → Bool
  | createTemp | writeTemp | removeStaleBackup | moveOld | moveNew | removeOld => true
  | _ => false

def World.written (w : World V) (registry : PersistedRegistry) : World V :=
  { w with disk := { w.disk with registryFile := some registry, registryBackup := none } }

theorem goes_persistRegistry (hworks : ∀ s : FsStep, s.isWriting = true → fate s = .works)
    (hfits : m.fits registry = true) :
    Goes (persistRegistry m fate registry) w (w.written registry) := by
  rw [Goes, persistRegistry, hfits, Bool.not_true, if_neg Bool.false_ne_true]
  simp only [Prog.ensures_bind, Prog.ensures_get, Prog.ensures_handle, Prog.ensures_when,
    Prog.ensures_ignore, Prog.ensures_fail, ensures_fsStep, hworks .createTemp rfl,
    hworks .writeTemp rfl, hworks .removeStaleBackup rfl, hworks .moveOld rfl, hworks .moveNew rfl,
    hworks .removeOld rfl, reduceCtorEq, false_implies, forall_const, and_true]
  obtain ⟨state, plugins, staging, backups, trash, file, backup, temps⟩ := w
  cases file <;> cases backup <;> simp [World.written]

theorem goes_persistOr (hworks : ∀ s : FsStep, s.isWriting = true → fate s = .works)
    (hfits : m.fits w.state.registry = true) :
    Goes (persistOr m fate snapshot undo) w (w.written w.state.registry) := by
  rw [Goes, persistOr]
  simp only [Prog.ensures_bind, Prog.ensures_get, Prog.ensures_handle]
  exact (goes_persistRegistry hworks hfits).ensures rfl

/-- What is left alone while the registry is written -/
def World.beside (w : World V) :=
  (w.state, w.disk.plugins, w.disk.staging, w.disk.backups, w.disk.trash)

theorem beside_persistRegistry (m : Manager V) (fate : FsStep → Fate)
    (registry : PersistedRegistry) : (persistRegistry m fate registry).Leaves World.beside := by
  rw [persistRegistry]
  split
  · exact Prog.leaves_fail _
  refine (leaves_fsStep fun _ => rfl).bind fun _ => (leaves_fsStep fun _ => rfl).bind fun _ =>
    Prog.leaves_get.bind fun w => (leaves_fsStep fun _ => rfl).when.bind fun _ =>
    (leaves_fsStep fun _ => rfl).when.bind fun _ => Prog.Leaves.bind ?_ fun _ =>
    (leaves_fsStep fun _ => rfl).ignore.when
  exact (leaves_fsStep fun _ => rfl).handle fun e =>
    (leaves_fsStep fun _ => rfl).ignore.when.bind fun _ =>
    (leaves_fsStep fun _ => rfl).ignore.bind fun _ => Prog.leaves_fail e

/-! ## Staging -/

theorem countBytes_eq_ok {what path : String}
    {size : Nat} : walk.countBytes (V := V) limits what suffix path size = .ok walk' ↔
      size ≤ limits.maxFileBytes ∧ walk.totalBytes + size < 2 ^ 64 ∧
        walk.totalBytes + size ≤ limits.maxTotalBytes ∧
        { walk with totalBytes := walk.totalBytes + size } = walk' := by
  simp only [Walk.countBytes, except_bind_eq_ok, ensure_eq_ok, decide_eq_true_eq, exists_const]
  constructor
  · rintro ⟨h₁, h₂, h₃, h⟩
    exact ⟨h₁, h₂, h₃, Except.ok.inj h⟩
  · rintro ⟨h₁, h₂, h₃, rfl⟩
    exact ⟨h₁, h₂, h₃, rfl⟩

theorem enter_suffix {suffix' : String} {entry : String × Node} (h : walk.enter (V := V) limits suffix entry = .ok walk') :
    walk.enter (V := V) limits suffix' entry = .ok walk' := by
  obtain ⟨path, node⟩ := entry
  simp only [Walk.enter, except_bind_eq_ok] at h ⊢
  obtain ⟨u, hpath, walk₁, htake, h⟩ := h
  refine ⟨u, hpath, walk₁, htake, ?_⟩
  cases node with
  | other | dir => exact h
  | file bytes =>
    simp only [except_bind_eq_ok, countBytes_eq_ok] at h ⊢
    exact h

theorem goes_copyEntries (hworks : ∀ n, fate (.stage n) = .works) {met met' : Walk × Option Bytes} (hwalk : met.1 = walk) (hstaging : w.disk.staging = staged :: staging)
    (h : source.foldlM (Walk.visit (V := V) m.limits) met = .ok met') :
    Goes (copyEntries m fate walk n source) w
      { w with disk := { w.disk with staging := (staged ++ source) :: staging } } := by
  induction source generalizing walk n met staged w with
  | nil =>
    rw [Goes, copyEntries, Prog.ensures_pure, append_nil, ← hstaging]
  | cons entry rest ih =>
    subst hwalk
    rw [foldlM_cons, except_bind_eq_ok] at h
    obtain ⟨met₁, hvisit, h⟩ := h
    rw [Walk.visit, except_bind_eq_ok] at hvisit
    obtain ⟨walk₁, henter, hvisit⟩ := hvisit
    have hwalk₁ : met₁.1 = walk₁ := by
      split at hvisit
      · rw [except_bind_eq_ok] at hvisit
        obtain ⟨_, -, hvisit⟩ := hvisit
        cases hvisit
        rfl
      · cases hvisit
        rfl
    rw [copyEntries, Goes]
    simp only [Prog.ensures_bind, ensures_check, ensures_fsStep, hworks, reduceCtorEq,
      false_implies, and_true, forall_const, enter_suffix henter, Except.ok.injEq, forall_eq',
      implies_true]
    refine (ih hwalk₁ (show _ = (staged ++ [entry]) :: staging from ?_) h).ensures ?_
    · rw [Disk.leaveStaging, Disk.newestStaged, hstaging]
      rfl
    · rw [Disk.leaveStaging, append_assoc]
      rfl

theorem goes_copyPackageDirectory (hworks : ∀ n, fate (.stage n) = .works) (hstaging : w.disk.staging = [] :: staging)
    (h : validatePackageDirectory m.toHost source = .ok package) :
    Goes (copyPackageDirectory m fate source) w
      { w with disk := { w.disk with staging := source :: staging } } := by
  have hvalid := h
  rw [validatePackageDirectory, except_bind_eq_ok] at h
  obtain ⟨met, hmet, -⟩ := h
  rw [Goes, copyPackageDirectory]
  simp only [Prog.ensures_bind, ensures_check, hvalid, Except.ok.injEq, forall_eq', reduceCtorEq,
    false_implies, implies_true, and_true]
  exact goes_copyEntries hworks rfl hstaging hmet

theorem done_copyEntries (hstaging : w.disk.staging = staged :: staging) :
    (copyEntries m fate walk n source).Ensures w
      (fun _ w' => w' = { w with disk := { w.disk with staging := (staged ++ source) :: staging } })
      (fun _ _ => True) fun _ => True := by
  induction source generalizing walk n staged w with
  | nil => rw [copyEntries, Prog.ensures_pure, append_nil, ← hstaging]
  | cons entry rest ih =>
    rw [copyEntries]
    simp only [Prog.ensures_bind, ensures_check, ensures_fsStep, implies_true, and_true]
    intro walk' _ _
    refine (ih (show _ = (staged ++ [entry]) :: staging from ?_)).mono (fun _ w' h => ?_) (fun _ _ h => h)
      fun _ h => h
    · rw [Disk.leaveStaging, Disk.newestStaged, hstaging]
      rfl
    · rw [h, Disk.leaveStaging, append_assoc]
      rfl

/-! ## Removal -/

theorem completes_removeDirAll {package : Package} (hworks : ∀ k, n ≤ k → k ≤ n + package.length → fate (name k) = .works) :
    (removeDirAll fate name leave package n).Ensures w (fun _ w' => w'.state = w.state)
      (fun _ _ => False) fun _ => False := by
  induction package generalizing n w with
  | nil =>
    rw [removeDirAll, ensures_fsStep, hworks n le_rfl le_rfl]
    simp
  | cons entry rest ih =>
    rw [length_cons] at hworks
    rw [removeDirAll]
    simp only [Prog.ensures_bind, ensures_fsStep, hworks n le_rfl (by omega), reduceCtorEq,
      false_implies, and_true, forall_const]
    exact ih fun k hn hk => hworks k (by omega) (by omega)

theorem fails_removeDirAll {package : Package} {k : Nat} (hn : n ≤ k) (hk : k ≤ n + package.length)
    (hfails : fate (name k) = .fails) (hworks : ∀ i, i ≠ k → fate (name i) = .works) :
    (removeDirAll fate name leave package n).Ensures w (fun _ _ => False)
      (fun _ w' => w'.state = w.state) fun _ => False := by
  induction package generalizing n w with
  | nil =>
    obtain rfl : n = k := by
      rw [length_nil] at hk
      omega
    rw [removeDirAll, ensures_fsStep, hfails]
    simp
  | cons entry rest ih =>
    rw [length_cons] at hk
    rw [removeDirAll]
    simp only [Prog.ensures_bind, ensures_fsStep]
    by_cases hnk : n = k
    · subst hnk
      rw [hfails]
      simp
    · rw [hworks n hnk]
      simp only [reduceCtorEq, false_implies, and_true, forall_const]
      exact ih (by omega) (by omega)

/-! ## Installation -/

/-- The steps of an installation, clearing apart -/
def FsStep.isClearing : FsStep → Bool
  | clearing _ => true
  | _ => false

variable [LinearOrder V]

def World.files (w : World V) := (w.disk.registryFile, w.disk.registryBackup)

theorem completes_finishInstall (hworks : ∀ s : FsStep, s.isClearing = false → fate s = .works)
    (hplan : planInstall m (w.state.records package.manifest.id)
      (w.disk.plugins package.manifest.id).isSome package options = .ok record)
    (hfits : m.fits (w.state.put record).registry = true) :
    (finishInstall m fate uuid package options).Ensures w
      (fun _ w' => w'.state = w.state.put record ∧ w'.disk.registryFile.isSome ∧
        w'.disk.registryBackup = none) (fun _ _ => False) fun _ => False := by
  rw [finishInstall]
  simp only [Prog.ensures_bind, Prog.ensures_get, ensures_check, hplan, Except.ok.injEq, forall_eq',
    reduceCtorEq, false_implies, implies_true, and_true, swapIn, Prog.ensures_when,
    Prog.ensures_handle, ensures_fsStep, hworks .backUp rfl, hworks .cutOver rfl, forall_const,
    ensures_setState]
  have hwriting : ∀ s : FsStep, s.isWriting = true → fate s = .works := by
    intro s hs
    refine hworks s ?_
    cases s <;> first | rfl | cases hs
  have hfinish : ∀ (targetExists : Bool) (w₁ : World V), w₁.state = w.state.put record →
      (persistOr m fate w.state (rollBack fate package.manifest.id targetExists)).Ensures w₁
        (fun _ w₂ => (dropBackup fate targetExists).Ensures w₂
          (fun _ w₃ => (pure record : Fs V (PluginRecord V)).Ensures w₃
            (fun _ w' => w'.state = w.state.put record ∧ w'.disk.registryFile.isSome ∧
              w'.disk.registryBackup = none) (fun _ _ => False) fun _ => False)
          (fun _ _ => False) fun _ => False)
        (fun _ _ => False) fun _ => False := by
    intro targetExists w₁ h₁
    refine (goes_persistOr hwriting (h₁ ▸ hfits)).ensures ?_
    rw [dropBackup]
    simp only [Prog.ensures_when, Prog.ensures_ignore, Prog.ensures_bind, Prog.ensures_get,
      Prog.ensures_pure]
    refine ⟨fun _ => ?_, fun _ => ⟨h₁, rfl, rfl⟩⟩
    refine ((completes_removeDirAll fun n _ _ => hworks (.removeBackup n) rfl).and
      (leaves_removeDirAll (g := World.files) (fun _ _ => rfl) _ _ _)).mono (fun _ w₂ h => ?_)
      (fun _ _ h => h.1.elim) fun _ h => h.1
    rw [World.files, World.files, Prod.mk.injEq] at h
    rw [h.2.1, h.2.2]
    exact ⟨h.1.trans h₁, rfl, rfl⟩
  exact ⟨fun _ => hfinish _ _ rfl, fun _ => hfinish _ _ rfl⟩

theorem completes_installFromDirectory
    (hworks : ∀ s : FsStep, s.isClearing = false → fate s = .works) (hvalid : validatePackageDirectory m.toHost source = .ok package)
    (hplan : planInstall m (w.state.records package.manifest.id)
      (w.disk.plugins package.manifest.id).isSome package options = .ok record)
    (hfits : m.fits (w.state.put record).registry = true) :
    (installFromDirectory m fate uuid source options).Ensures w
      (fun _ w' => w'.state = w.state.put record ∧ w'.disk.registryFile.isSome ∧
        w'.disk.registryBackup = none) (fun _ _ => False) fun _ => False := by
  rw [installFromDirectory, installStaged]
  simp only [Prog.ensures_bind, Prog.ensures_handle, Prog.ensures_get, ensures_fsStep,
    hworks .createStaging rfl, reduceCtorEq, false_implies, and_true, forall_const]
  refine (goes_copyPackageDirectory (fun n => hworks (.stage n) rfl) rfl hvalid).ensures ?_
  rw [ensures_check]
  refine ⟨fun package' hpackage' => ?_, fun e he => ?_⟩
  · rw [Disk.newestStaged, headD_cons, hvalid] at hpackage'
    cases hpackage'
    refine (completes_finishInstall
      (w := { w with disk := { w.disk with staging := source :: w.disk.staging } })
      hworks hplan hfits).mono (fun record' w₁ h₁ => ?_) (fun _ _ => False.elim)
      fun _ => False.elim
    rw [dropStaging]
    simp only [Prog.ensures_bind, Prog.ensures_get, Prog.ensures_ignore]
    refine ((completes_removeDirAll fun n _ _ => hworks (.dropStaging n) rfl).and
      (leaves_removeDirAll (g := World.files) (fun _ _ => rfl) _ _ _)).mono (fun _ w₂ h => ?_)
      (fun _ _ h => h.1.elim) fun _ h => h.1
    rw [World.files, World.files, Prod.mk.injEq] at h
    rw [Prog.ensures_pure, h.2.1, h.2.2]
    exact ⟨h.1.trans h₁.1, h₁.2⟩
  · rw [Disk.newestStaged, headD_cons, hvalid] at he
    cases he

/-! ## What an installation that is done has done -/

omit [LinearOrder V] in
theorem done_persistOr :
    (persistOr m fate snapshot undo).Ensures w
      (fun _ w' => m.fits w.state.registry = true ∧ w'.beside = w.beside) (fun _ _ => True)
      fun _ => True := by
  rw [persistOr]
  simp only [Prog.ensures_bind, Prog.ensures_get, Prog.ensures_handle, ensures_setState,
    Prog.ensures_fail]
  have hfits : (persistRegistry m fate w.state.registry).Ensures w
      (fun _ _ => m.fits w.state.registry = true) (fun _ _ => True) fun _ => True := by
    rw [persistRegistry]
    cases hfits : m.fits w.state.registry with
    | false => trivial
    | true => exact Prog.ensures_of_forall (fun _ _ => rfl) (fun _ _ => trivial) fun _ => trivial
  exact (hfits.and (beside_persistRegistry m fate _ w)).mono (fun _ _ h => h)
    (fun _ _ _ => Prog.ensures_of_forall (fun _ _ => trivial) (fun _ _ => trivial) fun _ => trivial)
    fun _ _ => trivial

/-- The plugin has its record, as planned, and the registry could be written. -/
def Installed (m : Manager V) (w w' : World V) (package : ValidatedPackage V)
    (options : InstallOptions) : Prop :=
  ∃ record, planInstall m (w.state.records package.manifest.id)
    (w.disk.plugins package.manifest.id).isSome package options = .ok record ∧
    m.fits (w.state.put record).registry = true ∧ w'.state = w.state.put record

theorem done_finishInstall :
    (finishInstall m fate uuid package options).Ensures w
      (fun _ w' => Installed m w w' package options) (fun _ _ => True) fun _ => True := by
  rw [finishInstall]
  simp only [Prog.ensures_bind, Prog.ensures_get, ensures_check, implies_true, and_true]
  intro record hplan
  refine Prog.ensures_of_forall (fun _ w₁ => ?_) (fun _ _ => trivial) fun _ => trivial
  refine done_persistOr.mono (fun _ w₂ h₂ => ?_) (fun _ _ h => h) fun _ h => h
  refine (state_dropBackup fate _ w₂).mono (fun _ w₃ h₃ => ?_) (fun _ _ _ => trivial)
    fun _ _ => trivial
  obtain ⟨hfits, hbeside⟩ := h₂
  simp only [World.beside, Prod.mk.injEq] at hbeside
  exact ⟨record, hplan, hfits, h₃.trans hbeside.1⟩

theorem done_installFromDirectory (hvalid : validatePackageDirectory m.toHost source = .ok package) :
    (installFromDirectory m fate uuid source options).Ensures w
      (fun _ w' => Installed m w w' package options) (fun _ _ => True) fun _ => True := by
  rw [installFromDirectory, installStaged]
  simp only [Prog.ensures_bind, Prog.ensures_handle, Prog.ensures_get, Prog.ensures_fail,
    ensures_fsStep, copyPackageDirectory, ensures_check, hvalid, Except.ok.injEq, forall_eq',
    reduceCtorEq, false_implies, implies_true, and_true]
  have hdrop : ∀ w' : World V, (dropStaging fate).Ensures w' (fun _ _ => True) (fun _ _ => True)
      fun _ => True :=
    fun _ => Prog.ensures_of_forall (fun _ _ => trivial) (fun _ _ => trivial) fun _ => trivial
  intro _
  refine (done_copyEntries rfl).mono (fun _ w₁ h₁ => ⟨fun package' hpackage' => ?_, fun _ _ => hdrop _⟩)
    (fun _ w₁ _ => hdrop w₁) fun _ h => h
  subst h₁
  rw [Disk.newestStaged, headD_cons, nil_append, hvalid] at hpackage'
  cases hpackage'
  refine done_finishInstall.mono (fun record w₂ h₂ => ?_) (fun _ w₂ _ => hdrop w₂) fun _ h => h
  refine (leaves_dropStaging (g := World.state) (fun _ _ => rfl) fate w₂).mono (fun _ w₃ h₃ => ?_) (fun _ _ _ => trivial)
    fun _ _ => trivial
  rw [Prog.ensures_pure, Installed, h₃]
  exact h₂

end Bluetalk.PluginManager

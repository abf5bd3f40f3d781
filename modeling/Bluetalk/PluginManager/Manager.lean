import Bluetalk.PluginManager.Manifest
import Bluetalk.Theory.Faults
import Mathlib.Data.Finset.Max
import Mathlib.Data.List.Sort
import Mathlib.Data.String.Basic

/-!
# The plugin manager

Records and registry in memory, the directories and the registry file on disk, and the operations on
them. Every step of an operation on the disk has a name, and the world decides what becomes of it.
The maps of the source are functions here: nothing depends on the order of their keys.
-/

open Function

namespace Bluetalk.PluginManager

inductive PluginOrigin
  | user
  | bundled
deriving DecidableEq

structure PersistedPluginState where
  enabled : Bool
  origin : PluginOrigin
  grantedPermissions : Finset String
deriving DecidableEq

structure PersistedRegistry where
  plugins : String → Option PersistedPluginState := fun _ => none
  removedBundled : Finset String := ∅

structure PluginRecord (V : Type) where
  id : String
  manifest : PluginManifestV2 V
  origin : PluginOrigin
  enabled : Bool
  grantedPermissions : Finset String
  missingPermissions : Finset String
  fileCount : Nat
  totalBytes : Nat

structure ManagerState (V : Type) where
  registry : PersistedRegistry := {}
  records : String → Option (PluginRecord V) := fun _ => none

/-- What lies below the root: the plugins' directories, the newest one of staging, backup and trash
first, the registry file with its backup, and the number of temporary registry files -/
structure Disk where
  plugins : String → Option Package := fun _ => none
  staging : List Package := []
  backups : List (String × Package) := []
  trash : List Package := []
  registryFile : Option PersistedRegistry := none
  registryBackup : Option PersistedRegistry := none
  temps : Nat := 0

structure World (V : Type) where
  state : ManagerState V
  disk : Disk

/-- A manager: what it checks manifests against, and the size of a registry in its file, which
grows with what is in it -/
structure Manager (V : Type) extends Host V where
  registryBytes : PersistedRegistry → Nat
  registryBytes_erase : ∀ registry id, registryBytes
    { registry with removedBundled := registry.removedBundled.erase id } ≤ registryBytes registry

def maxRegistryBytes : Nat := 2 * 1024 * 1024

/-- Whether a registry may be written -/
def Manager.fits {V : Type} (m : Manager V) (registry : PersistedRegistry) : Bool :=
  m.registryBytes registry ≤ maxRegistryBytes

/-- The steps of the operations on the disk; those that remove a directory, or fill one, are
numbered. -/
inductive FsStep
  | createStaging
  | stage (n : Nat)
  | dropStaging (n : Nat)
  | backUp
  | cutOver
  | restore
  | discard
  | toTrash
  | takeBack
  | removeFailed (n : Nat)
  | removeBackup (n : Nat)
  | removeTrash (n : Nat)
  | createTemp
  | writeTemp
  | removeStaleBackup
  | moveOld
  | moveNew
  | putBackOld
  | removeTemp
  | removeOld
  | clearing (step : FsStep)
deriving DecidableEq

/-- The renames that undo others -/
def FsStep.isRollback : FsStep → Bool
  | restore | discard | takeBack | putBackOld => true
  | clearing step => step.isRollback
  | _ => false

variable {V : Type}

abbrev Fs (V α : Type) := Prog (World V) (PluginError V) α

def step (fate : FsStep → Fate) (s : FsStep) (f : Disk → Disk) : Fs V Unit :=
  Prog.step (fate s) .io fun w => { w with disk := f w.disk }

def setState (state : ManagerState V) : Fs V Unit := Prog.modify fun w => { w with state }

/-- A part of an operation that only checks or computes -/
def check {α : Type} : Except (PluginError V) α → Fs V α
  | .ok a => pure a
  | .error e => Prog.fail e

/-- `fs::remove_dir_all`: what is in the directory goes first, entry by entry. -/
def removeDirAll (fate : FsStep → Fate) (name : Nat → FsStep)
    (leave : Option Package → Disk → Disk) : Package → Nat → Fs V Unit
  | [], n => step fate (name n) (leave none)
  | _ :: rest, n => do
    step fate (name n) (leave (some rest))
    removeDirAll fate name leave rest (n + 1)

/-- Leaves of the newest directory what is given. -/
def leaveNewest : Option Package → List Package → List Package
  | none, packages => packages.tail
  | some rest, packages => rest :: packages.tail

namespace Disk

def leaveStaging (left : Option Package) (d : Disk) : Disk :=
  { d with staging := leaveNewest left d.staging }

def leaveTrash (left : Option Package) (d : Disk) : Disk :=
  { d with trash := leaveNewest left d.trash }

def leaveBackup (left : Option Package) (d : Disk) : Disk :=
  { d with
    backups := match left, d.backups with
      | some rest, (name, _) :: backups => (name, rest) :: backups
      | _, backups => backups.tail }

def newestStaged (d : Disk) : Package := d.staging.headD []

/-- A directory goes to the backups. -/
def backUp (id name : String) (d : Disk) : Disk :=
  match d.plugins id with
  | none => d
  | some package =>
    { d with plugins := update d.plugins id none, backups := (name, package) :: d.backups }

/-- The newest backup comes back. -/
def restore (id : String) (d : Disk) : Disk :=
  match d.backups with
  | [] => d
  | (_, package) :: backups =>
    { d with plugins := update d.plugins id (some package), backups }

def cutOver (id : String) (d : Disk) : Disk :=
  { d with
    plugins := update d.plugins id (some d.newestStaged)
    staging := [] :: d.staging.tail }

/-- A directory goes to the trash. -/
def toTrash (id : String) (d : Disk) : Disk :=
  match d.plugins id with
  | none => d
  | some package =>
    { d with plugins := update d.plugins id none, trash := package :: d.trash }

/-- The newest directory in the trash comes back. -/
def takeBack (id : String) (d : Disk) : Disk :=
  match d.trash with
  | [] => d
  | package :: trash => { d with plugins := update d.plugins id (some package), trash }

variable {d : Disk} {id name : String} {package : Package} {backups : List (String × Package)}
  {trash : List Package}

theorem backUp_eq (h : d.plugins id = some package) :
    d.backUp id name =
      { d with
        plugins := update d.plugins id none, backups := (name, package) :: d.backups } := by
  rw [backUp, h]

theorem restore_eq (h : d.backups = (name, package) :: backups) :
    d.restore id = { d with plugins := update d.plugins id (some package), backups } := by
  rw [restore, h]

theorem takeBack_eq (h : d.trash = package :: trash) :
    d.takeBack id = { d with plugins := update d.plugins id (some package), trash } := by
  rw [takeBack, h]

theorem toTrash_eq (h : d.plugins id = some package) :
    d.toTrash id =
      { d with plugins := update d.plugins id none, trash := package :: d.trash } := by
  rw [toTrash, h]

end Disk

/-! ## The registry file -/

section

variable (m : Manager V) (fate : FsStep → Fate)

def persistRegistry (registry : PersistedRegistry) : Fs V Unit :=
  if !m.fits registry then Prog.fail (.limitExceeded "plugin registry exceeds its size limit")
  else do
    step fate .createTemp fun d => { d with temps := d.temps + 1 }
    step fate .writeTemp id
    let w ← Prog.get
    Prog.when w.disk.registryBackup.isSome <|
      step fate .removeStaleBackup fun d => { d with registryBackup := none }
    let hadTarget := w.disk.registryFile.isSome
    Prog.when hadTarget <|
      step fate .moveOld fun d => { d with registryFile := none, registryBackup := d.registryFile }
    Prog.handle
      (step fate .moveNew fun d => { d with registryFile := some registry, temps := d.temps - 1 })
      fun e => do
        Prog.when hadTarget <| Prog.ignore <| step fate .putBackOld fun d =>
          { d with registryFile := d.registryBackup, registryBackup := none }
        Prog.ignore <| step fate .removeTemp fun d => { d with temps := d.temps - 1 }
        Prog.fail e
    Prog.when hadTarget <|
      Prog.ignore <| step fate .removeOld fun d => { d with registryBackup := none }

/-- The registry in memory is written; where that fails, `undo` is done and memory is as it was in
`snapshot`. -/
def persistOr (snapshot : ManagerState V) (undo : Fs V Unit) : Fs V Unit := do
  let w ← Prog.get
  Prog.handle (persistRegistry m fate w.state.registry) fun e => do
    setState snapshot
    undo
    Prog.fail e

/-! ## Installation -/

structure InstallOptions where
  origin : PluginOrigin := .user
  replaceExisting : Bool := false
  allowDowngrade : Bool := false
  enabled : Option Bool := some false
  grants : Finset String := ∅
  expectedId : Option String := none

/-- Grants must be known and requested. They are gone through in their order, so that the least one
that is not gives the error. -/
def checkGrants (registry : PermissionRegistry) (id : String) (requested grants : Finset String) :
    Except (PluginError V) Unit :=
  match (grants.filter fun grant => !(registry.contains grant && grant ∈ requested)).min with
  | ⊤ => .ok ()
  | (grant : String) => do
    ensure (registry.contains grant) (.unknownPermission grant)
    ensure (grant ∈ requested) (.permissionNotRequested id grant)

def PluginRecord.persisted (record : PluginRecord V) : PersistedPluginState :=
  ⟨record.enabled, record.origin, record.grantedPermissions⟩

namespace ManagerState

/-- A record, and the entry of the registry that goes with it -/
def put (state : ManagerState V) (record : PluginRecord V) : ManagerState V where
  records := update state.records record.id (some record)
  registry :=
    { state.registry with
      plugins := update state.registry.plugins record.id (some record.persisted) }

def remove (state : ManagerState V) (id : String) (record : PluginRecord V) : ManagerState V where
  records := update state.records id none
  registry :=
    { plugins := update state.registry.plugins id none
      removedBundled :=
        if record.origin = .bundled then insert id state.registry.removedBundled
        else state.registry.removedBundled }

def clearRemoval (state : ManagerState V) (id : String) : ManagerState V :=
  { state with
    registry := { state.registry with removedBundled := state.registry.removedBundled.erase id } }

end ManagerState

variable [LinearOrder V]

/-- What `finish_install` decides before it touches the directories: the record of the plugin -/
def planInstall (existing : Option (PluginRecord V)) (targetExists : Bool)
    (package : ValidatedPackage V) (options : InstallOptions) :
    Except (PluginError V) (PluginRecord V) := do
  let id := package.manifest.id
  options.expectedId.forM fun expectedId => do
    validatePluginId expectedId
    ensure (expectedId = id)
      (.invalidManifest s!"manifest id `{id}` does not match expected id `{expectedId}`")
  ensure (!(targetExists && !options.replaceExisting && existing.isSome)) (.alreadyInstalled id)
  ensure (!existing.any fun record => record.origin = .bundled && options.origin = .user)
    (.bundledConflict id)
  existing.forM fun existing =>
    ensure (!(package.manifest.version < existing.manifest.version && !options.allowDowngrade))
      (.downgradeNotAllowed id existing.manifest.version package.manifest.version)
  let requested := package.manifest.requestedPermissions
  checkGrants m.permissionRegistry id requested options.grants
  let kept := (existing.map (·.grantedPermissions)).getD ∅ ∩ requested
  let grants := kept ∪ options.grants
  let missing := requested \ grants
  let desiredEnabled := options.enabled.getD (existing.any (·.enabled))
  ensure (!(desiredEnabled && missing ≠ ∅ && options.enabled = some true))
    (.missingPermissions id missing)
  pure
    { id, manifest := package.manifest, origin := options.origin
      enabled := desiredEnabled && missing = ∅
      grantedPermissions := grants, missingPermissions := missing
      fileCount := package.fileCount, totalBytes := package.totalBytes }

variable (uuid : String)

def backupName (id : String) : String := s!"{id}--{uuid}"

/-- What is undone when the registry cannot be written -/
def rollBack (id : String) (targetExists : Bool) : Fs V Unit := do
  Prog.ignore (step fate .discard (Disk.toTrash id))
  Prog.when targetExists <| Prog.ignore (step fate .restore (Disk.restore id))
  let w ← Prog.get
  Prog.ignore (removeDirAll fate .removeFailed Disk.leaveTrash (w.disk.trash.headD []) 0)

/-- The staged directory takes the place of the plugin's, of which a backup is kept. -/
def swapIn (id : String) (targetExists : Bool) : Fs V Unit := do
  Prog.when targetExists <| step fate .backUp (Disk.backUp id (backupName uuid id))
  Prog.handle (step fate .cutOver (Disk.cutOver id)) fun e => do
    Prog.when targetExists <| Prog.ignore (step fate .restore (Disk.restore id))
    Prog.fail e

def dropBackup (targetExists : Bool) : Fs V Unit :=
  Prog.when targetExists <| Prog.ignore <| do
    let w ← Prog.get
    removeDirAll fate .removeBackup Disk.leaveBackup ((w.disk.backups.head?.map (·.2)).getD []) 0

def finishInstall (package : ValidatedPackage V) (options : InstallOptions) :
    Fs V (PluginRecord V) := do
  let w ← Prog.get
  let id := package.manifest.id
  let targetExists := (w.disk.plugins id).isSome
  let record ← check (planInstall m (w.state.records id) targetExists package options)
  swapIn fate uuid id targetExists
  setState (w.state.put record)
  persistOr m fate w.state (rollBack fate id targetExists)
  dropBackup fate targetExists
  pure record

/-- The entries of a package are put into the staging directory one by one. -/
def copyEntries : Walk → Nat → Package → Fs V Unit
  | _, _, [] => pure ()
  | walk, n, entry :: rest => do
    let walk ← check (walk.enter m.limits " while copying" entry)
    step fate (.stage n) fun d => d.leaveStaging (some (d.newestStaged ++ [entry]))
    copyEntries walk (n + 1) rest

def copyPackageDirectory (source : Package) : Fs V Unit := do
  let _ ← check (validatePackageDirectory m.toHost source)
  copyEntries m fate {} 0 source

/-- The directories above a path, from the outermost on -/
def ancestors (path : String) : List String :=
  (path.toList.inits.filter fun above => path.toList[above.length]? = some '/').map String.ofList

/-- A file is created, with the directories above it. -/
def placeFile (package : Package) (file : String × Bytes) : Except (PluginError V) Package :=
  let above := ancestors file.1
  if (package.lookup file.1).isSome ||
      above.any fun dir => (package.lookup dir).any (· ≠ .dir) then .error .io
  else
    let missing := above.filter fun dir => (package.lookup dir).isNone
    .ok (package ++ missing.map (·, .dir) ++ [(file.1, .file file.2)])

def writeFiles : Nat → List (String × Bytes) → Fs V Unit
  | _, [] => pure ()
  | n, file :: rest => do
    let w ← Prog.get
    let staged ← check (placeFile w.disk.newestStaged file)
    step fate (.stage n) (Disk.leaveStaging (some staged))
    writeFiles (n + 1) rest

def checkPayload (files : List (String × Bytes)) : Except (PluginError V) Unit := do
  ensure (files ≠ []) (.invalidManifest "payload is empty")
  ensure (files.length ≤ m.limits.maxFiles)
    (.limitExceeded s!"payload has more than {m.limits.maxFiles} files")
  let _ ← files.foldlM (Walk.visitPayload m.limits) {}
  pure ()

def writePayload (files : List (String × Bytes)) : Fs V Unit := do
  check (checkPayload m files)
  writeFiles fate 0 files

/-- The staging directory goes, whatever is left in it. -/
def dropStaging : Fs V Unit := do
  let w ← Prog.get
  Prog.ignore (removeDirAll fate .dropStaging Disk.leaveStaging w.disk.newestStaged 0)

/-- An installation from what `fill` puts into the staging directory -/
def installStaged (fill : Fs V Unit) (options : InstallOptions) : Fs V (PluginRecord V) := do
  step fate .createStaging fun d => { d with staging := [] :: d.staging }
  let record ← Prog.handle
    (do
      fill
      let w ← Prog.get
      let package ← check (validatePackageDirectory m.toHost w.disk.newestStaged)
      finishInstall m fate uuid package options)
    fun e => do
      dropStaging fate
      Prog.fail e
  dropStaging fate
  pure record

def installFromDirectory (source : Package) (options : InstallOptions) : Fs V (PluginRecord V) :=
  installStaged m fate uuid (copyPackageDirectory m fate source) options

def installPayload (files : List (String × Bytes)) (options : InstallOptions) :
    Fs V (PluginRecord V) :=
  installStaged m fate uuid (writePayload m fate files) options

/-! ## Lifecycle -/

/-- The record of an installed plugin -/
def find (state : ManagerState V) (id : String) : Except (PluginError V) (PluginRecord V) :=
  match state.records id with
  | none => .error (.notFound id)
  | some record => .ok record

def grantTo (record : PluginRecord V) (grants : Finset String) : PluginRecord V :=
  let missing := record.manifest.requestedPermissions \ grants
  { record with
    grantedPermissions := grants, missingPermissions := missing
    enabled := record.enabled && missing = ∅ }

def setGrants (id : String) (grants : Finset String) : Fs V (PluginRecord V) := do
  check (validatePluginId id)
  let w ← Prog.get
  let record ← check (find w.state id)
  check (checkGrants m.permissionRegistry id record.manifest.requestedPermissions grants)
  let record := grantTo record grants
  setState
    { records := update w.state.records id (some record)
      registry :=
        { w.state.registry with
          plugins := update w.state.registry.plugins id (some record.persisted) } }
  persistOr m fate w.state (pure ())
  let w ← Prog.get
  check (find w.state id)

def grant (id permission : String) : Fs V (PluginRecord V) := do
  let w ← Prog.get
  let record ← check (find w.state id)
  setGrants m fate id (insert permission record.grantedPermissions)

def revoke (id permission : String) : Fs V (PluginRecord V) := do
  let w ← Prog.get
  let record ← check (find w.state id)
  setGrants m fate id (record.grantedPermissions.erase permission)

def setEnabled (id : String) (enabled : Bool) : Fs V (PluginRecord V) := do
  check (validatePluginId id)
  let w ← Prog.get
  let record ← check (find w.state id)
  check <| ensure (!(enabled && record.missingPermissions ≠ ∅))
    (.missingPermissions id record.missingPermissions)
  let records := update w.state.records id (some { record with enabled })
  setState { w.state with records }
  -- The record is changed before its entry is looked for.
  match w.state.registry.plugins id with
  | none => Prog.fail (.corruptRegistry s!"missing state for `{id}`")
  | some persisted => do
    let plugins :=
      update w.state.registry.plugins id (some { persisted with enabled })
    setState { records, registry := { w.state.registry with plugins } }
    persistOr m fate w.state (pure ())
    let w ← Prog.get
    check (find w.state id)

def uninstall (id : String) : Fs V Bool := do
  check (validatePluginId id)
  let w ← Prog.get
  match w.state.records id with
  | none => pure false
  | some record => do
    let targetExists := (w.disk.plugins id).isSome
    Prog.when targetExists <| step fate .toTrash (Disk.toTrash id)
    setState (w.state.remove id record)
    persistOr m fate w.state <|
      Prog.when targetExists <| Prog.ignore (step fate .takeBack (Disk.takeBack id))
    Prog.when targetExists <| do
      let w ← Prog.get
      removeDirAll fate .removeTrash Disk.leaveTrash (w.disk.trash.headD []) 0
    pure true

def clearBundledRemoval (id : String) : Fs V Unit := do
  check (validatePluginId id)
  let w ← Prog.get
  setState (w.state.clearRemoval id)
  persistOr m fate w.state (pure ())

/-! ## Bundled plugins -/

structure BundledSeedOptions where
  restoreRemoved : Bool := false
  grantAllRequested : Bool := true
  enableNew : Bool := true

inductive Seeded
  | installed
  | updated
  | skipped

/-- What a bundled plugin is installed with -/
def seedInstallOptions (manifest : PluginManifestV2 V) (existing : Option (PluginRecord V))
    (options : BundledSeedOptions) : InstallOptions where
  origin := .bundled
  replaceExisting := existing.isSome
  allowDowngrade := false
  enabled := if existing.isSome then none else some options.enableNew
  grants := if options.grantAllRequested then manifest.requestedPermissions else ∅
  expectedId := some manifest.id

/-- One of the packages that are shipped with the app. Its error goes into the report. -/
def seedPackage (source : Package) (package : ValidatedPackage V) (options : BundledSeedOptions) :
    Fs V Seeded := do
  let id := package.manifest.id
  let w ← Prog.get
  let existing := w.state.records id
  if id ∈ w.state.registry.removedBundled ∧ !options.restoreRemoved then pure .skipped
  else if existing.any fun record => record.origin = .user then
    Prog.fail (.operation "bundled plugin conflicts with a user-origin plugin")
  else if existing.any fun record => package.manifest.version ≤ record.manifest.version then
    pure .skipped
  else do
    let _ ← installFromDirectory m fate uuid source
      (seedInstallOptions package.manifest existing options)
    Prog.when options.restoreRemoved <| clearBundledRemoval m (fate ∘ .clearing) id
    pure (if existing.isSome then .updated else .installed)

end

structure BundledSeedReport (V : Type) where
  installed : List String := []
  updated : List String := []
  skipped : List String := []
  errors : List (String × PluginError V) := []

def BundledSeedReport.add (report : BundledSeedReport V) (id : String) :
    Seeded → BundledSeedReport V
  | .installed => { report with installed := report.installed ++ [id] }
  | .updated => { report with updated := report.updated ++ [id] }
  | .skipped => { report with skipped := report.skipped ++ [id] }

def BundledSeedReport.reject (report : BundledSeedReport V) (label : String) (e : PluginError V) :
    BundledSeedReport V :=
  { report with errors := report.errors ++ [(label, e)] }

/-- What the world decides during an operation -/
structure Fortune where
  fate : FsStep → Fate
  uuid : String

variable [LinearOrder V]

def seedEntry (m : Manager V) (fortune : Fortune) (options : BundledSeedOptions)
    (report : BundledSeedReport V) (label : String) (source : Package) :
    Fs V (BundledSeedReport V) :=
  match validatePackageDirectory m.toHost source with
  | .error e => pure (report.reject label e)
  | .ok package =>
    Prog.handle
      (do
        let seeded ← seedPackage m fortune.fate fortune.uuid source package options
        pure (report.add package.manifest.id seeded))
      fun e => pure (report.reject package.manifest.id e)

/-- The packages in the order of their file names, each with the fortune of its turn -/
def seedBundledFrom (m : Manager V) (fortune : Nat → Fortune) (options : BundledSeedOptions) :
    Nat → List (String × Package) → BundledSeedReport V → Fs V (BundledSeedReport V)
  | _, [], report => pure report
  | n, (label, source) :: rest, report => do
    let report ← seedEntry m (fortune n) options report label source
    seedBundledFrom m fortune options (n + 1) rest report

/-! ## Scanning -/

/-- A directory that holds the plugin of its name -/
def candidate (m : Manager V) (plugins : String → Option Package) (id : String) :
    Option (ValidatedPackage V) :=
  if validPluginId id then
    (plugins id).bind fun package =>
      match validatePackageDirectory m.toHost package with
      | .ok validated => if validated.manifest.id = id then some validated else none
      | .error _ => none
  else none

/-- What is known of a plugin, in the light of its package -/
def reconcile (m : Manager V) (persisted : Option PersistedPluginState)
    (manifest : PluginManifestV2 V) : PersistedPluginState :=
  let persisted := persisted.getD ⟨false, .user, ∅⟩
  let requested := manifest.requestedPermissions
  let granted := persisted.grantedPermissions.filter fun permission =>
    permission ∈ requested ∧ m.permissionRegistry.contains permission
  { persisted with
    grantedPermissions := granted
    enabled := persisted.enabled && requested \ granted = ∅ }

def recordOf (validated : ValidatedPackage V) (persisted : PersistedPluginState) :
    PluginRecord V where
  id := validated.manifest.id
  manifest := validated.manifest
  origin := persisted.origin
  enabled := persisted.enabled
  grantedPermissions := persisted.grantedPermissions
  missingPermissions := validated.manifest.requestedPermissions \ persisted.grantedPermissions
  fileCount := validated.fileCount
  totalBytes := validated.totalBytes

/-- Records and registry after a look at all directories -/
def scanned (m : Manager V) (plugins : String → Option Package) (registry : PersistedRegistry) :
    ManagerState V where
  records id := (candidate m plugins id).map fun validated =>
    recordOf validated (reconcile m (registry.plugins id) validated.manifest)
  registry :=
    { registry with
      plugins := fun id =>
        match candidate m plugins id with
        | some validated => some (reconcile m (registry.plugins id) validated.manifest)
        | none => registry.plugins id }

def scan (m : Manager V) (fate : FsStep → Fate) : Fs V Unit := do
  let w ← Prog.get
  setState (scanned m w.disk.plugins w.state.registry)
  persistOr m fate w.state (pure ())

/-! ## The start -/

namespace Disk

def recoverRegistryFile (d : Disk) : Disk :=
  let d :=
    if d.registryFile.isNone && d.registryBackup.isSome then
      { d with registryFile := d.registryBackup, registryBackup := none }
    else { d with registryBackup := none }
  { d with temps := 0 }

end Disk

/-- `name.split_once("--")` -/
def splitOnce : List Char → Option (List Char × List Char)
  | [] => none
  | '-' :: '-' :: rest => some ([], rest)
  | c :: rest => (splitOnce rest).map fun (before, after) => (c :: before, after)

/-- The plugin whose backup a directory is taken for -/
def backupId (name : String) : Option String :=
  (splitOnce name.toList).map fun (id, _) => String.ofList id

/-- Backups are put back where there is no directory, and removed where there is one. -/
def recoverBackups : List (String × Package) → Fs V Unit
  | [] => pure ()
  | (name, package) :: rest => do
    match backupId name with
    | none => Prog.fail (.corruptRegistry s!"invalid backup directory `{name}`")
    | some id => do
      check (ensure (validPluginId id) (.corruptRegistry s!"invalid plugin id `{id}`"))
      Prog.modify fun w =>
        let disk := { w.disk with backups := w.disk.backups.filter (·.1 ≠ name) }
        { w with
          disk :=
            if (disk.plugins id).isSome then disk
            else { disk with plugins := update disk.plugins id (some package) } }
    recoverBackups rest

def recoverInterruptedInstalls : Fs V Unit := do
  let w ← Prog.get
  recoverBackups (w.disk.backups.insertionSort fun a b => a.1 ≤ b.1)

/-- `PluginManager::new` on what lies on the disk, when all its steps work -/
def start (m : Manager V) : Fs V Unit := do
  Prog.modify fun w => { w with disk := w.disk.recoverRegistryFile }
  recoverInterruptedInstalls
  Prog.modify fun w => { w with disk := { w.disk with staging := [], trash := [] } }
  Prog.modify fun w => { w with state := { registry := w.disk.registryFile.getD {} } }
  scan m fun _ => .works

/-! ## What the parts of an operation do -/

section

variable {V α β : Type} {m : Manager V} {fate : FsStep → Fate} {w : World V}
  {Q : α → World V → Prop} {E : PluginError V → World V → Prop} {D : World V → Prop}

@[simp] theorem ensures_check {x : Except (PluginError V) α} :
    (check x).Ensures w Q E D ↔ (∀ a, x = .ok a → Q a w) ∧ ∀ e, x = .error e → E e w := by
  cases x with
  | ok a =>
    exact ⟨fun h => ⟨fun a' ha => (by cases ha; exact h), fun e he => (by cases he)⟩,
      fun h => h.1 a rfl⟩
  | error e =>
    exact ⟨fun h => ⟨fun a ha => (by cases ha), fun e' he => (by cases he; exact h)⟩,
      fun h => h.2 e rfl⟩

@[simp] theorem ensures_setState {state : ManagerState V} {Q : Unit → World V → Prop} :
    (setState state).Ensures w Q E D ↔ Q () { w with state } := Iff.rfl

theorem ensures_fsStep {s : FsStep} {f : Disk → Disk} {Q : Unit → World V → Prop} :
    (step fate s f).Ensures w Q E D ↔ (fate s = .works → Q () { w with disk := f w.disk }) ∧
      (fate s = .fails → E .io w) ∧ (fate s = .dies → D w) := Prog.ensures_step

section

variable {τ : Type} {g : World V → τ}

theorem leaves_check (x : Except (PluginError V) α) : (check x).Leaves g := by
  cases x with
  | ok a => exact Prog.leaves_pure a
  | error e => exact Prog.leaves_fail e

theorem leaves_fsStep {s : FsStep} {f : Disk → Disk} (h : ∀ w, g { w with disk := f w.disk } = g w) :
    (step fate s f).Leaves g := Prog.leaves_step h

theorem leaves_removeDirAll {name : Nat → FsStep} {leave : Option Package → Disk → Disk}
    (h : ∀ left w, g { w with disk := leave left w.disk } = g w) (package : Package) (n : Nat) :
    (removeDirAll fate name leave package n).Leaves g := by
  induction package generalizing n with
  | nil => exact leaves_fsStep (h none)
  | cons _ rest ih => exact (leaves_fsStep (h (some rest))).bind fun _ => ih (n + 1)

end

/-! ### Staging -/

section

variable {τ : Type} {g : World V → τ}
  (hg : ∀ (w : World V) staging, g { w with disk := { w.disk with staging } } = g w)

include hg

theorem leaves_dropStaging (fate : FsStep → Fate) : (dropStaging fate).Leaves g :=
  Prog.leaves_get.bind fun _ => (leaves_removeDirAll (fun _ w => hg w _) _ _).ignore

theorem leaves_copyEntries (m : Manager V) (fate : FsStep → Fate) (walk : Walk) (n : Nat)
    (source : Package) : (copyEntries m fate walk n source).Leaves g := by
  induction source generalizing walk n with
  | nil => exact Prog.leaves_pure _
  | cons entry rest ih =>
    exact (leaves_check _).bind fun _ => (leaves_fsStep fun w => hg w _).bind fun _ => ih _ _

theorem leaves_copyPackageDirectory (m : Manager V) (fate : FsStep → Fate) (source : Package) :
    (copyPackageDirectory m fate source).Leaves g :=
  (leaves_check _).bind fun _ => leaves_copyEntries hg m fate _ _ _

theorem leaves_writeFiles (fate : FsStep → Fate) (n : Nat) (files : List (String × Bytes)) :
    (writeFiles fate n files : Fs V Unit).Leaves g := by
  induction files generalizing n with
  | nil => exact Prog.leaves_pure _
  | cons file rest ih =>
    exact Prog.leaves_get.bind fun _ => (leaves_check _).bind fun _ =>
      (leaves_fsStep fun w => hg w _).bind fun _ => ih _

theorem leaves_writePayload (m : Manager V) (fate : FsStep → Fate) (files : List (String × Bytes)) :
    (writePayload m fate files).Leaves g :=
  (leaves_check _).bind fun _ => leaves_writeFiles hg fate _ _

end

/-! ### Memory -/

theorem state_fsStep (s : FsStep) (f : Disk → Disk) :
    (step fate s f).Leaves (World.state (V := V)) := leaves_fsStep fun _ => rfl

theorem state_removeDirAll (name : Nat → FsStep) (leave : Option Package → Disk → Disk)
    (package : Package) (n : Nat) :
    (removeDirAll fate name leave package n).Leaves (World.state (V := V)) :=
  leaves_removeDirAll (fun _ _ => rfl) package n

theorem state_persistRegistry (m : Manager V) (fate : FsStep → Fate)
    (registry : PersistedRegistry) : (persistRegistry m fate registry).Leaves World.state := by
  rw [persistRegistry]
  split
  · exact Prog.leaves_fail _
  refine (state_fsStep _ _).bind fun _ => (state_fsStep _ _).bind fun _ =>
    Prog.leaves_get.bind fun w => (state_fsStep _ _).when.bind fun _ =>
    (state_fsStep _ _).when.bind fun _ => Prog.Leaves.bind ?_ fun _ =>
    (state_fsStep _ _).ignore.when
  exact (state_fsStep _ _).handle fun e => (state_fsStep _ _).ignore.when.bind fun _ =>
    (state_fsStep _ _).ignore.bind fun _ => Prog.leaves_fail e

theorem state_swapIn (fate : FsStep → Fate) (uuid id : String) (targetExists : Bool) :
    (swapIn fate uuid id targetExists).Leaves (World.state (V := V)) :=
  (state_fsStep _ _).when.bind fun _ => (state_fsStep _ _).handle fun e =>
    (state_fsStep _ _).ignore.when.bind fun _ => Prog.leaves_fail e

theorem state_dropBackup (fate : FsStep → Fate) (targetExists : Bool) :
    (dropBackup fate targetExists).Leaves (World.state (V := V)) :=
  (Prog.leaves_get.bind fun _ => state_removeDirAll _ _ _ _).ignore.when

theorem state_rollBack (fate : FsStep → Fate) (id : String) (targetExists : Bool) :
    (rollBack fate id targetExists).Leaves (World.state (V := V)) :=
  (state_fsStep _ _).ignore.bind fun _ => (state_fsStep _ _).ignore.when.bind fun _ =>
    Prog.leaves_get.bind fun _ => (state_removeDirAll _ _ _ _).ignore

theorem ensures_persistOr {snapshot : ManagerState V} {undo : Fs V Unit}
    (hundo : undo.Leaves World.state) :
    (persistOr m fate snapshot undo).Ensures w (fun _ w' => w'.state = w.state)
      (fun _ w' => w'.state = snapshot) fun _ => True := by
  rw [persistOr]
  simp only [Prog.ensures_bind, Prog.ensures_get, Prog.ensures_handle, ensures_setState,
    Prog.ensures_fail]
  refine (state_persistRegistry m fate _ w).mono (fun _ _ => id) (fun e w' _ => ?_) fun _ _ => trivial
  exact (hundo { w' with state := snapshot }).mono (fun _ _ h => h) (fun _ _ h => h) fun _ _ => trivial

end

end Bluetalk.PluginManager

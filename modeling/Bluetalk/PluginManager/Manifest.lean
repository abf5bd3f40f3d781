import Mathlib.Algebra.Group.Nat.Defs
import Mathlib.Data.Finset.SDiff

/-!
# Manifests and packages

What a package directory must be before it is installed or listed: its paths, its sizes and its
manifest. Parsing of JSON and of versions is not part of it: a manifest is given as the values that
`manifest.json` is read into, and a version requirement as the versions that match it.
-/

namespace Bluetalk.PluginManager

abbrev Bytes := List UInt8

inductive PluginError (V : Type)
  | io
  | json
  | invalidManifest (text : String)
  | invalidPath (path reason : String)
  | limitExceeded (text : String)
  | unsupportedFileType (path : String)
  | pathCollision (first second : String)
  | unknownPermission (permission : String)
  | permissionNotRequested (pluginId permission : String)
  | missingPermissions (pluginId : String) (permissions : Finset String)
  | notFound (id : String)
  | alreadyInstalled (id : String)
  | bundledConflict (id : String)
  | downgradeNotAllowed (pluginId : String) (installed candidate : V)
  | corruptRegistry (text : String)
  | operation (text : String)

structure PluginLimits where
  maxFiles : Nat := 500
  maxTotalBytes : Nat := 64 * 1024 * 1024
  maxFileBytes : Nat := 24 * 1024 * 1024
  maxManifestBytes : Nat := 256 * 1024
  maxDepth : Nat := 16
  maxRelativePathBytes : Nat := 240
  maxComponentBytes : Nat := 120

variable {V : Type}

/-- Goes on only where `c` holds. -/
def ensure (c : Bool) (e : PluginError V) : Except (PluginError V) Unit := if c then .ok () else .error e

@[simp] theorem ensure_eq_ok {c : Bool} {e : PluginError V} {u : Unit} :
    ensure c e = .ok u ↔ c = true := by
  rw [ensure]
  split <;> simp_all

@[simp] theorem except_bind_eq_ok {ε α β : Type} {x : Except ε α} {f : α → Except ε β} {b : β} :
    x >>= f = .ok b ↔ ∃ a, x = .ok a ∧ f a = .ok b := by
  cases x with
  | error e => exact ⟨fun h => (by cases h), fun ⟨a, h, _⟩ => (by cases h)⟩
  | ok a => exact ⟨fun h => ⟨a, rfl, h⟩, fun ⟨a', ha, h⟩ => (by cases ha; exact h)⟩

/-! ## Names -/

def isAscii (text : List Char) : Bool := text.all fun c => c.toNat < 128

def isAsciiLowercase (c : Char) : Bool := 'a' ≤ c && c ≤ 'z'

def isAsciiDigit (c : Char) : Bool := '0' ≤ c && c ≤ '9'

def isAsciiUppercase (c : Char) : Bool := 'A' ≤ c && c ≤ 'Z'

def isAsciiAlphanumeric (c : Char) : Bool :=
  isAsciiLowercase c || isAsciiUppercase c || isAsciiDigit c

/-- `validate_permission_name`, which only says `UnknownPermission` -/
def validPermissionName (permission : String) : Bool :=
  let text := permission.toList
  let part (text : List Char) :=
    text ≠ [] && text.all fun c => isAsciiLowercase c || isAsciiDigit c || c = '-'
  isAscii text && text.length ≤ 96 &&
    match text.splitOn ':' with
    | [space, action] => part space && part action
    | _ => false

/-- The characters of a plugin id -/
def isIdChar (c : Char) : Bool :=
  isAsciiLowercase c || isAsciiDigit c || c = '-' || c = '_' || c = '.'

/-- `validate_plugin_id` -/
def validPluginId (id : String) : Bool :=
  let text := id.toList
  text ≠ [] && text.length ≤ 64 && !(["constructor", "prototype", "__proto__"].contains id) &&
    text.all isIdChar && text.head?.any isAsciiAlphanumeric && text.getLast?.any isAsciiAlphanumeric

def validatePluginId (id : String) : Except (PluginError V) Unit :=
  ensure (validPluginId id) (.invalidManifest s!"invalid plugin id `{id}`")

/-- `char::is_whitespace` -/
def isWhitespace (c : Char) : Bool :=
  let n := c.toNat
  (9 ≤ n && n ≤ 13) || n = 0x20 || n = 0x85 || n = 0xa0 || n = 0x1680 ||
    (0x2000 ≤ n && n ≤ 0x200a) || n = 0x2028 || n = 0x2029 || n = 0x202f || n = 0x205f ||
    n = 0x3000

/-- `value.trim() == value` -/
def isTrimmed (value : String) : Bool :=
  !value.toList.head?.any isWhitespace && !value.toList.getLast?.any isWhitespace

def validateTrimmedField (name value : String) (min max : Nat) : Except (PluginError V) Unit :=
  ensure (isTrimmed value && min ≤ value.utf8ByteSize && value.utf8ByteSize ≤ max &&
      !value.toList.contains '\x00')
    (.invalidManifest s!"{name} must be trimmed and between {min} and {max} bytes")

def validateOptionalField (name value : String) (max : Nat) : Except (PluginError V) Unit :=
  ensure (value.utf8ByteSize ≤ max && !value.toList.contains '\x00')
    (.invalidManifest s!"{name} exceeds {max} bytes")

def validateOptionalString (name : String) (value : Option String) (max : Nat) :
    Except (PluginError V) Unit :=
  ensure
    (value.all fun value =>
      isTrimmed value && value ≠ "" && value.utf8ByteSize ≤ max && !value.toList.contains '\x00')
    (.invalidManifest s!"{name} must be non-empty, trimmed and at most {max} bytes")

/-! ## Paths -/

def toAsciiUppercase (c : Char) : Char :=
  if isAsciiLowercase c then Char.ofNat (c.toNat - 32) else c

def toAsciiLowercase (c : Char) : Char :=
  if isAsciiUppercase c then Char.ofNat (c.toNat + 32) else c

def isWindowsReservedComponent (component : List Char) : Bool :=
  let stem := (component.takeWhile (· ≠ '.')).map toAsciiUppercase
  let device (name : String) := stem.take 3 = name.toList && stem.length = 4 &&
    stem.getLast?.any fun c => '1' ≤ c && c ≤ '9'
  ["CON", "PRN", "AUX", "NUL"].any (stem = ·.toList) || device "COM" || device "LPT"

def validateComponent (raw : String) (limits : PluginLimits) (part : List Char) :
    Except (PluginError V) Unit := do
  ensure (part ≠ [] && part ≠ ['.'] && part ≠ ['.', '.'])
    (.invalidPath raw "empty, dot and parent components are forbidden")
  ensure (part.length ≤ limits.maxComponentBytes) (.invalidPath raw "a path component is too long")
  ensure (part.head? ≠ some '.' && part.getLast? ≠ some '.' && part.getLast? ≠ some ' ')
    (.invalidPath raw "hidden and trailing-dot/space components are forbidden")
  ensure
    (part.all fun c =>
      isAsciiAlphanumeric c || c = '-' || c = '_' || c = '.' || c = '@' || c = '+')
    (.invalidPath raw "path contains unsupported characters")
  ensure (!isWindowsReservedComponent part)
    (.invalidPath raw "path uses a reserved Windows device name")

def validatePayloadPath (raw : String) (limits : PluginLimits) : Except (PluginError V) Unit := do
  let text := raw.toList
  ensure (text ≠ []) (.invalidPath raw "path is empty")
  ensure (isAscii text) (.invalidPath raw "package paths must be ASCII")
  ensure (text.length ≤ limits.maxRelativePathBytes) (.invalidPath raw "path is too long")
  ensure (text.head? ≠ some '/' && !text.contains '\\')
    (.invalidPath raw "absolute, UNC and backslash paths are forbidden")
  ensure (!text.contains ':' && !text.contains '%' && !text.contains '?' && !text.contains '#')
    (.invalidPath raw "path contains an ambiguous or reserved character")
  let parts := text.splitOn '/'
  ensure (parts.length ≤ limits.maxDepth) (.invalidPath raw "path nesting is too deep")
  parts.forM (validateComponent raw limits)

/-- `path.extension()` of a path that has passed -/
def extension (raw : String) : Option (List Char) :=
  let name := ((raw.toList.splitOn '/').getLast?).getD []
  if name.contains '.' then (name.splitOn '.').getLast? else none

def collisionKey (path : String) : String := String.ofList (path.toList.map toAsciiLowercase)

/-! ## Manifests -/

/-- The permissions that the host knows, all of them well-formed names -/
structure PermissionRegistry where
  permissions : Finset String
  valid : ∀ permission ∈ permissions, validPermissionName permission = true

def PermissionRegistry.contains (registry : PermissionRegistry) (permission : String) : Bool :=
  permission ∈ registry.permissions

inductive PluginUiKind
  | sandboxedHtml
  | trustedRenderer

structure PluginUi where
  entry : String
  kind : PluginUiKind := .sandboxedHtml

structure PluginBackend where
  entry : String

structure PluginManifestV2 (V : Type) where
  schemaVersion : Nat
  id : String
  name : String
  version : V
  apiVersion : V → Bool
  description : String := ""
  author : Option String := none
  publisher : Option String := none
  license : Option String := none
  ui : Option PluginUi := none
  backend : Option PluginBackend := none
  permissions : List String := []

/-- What manifests are checked against, and their parser -/
structure Host (V : Type) where
  supportedApiVersion : V
  limits : PluginLimits
  permissionRegistry : PermissionRegistry
  fromSlice : Bytes → Option (PluginManifestV2 V)

def checkPermissions (registry : PermissionRegistry) :
    List String → List String → Except (PluginError V) Unit
  | _, [] => .ok ()
  | unique, permission :: rest => do
    ensure (validPermissionName permission) (.unknownPermission permission)
    ensure (registry.contains permission) (.unknownPermission permission)
    ensure (!unique.contains permission)
      (.invalidManifest s!"duplicate permission `{permission}`")
    checkPermissions registry (permission :: unique) rest

namespace PluginManifestV2

def validate (manifest : PluginManifestV2 V) (host : Host V) : Except (PluginError V) Unit := do
  ensure (manifest.schemaVersion = 2) (.invalidManifest "schemaVersion must be 2")
  validatePluginId manifest.id
  validateTrimmedField "name" manifest.name 1 120
  validateOptionalField "description" manifest.description 4096
  validateOptionalString "author" manifest.author 200
  validateOptionalString "publisher" manifest.publisher 200
  validateOptionalString "license" manifest.license 100
  ensure (manifest.apiVersion host.supportedApiVersion)
    (.invalidManifest "apiVersion does not support host API")
  ensure (manifest.ui.isSome || manifest.backend.isSome)
    (.invalidManifest "at least one of `ui` or `backend` is required")
  ensure (manifest.permissions.length ≤ 64)
    (.limitExceeded "manifest requests more than 64 permissions")
  checkPermissions host.permissionRegistry [] manifest.permissions
  manifest.ui.forM fun ui => do
    validatePayloadPath ui.entry host.limits
    let required := match ui.kind with
      | .sandboxedHtml => "html"
      | .trustedRenderer => "js"
    ensure (extension ui.entry = some required.toList)
      (.invalidManifest s!"ui.entry must point to a .{required} file for this ui.kind")
  manifest.backend.forM fun backend => do
    validatePayloadPath backend.entry host.limits
    ensure (extension backend.entry = some "wasm".toList)
      (.invalidManifest "backend.entry must point to a .wasm file")

def requestedPermissions (manifest : PluginManifestV2 V) : Finset String :=
  manifest.permissions.toFinset

def parseAndValidate (host : Host V) (bytes : Bytes) :
    Except (PluginError V) (PluginManifestV2 V) := do
  ensure (bytes.length ≤ host.limits.maxManifestBytes)
    (.limitExceeded s!"manifest is larger than {host.limits.maxManifestBytes} bytes")
  match host.fromSlice bytes with
  | none => throw .json
  | some manifest =>
    manifest.validate host
    pure manifest

end PluginManifestV2

/-! ## Packages -/

/-- What stands at a path below a package directory -/
inductive Node
  | file (bytes : Bytes)
  | dir
  | other
deriving DecidableEq

/-- A package directory: what a walk through it meets, with the paths relative to it -/
abbrev Package := List (String × Node)

structure ValidatedPackage (V : Type) where
  manifest : PluginManifestV2 V
  fileCount : Nat
  totalBytes : Nat

/-- What a walk through a package has met so far -/
structure Walk where
  paths : List (String × String) := []
  fileCount : Nat := 0
  totalBytes : Nat := 0

namespace Walk

/-- The path is a new one. -/
def takePath (walk : Walk) (path : String) : Except (PluginError V) Walk :=
  match walk.paths.lookup (collisionKey path) with
  | some first => .error (.pathCollision first path)
  | none => .ok { walk with paths := (collisionKey path, path) :: walk.paths }

def countFile (walk : Walk) (limits : PluginLimits) : Except (PluginError V) Walk := do
  ensure (walk.fileCount + 1 ≤ limits.maxFiles)
    (.limitExceeded s!"package has more than {limits.maxFiles} files")
  pure { walk with fileCount := walk.fileCount + 1 }

/-- The bytes of a file of a `package` or of a `payload`, counted as they lie there or, as `suffix`
says, while they are copied -/
def countBytes (walk : Walk) (limits : PluginLimits) (what suffix path : String) (size : Nat) :
    Except (PluginError V) Walk := do
  ensure (size ≤ limits.maxFileBytes)
    (.limitExceeded s!"file `{path}` exceeds {limits.maxFileBytes} bytes{suffix}")
  ensure (walk.totalBytes + size < 2 ^ 64) (.limitExceeded s!"{what} size overflow")
  ensure (walk.totalBytes + size ≤ limits.maxTotalBytes)
    (.limitExceeded s!"{what} exceeds {limits.maxTotalBytes} bytes{suffix}")
  pure { walk with totalBytes := walk.totalBytes + size }

def checkManifestSize (limits : PluginLimits) (path : String) (size : Nat) :
    Except (PluginError V) Unit :=
  ensure (path ≠ "manifest.json" || size ≤ limits.maxManifestBytes)
    (.limitExceeded s!"manifest exceeds {limits.maxManifestBytes} bytes")

/-- An entry of a package, met as it lies there or, as `suffix` says, while it is copied -/
def enter (limits : PluginLimits) (suffix : String) (walk : Walk) (entry : String × Node) :
    Except (PluginError V) Walk := do
  let (path, node) := entry
  validatePayloadPath path limits
  let walk ← walk.takePath path
  match node with
  | .other => throw (.unsupportedFileType path)
  | .dir => pure walk
  | .file bytes =>
    let walk ← walk.countFile limits
    walk.countBytes limits "package" suffix path bytes.length

/-- The same, with the content of the manifest kept -/
def visit (limits : PluginLimits) (met : Walk × Option Bytes) (entry : String × Node) :
    Except (PluginError V) (Walk × Option Bytes) := do
  let walk ← met.1.enter limits "" entry
  match entry with
  | (path, .file bytes) =>
    checkManifestSize limits path bytes.length
    pure (walk, if path = "manifest.json" then some bytes else met.2)
  | _ => pure (walk, met.2)

/-- A file of a payload, whose files have been counted -/
def visitPayload (limits : PluginLimits) (walk : Walk) (file : String × Bytes) :
    Except (PluginError V) Walk := do
  let (path, bytes) := file
  validatePayloadPath path limits
  let walk ← walk.takePath path
  ensure (bytes.length ≤ limits.maxFileBytes)
    (.limitExceeded s!"file `{path}` exceeds {limits.maxFileBytes} bytes")
  checkManifestSize limits path bytes.length
  walk.countBytes limits "payload" "" path bytes.length

end Walk

def ensureRegularEntry (package : Package) (limits : PluginLimits) (raw : String) :
    Except (PluginError V) Unit := do
  validatePayloadPath raw limits
  match package.lookup raw with
  | none => throw (.invalidManifest s!"entry `{raw}` does not exist")
  | some (.file _) => pure ()
  | some _ => throw (.invalidManifest s!"entry `{raw}` is not a regular file")

def validatePackageDirectory (host : Host V) (package : Package) :
    Except (PluginError V) (ValidatedPackage V) := do
  let (walk, manifestBytes) ← package.foldlM (Walk.visit host.limits) ({}, none)
  match manifestBytes with
  | none => throw (.invalidManifest "missing `manifest.json`")
  | some manifestBytes =>
    let manifest ← PluginManifestV2.parseAndValidate host manifestBytes
    manifest.ui.forM fun ui => ensureRegularEntry package host.limits ui.entry
    manifest.backend.forM fun backend => ensureRegularEntry package host.limits backend.entry
    pure ⟨manifest, walk.fileCount, walk.totalBytes⟩

/-! ## What has passed -/

theorem known_of_checkPermissions {registry : PermissionRegistry} {unique permissions : List String}
    (h : checkPermissions (V := V) registry unique permissions = .ok ()) {permission : String}
    (hmem : permission ∈ permissions) : registry.contains permission = true := by
  induction permissions generalizing unique with
  | nil => cases hmem
  | cons p rest ih =>
    simp only [checkPermissions, except_bind_eq_ok, ensure_eq_ok] at h
    obtain ⟨_, _, _, hknown, _, _, h⟩ := h
    rcases List.mem_cons.mp hmem with rfl | hmem
    · exact hknown
    · exact ih h hmem

/-- What a manifest that has passed is known for -/
structure PluginManifestV2.Sound (manifest : PluginManifestV2 V) (host : Host V) : Prop where
  id : validPluginId manifest.id = true
  known : manifest.requestedPermissions ⊆ host.permissionRegistry.permissions

theorem PluginManifestV2.sound_of_validate {manifest : PluginManifestV2 V} {host : Host V}
    (h : manifest.validate host = .ok ()) : manifest.Sound host := by
  simp only [validate, except_bind_eq_ok, ensure_eq_ok, validatePluginId] at h
  obtain ⟨_, _, _, hid, _, _, _, _, _, _, _, _, _, _, _, _, _, _, _, _, _, hknown, _⟩ := h
  refine ⟨hid, fun permission hmem => ?_⟩
  exact of_decide_eq_true (known_of_checkPermissions hknown (List.mem_toFinset.mp hmem))

theorem sound_of_validatePackageDirectory {host : Host V} {package : Package}
    {validated : ValidatedPackage V} (h : validatePackageDirectory host package = .ok validated) :
    validated.manifest.Sound host := by
  simp only [validatePackageDirectory, except_bind_eq_ok] at h
  obtain ⟨⟨walk, manifestBytes⟩, -, h⟩ := h
  cases manifestBytes with
  | none => cases h
  | some bytes =>
    simp only [except_bind_eq_ok, PluginManifestV2.parseAndValidate] at h
    obtain ⟨manifest, ⟨_, _, h'⟩, _, _, _, _, h⟩ := h
    cases h
    cases hslice : host.fromSlice bytes with
    | none => rw [hslice] at h'; cases h'
    | some manifest' =>
      rw [hslice] at h'
      simp only [except_bind_eq_ok] at h'
      obtain ⟨_, hvalid, h'⟩ := h'
      cases h'
      exact PluginManifestV2.sound_of_validate hvalid

end Bluetalk.PluginManager

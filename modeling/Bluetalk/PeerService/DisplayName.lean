import Bluetalk.Js.JsonLiteral
import Bluetalk.NetworkCore.Config

/-!
# The name that a peer is shown by

The desktop takes the first 100 characters of the name that is stored, the web client the first 100
code units. The network core and the handshakes let in what takes 1 to 128 bytes in UTF-8, and a
desktop reads what is well formed. So the characters that are taken are not to be too wide, and the
cut is not to leave a surrogate alone.
-/

open List

namespace Bluetalk.PeerService

open NetworkCore

def defaultDisplayName : String := "BlueTalk user"
def displayNameMaxLen : Nat := 100
def displayNameMaxBytes : Nat := 128
def discoveryPort : UInt16 := 41235

/-- `str::trim` -/
def rustTrim (s : String) : String := trimBy isRustSpace s

/-- `display_name` of what is stored as `settings.displayName` -/
def displayName (value : Json) : String :=
  let name := match value with
    | .str s => s
    | _ => ""
  let trimmed := rustTrim name
  if trimmed = "" then defaultDisplayName else String.ofList (trimmed.toList.take displayNameMaxLen)

/-- `build_config`, given the addresses that discovery broadcasts to -/
def buildConfig (stored : Json) (targets : List SocketAddr) (listenPort : UInt16) : NetworkConfig :=
  { displayName := displayName stored
    listenAddr := { ip := "0.0.0.0", port := listenPort }
    discovery := some { bindAddr := { ip := "0.0.0.0", port := discoveryPort }, targets := targets }
    limits := { maxFrameBytes := 16 * 1024 * 1024 } }

/-- `PeerNetwork::new` refuses a configuration that is not valid. -/
def newNetwork (config : NetworkConfig) : Except CoreError NetworkConfig := do
  config.validate
  return config

/-- `validate_display_name` of the desktop's handshake -/
def validateDisplayName (displayName : String) : Except String Unit :=
  if displayName = "" ∨ displayName.utf8ByteSize > displayNameMaxBytes then
    .error "display name must contain 1..=128 UTF-8 bytes"
  else .ok ()

/-- `refreshDisplayName` of the web client, of a text that is stored -/
def refreshDisplayName (stored : JsString) : JsString :=
  let trimmed := stored.trim
  if trimmed ≠ [] then trimmed.take displayNameMaxLen else .ofString defaultDisplayName

/-- `validateDisplayName` of the web client's handshake -/
def validateDisplayNameWeb (displayName : JsString) : Except String Unit :=
  let bytes := displayName.encode
  if bytes.length = 0 ∨ bytes.length > displayNameMaxBytes then
    .error "display name must contain 1..=128 UTF-8 bytes"
  else .ok ()

/-- The name lets the network of the desktop start, on every port. -/
def StartsNetwork (stored : String) : Prop :=
  ∀ targets listenPort, newNetwork (buildConfig (.str stored) targets listenPort) =
    .ok (buildConfig (.str stored) targets listenPort)

/-- A name of the web client is well formed, and accepted by its own handshake and by the peer's. -/
structure Accepted (name : JsString) : Prop where
  wellFormed : name.isWellFormed = true
  own : validateDisplayNameWeb name = .ok ()
  web : ∃ read, jsonParseText name.stringify = some read ∧ validateDisplayNameWeb read = .ok ()
  desktop : ∃ read, serdeText name.stringify = some read ∧ validateDisplayName read = .ok ()

/-- The bytes of characters in UTF-8. -/
def wideness (chars : List Char) : Nat := (chars.map Char.utf8Size).sum

/-- The first 100 characters of the trimmed name take no more than 128 bytes. -/
def Fits (stored : String) : Prop :=
  wideness ((rustTrim stored).toList.take displayNameMaxLen) ≤ displayNameMaxBytes

/-- The first 100 units of the trimmed name leave no surrogate alone, and the characters that they
spell take no more than 128 bytes. -/
def FitsWeb (stored : JsString) : Prop :=
  let units : JsString := stored.trim.take displayNameMaxLen
  units.isWellFormed = true ∧ wideness units.toText.toList ≤ displayNameMaxBytes

instance (stored : String) : Decidable (Fits stored) := inferInstanceAs (Decidable (_ ≤ _))

instance (stored : JsString) : Decidable (FitsWeb stored) := inferInstanceAs (Decidable (_ ∧ _))

variable {stored : String} {units name : JsString}

theorem utf8ByteSize_eq_wideness (s : String) : s.utf8ByteSize = wideness s.toList := by
  have hlist : ∀ chars : List Char, (String.ofList chars).utf8ByteSize = wideness chars := by
    intro chars
    induction chars with
    | nil => rfl
    | cons c chars ih =>
      rw [String.ofList_cons, String.utf8ByteSize_append, String.utf8ByteSize_singleton, ih, wideness,
        wideness, map_cons, sum_cons]
  rw [← hlist, String.ofList_toList]

theorem newNetwork_iff {config : NetworkConfig} :
    newNetwork config = .ok config ↔ config.validate = .ok () := by
  rw [newNetwork]
  cases config.validate with
  | error e => exact iff_of_false nofun nofun
  | ok => exact iff_of_true rfl rfl

theorem startsNetwork_iff_bytes : StartsNetwork stored ↔
    0 < (displayName (.str stored)).utf8ByteSize ∧ (displayName (.str stored)).utf8ByteSize ≤ 128 := by
  have hvalid : ∀ targets listenPort, newNetwork (buildConfig (.str stored) targets listenPort) =
      .ok (buildConfig (.str stored) targets listenPort) ↔ 0 < (displayName (.str stored)).utf8ByteSize ∧
        (displayName (.str stored)).utf8ByteSize ≤ 128 := fun targets listenPort =>
    newNetwork_iff.trans (NetworkConfig.validate_of_defaults (16 * 1024 * 1024)
      (by decide) rfl rfl rfl rfl rfl)
  exact ⟨fun h => (hvalid [] 0).mp (h [] 0), fun h targets port => (hvalid targets port).mpr h⟩

theorem startsNetwork_iff : StartsNetwork stored ↔ Fits stored := by
  rw [startsNetwork_iff_bytes, displayName, Fits]
  split
  next hempty =>
    rw [hempty]
    exact iff_of_true (by decide) (by decide)
  next hne =>
  have hname : String.ofList ((rustTrim stored).toList.take displayNameMaxLen) ≠ "" := by
    intro hnil
    rw [String.ofList_eq_empty_iff, take_eq_nil_iff] at hnil
    exact hne (String.toList_eq_nil_iff.mp (hnil.resolve_left (by decide)))
  refine (and_iff_right (utf8ByteSize_pos hname)).trans ?_
  rw [utf8ByteSize_eq_wideness, String.toList_ofList, displayNameMaxBytes]

theorem validateDisplayNameWeb_iff (h : name ≠ []) :
    validateDisplayNameWeb name = .ok () ↔ wideness name.toText.toList ≤ displayNameMaxBytes := by
  have hpos := length_encode_pos h
  rw [validateDisplayNameWeb, ← utf8ByteSize_eq_wideness, ← length_encode]
  split
  next hbad => exact iff_of_false nofun (by omega)
  next hgood => exact iff_of_true rfl (by omega)

theorem accepted_iff (h : name ≠ []) : Accepted name ↔
    name.isWellFormed = true ∧ wideness name.toText.toList ≤ displayNameMaxBytes := by
  constructor
  · exact fun ha => ⟨ha.wellFormed, (validateDisplayNameWeb_iff h).mp ha.own⟩
  rintro ⟨hwell, hbytes⟩
  have hown := (validateDisplayNameWeb_iff h).mpr hbytes
  refine ⟨hwell, hown, ⟨name, jsonParseText_stringify name, hown⟩, name.toText, ?_, ?_⟩
  · rw [serdeText_stringify, if_pos hwell]
  have hpos := length_encode_pos h
  rw [validateDisplayName, if_neg]
  rw [not_or]
  refine ⟨fun hempty => ?_, ?_⟩
  · rw [length_encode, hempty] at hpos
    exact Nat.lt_irrefl 0 hpos
  · rw [utf8ByteSize_eq_wideness]
    exact Nat.not_lt.mpr hbytes

/-- What is derived of a name on the desktop and on the web is valid exactly when what the cut leaves
is narrow enough and, on the web, well formed. -/
theorem displayName_valid_iff (stored : String) (units : JsString) :
    (StartsNetwork stored ↔ Fits stored) ∧ (Accepted (refreshDisplayName units) ↔ FitsWeb units) := by
  refine ⟨startsNetwork_iff, ?_⟩
  rw [refreshDisplayName, FitsWeb]
  split
  next hne => exact accepted_iff fun hnil => hne ((take_eq_nil_iff.mp hnil).resolve_left (by decide))
  next hempty =>
  rw [not_not.mp hempty]
  refine iff_of_true ((accepted_iff (by decide)).mpr ?_) ?_
  · decide
  · decide

/-- 65 umlauts take 130 bytes, on the desktop and on the web. -/
theorem displayName_fails_umlauts :
    ¬ (StartsNetwork (String.ofList (List.replicate 65 'ü')) ∧
      Accepted (refreshDisplayName (.ofString (String.ofList (List.replicate 65 'ü'))))) := by
  rintro ⟨hstarts, -⟩
  have hfits := startsNetwork_iff.mp hstarts
  revert hfits
  decide +kernel

/-- A letter and 50 emoji are cut in the middle of the last one. -/
example : ¬ FitsWeb (.ofString (String.ofList ('a' :: List.replicate 50 '😀'))) := by
  decide +kernel

end Bluetalk.PeerService

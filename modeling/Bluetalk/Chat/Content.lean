import Bluetalk.Js.Base64
import Bluetalk.Js.CleanText
import Bluetalk.Storage.Messages

/-!
# What a received message may contain

The checks that `peerMessageHandler.js` and `groupInboundHandler.js` make of the content of a
message before it is stored: the size of a text or file, and whether a sticker is a picture
(`stickers/stickerStore.js`). What a file says of a voice message is tidied (`voice/voiceMeta.js`).
-/

open List Option

namespace Bluetalk.Chat
open CloudAccount

def maxChatFileBytes : Int := 8 * 1024 * 1024
def maxChatTextChars : Nat := 128 * 1024
def maxStickerSizeBytes : Int := 2 * 1024 * 1024

def storeableChatKinds : List String := ["chat", "file", "sticker", "contact-share"]

def isStoreableChatKind (kind : Json) : Bool := storeableChatKinds.any fun k => kind = .str k

/-! ### Files -/

/-- `/^[A-Za-z0-9+/]*={0,2}$/` -/
def isBase64 (data : String) : Bool :=
  (dropPadding data.toList).all fun c => (Base64.value c).isSome

def base64ByteLength (value : Json) : Int :=
  let data := value.textOrEmpty
  if data = "" || utf16Length data % 4 ≠ 0 || !isBase64 data then -1
  else
    let padding := data.toList.length - (dropPadding data.toList).length
    utf16Length data / 4 * 3 - padding

/-- The first bytes of a file, as far as its text can be decoded. -/
def firstBytes (base64 : String) (count : Nat) : Bytes :=
  ((atob (jsSlice base64 ((count + 2) / 3 * 4))).getD []).take count

def mimeBySignature : List (String × (Bytes → Bool)) :=
  [("image/png", fun b => b.take 4 = [0x89, 0x50, 0x4E, 0x47]),
    ("image/jpeg", fun b => b.take 3 = [0xFF, 0xD8, 0xFF]),
    ("image/gif", fun b => b.take 4 = [0x47, 0x49, 0x46, 0x38]),
    ("image/webp", fun b => b.take 4 = [0x52, 0x49, 0x46, 0x46] &&
      (b.drop 8).take 4 = [0x57, 0x45, 0x42, 0x50])]

def allowedMimes : List String := mimeBySignature.map Prod.fst

/-- What a sticker is stored with, or the text of the error. -/
def validateStickerData (m : Message) : Except String (List (String × Json)) :=
  let actualSize := base64ByteLength (m.field "fileData")
  if actualSize < 1 then .error "Ungültige oder leere Sticker-Datei"
  else if maxStickerSizeBytes < actualSize then .error "Sticker darf maximal 2 MB groß sein"
  else
    let bytes := firstBytes (m.field "fileData").textOrEmpty 12
    match mimeBySignature.find? fun entry => entry.2 bytes with
    | none => .error "Nur PNG, JPEG, GIF und WebP werden unterstützt"
    | some (detected, _) =>
      let fileType := (m.field "fileType").textOrEmpty.toLower
      let declared := jsTrim (String.ofList (fileType.toList.takeWhile fun c => c ≠ ';'))
      let fileSize := (m.field "fileSize").toNumber
      if declared ≠ "" && (declared ∉ allowedMimes || declared ≠ detected) then
        .error "Dateityp und Dateiinhalt stimmen nicht überein"
      else if 0 < fileSize && decide (2 < |fileSize - actualSize|) then
        .error "Ungültige Sticker-Dateigröße"
      else
        .ok [("fileData", m.field "fileData"), ("fileType", .str detected),
          ("fileSize", .num actualSize)]

/-! ### Voice messages -/

def maxVoiceMs : Int := 5 * 60 * 1000
def waveformBars : Nat := 64
def waveformMax : Int := 255

def clampBar (x : Json) : Int := max 0 (min waveformMax x.toNumber)

/-- Each bar is the highest of the levels it stands for. -/
def downsampleWaveform (levels : List Json) : List Int :=
  if levels = [] then List.replicate waveformBars 0
  else if levels.length = waveformBars then levels.map clampBar
  else (List.range waveformBars).map fun i =>
    let start := i * levels.length / waveformBars
    let stop := max (start + 1) ((i + 1) * levels.length / waveformBars)
    (((levels.take stop).drop start).map clampBar).foldl max 0

def sanitizeVoiceMeta (raw : Json) : Option Json :=
  let durationMs := (raw.get "durationMs").toNumber
  if !raw.isObject || durationMs ≤ 0 || maxVoiceMs + 15000 < durationMs then none
  else
    let waveform := match raw.get "waveform" with
      | .arr levels => levels
      | _ => []
    some (.obj [("durationMs", .num durationMs),
      ("waveform", .arr ((downsampleWaveform waveform).map .num)),
      ("mime", .str (jsSlice (jsTrim (raw.get "mime").textOrEmpty) 80))])

/-! ### Messages -/

def withVoice (m : Message) : Message :=
  if (m.field "voice").truthy then
    match sanitizeVoiceMeta (m.field "voice") with
    | some voice => JsObject.set m "voice" voice
    | none => JsObject.erase m "voice"
  else m

/-- The message as it is stored, unless its content is not one. -/
def checkContent (m : Message) : Option Message :=
  if m.field "kind" = .str "sticker" then
    match validateStickerData m with
    | .error _ => none
    | .ok fields => some (fields.foldl (fun m x => JsObject.set m x.1 x.2) m)
  else if m.field "kind" = .str "file" && (m.field "fileData").truthy then
    let actualSize := base64ByteLength (m.field "fileData")
    if actualSize < 0 || maxChatFileBytes < actualSize then none
    else some (withVoice (JsObject.set m "fileSize" (.num actualSize)))
  else if m.field "kind" = .str "chat" &&
      maxChatTextChars < utf16Length (m.field "content").textOrEmpty then none
  else some m

/-! ### What the checks keep -/

/-- The fields that the checks may change -/
def contentFields : List String := ["fileData", "fileType", "fileSize", "voice"]

variable {m m' : Message} {k : String} {v : Json} {l : String} {fields : List (String × Json)}

theorem field_set (l : String) :
    Message.field (JsObject.set m k v) l = if l = k then v else m.field l := by
  rw [Message.field, JsObject.get?_set]
  split <;> rfl

theorem field_set_of_ne (h : l ≠ k) :
    Message.field (JsObject.set m k v) l = m.field l := by
  rw [field_set, if_neg h]

theorem field_erase_of_ne (h : l ≠ k) :
    Message.field (JsObject.erase m k) l = m.field l := by
  rw [Message.field, JsObject.get?_erase, if_neg h, Message.field]

theorem field_withVoice (h : k ≠ "voice") : (withVoice m).field k = m.field k := by
  rw [withVoice]
  split
  · split
    · exact field_set_of_ne h
    · exact field_erase_of_ne h
  · rfl

theorem names_validateStickerData (h : validateStickerData m = .ok fields) :
    fields.map Prod.fst = ["fileData", "fileType", "fileSize"] := by
  rw [validateStickerData] at h
  dsimp only at h
  split at h
  · cases h
  split at h
  · cases h
  split at h
  · cases h
  split at h
  · cases h
  split at h
  · cases h
  · obtain rfl := Except.ok.inj h
    rfl

theorem field_foldl_set (h : k ∉ fields.map Prod.fst) :
    Message.field (fields.foldl (fun m x => JsObject.set m x.1 x.2) m) k = m.field k := by
  induction fields generalizing m with
  | nil => rfl
  | cons x fields ih =>
    rw [map_cons, mem_cons, not_or] at h
    rw [foldl_cons, ih h.2, field_set_of_ne h.1]

theorem field_checkContent (h : checkContent m = some m') (hk : k ∉ contentFields) :
    m'.field k = m.field k := by
  rw [checkContent] at h
  rw [contentFields, mem_cons, mem_cons, mem_cons, mem_singleton] at hk
  push Not at hk
  obtain ⟨hdata, htype, hsize, hvoice⟩ := hk
  split at h
  · split at h
    next => cases h
    next fields hfields =>
    obtain rfl := some.inj h
    refine field_foldl_set ?_
    rw [names_validateStickerData hfields]
    simp [hdata, htype, hsize]
  split at h
  · dsimp only at h
    split at h
    · cases h
    · obtain rfl := some.inj h
      rw [field_withVoice hvoice, field_set_of_ne hsize]
  split at h
  · cases h
  · obtain rfl := some.inj h
    rfl

end Bluetalk.Chat

/-!
## Patches in flight

A message is kept twice: as it is stored, and as it is loaded (`messageCacheRef`). `applyMessagePatch` of
`src/renderer/app/hooks/useChatData.js` changes the stored one, which takes its time and may fail, and
after that the loaded one. The store takes the patches that are in flight in any order.
-/

namespace Bluetalk.Chat
open CloudAccount Storage

/-- A patch in flight, and who waits for it -/
structure PatchTask (ο : Type) where
  origin : ο
  patch : List (String × Json)
  /-- Whether the stored message has it already -/
  isStored : Bool := false

structure MessageCopies (ο : Type) where
  stored : Option Message
  loaded : Option Message
  patches : List (PatchTask ο)

/-- What becomes of a patch -/
inductive Landed (ο : Type)
  | stored
  | failed (origin : ο)
  | finished (origin : ο)

/-- `{ ...message, ...patch }` -/
def withPatch (patch : List (String × Json)) (m : Message) : Message :=
  patch.foldl (fun m x => JsObject.set m x.1 x.2) m

/-- What a patch makes of a field -/
def patchedField (patch : List (String × Json)) (k : String) (value : Json) : Json :=
  patch.foldl (fun value x => if x.1 = k then x.2 else value) value

namespace MessageCopies

variable {ο : Type}

/-- `applyMessagePatch` is called. -/
def issue (origin : ο) (patch : List (String × Json)) (c : MessageCopies ο) : MessageCopies ο :=
  { c with patches := c.patches ++ [{ origin := origin, patch := patch }] }

/-- A patch in flight comes to its next step. A message that is not stored, or not loaded, stays so. -/
def land (k : Nat) (fails : Bool) (c : MessageCopies ο) : Option (MessageCopies ο × Landed ο) :=
  match c.patches[k]? with
  | none => none
  | some t =>
    if t.isStored then
      some ({ c with
        loaded := c.loaded.map (withPatch t.patch)
        patches := c.patches.eraseIdx k }, .finished t.origin)
    else if fails then some ({ c with patches := c.patches.eraseIdx k }, .failed t.origin)
    else
      some ({ c with
        stored := c.stored.map fun m => patchMessage m t.patch
        patches := c.patches.set k { t with isStored := true } }, .stored)

end MessageCopies

section

variable {ο : Type} {c c' : MessageCopies ο} {k : Nat} {fails : Bool} {m : Message} {field : String}
  {patch : List (String × Json)} {value : Json} {t t' : PatchTask ο} {landed : Landed ο}

theorem field_withPatch : (withPatch patch m).field field = patchedField patch field (m.field field) := by
  rw [withPatch, patchedField]
  induction patch generalizing m with
  | nil => rfl
  | cons x patch ih =>
    rw [foldl_cons, ih, foldl_cons, field_set]
    by_cases h : x.1 = field
    · rw [if_pos h, if_pos h.symm]
    · rw [if_neg h, if_neg (Ne.symm h)]

theorem field_patchMessage (h : field ≠ "messageId") :
    (patchMessage m patch).field field = patchedField patch field (m.field field) := by
  have hfilter : patchedField (patch.filter fun x => x.1 ≠ "messageId") field (m.field field) =
      patchedField patch field (m.field field) := by
    rw [patchedField, patchedField]
    generalize m.field field = value
    induction patch generalizing value with
    | nil => rfl
    | cons x patch ih =>
      rw [filter_cons]
      split
      · rw [foldl_cons, ih, foldl_cons]
      next hid =>
      have hne : x.1 ≠ field := by
        rintro rfl
        exact hid (decide_eq_true h)
      rw [ih, foldl_cons, if_neg hne]
  rw [← hfilter]
  exact field_withPatch

namespace MessageCopies

theorem mem_issue {origin : ο} (h : t ∈ (c.issue origin patch).patches) :
    t ∈ c.patches ∨ t = { origin := origin, patch := patch } := by
  obtain h | h := mem_append.mp h
  · exact .inl h
  · exact .inr (mem_singleton.mp h)

/-- How a patch in flight goes on: it is stored, or fails, or is loaded at last. -/
inductive Lands (c : MessageCopies ο) (k : Nat) (t : PatchTask ο) :
    MessageCopies ο → Landed ο → Prop
  | stored (h : t.isStored = false) : Lands c k t
      { c with
        stored := c.stored.map fun m => patchMessage m t.patch
        patches := c.patches.set k { t with isStored := true } } .stored
  | failed {origin : ο} (h : t.isStored = false) (horigin : t.origin = origin) : Lands c k t
      { c with patches := c.patches.eraseIdx k } (.failed origin)
  | finished {origin : ο} (h : t.isStored) (horigin : t.origin = origin) : Lands c k t
      { c with
        loaded := c.loaded.map (withPatch t.patch)
        patches := c.patches.eraseIdx k } (.finished origin)

theorem land_cases (h : c.land k fails = some (c', landed)) :
    ∃ t, c.patches[k]? = some t ∧ c.Lands k t c' landed := by
  rw [land] at h
  split at h
  · cases h
  next t ht =>
  refine ⟨t, ht, ?_⟩
  split at h
  next hstored =>
    obtain ⟨rfl, rfl⟩ := Prod.mk.inj (some.inj h)
    exact .finished hstored rfl
  next hstored =>
  have hfresh : t.isStored = false := by simpa using hstored
  split at h
  · obtain ⟨rfl, rfl⟩ := Prod.mk.inj (some.inj h)
    exact .failed hfresh rfl
  · obtain ⟨rfl, rfl⟩ := Prod.mk.inj (some.inj h)
    exact .stored hfresh

theorem Lands.mem_patches (h : c.Lands k t c' landed) (ht' : t' ∈ c'.patches) :
    t' ∈ c.patches ∨ landed = .stored ∧ t' = { t with isStored := true } := by
  cases h with
  | stored hfresh =>
    obtain ht' | rfl := mem_or_eq_of_mem_set ht'
    · exact .inl ht'
    · exact .inr ⟨rfl, rfl⟩
  | failed | finished => exact .inl (mem_of_mem_eraseIdx ht')

end MessageCopies
end
end Bluetalk.Chat

import Bluetalk.Theory.Run

/-!
# The keys of the peers

The sessions of `src/renderer/app/hooks/useE2ee.js` and the key handshakes of
`src/renderer/app/peerMessageHandler.js`. A handshake is compared with the key that the peer has so far,
and its own key is stored three awaits later, without a second look. The sessions of the last run are
read and merged while handshakes may already arrive, and every change writes all sessions to the
store.
-/

open List Option Function

namespace Bluetalk.Chat

/-- The cryptography of the browser, for the own key of the device -/
structure SessionCrypto (Key : Type) where
  /-- `importPeerPublicFromSpki` and `deriveSharedAesKey` -/
  deriveSharedAesKey : String → Option Key
  computeE2eeKeyId : String → String
  importAesKeyFromRawB64 : String → Option Key
  exportAesKeyToB64 : Key → String

/-- A field that is missing is empty. -/
structure Session (Key : Type) where
  aesKey : Key
  keyId : String := ""
  peerPublicSpkiB64 : String := ""
  pendingPeerPublicSpkiB64 : String := ""
  keyChanged : Bool := false
  isVersion2 : Bool := false

/-- A row of `e2eeSessions` in the store. The rows of old releases have only the raw key. -/
inductive SessionRow
  | keyed (peerPublicSpkiB64 keyId pendingPeerPublicSpkiB64 : String) (keyChanged : Bool)
  | raw (aesKeyB64 : String)

namespace SessionRow

def peerPublicSpkiB64 : SessionRow → String
  | keyed key _ _ _ => key
  | raw _ => ""

def keyChanged : SessionRow → Bool
  | keyed _ _ _ changed => changed
  | raw _ => false

end SessionRow

structure Handshake where
  fromId : String
  publicSpkiB64 : String
  isVersion2 : Bool := true
  requestReply : Bool := true

inductive SessionPacket
  | handshake (peerId : String) (requestReply : Bool)
  | encrypted (peerId keyId : String) (isVersion2 : Bool)

/-- How far the sessions of the last run are loaded -/
inductive Bootstrap
  | starting
  | reading
  | importing (rows : String → Option SessionRow)
  | done

def Bootstrap.hasIdentity : Bootstrap → Bool
  | starting => false
  | _ => true

structure E2ee (Key : Type) where
  /-- `e2eeSessionsRef.current` -/
  sessions : String → Option (Session Key)
  /-- `e2eeReadyPeersRef.current` -/
  ready : String → Bool
  /-- `e2eeHandshakeSentRef.current` -/
  handshakeSent : String → Bool
  blocked : String → Bool
  /-- `e2eeSessions` in the store -/
  stored : String → Option SessionRow
  /-- `e2eePersistQueue` -/
  writes : List (String → Option SessionRow)
  bootstrap : Bootstrap
  /-- The handshakes whose keys are being derived -/
  handshakes : List Handshake
  sent : List SessionPacket
  /-- The key that a peer is known by. No step reads it. -/
  pin : String → Option String
  /-- Whether the user has been told of another key. No step reads it. -/
  warned : String → Bool

inductive E2eeAct
  | identity
  | read
  | merge
  | write
  | arrive (h : Handshake)
  | finish (i : Nat)
  | send (peerId : String)
  | waited (peerId : String)
  | sendFailed (peerId : String)
  | resetE2eeSession (peerId : String)
  | setContactBlocked (peerId : String) (blocked : Bool)

namespace E2ee

section

variable {Key : Type} (crypto : SessionCrypto Key)

def loadRow : SessionRow → Option (Session Key)
  | .keyed key keyId pending changed =>
    if key = "" then none
    else (crypto.deriveSharedAesKey key).map fun aesKey =>
      { aesKey := aesKey
        keyId := if keyId = "" then crypto.computeE2eeKeyId key else keyId
        peerPublicSpkiB64 := key
        pendingPeerPublicSpkiB64 := pending
        keyChanged := changed }
  | .raw aesKeyB64 => (crypto.importAesKeyFromRawB64 aesKeyB64).map fun aesKey => { aesKey := aesKey }

def rowOf (x : Session Key) : SessionRow :=
  if x.peerPublicSpkiB64 = "" then .raw (crypto.exportAesKeyToB64 x.aesKey)
  else .keyed x.peerPublicSpkiB64 x.keyId x.pendingPeerPublicSpkiB64 x.keyChanged

/-- What is written is what the sessions are now. -/
def persistE2eeSessionsMap (s : E2ee Key) : E2ee Key :=
  { s with writes := s.writes ++ [fun p => (s.sessions p).map (rowOf crypto)] }

/-- Whether a handshake is looked at -/
def handles (s : E2ee Key) (h : Handshake) : Bool :=
  h.fromId ≠ "" && h.publicSpkiB64 ≠ "" && s.bootstrap.hasIdentity && !s.blocked h.fromId

/-- Whether the peer has another key so far -/
def differs (s : E2ee Key) (h : Handshake) : Bool :=
  (s.sessions h.fromId).any fun previous =>
    previous.peerPublicSpkiB64 ≠ "" && previous.peerPublicSpkiB64 ≠ h.publicSpkiB64

/-- The session is kept and halted. -/
def keyChange (s : E2ee Key) (h : Handshake) : E2ee Key :=
  persistE2eeSessionsMap crypto { s with
    ready := update s.ready h.fromId false
    sessions := update s.sessions h.fromId ((s.sessions h.fromId).map fun previous =>
      { previous with pendingPeerPublicSpkiB64 := h.publicSpkiB64, keyChanged := true })
    warned := update s.warned h.fromId true }

def sendE2eeHandshake (peerId : String) (force requestReply : Bool) (s : E2ee Key) : E2ee Key :=
  if !s.bootstrap.hasIdentity || !force && s.handshakeSent peerId then s
  else { s with
    handshakeSent := update s.handshakeSent peerId true
    sent := s.sent ++ [.handshake peerId requestReply] }

/-- The key of a handshake becomes the key of the peer. It is pinned unless another one is. -/
def acceptKey (s : E2ee Key) (h : Handshake) (aesKey : Key) : E2ee Key :=
  { s with
    sessions := update s.sessions h.fromId (some
      { aesKey := aesKey
        keyId := crypto.computeE2eeKeyId h.publicSpkiB64
        peerPublicSpkiB64 := h.publicSpkiB64
        isVersion2 := h.isVersion2 })
    ready := update s.ready h.fromId true
    pin := update s.pin h.fromId ((s.pin h.fromId).or (some h.publicSpkiB64))
    warned := update s.warned h.fromId
      (s.warned h.fromId && (s.pin h.fromId).any fun key => key ≠ h.publicSpkiB64) }

def finishHandshake (s : E2ee Key) (h : Handshake) (aesKey : Key) : E2ee Key :=
  let accepted := persistE2eeSessionsMap crypto (s.acceptKey crypto h aesKey)
  if h.requestReply || !s.handshakeSent h.fromId then
    accepted.sendE2eeHandshake h.fromId h.requestReply false
  else accepted

/-- The stored row of a peer counts if its key can be imported. -/
def pinned (rows : String → Option SessionRow) (p : String) : Option (Session Key) :=
  ((rows p).bind (loadRow crypto)).filter fun x => x.peerPublicSpkiB64 ≠ ""

/-- A session that exists is fresher than the one that is loaded. -/
def mergeSessions (s : E2ee Key) (rows : String → Option SessionRow) : E2ee Key :=
  { s with
    sessions := fun p => (s.sessions p).or ((rows p).bind (loadRow crypto))
    bootstrap := .done
    pin := fun p => if (s.sessions p).isSome then s.pin p
      else (s.pin p).or ((pinned crypto rows p).map Session.peerPublicSpkiB64)
    warned := fun p => s.warned p ||
      (s.sessions p).isNone && ((rows p).bind (loadRow crypto)).any Session.keyChanged }

/-- Whether the session of a peer can be used -/
def usable (s : E2ee Key) (peerId : String) : Option (Session Key) :=
  (s.sessions peerId).filter fun x => x.keyId ≠ "" && s.ready peerId && !x.keyChanged

/-- `encryptChatPayload` and `peer.send` -/
def encryptTo (s : E2ee Key) (peerId : String) (x : Session Key) : E2ee Key :=
  { s with sent := s.sent ++ [.encrypted peerId x.keyId x.isVersion2] }

def dropSession (s : E2ee Key) (peerId : String) : E2ee Key :=
  persistE2eeSessionsMap crypto { s with
    sessions := update s.sessions peerId none
    ready := update s.ready peerId false
    handshakeSent := update s.handshakeSent peerId false
    pin := update s.pin peerId none
    warned := update s.warned peerId false }

def step (s : E2ee Key) : E2eeAct → Option (E2ee Key)
  | .identity =>
    match s.bootstrap with
    | .starting => some { s with bootstrap := .reading }
    | _ => none
  | .read =>
    match s.bootstrap with
    | .reading => some { s with bootstrap := .importing s.stored }
    | _ => none
  | .merge =>
    match s.bootstrap with
    | .importing rows => some (s.mergeSessions crypto rows)
    | _ => none
  | .write =>
    match s.writes with
    | [] => none
    | rows :: writes => some { s with stored := rows, writes := writes }
  | .arrive h =>
    if !s.handles h then some s
    else if s.differs h then some (s.keyChange crypto h)
    else some { s with handshakes := s.handshakes ++ [h] }
  | .finish i =>
    match s.handshakes[i]? with
    | none => none
    | some h =>
      let rest := { s with handshakes := s.handshakes.eraseIdx i }
      match crypto.deriveSharedAesKey h.publicSpkiB64 with
      | none => some rest
      | some aesKey => some (rest.finishHandshake crypto h aesKey)
  | .send peerId =>
    match s.usable peerId with
    | some x => some (s.encryptTo peerId x)
    | none => some (s.sendE2eeHandshake peerId true true)
  | .waited peerId =>
    match s.usable peerId with
    | some x => some (s.encryptTo peerId x)
    | none => some s
  | .sendFailed peerId => some { s with handshakeSent := update s.handshakeSent peerId false }
  | .resetE2eeSession peerId =>
    some ((s.dropSession crypto peerId).sendE2eeHandshake peerId true true)
  | .setContactBlocked peerId blocked =>
    let changed := { s with blocked := update s.blocked peerId blocked }
    if blocked then some (changed.dropSession crypto peerId)
    else
      some ({ changed with
        handshakeSent := update s.handshakeSent peerId false }.sendE2eeHandshake peerId true true)

/-- The key of a peer that is pinned is the key of its session, and a warning about another key
stands. -/
def Kept (s : E2ee Key) : Prop :=
  ∀ p key x, s.pin p = some key → s.sessions p = some x →
    x.peerPublicSpkiB64 = key ∧ (s.warned p → x.keyChanged)

/-- The device has just been started, with the sessions of an earlier run in its store. -/
structure Start (s : E2ee Key) : Prop where
  sessions : ∀ p, s.sessions p = none
  writes : s.writes = []
  bootstrap : s.bootstrap = .starting
  handshakes : s.handshakes = []
  pin : ∀ p, s.pin p = (pinned crypto s.stored p).map Session.peerPublicSpkiB64
  warned : ∀ p, s.warned p = (pinned crypto s.stored p).any Session.keyChanged

/-- Every handshake of the peer whose key is being derived, and can be, has the key. -/
def Uncontested (s : E2ee Key) (p key : String) : Prop :=
  ∀ h ∈ s.handshakes, h.fromId = p → (crypto.deriveSharedAesKey h.publicSpkiB64).isSome →
    h.publicSpkiB64 = key

/-- A handshake that passes the comparison has the key that the peer is known by, if there is one, and no
other key of the peer is just being derived; nor is one when the peer's session is loaded. -/
def Calm (s : E2ee Key) : E2eeAct → Prop
  | .arrive h => s.handles h → s.differs h = false →
      (crypto.deriveSharedAesKey h.publicSpkiB64).isSome →
      (∀ key, s.pin h.fromId = some key → h.publicSpkiB64 = key) ∧
        s.Uncontested crypto h.fromId h.publicSpkiB64
  | .merge => ∀ rows, s.bootstrap = .importing rows → ∀ p x, s.sessions p = none →
      pinned crypto rows p = some x → s.Uncontested crypto p x.peerPublicSpkiB64
  | _ => True

/-! ### What holds in every run -/

/-- The store has the row of the peer, or it is to be written, or it has been read. -/
def HasRow (s : E2ee Key) (p : String) (row : SessionRow) : Prop :=
  s.stored p = some row ∨ (∃ rows ∈ s.writes, rows p = some row) ∨
    ∃ rows, s.bootstrap = .importing rows ∧ rows p = some row

structure Inv (s : E2ee Key) : Prop where
  kept : s.Kept
  keyed : ∀ p x, s.sessions p = some x → x.peerPublicSpkiB64 ≠ "" → (s.pin p).isSome
  warned : ∀ p, s.warned p → (s.pin p).isSome
  /-- A key that is pinned and not loaded is the key of every row there is. -/
  row : ∀ p key row, s.pin p = some key → s.sessions p = none → s.HasRow p row →
    row.peerPublicSpkiB64 = key ∧ (s.warned p → row.keyChanged)
  pinned : ∀ p key, s.pin p = some key → s.Uncontested crypto p key
  handshakes : ∀ h ∈ s.handshakes, (crypto.deriveSharedAesKey h.publicSpkiB64).isSome →
    s.Uncontested crypto h.fromId h.publicSpkiB64

variable {crypto} {s s' : E2ee Key} {p key : String} {h : Handshake} {row : SessionRow}
  {x : Session Key} {aesKey : Key}

theorem loadRow_spec (h : loadRow crypto row = some x) :
    x.peerPublicSpkiB64 = row.peerPublicSpkiB64 ∧ x.keyChanged = row.keyChanged := by
  cases row with
  | keyed key keyId pending changed =>
    rw [loadRow] at h
    split at h
    · cases h
    · obtain ⟨aesKey, -, rfl⟩ := map_eq_some_iff.mp h
      exact ⟨rfl, rfl⟩
  | raw aesKeyB64 =>
    obtain ⟨aesKey, -, rfl⟩ := map_eq_some_iff.mp h
    exact ⟨rfl, rfl⟩

theorem pinned_spec {rows : String → Option SessionRow} (h : pinned crypto rows p = some x) :
    x.peerPublicSpkiB64 ≠ "" ∧ ∃ row, rows p = some row ∧ loadRow crypto row = some x := by
  obtain ⟨hrow, hkey⟩ := filter_eq_some_iff.mp h
  obtain ⟨row, hrow, hload⟩ := bind_eq_some_iff.mp hrow
  exact ⟨of_decide_eq_true hkey, row, hrow, hload⟩

theorem Start.inv (hs : Start crypto s) : Inv crypto s where
  kept p key x _ hx := by
    rw [hs.sessions] at hx
    cases hx
  keyed p x hx := by
    rw [hs.sessions] at hx
    cases hx
  warned p hwarned := by
    rw [hs.warned, Option.any_eq_true] at hwarned
    obtain ⟨x, hx, -⟩ := hwarned
    rw [hs.pin, hx]
    rfl
  row p key row hpin _ hrow := by
    rw [hs.pin] at hpin
    obtain ⟨x, hx, rfl⟩ := map_eq_some_iff.mp hpin
    rw [hs.warned, hx, any_some]
    obtain ⟨-, row', hrow', hload⟩ := pinned_spec hx
    obtain hrow | ⟨rows, hrows, -⟩ | ⟨rows, hrows, -⟩ := hrow
    · obtain rfl := some.inj (hrow.symm.trans hrow')
      obtain ⟨hkey, hchanged⟩ := loadRow_spec hload
      exact ⟨hkey.symm, fun h => hchanged ▸ h⟩
    · rw [hs.writes] at hrows
      cases hrows
    · rw [hs.bootstrap] at hrows
      cases hrows
  pinned p key _ h hh := by
    rw [hs.handshakes] at hh
    cases hh
  handshakes h hh := by
    rw [hs.handshakes] at hh
    cases hh

theorem Inv.persist (hs : Inv crypto s) : Inv crypto (s.persistE2eeSessionsMap crypto) where
  kept := hs.kept
  keyed := hs.keyed
  warned := hs.warned
  row p key row hpin hnone hrow := by
    refine hs.row p key row hpin hnone ?_
    obtain hrow | ⟨rows, hrows, hrow⟩ | hrow := hrow
    · exact .inl hrow
    · obtain hrows | hrows := mem_append.mp hrows
      · exact .inr (.inl ⟨rows, hrows, hrow⟩)
      · -- a peer without a session is not among what is written
        have hnone' : s.sessions p = none := hnone
        obtain rfl := mem_singleton.mp hrows
        rw [map_eq_some_iff] at hrow
        obtain ⟨x, hx, -⟩ := hrow
        rw [hnone'] at hx
        cases hx
    · exact .inr (.inr hrow)
  pinned := hs.pinned
  handshakes := hs.handshakes

theorem Inv.sendE2eeHandshake {force requestReply : Bool} (hs : Inv crypto s) :
    Inv crypto (s.sendE2eeHandshake p force requestReply) := by
  rw [E2ee.sendE2eeHandshake]
  split
  · exact hs
  · exact ⟨hs.kept, hs.keyed, hs.warned, hs.row, hs.pinned, hs.handshakes⟩

theorem Inv.dropSession (hs : Inv crypto s) : Inv crypto (s.dropSession crypto p) := by
  refine Inv.persist ⟨fun q key x hpin hx => ?_, fun q x hx hkey => ?_, fun q hwarned => ?_,
    fun q key row hpin hnone hrow => ?_, fun q key hpin => ?_, hs.handshakes⟩
  all_goals
    have hq : q ≠ p := by
      rintro rfl
      simp at *
    simp only [update_of_ne hq] at *
  · exact hs.kept q key x hpin hx
  · exact hs.keyed q x hx hkey
  · exact hs.warned q hwarned
  · exact hs.row q key row hpin hnone hrow
  · exact hs.pinned q key hpin

theorem Inv.keyChange (hs : Inv crypto s) (hdiffers : s.differs h) :
    Inv crypto (s.keyChange crypto h) := by
  obtain ⟨previous, hprevious, hdiffers⟩ := (any_eq_true _ _).mp hdiffers
  have hkey : previous.peerPublicSpkiB64 ≠ "" := of_decide_eq_true (Bool.and_eq_true .. ▸ hdiffers).1
  refine Inv.persist ⟨fun q key x hpin hx => ?_, fun q x hx hkey => ?_, fun q hwarned => ?_,
    fun q key row hpin hnone hrow => ?_, hs.pinned, hs.handshakes⟩
  · by_cases hq : q = h.fromId
    · subst hq
      simp only [update_self, hprevious, map_some] at hx ⊢
      obtain rfl := some.inj hx
      exact ⟨(hs.kept _ key previous hpin hprevious).1, fun _ => rfl⟩
    · simp only [update_of_ne hq] at hx ⊢
      exact hs.kept q key x hpin hx
  · by_cases hq : q = h.fromId
    · subst hq
      exact hs.keyed _ previous hprevious ‹previous.peerPublicSpkiB64 ≠ ""›
    · simp only [update_of_ne hq] at hx
      exact hs.keyed q x hx hkey
  · by_cases hq : q = h.fromId
    · subst hq
      exact hs.keyed _ previous hprevious hkey
    · simp only [update_of_ne hq] at hwarned
      exact hs.warned q hwarned
  · have hq : q ≠ h.fromId := by
      rintro rfl
      simp [hprevious] at hnone
    simp only [update_of_ne hq] at hnone ⊢
    exact hs.row q key row hpin hnone hrow

theorem Inv.acceptKey (hs : Inv crypto s)
    (hpin : ∀ key, s.pin h.fromId = some key → h.publicSpkiB64 = key)
    (hothers : s.Uncontested crypto h.fromId h.publicSpkiB64) :
    Inv crypto (s.acceptKey crypto h aesKey) := by
  have hself : (s.acceptKey crypto h aesKey).pin h.fromId = some h.publicSpkiB64 := by
    simp only [E2ee.acceptKey, update_self]
    cases hkey : s.pin h.fromId with
    | none => rfl
    | some key => rw [some_or, hpin key hkey]
  have hother : ∀ q, q ≠ h.fromId →
      (s.acceptKey crypto h aesKey).sessions q = s.sessions q ∧
      (s.acceptKey crypto h aesKey).pin q = s.pin q ∧
      (s.acceptKey crypto h aesKey).warned q = s.warned q := by
    intro q hq
    simp [E2ee.acceptKey, hq]
  refine ⟨fun q key x hkey hx => ?_, fun q x hx hkey => ?_, fun q hwarned => ?_,
    fun q key row hkey hnone hrow => ?_, fun q key hkey => ?_, hs.handshakes⟩
  · by_cases hq : q = h.fromId
    · subst hq
      obtain rfl := some.inj (hself.symm.trans hkey)
      simp only [E2ee.acceptKey, update_self] at hx ⊢
      obtain rfl := some.inj hx
      refine ⟨rfl, fun hwarned => ?_⟩
      -- the warning goes with the key that it was about
      obtain ⟨key, hkey, hne⟩ := (any_eq_true _ _).mp (Bool.and_eq_true .. ▸ hwarned).2
      exact absurd (hpin key hkey).symm (of_decide_eq_true hne)
    · obtain ⟨hsessions, hpins, hwarned⟩ := hother q hq
      rw [hpins] at hkey
      rw [hsessions] at hx
      rw [hwarned]
      exact hs.kept q key x hkey hx
  · by_cases hq : q = h.fromId
    · rw [hq, hself]
      rfl
    · obtain ⟨hsessions, hpins, -⟩ := hother q hq
      rw [hsessions] at hx
      rw [hpins]
      exact hs.keyed q x hx hkey
  · by_cases hq : q = h.fromId
    · rw [hq, hself]
      rfl
    · obtain ⟨-, hpins, hsame⟩ := hother q hq
      rw [hsame] at hwarned
      rw [hpins]
      exact hs.warned q hwarned
  · by_cases hq : q = h.fromId
    · subst hq
      simp [E2ee.acceptKey] at hnone
    · obtain ⟨hsessions, hpins, hwarned⟩ := hother q hq
      rw [hpins] at hkey
      rw [hsessions] at hnone
      rw [hwarned]
      exact hs.row q key row hkey hnone hrow
  · by_cases hq : q = h.fromId
    · subst hq
      obtain rfl := some.inj (hself.symm.trans hkey)
      exact hothers
    · rw [(hother q hq).2.1] at hkey
      exact hs.pinned q key hkey

theorem Inv.finishHandshake (hs : Inv crypto s)
    (hpin : ∀ key, s.pin h.fromId = some key → h.publicSpkiB64 = key)
    (hothers : s.Uncontested crypto h.fromId h.publicSpkiB64) :
    Inv crypto (s.finishHandshake crypto h aesKey) := by
  have hkeyed : Inv crypto (s.acceptKey crypto h aesKey) := hs.acceptKey hpin hothers
  have haccepted := hkeyed.persist
  rw [E2ee.finishHandshake]
  split
  · exact haccepted.sendE2eeHandshake
  · exact haccepted

theorem Inv.begin (hs : Inv crypto s)
    (hcalm : (crypto.deriveSharedAesKey h.publicSpkiB64).isSome →
      (∀ key, s.pin h.fromId = some key → h.publicSpkiB64 = key) ∧
        s.Uncontested crypto h.fromId h.publicSpkiB64) :
    Inv crypto { s with handshakes := s.handshakes ++ [h] } := by
  refine ⟨hs.kept, hs.keyed, hs.warned, hs.row, fun p key hpin t ht hfrom hderived => ?_,
    fun t ht hderived t' ht' hfrom hderived' => ?_⟩
  · obtain ht | ht := mem_append.mp ht
    · exact hs.pinned p key hpin t ht hfrom hderived
    · obtain rfl := mem_singleton.mp ht
      exact (hcalm hderived).1 key (hfrom ▸ hpin)
  obtain hold | hnew := mem_append.mp ht
  · obtain hold' | hnew' := mem_append.mp ht'
    · exact hs.handshakes t hold hderived t' hold' hfrom hderived'
    · obtain rfl := mem_singleton.mp hnew'
      exact ((hcalm hderived').2 t hold hfrom.symm hderived).symm
  obtain rfl := mem_singleton.mp hnew
  obtain hold' | hnew' := mem_append.mp ht'
  · exact (hcalm hderived).2 t' hold' hfrom hderived'
  · obtain rfl := mem_singleton.mp hnew'
    rfl

theorem Inv.erase {i : Nat} (hs : Inv crypto s) :
    Inv crypto { s with handshakes := s.handshakes.eraseIdx i } := by
  have hsubset : ∀ t ∈ s.handshakes.eraseIdx i, t ∈ s.handshakes := fun _ =>
    mem_of_mem_eraseIdx
  exact ⟨hs.kept, hs.keyed, hs.warned, hs.row, fun p key hpin t ht => hs.pinned p key hpin t (hsubset t ht),
    fun t ht hderived t' ht' => hs.handshakes t (hsubset t ht) hderived t' (hsubset t' ht')⟩

section merge

variable {rows : String → Option SessionRow}

theorem mergeSessions_some (hx : s.sessions p = some x) :
    (s.mergeSessions crypto rows).sessions p = some x ∧
      (s.mergeSessions crypto rows).pin p = s.pin p ∧
      (s.mergeSessions crypto rows).warned p = s.warned p := by
  simp [mergeSessions, hx]

theorem mergeSessions_none (hnone : s.sessions p = none) :
    (s.mergeSessions crypto rows).sessions p = (rows p).bind (loadRow crypto) ∧
      (s.mergeSessions crypto rows).pin p =
        (s.pin p).or ((pinned crypto rows p).map Session.peerPublicSpkiB64) ∧
      (s.mergeSessions crypto rows).warned p =
        (s.warned p || ((rows p).bind (loadRow crypto)).any Session.keyChanged) := by
  simp [mergeSessions, hnone]

theorem loadRow_keyed (h : loadRow crypto row = some x) (hchanged : x.keyChanged) :
    x.peerPublicSpkiB64 ≠ "" := by
  cases row with
  | keyed key keyId pending changed =>
    rw [loadRow] at h
    split at h
    · cases h
    next hkey =>
    obtain ⟨aesKey, -, rfl⟩ := map_eq_some_iff.mp h
    exact hkey
  | raw aesKeyB64 =>
    obtain ⟨aesKey, -, rfl⟩ := map_eq_some_iff.mp h
    cases hchanged

theorem pin_mergeSessions (hnone : s.sessions p = none)
    (hpin : (s.mergeSessions crypto rows).pin p = some key) :
    s.pin p = some key ∨
      s.pin p = none ∧ ∃ x, pinned crypto rows p = some x ∧ x.peerPublicSpkiB64 = key := by
  rw [(mergeSessions_none hnone).2.1] at hpin
  cases hold : s.pin p with
  | some old =>
    rw [hold] at hpin
    exact .inl hpin
  | none =>
    rw [hold, none_or] at hpin
    obtain ⟨x, hx, hkey⟩ := map_eq_some_iff.mp hpin
    exact .inr ⟨rfl, x, hx, hkey⟩

theorem isSome_pin_mergeSessions (hnone : s.sessions p = none)
    (h : (s.pin p).isSome ∨ ∃ x, (rows p).bind (loadRow crypto) = some x ∧
      x.peerPublicSpkiB64 ≠ "") : ((s.mergeSessions crypto rows).pin p).isSome := by
  rw [(mergeSessions_none hnone).2.1]
  obtain h | ⟨x, hx, hkey⟩ := h
  · rw [isSome_or, h, Bool.true_or]
  · have hpinned : pinned crypto rows p = some x :=
      filter_eq_some_iff.mpr ⟨hx, decide_eq_true hkey⟩
    rw [hpinned, map_some, isSome_or, isSome_some, Bool.or_true]

theorem Inv.mergeSessions (hs : Inv crypto s) (hrows : s.bootstrap = .importing rows)
    (hcalm : ∀ p x, s.sessions p = none → E2ee.pinned crypto rows p = some x →
      s.Uncontested crypto p x.peerPublicSpkiB64) :
    Inv crypto (s.mergeSessions crypto rows) := by
  refine ⟨fun q key x hpin hx => ?_, fun q x hx hkey => ?_, fun q hwarned => ?_,
    fun q key row hpin hempty hrow => ?_, fun q key hpin => ?_, hs.handshakes⟩
  · cases hq : s.sessions q with
    | some y =>
      obtain ⟨hsessions, hpins, hwarns⟩ := @mergeSessions_some _ crypto _ _ _ rows hq
      obtain rfl := some.inj (hsessions.symm.trans hx)
      rw [hwarns]
      exact hs.kept q key y (hpins.symm.trans hpin) hq
    | none =>
      obtain ⟨hsessions, -, hwarns⟩ := @mergeSessions_none _ crypto _ _ rows hq
      have hbind := hsessions.symm.trans hx
      obtain ⟨row, hrow, hload⟩ := bind_eq_some_iff.mp hbind
      obtain ⟨hkey, hchanged⟩ := loadRow_spec hload
      rw [hwarns, hbind, any_some, Bool.or_eq_true]
      obtain hold | ⟨hold, y, hy, hykey⟩ := pin_mergeSessions hq hpin
      · obtain ⟨hrowKey, hrowChanged⟩ := hs.row q key row hold hq (.inr (.inr ⟨rows, hrows, hrow⟩))
        exact ⟨hkey.trans hrowKey, fun h => h.elim (fun h => hchanged ▸ hrowChanged h) id⟩
      obtain rfl := some.inj (hbind.symm.trans (filter_eq_some_iff.mp hy).1)
      refine ⟨hykey, fun h => h.resolve_left fun hwarned => ?_⟩
      have hsome := hs.warned q hwarned
      rw [hold] at hsome
      cases hsome
  · cases hq : s.sessions q with
    | some y =>
      obtain ⟨hsessions, hpins, -⟩ := @mergeSessions_some _ crypto _ _ _ rows hq
      obtain rfl := some.inj (hsessions.symm.trans hx)
      rw [hpins]
      exact hs.keyed q y hq hkey
    | none =>
      have hbind := (@mergeSessions_none _ crypto _ _ rows hq).1.symm.trans hx
      exact isSome_pin_mergeSessions hq (.inr ⟨x, hbind, hkey⟩)
  · cases hq : s.sessions q with
    | some y =>
      obtain ⟨-, hpins, hwarns⟩ := @mergeSessions_some _ crypto _ _ _ rows hq
      rw [hpins]
      exact hs.warned q (hwarns ▸ hwarned)
    | none =>
      rw [(mergeSessions_none hq).2.2, Bool.or_eq_true] at hwarned
      refine isSome_pin_mergeSessions hq (hwarned.imp (hs.warned q) fun hany => ?_)
      obtain ⟨x, hx, hchanged⟩ := (any_eq_true _ _).mp hany
      obtain ⟨row, -, hload⟩ := bind_eq_some_iff.mp hx
      exact ⟨x, hx, loadRow_keyed hload hchanged⟩
  · cases hq : s.sessions q with
    | some y =>
      rw [(mergeSessions_some hq).1] at hempty
      cases hempty
    | none =>
      obtain ⟨hsessions, -, hwarns⟩ := @mergeSessions_none _ crypto _ _ rows hq
      have hbind := hsessions.symm.trans hempty
      rw [hwarns, hbind, any_none, Bool.or_false]
      obtain hold | ⟨-, y, hy, -⟩ := pin_mergeSessions hq hpin
      · refine hs.row q key row hold hq ?_
        obtain hrow | hrow | ⟨rows', hrows', -⟩ := hrow
        · exact .inl hrow
        · exact .inr (.inl hrow)
        · cases hrows'
      · rw [E2ee.pinned, hbind] at hy
        cases hy
  · cases hq : s.sessions q with
    | some y => exact hs.pinned q key ((mergeSessions_some hq).2.1.symm.trans hpin)
    | none =>
      obtain hold | ⟨-, y, hy, rfl⟩ := pin_mergeSessions hq hpin
      · exact hs.pinned q key hold
      · exact hcalm q y hq hy

end merge

theorem Inv.step {act : E2eeAct} (hs : Inv crypto s) (hcalm : s.Calm crypto act)
    (hstep : s.step crypto act = some s') : Inv crypto s' := by
  cases act with
  | identity =>
    rw [E2ee.step] at hstep
    split at hstep
    · obtain rfl := some.inj hstep
      refine ⟨hs.kept, hs.keyed, hs.warned, fun p key row hpin hnone hrow => hs.row p key row hpin hnone ?_, hs.pinned,
        hs.handshakes⟩
      obtain hrow | hrow | ⟨rows, hrows, -⟩ := hrow
      · exact .inl hrow
      · exact .inr (.inl hrow)
      · cases hrows
    · cases hstep
  | read =>
    rw [E2ee.step] at hstep
    split at hstep
    · obtain rfl := some.inj hstep
      refine ⟨hs.kept, hs.keyed, hs.warned, fun p key row hpin hnone hrow => hs.row p key row hpin hnone ?_, hs.pinned,
        hs.handshakes⟩
      obtain hrow | hrow | ⟨rows, hrows, hrow⟩ := hrow
      · exact .inl hrow
      · exact .inr (.inl hrow)
      · obtain rfl := Bootstrap.importing.inj hrows
        exact .inl hrow
    · cases hstep
  | merge =>
    rw [E2ee.step] at hstep
    split at hstep
    next rows hrows =>
      obtain rfl := some.inj hstep
      exact hs.mergeSessions hrows (hcalm rows hrows)
    · cases hstep
  | write =>
    rw [E2ee.step] at hstep
    split at hstep
    · cases hstep
    next rows writes hwrites =>
    obtain rfl := some.inj hstep
    refine ⟨hs.kept, hs.keyed, hs.warned, fun p key row hpin hnone hrow => hs.row p key row hpin hnone ?_, hs.pinned,
      hs.handshakes⟩
    obtain hrow | ⟨rows', hmem, hrow⟩ | hrow := hrow
    · exact .inr (.inl ⟨rows, hwrites ▸ mem_cons_self, hrow⟩)
    · exact .inr (.inl ⟨rows', hwrites ▸ mem_cons_of_mem _ hmem, hrow⟩)
    · exact .inr (.inr hrow)
  | arrive h =>
    rw [E2ee.step] at hstep
    split at hstep
    · obtain rfl := some.inj hstep
      exact hs
    next hhandles =>
    split at hstep
    next hdiffers =>
      obtain rfl := some.inj hstep
      exact hs.keyChange hdiffers
    next hsame =>
    obtain rfl := some.inj hstep
    exact hs.begin (hcalm (by simpa using hhandles) (by simpa using hsame))
  | finish i =>
    rw [E2ee.step] at hstep
    split at hstep
    · cases hstep
    next h hh =>
    have hmem := mem_of_getElem? hh
    split at hstep
    · obtain rfl := some.inj hstep
      exact hs.erase
    next aesKey hderived =>
    obtain rfl := some.inj hstep
    have hsome : (crypto.deriveSharedAesKey h.publicSpkiB64).isSome := by rw [hderived]; rfl
    refine hs.erase.finishHandshake (fun key hpin => hs.pinned _ key hpin h hmem rfl hsome) ?_
    exact fun t ht => hs.handshakes h hmem hsome t (mem_of_mem_eraseIdx ht)
  | send peerId =>
    rw [E2ee.step] at hstep
    split at hstep
    · obtain rfl := some.inj hstep
      exact ⟨hs.kept, hs.keyed, hs.warned, hs.row, hs.pinned, hs.handshakes⟩
    · obtain rfl := some.inj hstep
      exact hs.sendE2eeHandshake
  | waited peerId =>
    rw [E2ee.step] at hstep
    split at hstep
    · obtain rfl := some.inj hstep
      exact ⟨hs.kept, hs.keyed, hs.warned, hs.row, hs.pinned, hs.handshakes⟩
    · obtain rfl := some.inj hstep
      exact hs
  | sendFailed peerId =>
    obtain rfl := some.inj hstep
    exact ⟨hs.kept, hs.keyed, hs.warned, hs.row, hs.pinned, hs.handshakes⟩
  | resetE2eeSession peerId =>
    obtain rfl := some.inj hstep
    exact hs.dropSession.sendE2eeHandshake
  | setContactBlocked peerId blocked =>
    have hchanged : Inv crypto { s with blocked := update s.blocked peerId blocked } :=
      ⟨hs.kept, hs.keyed, hs.warned, hs.row, hs.pinned, hs.handshakes⟩
    rw [E2ee.step] at hstep
    split at hstep
    · obtain rfl := some.inj hstep
      exact hchanged.dropSession
    · obtain rfl := some.inj hstep
      refine Inv.sendE2eeHandshake ⟨hs.kept, hs.keyed, hs.warned, hs.row, hs.pinned, hs.handshakes⟩

end

/-- Keys that are derived are the keys themselves. -/
def plainCrypto : SessionCrypto String where
  deriveSharedAesKey := some
  computeE2eeKeyId key := "id:" ++ key
  importAesKeyFromRawB64 := some
  exportAesKeyToB64 key := key

/-- Ben's key of an earlier run is stored. -/
def restarted : E2ee String where
  sessions _ := none
  ready _ := false
  handshakeSent _ := false
  blocked _ := false
  stored p := if p = "ben" then some (.keyed "K" "id:K" "" false) else none
  writes := []
  bootstrap := .starting
  handshakes := []
  sent := []
  pin p := if p = "ben" then some "K" else none
  warned _ := false

theorem start_restarted : Start plainCrypto restarted where
  sessions _ := rfl
  writes := rfl
  bootstrap := rfl
  handshakes := rfl
  pin p := by
    by_cases hp : p = "ben"
    · rw [hp]
      rfl
    · simp [restarted, pinned, hp]
  warned p := by
    by_cases hp : p = "ben"
    · rw [hp]
      rfl
    · simp [restarted, pinned, hp]

/-- Another key arrives once the sessions are loaded. -/
def otherKeyArrives : List E2eeAct :=
  [.identity, .read, .merge, .arrive { fromId := "ben", publicSpkiB64 := "L" }, .send "ben"]

end E2ee
end Bluetalk.Chat

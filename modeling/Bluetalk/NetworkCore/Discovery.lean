import Mathlib.Algebra.Order.BigOperators.Group.List
import Mathlib.Data.List.Destutter
import Bluetalk.NetworkCore.Config
import Bluetalk.NetworkCore.ReplayCache
import Bluetalk.NetworkCore.Sessions
import Bluetalk.PeerProtocol.Records

/-!
# Discovery

`verify_announcement` of `network-core/src/discovery.rs`, and the loop that hears announcements.
Whether an announcement is timely goes by the clock of the wall and the time that its sender signed,
whether it is fresh by the clock of the replay cache. An announcement is timely for twice the skew
that is permitted, which is longer than the cache remembers it.
-/

open List Option

namespace Bluetalk.NetworkCore

def discoveryMagic : String := "BLUETALK_DISCOVERY"
def discoveryEnvelopeVersion : Nat := 1
def signatureDomain : String := "BlueTalk/v2/discovery/1\x00"
def maxEndpoints : Nat := 16

/-- What is signed of an announcement. -/
structure SignatureBody where
  magic : String
  envelopeVersion : Nat
  protocolVersions : List Nat
  peerId : String
  identityKey : String
  displayName : String
  endpoints : List String
  timestampMs : Int
  nonce : String
  deriving DecidableEq

structure SignedAnnouncement extends SignatureBody where
  signature : String

structure DiscoveredPeer where
  peerId : String
  displayName : String
  endpoints : List String
  observedFrom : String
  advertisedAtMs : Int
  protocolVersions : List Nat

structure VerifiedAnnouncement where
  peer : DiscoveredPeer
  replayKey : String

inductive Host
  | ipv4 (address : String) (unspecified : Bool)
  | ipv6 (address : String) (unspecified : Bool)
  | domain (name : String)

structure Url where
  scheme : String
  username : String := ""
  password : Option String := none
  host : Option Host
  port : Option UInt16
  path : String := ""
  query : Option String := none
  fragment : Option String := none

/-- What the core has from other crates. -/
structure Crates where
  /-- `serde_json::from_slice` -/
  fromSlice : Bytes → Except String SignedAnnouncement
  /-- `serde_json::to_vec` -/
  toVec : SignatureBody → Except String Bytes
  /-- `Url::parse` -/
  parseUrl : String → Except String Url
  /-- an IP address is parsed from the text, and it is the unspecified one -/
  isUnspecified : String → Bool
  /-- `BASE64.decode` -/
  decodeBase64 : String → Except String Bytes
  sha256 : Bytes → Bytes
  /-- `verify_strict` of a key, a message and a signature -/
  verifyStrict : Bytes → Bytes → Bytes → Bool

namespace Host

def toString : Host → String
  | .ipv4 address _ => address
  | .ipv6 address _ => "[" ++ address ++ "]"
  | .domain name => name

end Host

section

variable (k : Crates)

def isHexDigit (c : UInt8) : Bool :=
  (48 ≤ c && c ≤ 57) || (65 ≤ c && c ≤ 70) || (97 ≤ c && c ≤ 102)

def hexValue (c : UInt8) : UInt8 := if c ≤ 57 then c - 48 else if c ≤ 70 then c - 55 else c - 87

/-- `hex::decode` -/
def hexDecode : Bytes → Option Bytes
  | [] => some []
  | [_] => none
  | a :: b :: rest =>
    if isHexDigit a && isHexDigit b then
      (hexDecode rest).map fun bytes => (hexValue a * 16 + hexValue b) :: bytes
    else none

def hexEncode (bytes : Bytes) : String :=
  let digit (n : Nat) : Char := Char.ofNat (if n < 10 then 48 + n else 87 + n)
  String.ofList (bytes.flatMap fun b => [digit (b.toNat / 16), digit (b.toNat % 16)])

def peerIdForPublicKey (publicKey : Bytes) : String := "bt2_" ++ hexEncode (k.sha256 publicKey)

def validateDisplayName (displayName : String) : Except CoreError Unit :=
  if displayName = "" ∨ displayName.utf8ByteSize > 128 then
    .error (.discovery "display name must contain 1..=128 UTF-8 bytes")
  else .ok ()

def isUnspecifiedHost : Host → Bool
  | .ipv4 _ unspecified | .ipv6 _ unspecified => unspecified
  | .domain name => k.isUnspecified name

/-- One endpoint, with its host replaced by the observed one where it is unspecified. -/
def validateEndpoint (observedIp : Option String) (endpoint : String) :
    Except CoreError String :=
  if endpoint.utf8ByteSize > 512 then .error (.discovery "endpoint exceeds 512 bytes")
  else
    match k.parseUrl endpoint with
    | .error error => .error (.discovery ("invalid endpoint: " ++ error))
    | .ok url =>
      if url.scheme ≠ "tcp" ∨ url.username ≠ "" ∨ url.password.isSome ∨ url.query.isSome ∨
          url.fragment.isSome ∨ (url.path ≠ "" ∧ url.path ≠ "/") ∨ url.port.isNone then
        .error (.discovery "endpoints must be plain tcp://host:port URLs")
      else
        match url.host with
        | none => .error (.discovery "endpoint has no host")
        | some host =>
          let normalizedHost :=
            match isUnspecifiedHost k host, observedIp with
            | true, some replacement => replacement
            | _, _ => host.toString
          .ok ("tcp://" ++ normalizedHost ++ ":" ++ (url.port.getD 0).toNat.repr)

def validateEndpoints (endpoints : List String) (observedIp : Option String) :
    Except CoreError (List String) :=
  if endpoints = [] ∨ endpoints.length > maxEndpoints then
    .error (.discovery ("announcement must contain 1..=16 endpoints"))
  else do
    let validated ← endpoints.mapM (validateEndpoint k observedIp)
    return (validated.mergeSort fun x y => x ≤ y).destutter (· ≠ ·)

/-- `decode_array::<N>` -/
def decodeArray (n : Nat) (encoded label : String) : Except CoreError Bytes :=
  match k.decodeBase64 encoded with
  | .error error => .error (.discovery ("invalid " ++ label ++ ": " ++ error))
  | .ok value =>
    if value.length = n then .ok value
    else .error (.discovery
      ("invalid " ++ label ++ " length " ++ value.length.repr ++ "; expected " ++ n.repr))

def signatureInput (announcement : SignedAnnouncement) : Except CoreError Bytes :=
  match k.toVec announcement.toSignatureBody with
  | .error error => .error (.serialization error)
  | .ok bytes => .ok (PeerProtocol.utf8 signatureDomain ++ bytes)

/-- The nonce is 16 bytes in hexadecimal digits. -/
def isNonce (nonce : String) : Bool :=
  nonce.utf8ByteSize = 32 && (hexDecode (PeerProtocol.utf8 nonce)).any fun value => value.length = 16

def i64Max : Nat := 2 ^ 63 - 1

/-- What the announcement says of itself: the form, the version, the name and the endpoints. -/
def checkAnnouncement (a : SignedAnnouncement) (observedFrom : SocketAddr) :
    Except CoreError (List String) := do
  if a.magic ≠ discoveryMagic then throw (.discovery "incorrect discovery magic")
  if a.envelopeVersion ≠ discoveryEnvelopeVersion then
    throw (.discovery ("unsupported discovery envelope " ++ a.envelopeVersion.repr))
  if protocolVersion ∉ a.protocolVersions ∨ a.protocolVersions = [] ∨
      a.protocolVersions.length > 16 then
    throw (.discovery "announcement does not offer a supported protocol")
  validateDisplayName a.displayName
  validateEndpoints k a.endpoints (some observedFrom.ip)

/-- The key is that of the peer, and the signature that of the key. -/
def checkSignature (a : SignedAnnouncement) : Except CoreError Unit := do
  let identityKey ← decodeArray k 32 a.identityKey "identity key"
  if a.peerId ≠ peerIdForPublicKey k identityKey then
    throw (.discovery "peer id does not match the advertised identity key")
  let signature ← decodeArray k 64 a.signature "signature"
  let input ← signatureInput k a
  if !k.verifyStrict identityKey input signature then
    throw (.discovery "announcement signature is invalid")

def replayKey (peerId nonce : String) : String := peerId ++ ":" ++ nonce

def verifyAnnouncement (packet : Bytes) (observedFrom : SocketAddr) (maxPacketBytes : Nat)
    (maxClockSkew : Duration) (unixTimeMs : Int) : Except CoreError VerifiedAnnouncement := do
  if packet.length > maxPacketBytes then
    throw (.discovery ("packet is " ++ packet.length.repr ++ " bytes; maximum is " ++
      maxPacketBytes.repr))
  let a ← (k.fromSlice packet).mapError fun error => .discovery ("invalid JSON: " ++ error)
  let endpoints ← checkAnnouncement k a observedFrom
  if (unixTimeMs - a.timestampMs).natAbs > min maxClockSkew.asMillis i64Max then
    throw (.discovery "announcement timestamp is outside the permitted clock skew")
  if !isNonce a.nonce then
    throw (.discovery "announcement nonce must contain 16 random bytes")
  checkSignature k a
  return {
    peer := {
      peerId := a.peerId, displayName := a.displayName, endpoints := endpoints
      observedFrom := observedFrom.toString, advertisedAtMs := a.timestampMs
      protocolVersions := a.protocolVersions }
    replayKey := replayKey a.peerId a.nonce }

/-- A packet, and what the two clocks say when it comes. -/
structure Receipt where
  packet : Bytes
  observedFrom : SocketAddr
  unixTimeMs : Int
  now : Nat

/-- What the loop has come to: the cache, and what it has announced as discovered. -/
structure DiscoveryState where
  cache : ReplayCache
  discovered : List VerifiedAnnouncement

variable (config : DiscoveryConfig) (ownPeerId : String)

/-- An announcement of another peer that verifies. -/
def arrival (r : Receipt) : Option VerifiedAnnouncement :=
  match verifyAnnouncement k r.packet r.observedFrom config.maxPacketBytes config.maxClockSkew
      r.unixTimeMs with
  | .ok verified => if verified.peer.peerId = ownPeerId then none else some verified
  | .error _ => none

def discover (s : DiscoveryState) (r : Receipt) : DiscoveryState :=
  match arrival k config ownPeerId r with
  | none => s
  | some verified =>
    let (cache, fresh) := s.cache.recordIfFresh verified.replayKey r.now
    if fresh then { cache := cache, discovered := s.discovered ++ [verified] }
    else { s with cache := cache }

def startDiscovery : DiscoveryState :=
  { cache := .new config.replayWindow config.replayCacheEntries, discovered := [] }

def discovery (receipts : List Receipt) : DiscoveryState :=
  receipts.foldl (discover k config ownPeerId) (startDiscovery config)

end
end Bluetalk.NetworkCore

/-!
## Announcements that come again

Of the announcements that verify, the loop takes those that a log of all of them takes within the
replay window. So none is taken twice exactly when none that verifies comes again after the window.
-/

namespace Bluetalk.NetworkCore

section

variable (k : Crates) (config : DiscoveryConfig) (ownPeerId : String)

/-- What the cache hears of a packet. -/
def stamp (r : Receipt) : Option (String × Nat) :=
  (arrival k config ownPeerId r).map fun verified => (verified.replayKey, r.now)

/-- The packets come one after the other. -/
def InOrder (receipts : List Receipt) : Prop := receipts.Pairwise fun r r' => r.now ≤ r'.now

/-- The keys of all announcements that verify. -/
def seenKeys (receipts : List Receipt) : List String :=
  ((receipts.filterMap (arrival k config ownPeerId)).map VerifiedAnnouncement.replayKey).dedup

/-- No announcement has been taken as fresh twice, and the cache is within its bound. -/
structure ReplayProtected (s : DiscoveryState) : Prop where
  once : (s.discovered.map VerifiedAnnouncement.replayKey).Nodup
  bounded : s.cache.Bounded

/-- An announcement that verifies does not come again after the window. -/
def ComesAgainWithin (window : Duration) (r r' : Receipt) : Prop :=
  ∀ v v', arrival k config ownPeerId r = some v → arrival k config ownPeerId r' = some v' →
    v.replayKey = v'.replayKey → r'.now - r.now < window

end

variable {k : Crates} {config : DiscoveryConfig} {ownPeerId : String} {s : DiscoveryState}
  {receipts : List Receipt} {r : Receipt} {v : VerifiedAnnouncement}

theorem discover_none (h : arrival k config ownPeerId r = none) :
    discover k config ownPeerId s r = s := by
  rw [discover, h]

theorem discover_some (h : arrival k config ownPeerId r = some v) :
    discover k config ownPeerId s r =
      { cache := (s.cache.recordIfFresh v.replayKey r.now).1
        discovered := s.discovered ++
          if (s.cache.recordIfFresh v.replayKey r.now).2 then [v] else [] } := by
  rw [discover, h]
  dsimp only
  split
  · rfl
  · rw [append_nil]

theorem discovery_concat : discovery k config ownPeerId (receipts ++ [r]) =
    discover k config ownPeerId (discovery k config ownPeerId receipts) r :=
  foldl_concat ..

theorem cache_discovery (k : Crates) (ownPeerId : String) (hmax : 0 < config.replayCacheEntries) (receipts : List Receipt) :
    (discovery k config ownPeerId receipts).cache.Agrees ∧
      (discovery k config ownPeerId receipts).cache.window = config.replayWindow ∧
      (discovery k config ownPeerId receipts).cache.maximumEntries = config.replayCacheEntries ∧
      (discovery k config ownPeerId receipts).cache.Bounded := by
  induction receipts using List.reverseRecOn with
  | nil => exact ⟨ReplayCache.agrees_new, rfl, rfl, Nat.zero_le _⟩
  | append_singleton receipts r ih =>
    obtain ⟨hagrees, hwindow, hentries, hbound⟩ := ih
    rw [discovery_concat]
    cases harrival : arrival k config ownPeerId r with
    | none =>
      rw [discover_none harrival]
      exact ⟨hagrees, hwindow, hentries, hbound⟩
    | some v =>
      rw [discover_some harrival]
      refine ⟨hagrees.record, ?_, ?_, hbound.record hagrees (by rwa [hentries])⟩
      · exact (ReplayCache.recordIfFresh_window hagrees).trans hwindow
      · exact (ReplayCache.recordIfFresh_maximumEntries hagrees).trans hentries

theorem follows_discovery {seen : List String} (hmax : seen.length < config.replayCacheEntries)
    (hseen : ∀ e ∈ receipts.filterMap (stamp k config ownPeerId), e.1 ∈ seen)
    (hord : InOrder receipts) {last : Nat} (hlast : ∀ r ∈ receipts, r.now ≤ last) :
    let log := Window.takeAll config.replayWindow [] (receipts.filterMap (stamp k config ownPeerId))
    (discovery k config ownPeerId receipts).cache.Follows log last ∧
      (discovery k config ownPeerId receipts).discovered.map VerifiedAnnouncement.replayKey =
        log.map Prod.fst := by
  induction receipts using List.reverseRecOn generalizing last with
  | nil =>
    refine ⟨⟨ReplayCache.agrees_new, List.Pairwise.nil, fun _ h => ?_, [], rfl, fun _ h => ?_⟩, rfl⟩
    · exact absurd h not_mem_nil
    · exact absurd h not_mem_nil
  | append_singleton receipts r ih =>
    obtain ⟨hord, -, hbefore⟩ := pairwise_append.mp hord
    rw [filterMap_append, forall_mem_append] at hseen
    have hnow : r.now ≤ last := hlast r (mem_append_right _ mem_cons_self)
    obtain ⟨hfollows, hkeys⟩ := ih hseen.1 hord fun r' hr' =>
      hbefore r' hr' r (mem_singleton.mpr rfl)
    obtain ⟨-, hwindow, hentries, -⟩ :=
      cache_discovery k ownPeerId (Nat.zero_lt_of_lt hmax) receipts
    rw [discovery_concat, filterMap_append]
    cases harrival : arrival k config ownPeerId r with
    | none =>
      have hstamp : stamp k config ownPeerId r = none := by rw [stamp, harrival]; rfl
      rw [discover_none harrival, filterMap_cons_none hstamp, filterMap_nil, append_nil]
      exact ⟨hfollows.mono hnow, hkeys⟩
    | some v =>
      have hstamp : stamp k config ownPeerId r = some (v.replayKey, r.now) := by
        rw [stamp, harrival]
        rfl
      rw [discover_some harrival, filterMap_cons_some hstamp, filterMap_nil,
        Window.takeAll_concat, ← hwindow]
      rw [← hwindow] at hfollows hkeys
      have hroom : ((discovery k config ownPeerId receipts).cache.kept r.now).length <
          (discovery k config ownPeerId receipts).cache.maximumEntries := by
        rw [hentries]
        refine Nat.lt_of_le_of_lt ?_ hmax
        exact hfollows.length_kept (Nat.le_refl _) fun e he =>
          hseen.1 e (Window.mem_of_mem_takeAll he)
      obtain ⟨hrecord, hfresh⟩ := hfollows.record v.replayKey (Nat.le_refl r.now) hroom
      refine ⟨hrecord.mono hnow, ?_⟩
      rw [map_append, hkeys]
      split
      next htaken =>
        rw [Window.take_of_not_known (hfresh.mp htaken), map_append]
        rfl
      next hdropped =>
      rw [Window.take_of_known (not_not.mp fun hnew => hdropped (hfresh.mpr hnew)), map_nil,
        append_nil]

theorem once_iff (hord : InOrder receipts)
    (hfew : (seenKeys k config ownPeerId receipts).length < config.replayCacheEntries) :
    ((discovery k config ownPeerId receipts).discovered.map VerifiedAnnouncement.replayKey).Nodup ↔
      receipts.Pairwise (ComesAgainWithin k config ownPeerId config.replayWindow) := by
  have hseen : ∀ e ∈ receipts.filterMap (stamp k config ownPeerId),
      e.1 ∈ seenKeys k config ownPeerId receipts := by
    intro e he
    obtain ⟨r, hr, hstamp⟩ := mem_filterMap.mp he
    obtain ⟨v, harrival, rfl⟩ := map_eq_some_iff.mp hstamp
    exact mem_dedup.mpr (mem_map_of_mem (mem_filterMap.mpr ⟨r, hr, harrival⟩))
  obtain ⟨last, hlast⟩ : ∃ last, ∀ r ∈ receipts, r.now ≤ last :=
    ⟨(receipts.map Receipt.now).sum, fun r hr => le_sum_of_mem (mem_map_of_mem hr)⟩
  have hstamps : Window.Ordered (receipts.filterMap (stamp k config ownPeerId)) := by
    refine pairwise_filterMap.mpr (hord.imp fun {r r'} hle e he e' he' => ?_)
    obtain ⟨v, -, rfl⟩ := map_eq_some_iff.mp he
    obtain ⟨v', -, rfl⟩ := map_eq_some_iff.mp he'
    exact hle
  rw [(follows_discovery hfew hseen hord hlast).2, Window.nodup_takeAll_iff hstamps,
    pairwise_filterMap]
  refine List.Pairwise.iff fun r r' =>
    ⟨fun hcovered v v' hv hv' heq => ?_, fun hagain e he e' he' => ?_⟩
  · exact hcovered _ (map_eq_some_iff.mpr ⟨v, hv, rfl⟩) _
      (map_eq_some_iff.mpr ⟨v', hv', rfl⟩) heq
  · obtain ⟨v, hv, rfl⟩ := map_eq_some_iff.mp he
    obtain ⟨v', hv', rfl⟩ := map_eq_some_iff.mp he'
    exact hagain v v' hv hv'

/-- With the default configuration, what verifies is taken once exactly when none of it comes again
180 seconds or more after it came. -/
theorem replayProtected_iff (k : Crates) (ownPeerId : String) (receipts : List Receipt)
    (hord : InOrder receipts)
    (hfew : (seenKeys k {} ownPeerId receipts).length < ({} : DiscoveryConfig).replayCacheEntries) :
    ReplayProtected (discovery k {} ownPeerId receipts) ↔
      receipts.Pairwise (ComesAgainWithin k {} ownPeerId (.fromSecs 180)) := by
  have hmax : 0 < ({} : DiscoveryConfig).replayCacheEntries := by decide
  have hbound := (cache_discovery k ownPeerId hmax receipts).2.2.2
  exact ⟨fun h => (once_iff hord hfew).mp h.once, fun h => ⟨(once_iff hord hfew).mpr h, hbound⟩⟩

def sampleAnnouncement : SignedAnnouncement where
  magic := "BLUETALK_DISCOVERY"
  envelopeVersion := 1
  protocolVersions := [2]
  peerId := "bt2_65b60673d6ed884bf01c2c222d82ada0740f29ac3355d6a925c81f17f47a27b8"
  identityKey := "ebVWLo/mVPlAeLES6KmLp5AfhTrmlb7X4OORC60ElmQ="
  displayName := "Alice"
  endpoints := ["tcp://0.0.0.0:41236"]
  timestampMs := 1700000090000
  nonce := "000102030405060708090a0b0c0d0e0f"
  signature :=
    "sAmJ3+iaLBQxbD4mXFo9OWPkk0EsnMMIkW2CXGPnIxXxqylQsNcz8O3NZrDin+9wx12D2cyeWj+P4gAL4N8wCQ=="

/-- What stands before the signature in the packet. -/
def sampleBody : String :=
  "\"magic\":\"BLUETALK_DISCOVERY\",\"envelopeVersion\":1,\"protocolVersions\":[2]," ++
    "\"peerId\":\"" ++ sampleAnnouncement.peerId ++ "\",\"identityKey\":\"" ++
    sampleAnnouncement.identityKey ++ "\",\"displayName\":\"Alice\"," ++
    "\"endpoints\":[\"tcp://0.0.0.0:41236\"],\"timestampMs\":1700000090000,\"nonce\":\"" ++
    sampleAnnouncement.nonce ++ "\""

def samplePacket : Bytes :=
  PeerProtocol.utf8 ("\x7b" ++ sampleBody ++ ",\"signature\":\"" ++
    sampleAnnouncement.signature ++ "\"\x7d")

/-- The identity key of the sample, and its SHA-256. -/
def sampleKey : Bytes :=
  [121, 181, 86, 46, 143, 230, 84, 249, 64, 120, 177, 18, 232, 169, 139, 167, 144, 31, 133, 58, 230,
    149, 190, 215, 224, 227, 145, 11, 173, 4, 150, 100]

def sampleDigest : Bytes :=
  [101, 182, 6, 115, 214, 237, 136, 75, 240, 28, 44, 34, 45, 130, 173, 160, 116, 15, 41, 172, 51, 85,
    214, 169, 37, 200, 31, 23, 244, 122, 39, 184]

/-- The other crates, as far as the sample needs them. -/
def sampleCrates : Crates where
  fromSlice packet :=
    if packet = samplePacket then .ok sampleAnnouncement else .error "expected value"
  toVec body :=
    if body = sampleAnnouncement.toSignatureBody then
      .ok (PeerProtocol.utf8 ("\x7b" ++ sampleBody ++ "\x7d"))
    else .error "unknown"
  parseUrl text :=
    if text = "tcp://0.0.0.0:41236" then
      .ok { scheme := "tcp", host := some (.domain "0.0.0.0"), port := some 41236 }
    else .error "relative URL without a base"
  isUnspecified text := text = "0.0.0.0"
  decodeBase64 text :=
    match Base64.decodeStrict text with
    | some bytes => .ok bytes
    | none => .error "Invalid padding"
  sha256 bytes := if bytes = sampleKey then sampleDigest else []
  verifyStrict key message signature :=
    key = sampleKey &&
      message = PeerProtocol.utf8 signatureDomain ++
        PeerProtocol.utf8 ("\x7b" ++ sampleBody ++ "\x7d") &&
      Base64.encode signature = sampleAnnouncement.signature

/-- The packet of the sample comes at this second, on both clocks. -/
def sampleReceipt (secs : Nat) : Receipt where
  packet := samplePacket
  observedFrom := { ip := "192.0.2.10", port := 50000 }
  unixTimeMs := 1700000000000 + 1000 * secs
  now := Duration.fromSecs secs

/-- Whatever comes, the cache has no more than the configured number of keys, each of them once. -/
theorem cache_bounded (hmax : 0 < config.replayCacheEntries) :
    (discovery k config ownPeerId receipts).cache.Agrees ∧
      (discovery k config ownPeerId receipts).cache.entries.length ≤ config.replayCacheEntries := by
  obtain ⟨hagrees, -, hentries, hbound⟩ := cache_discovery k ownPeerId hmax receipts
  exact ⟨hagrees, hentries ▸ hbound⟩

theorem cache_bounded_sample :
    (discovery sampleCrates {} "bt2_own" [sampleReceipt 0]).cache.entries.length ≤ 4096 :=
  (@cache_bounded _ {} _ _ (by decide)).2

/-- The packet comes again within the window, and is taken once. -/
theorem replayProtected_iff_sample :
    ReplayProtected (discovery sampleCrates {} "bt2_own" [sampleReceipt 0, sampleReceipt 60]) := by
  refine (replayProtected_iff _ _ _ ?_ ?_).mpr ?_
  · exact pairwise_pair.mpr (by decide)
  · decide +kernel
  · exact pairwise_pair.mpr fun _ _ _ _ _ => by decide

/-- The clock of the sender is 90 seconds ahead: the packet is timely for 210 seconds from its first
arrival on, and taken again when it comes once more after 180. -/
theorem replayed_after_window :
    ¬ ReplayProtected (discovery sampleCrates {} "bt2_own" [sampleReceipt 0, sampleReceipt 180]) := by
  intro h
  have honce := h.once
  revert honce
  decide +kernel

end Bluetalk.NetworkCore

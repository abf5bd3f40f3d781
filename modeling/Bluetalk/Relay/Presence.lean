import Bluetalk.Relay.HubInvariants

/-!
# Mutual presence

What a connection should believe of a peer it watches is `Hub.presenceOf`. An operation informs
rightly when everything it sends is true in the state it leaves (`Sound`), and when whoever would
otherwise believe something else is told (`Complete`); the last thing told is then always the
truth. The same holds of the lists of own devices.
-/

open List

namespace Bluetalk.Relay

namespace Hub

variable {h h' : Hub} {g g' : Nat} {p q : String} {c c' : ConnSlot} {d : DeviceInfo} {msg : Control}
  {old : List String} {except : Option Nat} {dev : String} {spec : RegisterSpec}

/-! ## The state in terms of the live connections -/

theorem Wf.mem_generationsOf (H : h.Wf) (hc : h.conns.lookup g = some c) :
    g ∈ h.generationsOf p ↔ c.peerId = p := by
  rw [Hub.mem_generationsOf]
  constructor
  · rintro ⟨d, hd⟩
    exact (((H.listed hc _ _).mp hd).1).symm
  · rintro rfl
    exact ⟨c.device, (H.listed hc _ _).mpr ⟨rfl, rfl⟩⟩

theorem Wf.mem_connsOf (H : h.Wf) :
    (g, c) ∈ h.connsOf p ↔ h.conns.lookup g = some c ∧ c.peerId = p := by
  simp only [connsOf, mem_filterMap, Option.map_eq_some_iff, Prod.mk.injEq]
  constructor
  · rintro ⟨g, hg, c, hc, rfl, rfl⟩
    exact ⟨hc, (H.mem_generationsOf hc).mp hg⟩
  · rintro ⟨hc, hp⟩
    exact ⟨g, (H.mem_generationsOf hc).mpr hp, c, hc, rfl, rfl⟩

theorem Wf.peerWatches_iff (H : h.Wf) : h.peerWatches p q ↔
    ∃ g c, h.conns.lookup g = some c ∧ c.peerId = p ∧ q ∈ c.watch := by
  simp only [peerWatches, any_eq_true, Prod.exists, H.mem_connsOf, decide_eq_true_eq, and_assoc]

theorem Wf.mem_mutualPeers (H : h.Wf) :
    q ∈ h.mutualPeers p ↔ q ≠ p ∧ h.peerWatches p q ∧ h.peerWatches q p := by
  have hunion : q ∈ h.unionWatch p ↔ h.peerWatches p q := by
    simp only [unionWatch, mem_dedup, mem_flatMap, Prod.exists, H.mem_connsOf,
      H.peerWatches_iff, and_assoc]
  simp only [mutualPeers, mem_filter, hunion, Bool.and_eq_true, decide_eq_true_eq]
  exact and_left_comm

theorem Wf.mem_pushPresenceToWatchers (H : h.Wf) {subject : String} {online : Bool}
    {devices : List DeviceInfo} :
    (g, msg) ∈ h.pushPresenceToWatchers q subject online devices ↔
      msg = .presence subject online devices ∧
        ∃ c, h.conns.lookup g = some c ∧ c.peerId = q ∧ subject ∈ c.watch := by
  simp only [pushPresenceToWatchers, mem_map, mem_filter, Prod.exists, H.mem_connsOf,
    decide_eq_true_eq, Prod.mk.injEq]
  constructor
  · rintro ⟨g, c, ⟨⟨hc, hp⟩, hw⟩, rfl, rfl⟩
    exact ⟨rfl, c, hc, hp, hw⟩
  · rintro ⟨rfl, c, hc, hp, hw⟩
    exact ⟨g, c, ⟨⟨hc, hp⟩, hw⟩, rfl, rfl⟩

theorem Wf.mem_deviceList (H : h.Wf) : d ∈ h.deviceList p ↔
    ∃ g c, h.conns.lookup g = some c ∧ c.peerId = p ∧ d = ⟨c.device, c.deviceName⟩ := by
  simp only [deviceList, mem_insertionSort, mem_filterMap, Option.map_eq_some_iff, Sigma.exists]
  constructor
  · rintro ⟨dev, g, hmem, c, hc, rfl⟩
    have := (H.listed hc p dev).mp (AList.mem_lookup_iff.mpr hmem)
    exact ⟨g, c, hc, this.1.symm, by rw [this.2]⟩
  · rintro ⟨g, c, hc, hp, rfl⟩
    exact ⟨c.device, g, AList.mem_lookup_iff.mp ((H.listed hc _ _).mpr ⟨hp.symm, rfl⟩), c, hc, rfl⟩

/-! ## What there is to know -/

/-- What a connection of peer `m` that watches `p` should believe of `p`. -/
def presenceOf (h : Hub) (p m : String) : Bool × List DeviceInfo :=
  if h.peerWatches p m then (true, h.deviceList p) else (false, [])

/-- The presence messages among `pushes` are true in `h`, and go to connections that watch. -/
def Sound (h : Hub) (pushes : List Push) : Prop :=
  ∀ g p online devices, (g, Control.presence p online devices) ∈ pushes →
    ∃ c, h.conns.lookup g = some c ∧ p ∈ c.watch ∧ (online, devices) = h.presenceOf p c.peerId

/-- Whoever watches `p` before and after is told of a change. -/
def Complete (h h' : Hub) (pushes : List Push) : Prop :=
  ∀ g c c' p, h.conns.lookup g = some c → h'.conns.lookup g = some c' → p ∈ c.watch →
    p ∈ c'.watch → h.presenceOf p c.peerId ≠ h'.presenceOf p c'.peerId →
    ∃ online devices, (g, Control.presence p online devices) ∈ pushes

/-- The lists of own devices among `pushes` are true in `h`. -/
def OwnSound (h : Hub) (pushes : List Push) : Prop :=
  ∀ g devices, (g, Control.devices devices) ∈ pushes →
    ∃ c, h.conns.lookup g = some c ∧ devices = h.otherDevices c.peerId c.device

/-- Whoever stays connected is told of a change of the other own devices. -/
def OwnComplete (h h' : Hub) (pushes : List Push) : Prop :=
  ∀ g c c', h.conns.lookup g = some c → h'.conns.lookup g = some c' →
    h.otherDevices c.peerId c.device ≠ h'.otherDevices c'.peerId c'.device →
    ∃ devices, (g, Control.devices devices) ∈ pushes

/-! ## A change that concerns one peer -/

/-- The connections of `p` are the same in both states. -/
structure SamePeer (h h' : Hub) (p : String) : Prop where
  devices : h'.devicesOf p = h.devicesOf p
  conns : ∀ {g c}, c.peerId = p → (h'.conns.lookup g = some c ↔ h.conns.lookup g = some c)

theorem SamePeer.peerWatches (hs : SamePeer h h' p) (H : h.Wf) (H' : h'.Wf) :
    h'.peerWatches p q = h.peerWatches p q := by
  rw [Bool.eq_iff_iff, H.peerWatches_iff, H'.peerWatches_iff]
  constructor
  · rintro ⟨g, c, hc, hp, hq⟩
    exact ⟨g, c, (hs.conns hp).mp hc, hp, hq⟩
  · rintro ⟨g, c, hc, hp, hq⟩
    exact ⟨g, c, (hs.conns hp).mpr hc, hp, hq⟩

theorem deviceList_congr (H : h.Wf) (hd : h'.devicesOf p = h.devicesOf p)
    (hc : ∀ {g c}, h.conns.lookup g = some c → c.peerId = p →
      ∃ c', h'.conns.lookup g = some c' ∧ c'.deviceName = c.deviceName) :
    h'.deviceList p = h.deviceList p := by
  rw [deviceList, deviceList, hd]
  congr 1
  refine filterMap_congr fun s hs => ?_
  have hlookup : (h.devicesOf p).lookup s.1 = some s.2 := AList.mem_lookup_iff.mpr hs
  obtain ⟨c, hg⟩ := Option.isSome_iff_exists.mp (AList.lookup_isSome.mpr (H.live hlookup))
  obtain ⟨c', hg', hname⟩ := hc hg (((H.listed hg _ _).mp hlookup).1).symm
  rw [hg, hg', Option.map_some, Option.map_some, hname]

theorem SamePeer.deviceList (hs : SamePeer h h' p) (H : h.Wf) :
    h'.deviceList p = h.deviceList p :=
  deviceList_congr H hs.devices fun hc hp => ⟨_, (hs.conns hp).mpr hc, rfl⟩

theorem SamePeer.presenceOf (hs : SamePeer h h' p) (H : h.Wf) (H' : h'.Wf) :
    h'.presenceOf p q = h.presenceOf p q := by
  rw [Hub.presenceOf, Hub.presenceOf, hs.peerWatches H H', hs.deviceList H]

/-- No connection watches its own peer: `handle_watch` takes it out of the list. -/
def NoSelfWatch (h : Hub) : Prop := ∀ g c, h.conns.lookup g = some c → c.peerId ∉ c.watch

theorem Wf.mem_queuePresenceDiff (H : h.Wf) (hself : h.NoSelfWatch) : (g, msg) ∈ h.queuePresenceDiff p old ↔
      ∃ c, h.conns.lookup g = some c ∧ p ∈ c.watch ∧
        ((h.peerWatches p c.peerId ∧ msg = .presence p true (h.deviceList p)) ∨
          (c.peerId ∈ old ∧ ¬ h.peerWatches p c.peerId ∧ msg = .presence p false [])) := by
  have hmutual : ∀ {g c}, h.conns.lookup g = some c → p ∈ c.watch →
      (c.peerId ∈ h.mutualPeers p ↔ h.peerWatches p c.peerId) := by
    intro g c hc hw
    rw [H.mem_mutualPeers]
    have hne : c.peerId ≠ p := fun e => hself g c hc (e ▸ hw)
    have hback := H.peerWatches_iff.mpr ⟨g, c, hc, rfl, hw⟩
    simp [hne, hback]
  have honline : ∀ {q}, h.peerWatches p q → (h.deviceList p).isEmpty = false := by
    intro q hq
    obtain ⟨g, c, hc, hp, -⟩ := H.peerWatches_iff.mp hq
    rw [isEmpty_eq_false_iff_exists_mem]
    exact ⟨_, H.mem_deviceList.mpr ⟨g, c, hc, hp, rfl⟩⟩
  simp only [queuePresenceDiff, mem_append, mem_flatMap, mem_filter,
    decide_eq_true_eq, H.mem_pushPresenceToWatchers]
  constructor
  · rintro (⟨q, ⟨hq, hnew⟩, rfl, c, hc, rfl, hw⟩ | hon)
    · exact ⟨c, hc, hw, .inr ⟨hq, fun h => hnew ((hmutual hc hw).mpr h), rfl⟩⟩
    · split at hon
      · simp only [mem_flatMap, H.mem_pushPresenceToWatchers] at hon
        obtain ⟨q, hq, rfl, c, hc, rfl, hw⟩ := hon
        exact ⟨c, hc, hw, .inl ⟨(hmutual hc hw).mp hq, rfl⟩⟩
      · cases hon
  · rintro ⟨c, hc, hw, ⟨hp, hmsg⟩ | ⟨hq, hp, hmsg⟩⟩
    · right
      rw [if_pos (by simp [honline hp])]
      simp only [mem_flatMap, H.mem_pushPresenceToWatchers]
      exact ⟨c.peerId, (hmutual hc hw).mpr hp, hmsg, c, hc, rfl, hw⟩
    · exact .inl ⟨c.peerId, ⟨hq, fun h => hp ((hmutual hc hw).mp h)⟩, hmsg, c, hc, rfl, hw⟩

theorem Wf.sound_diff (H : h.Wf) (hself : h.NoSelfWatch) :
    h.Sound (h.queuePresenceDiff p old) := by
  intro g p' online devices hmem
  obtain ⟨c, hc, hw, ⟨hp, hmsg⟩ | ⟨-, hp, hmsg⟩⟩ := (H.mem_queuePresenceDiff hself).mp hmem
  · cases hmsg
    exact ⟨c, hc, hw, by rw [Hub.presenceOf, if_pos hp]⟩
  · cases hmsg
    exact ⟨c, hc, hw, by rw [Hub.presenceOf, if_neg hp]⟩

/-- A generation is a connection of one peer. -/
def SameConns (h h' : Hub) : Prop := ∀ {g c c'}, h.conns.lookup g = some c →
  h'.conns.lookup g = some c' → c'.peerId = c.peerId ∧ c'.device = c.device

theorem complete_diff (H : h.Wf) (H' : h'.Wf) (hsame : ∀ q, q ≠ p → SamePeer h h' q)
    (hself : h'.NoSelfWatch) (hconns : SameConns h h') :
    Complete h h' (h'.queuePresenceDiff p (h.mutualPeers p)) := by
  intro g c c' q hc hc' hw hw' hne
  rw [(hconns hc hc').1] at hne
  have hp : q = p := by
    by_contra hp
    exact hne ((hsame q hp).presenceOf H H').symm
  subst hp
  -- the watcher is of another peer, whose connections are the same
  have hpeer : c'.peerId ≠ q := fun e => hself g c' hc' (e ▸ hw')
  have hback : h.peerWatches c.peerId q := H.peerWatches_iff.mpr ⟨g, c, hc, rfl, hw⟩
  by_cases hon : h'.peerWatches q c'.peerId
  · exact ⟨_, _, (H'.mem_queuePresenceDiff hself).mpr
      ⟨c', hc', hw', .inl ⟨hon, rfl⟩⟩⟩
  have hwas : h.peerWatches q c.peerId := by
    by_contra hwas
    rw [(hconns hc hc').1] at hon
    rw [Hub.presenceOf, Hub.presenceOf, if_neg hwas, if_neg hon] at hne
    exact hne rfl
  refine ⟨_, _, (H'.mem_queuePresenceDiff hself).mpr
    ⟨c', hc', hw', .inr ⟨?_, hon, rfl⟩⟩⟩
  rw [H.mem_mutualPeers, (hconns hc hc').1]
  exact ⟨(hconns hc hc').1 ▸ hpeer, hwas, hback⟩

theorem Wf.mem_queueOwnDevices (H : h.Wf) :
    (g, msg) ∈ h.queueOwnDevices p except ↔ some g ≠ except ∧
      ∃ c, h.conns.lookup g = some c ∧ c.peerId = p ∧ msg = .devices (h.otherDevices p c.device) := by
  simp only [queueOwnDevices, mem_filterMap, Sigma.exists]
  constructor
  · rintro ⟨dev, g', hmem, h'⟩
    split at h'
    · cases h'
    next hne =>
    obtain ⟨c, hc, hmsg⟩ := Option.map_eq_some_iff.mp h'
    cases hmsg
    have := (H.listed hc p dev).mp (AList.mem_lookup_iff.mpr hmem)
    exact ⟨hne, c, hc, this.1.symm, by rw [← this.2]; rfl⟩
  · rintro ⟨hne, c, hc, hp, hmsg⟩
    refine ⟨c.device, g, AList.mem_lookup_iff.mp ((H.listed hc _ _).mpr ⟨hp.symm, rfl⟩), ?_⟩
    rw [if_neg hne, hc, hmsg]
    rfl

/-! ## What each operation does to the rest -/

/-- Everything an operation sends of presence and of own devices is right, and nothing is
missing. -/
structure Informs (h h' : Hub) (pushes : List Push) : Prop where
  sound : h'.Sound pushes
  complete : Complete h h' pushes
  ownSound : h'.OwnSound pushes
  ownComplete : OwnComplete h h' pushes

theorem informs_nothing (h : Hub) : Informs h h [] where
  sound g p online devices hmem := by cases hmem
  complete g c c' p hc hc' _ _ hne := by
    rw [hc] at hc'
    cases hc'
    exact absurd rfl hne
  ownSound g devices hmem := by cases hmem
  ownComplete g c c' hc hc' hne := by
    rw [hc] at hc'
    cases hc'
    exact absurd rfl hne

theorem informs_of_change (H : h.Wf) (H' : h'.Wf) (hsame : ∀ q, q ≠ p → SamePeer h h' q)
    (hself : h'.NoSelfWatch) (hconns : SameConns h h') (hexcept : ∀ g, some g = except → g ∉ h.conns) {closes : List Push}
    (hcloses : ∀ push ∈ closes, ∃ id, push.2 = .closed id "disconnect") :
    Informs h h' (closes ++ h'.queueOwnDevices p except ++
      h'.queuePresenceDiff p (h.mutualPeers p)) := by
  constructor
  case sound =>
    intro g q online devices hmem
    simp only [mem_append, or_assoc] at hmem
    rcases hmem with hmem | hmem | hmem
    · obtain ⟨_, hid⟩ := hcloses _ hmem
      cases hid
    · obtain ⟨-, _, -, -, hmsg⟩ := H'.mem_queueOwnDevices.mp hmem
      cases hmsg
    · exact H'.sound_diff hself g q online devices hmem
  case complete =>
    intro g c c' q hc hc' hw hw' hne
    obtain ⟨online, devices, hmem⟩ := complete_diff H H' hsame hself hconns g c c' q hc hc' hw hw' hne
    exact ⟨online, devices, mem_append_right _ hmem⟩
  case ownSound =>
    intro g devices hmem
    simp only [mem_append, or_assoc] at hmem
    rcases hmem with hmem | hmem | hmem
    · obtain ⟨_, hid⟩ := hcloses _ hmem
      cases hid
    · obtain ⟨-, c, hc, rfl, hmsg⟩ := H'.mem_queueOwnDevices.mp hmem
      cases hmsg
      exact ⟨c, hc, rfl⟩
    · obtain ⟨_, _, _, ⟨-, hmsg⟩ | ⟨-, -, hmsg⟩⟩ := (H'.mem_queuePresenceDiff hself).mp hmem
      all_goals cases hmsg
  case ownComplete =>
    intro g c c' hc hc' hne
    rw [(hconns hc hc').1, (hconns hc hc').2] at hne
    have hp : c.peerId = p := by
      by_contra hp
      refine hne ?_
      rw [otherDevices, otherDevices, (hsame _ hp).deviceList H]
    refine ⟨_, mem_append_left _ (mem_append_right _ (H'.mem_queueOwnDevices.mpr
      ⟨fun hg => hexcept g hg ?_, c', hc', (hconns hc hc').1.trans hp, rfl⟩))⟩
    exact AList.lookup_isSome.mp (Option.isSome_of_eq_some hc)

theorem detachConn_pushes : ∀ push ∈ (h.detachConn g).2, ∃ id, push.2 = .closed id "disconnect" := by
  rw [detachConn]
  split
  next =>
    intro push hmem
    cases hmem
  next =>
  intro push hmem
  obtain ⟨n, -, rfl⟩ := mem_map.mp hmem
  exact ⟨n.2, rfl⟩

theorem samePeer_detachConn (H : h.Wf) (hc : h.conns.lookup g = some c) (hp : p ≠ c.peerId) :
    SamePeer h (h.detachConn g).1 p where
  devices := by rw [devicesOf_detachConn hc H, if_neg hp]
  conns {g' c'} hp' := by
    have hne : ∀ {g' c'}, h.conns.lookup g' = some c' → c'.peerId = p → g' ≠ g := by
      rintro g' c' hc' rfl rfl
      rw [hc] at hc'
      cases hc'
      exact hp rfl
    rw [conns_detachConn hc]
    constructor
    · intro h'
      by_cases hg : g' = g
      · rw [hg, AList.lookup_erase] at h'
        cases h'
      · rwa [AList.lookup_erase_ne hg] at h'
    · intro h'
      rwa [AList.lookup_erase_ne (hne h' hp')]

theorem lookup_conns_detachConn (hc : h.conns.lookup g = some c)
    (hc' : (h.detachConn g).1.conns.lookup g' = some c') : h.conns.lookup g' = some c' := by
  rw [conns_detachConn hc] at hc'
  by_cases hg : g' = g
  · rw [hg, AList.lookup_erase] at hc'
    cases hc'
  · rwa [AList.lookup_erase_ne hg] at hc'

theorem Wf.informs_unregister (H : h.Wf) (hself : h.NoSelfWatch) :
    Informs h (h.unregister p g).1 (h.unregister p g).2 := by
  rw [Hub.unregister]
  split
  next hm =>
    obtain ⟨c, hc, rfl⟩ := connMatches_iff.mp hm
    refine informs_of_change H (H.detachConn hc) (fun q hq => samePeer_detachConn H hc hq)
      (fun g' c' hc' => hself g' c' (lookup_conns_detachConn hc hc')) (fun {g' c₁ c₂} h₁ h₂ => ?_)
      (fun _ h => by cases h) detachConn_pushes
    rw [lookup_conns_detachConn hc h₂] at h₁
    cases h₁
    exact ⟨rfl, rfl⟩
  next =>
  exact informs_nothing h

theorem SamePeer.refl (h : Hub) (p : String) : SamePeer h h p := ⟨rfl, fun _ => Iff.rfl⟩

theorem SamePeer.trans {h'' : Hub} (h₁ : SamePeer h h' p) (h₂ : SamePeer h' h'' p) :
    SamePeer h h'' p :=
  ⟨h₂.devices.trans h₁.devices, fun hp => (h₂.conns hp).trans (h₁.conns hp)⟩

theorem samePeer_makeRoom (H : h.Wf) (hq : q ≠ p) :
    SamePeer h (h.makeRoom p dev).2.1 q := by
  rcases H.makeRoom_cases p dev with ⟨-, he⟩ | ⟨old, c, -, hc, rfl, he⟩
  · rw [he]; exact SamePeer.refl h q
  · rw [he]; exact samePeer_detachConn H hc hq

theorem Wf.lookup_makeRoom (H : h.Wf) (hc : (h.makeRoom p dev).2.1.conns.lookup g = some c) : h.conns.lookup g = some c := by
  rcases H.makeRoom_cases p dev with ⟨-, he⟩ | ⟨old, c', -, hc', -, he⟩
  · rw [he] at hc; exact hc
  · rw [he] at hc; exact lookup_conns_detachConn hc' hc

theorem Wf.makeRoom_pushes (H : h.Wf) :
    ∀ push ∈ (h.makeRoom p dev).2.2, ∃ id, push.2 = .closed id "disconnect" := by
  rcases H.makeRoom_cases p dev with ⟨-, he⟩ | ⟨old, c, -, hc, -, he⟩
  · rw [he]; nofun
  · rw [he]; exact detachConn_pushes

theorem samePeer_enter (hg : g ∉ h.conns) (hq : q ≠ spec.peerId) :
    SamePeer h (h.enter g spec) q where
  devices := by simp [Hub.enter, devicesOf, AList.lookup_insert_ne hq]
  conns {g' c} hp := by
    constructor
    · intro hc
      rcases lookup_enter hc with ⟨-, rfl⟩ | ⟨-, hc⟩
      · exact absurd hp.symm hq
      · exact hc
    intro hc
    have hne : g' ≠ g := by
      rintro rfl
      exact hg (AList.lookup_isSome.mp (Option.isSome_of_eq_some hc))
    exact (AList.lookup_insert_ne hne).trans hc

theorem Wf.lookup_register (H : h.Wf) (hc : (h.register spec).2.1.conns.lookup g = some c) :
    (g = h.nextGen ∧ c = ⟨spec.peerId, spec.device, spec.deviceName, spec.name, []⟩) ∨
      (g ≠ h.nextGen ∧ h.conns.lookup g = some c) := by
  exact (lookup_enter hc).imp_right fun ⟨hg, hc⟩ => ⟨hg, H.nextGen.lookup_makeRoom hc⟩

theorem Wf.nextGen_not_mem (H : h.Wf) : h.nextGen ∉ h.conns := fun hg =>
  Nat.lt_irrefl _ (H.fresh hg)

theorem Wf.informs_register (H : h.Wf) (hself : h.NoSelfWatch) (spec : RegisterSpec) :
    Informs h (h.register spec).2.1 (h.register spec).2.2 := by
  have H₁ := H.nextGen
  have hself' : (h.register spec).2.1.NoSelfWatch := by
    intro g c hc
    rcases H.lookup_register hc with ⟨-, rfl⟩ | ⟨-, hc⟩
    · exact not_mem_nil
    · exact hself g c hc
  refine informs_of_change (p := spec.peerId) H (H.register spec) (fun q hq => ?_) hself'
    (fun {g c c'} hc hc' => ?_) (fun g hg => ?_) H₁.makeRoom_pushes
  · exact (SamePeer.mk rfl fun _ => Iff.rfl : SamePeer h { h with nextGen := h.nextGen + 1 } q).trans
      ((samePeer_makeRoom H₁ hq).trans
        (samePeer_enter (fun hg => H.nextGen_not_mem (H₁.mem_conns_makeRoom hg)) hq))
  · rcases H.lookup_register hc' with ⟨rfl, -⟩ | ⟨-, hc'⟩
    · exact absurd (AList.lookup_isSome.mp (Option.isSome_of_eq_some hc)) H.nextGen_not_mem
    · rw [hc] at hc'
      cases hc'
      exact ⟨rfl, rfl⟩
  · cases hg
    exact H.nextGen_not_mem

/-! ## Watch lists -/

def watching (h : Hub) (g : Nat) (c : ConnSlot) (peers : List String) : Hub :=
  { h with conns := h.conns.insert g { c with watch := peers.dedup } }

variable {peers : List String}

theorem lookup_watching (hc : (h.watching g c peers).conns.lookup g' = some c') :
    (g' = g ∧ c' = { c with watch := peers.dedup }) ∨ (g' ≠ g ∧ h.conns.lookup g' = some c') := by
  simp only [watching] at hc
  by_cases hg : g' = g
  · rw [hg, AList.lookup_insert] at hc
    cases hc
    exact .inl ⟨hg, rfl⟩
  · rw [AList.lookup_insert_ne hg] at hc
    exact .inr ⟨hg, hc⟩

theorem lookup_watching_self :
    (h.watching g c peers).conns.lookup g = some { c with watch := peers.dedup } :=
  AList.lookup_insert _

theorem lookup_watching_ne (hg : g' ≠ g) :
    (h.watching g c peers).conns.lookup g' = h.conns.lookup g' := AList.lookup_insert_ne hg

theorem noSelfWatch_watching (hself : h.NoSelfWatch) (hp : c.peerId ∉ peers) :
    (h.watching g c peers).NoSelfWatch := by
  intro g' c' hc'
  rcases lookup_watching hc' with ⟨-, rfl⟩ | ⟨-, hc'⟩
  · exact fun hmem => hp (mem_dedup.mp hmem)
  · exact hself g' c' hc'

theorem setWatch_cases (h : Hub) (p : String) (g : Nat) (peers : List String) :
    ((∀ c, h.conns.lookup g = some c → c.peerId ≠ p) ∧ h.setWatch p g peers = ([], h, [])) ∨
    ∃ c, h.conns.lookup g = some c ∧ c.peerId = p ∧
      (h.setWatch p g peers).2.1 = h.watching g c peers := by
  rw [setWatch]
  split
  next hnone =>
    refine .inl ⟨fun c hc => ?_, rfl⟩
    rw [hnone] at hc
    cases hc
  next c hc =>
  split
  next hp =>
    refine .inl ⟨fun c' hc' => ?_, rfl⟩
    rw [hc] at hc'
    cases hc'
    exact hp
  next hp => exact .inr ⟨c, hc, not_not.mp hp, rfl⟩

section

variable (hc : h.conns.lookup g = some c)

include hc

theorem samePeer_watching (hq : q ≠ c.peerId) : SamePeer h (h.watching g c peers) q where
  devices := rfl
  conns {g' c'} hp := by
    constructor
    · intro h'
      rcases lookup_watching h' with ⟨-, rfl⟩ | ⟨-, h'⟩
      · exact absurd hp.symm hq
      · exact h'
    intro h'
    have hne : g' ≠ g := by
      rintro rfl
      rw [hc] at h'
      cases h'
      exact hq hp.symm
    rwa [lookup_watching_ne hne]

theorem deviceList_watching (H : h.Wf) : (h.watching g c peers).deviceList q = h.deviceList q := by
  refine deviceList_congr H rfl fun {g' c'} hc' hp => ?_
  by_cases hg : g' = g
  · subst hg
    rw [hc] at hc'
    cases hc'
    exact ⟨_, lookup_watching_self, rfl⟩
  · exact ⟨c', (lookup_watching_ne hg).trans hc', rfl⟩

theorem sameConns_watching : SameConns h (h.watching g c peers) := by
  intro g' c₁ c₂ h₁ h₂
  rcases lookup_watching h₂ with ⟨rfl, rfl⟩ | ⟨-, h₂⟩
  · rw [hc] at h₁
    cases h₁
    exact ⟨rfl, rfl⟩
  · rw [h₁] at h₂
    cases h₂
    exact ⟨rfl, rfl⟩

theorem setWatch_eq : h.setWatch c.peerId g peers =
    ((peers.dedup.filter (· ∈ (h.watching g c peers).mutualPeers c.peerId)).map fun other =>
        Control.presence other true ((h.watching g c peers).deviceList other),
      h.watching g c peers,
      ((h.mutualPeers c.peerId).filter (· ∉ (h.watching g c peers).mutualPeers c.peerId)).flatMap
          (fun q => (h.watching g c peers).pushPresenceToWatchers q c.peerId false []) ++
        ((h.watching g c peers).mutualPeers c.peerId |>.filter (· ∉ h.mutualPeers c.peerId)).flatMap
          fun q => (h.watching g c peers).pushPresenceToWatchers q c.peerId true
            ((h.watching g c peers).deviceList c.peerId)) := by
  rw [setWatch, hc]
  simp only [ne_eq, not_true, if_false]
  rfl

end

theorem Wf.mem_snapshot (H' : (h.watching g c peers).Wf) (hc : h.conns.lookup g = some c)
    (hp : c.peerId ∉ peers) : msg ∈ (h.setWatch c.peerId g peers).1 ↔
      ∃ q ∈ peers, (h.watching g c peers).peerWatches q c.peerId ∧
        msg = .presence q true ((h.watching g c peers).deviceList q) := by
  rw [setWatch_eq hc]
  simp only [mem_map, mem_filter, mem_dedup, decide_eq_true_eq, H'.mem_mutualPeers]
  constructor
  · rintro ⟨q, ⟨hq, -, -, hback⟩, rfl⟩
    exact ⟨q, hq, hback, rfl⟩
  rintro ⟨q, hq, hback, rfl⟩
  have hwatch := H'.peerWatches_iff.mpr
    ⟨g, _, lookup_watching_self, rfl, mem_dedup.mpr hq⟩
  exact ⟨q, ⟨hq, fun e => hp (e ▸ hq), hwatch, hback⟩, rfl⟩

theorem Wf.watching (H : h.Wf) (hc : h.conns.lookup g = some c) : (h.watching g c peers).Wf := by
  have : (h.setWatch c.peerId g peers).2.1.Wf := H.setWatch
  rwa [setWatch_eq hc] at this

theorem Wf.informs_setWatch (H : h.Wf) (hself : h.NoSelfWatch) (hp : p ∉ peers) :
    Informs h (h.setWatch p g peers).2.1 (h.setWatch p g peers).2.2 := by
  rcases setWatch_cases h p g peers with ⟨-, he⟩ | ⟨c, hc, rfl, -⟩
  · rw [he]
    exact informs_nothing h
  have H' : (h.watching g c peers).Wf := H.watching hc
  have hself' : (h.watching g c peers).NoSelfWatch := noSelfWatch_watching hself hp
  have hmutual : ∀ {g' c'}, (h.watching g c peers).conns.lookup g' = some c' →
      c.peerId ∈ c'.watch → (c'.peerId ∈ (h.watching g c peers).mutualPeers c.peerId ↔
        (h.watching g c peers).peerWatches c.peerId c'.peerId) := by
    intro g' c' hc' hw
    rw [H'.mem_mutualPeers]
    have hne : c'.peerId ≠ c.peerId := fun e => hself' g' c' hc' (e ▸ hw)
    simp [hne, H'.peerWatches_iff.mpr ⟨g', c', hc', rfl, hw⟩]
  have hmem : ∀ {g' msg}, (g', msg) ∈ (h.setWatch c.peerId g peers).2.2 ↔
      ∃ c', (h.watching g c peers).conns.lookup g' = some c' ∧ c.peerId ∈ c'.watch ∧
        ((c'.peerId ∈ h.mutualPeers c.peerId ∧
            ¬ (h.watching g c peers).peerWatches c.peerId c'.peerId ∧
            msg = .presence c.peerId false []) ∨
          (c'.peerId ∉ h.mutualPeers c.peerId ∧
            (h.watching g c peers).peerWatches c.peerId c'.peerId ∧
            msg = .presence c.peerId true ((h.watching g c peers).deviceList c.peerId))) := by
    intro g' msg
    rw [setWatch_eq hc]
    simp only [mem_append, mem_flatMap, mem_filter, decide_eq_true_eq,
      H'.mem_pushPresenceToWatchers]
    constructor
    · rintro (⟨q, ⟨hq, hnew⟩, hmsg, c', hc', rfl, hw⟩ | ⟨q, ⟨hnew, hq⟩, hmsg, c', hc', rfl, hw⟩)
      · exact ⟨c', hc', hw, .inl ⟨hq, fun h => hnew ((hmutual hc' hw).mpr h), hmsg⟩⟩
      · exact ⟨c', hc', hw, .inr ⟨hq, (hmutual hc' hw).mp hnew, hmsg⟩⟩
    · rintro ⟨c', hc', hw, ⟨hq, hnew, hmsg⟩ | ⟨hq, hnew, hmsg⟩⟩
      · exact .inl ⟨c'.peerId, ⟨hq, fun h => hnew ((hmutual hc' hw).mp h)⟩, hmsg, c', hc', rfl, hw⟩
      · exact .inr ⟨c'.peerId, ⟨(hmutual hc' hw).mpr hnew, hq⟩, hmsg, c', hc', rfl, hw⟩
  have hhub : (h.setWatch c.peerId g peers).2.1 = h.watching g c peers := by rw [setWatch_eq hc]
  rw [hhub]
  constructor
  case sound =>
    intro g' q online devices hpush
    obtain ⟨c', hc', hw, ⟨-, hnew, hmsg⟩ | ⟨-, hnew, hmsg⟩⟩ := hmem.mp hpush
    · cases hmsg
      exact ⟨c', hc', hw, by rw [presenceOf, if_neg hnew]⟩
    · cases hmsg
      exact ⟨c', hc', hw, by rw [presenceOf, if_pos hnew]⟩
  case complete =>
    intro g' c₁ c₂ q h₁ h₂ hw₁ hw₂ hne
    rw [(sameConns_watching hc h₁ h₂).1] at hne
    have hq : q = c.peerId := by
      by_contra hq
      exact hne ((samePeer_watching hc hq).presenceOf H H').symm
    subst hq
    have hback : h.peerWatches c₁.peerId c.peerId := H.peerWatches_iff.mpr ⟨g', c₁, h₁, rfl, hw₁⟩
    have hpeer := (sameConns_watching hc h₁ h₂).1
    have hold : c₂.peerId ∈ h.mutualPeers c.peerId ↔ h.peerWatches c.peerId c₂.peerId := by
      have hself₂ : c₂.peerId ≠ c.peerId := fun e => hself' g' c₂ h₂ (e ▸ hw₂)
      rw [H.mem_mutualPeers, hpeer]
      simp [hpeer ▸ hself₂, hback]
    rw [presenceOf, presenceOf, deviceList_watching hc H, ← hpeer] at hne
    by_cases hon : (h.watching g c peers).peerWatches c.peerId c₂.peerId
    · by_cases hwas : h.peerWatches c.peerId c₂.peerId
      · simp [hon, hwas] at hne
      · exact ⟨_, _, hmem.mpr ⟨c₂, h₂, hw₂, .inr ⟨fun h => hwas (hold.mp h), hon, rfl⟩⟩⟩
    · by_cases hwas : h.peerWatches c.peerId c₂.peerId
      · exact ⟨_, _, hmem.mpr ⟨c₂, h₂, hw₂, .inl ⟨hold.mpr hwas, hon, rfl⟩⟩⟩
      · simp [hon, hwas] at hne
  case ownSound =>
    intro g' devices hpush
    obtain ⟨_, _, _, ⟨-, -, hmsg⟩ | ⟨-, -, hmsg⟩⟩ := hmem.mp hpush
    all_goals cases hmsg
  case ownComplete =>
    intro g' c₁ c₂ h₁ h₂ hne
    rw [otherDevices, otherDevices, deviceList_watching hc H, (sameConns_watching hc h₁ h₂).1,
      (sameConns_watching hc h₁ h₂).2] at hne
    exact absurd rfl hne

end Hub

/-! ## What a connection was told -/

def presenceAbout (p : String) : Control → Option (Bool × List DeviceInfo)
  | .presence q online devices => if q = p then some (online, devices) else none
  | _ => none

/-- The last presence of a peer among the messages of a connection. -/
def lastPresence (log : List Control) (p : String) : Option (Bool × List DeviceInfo) :=
  (log.filterMap (presenceAbout p)).getLast?

/-- The messages for one connection. -/
def sentTo (g : Nat) (pushes : List Push) : List Control :=
  pushes.filterMap fun push => if push.1 = g then some push.2 else none

variable {g : Nat} {pushes : List Push} {msg : Control} {msgs log : List Control} {p : String}
  {v : Bool × List DeviceInfo} {h : Hub} {c : ConnSlot}

theorem mem_sentTo :
    msg ∈ sentTo g pushes ↔ (g, msg) ∈ pushes := by
  simp only [sentTo, mem_filterMap]
  constructor
  · rintro ⟨⟨g', msg'⟩, hmem, h⟩
    split at h
    next hg => cases h; exact hg ▸ hmem
    next => cases h
  · intro hmem
    exact ⟨_, hmem, by simp⟩

theorem sentTo_append {pushes' : List Push} :
    sentTo g (pushes ++ pushes') = sentTo g pushes ++ sentTo g pushes' := filterMap_append

theorem sentTo_map_self : sentTo g (msgs.map (g, ·)) = msgs := by
  simp [sentTo, filterMap_map]

theorem sentTo_map_ne {g' : Nat} (hg : g' ≠ g) :
    sentTo g' (msgs.map (g, ·)) = [] := by
  simp [sentTo, filterMap_map, hg.symm]

theorem presenceAbout_eq_some :
    presenceAbout p msg = some v ↔ msg = .presence p v.1 v.2 := by
  rw [presenceAbout.eq_def]
  constructor
  · intro h
    split at h
    · split at h
      next hq => cases h; rw [hq]
      next => cases h
    · cases h
  · rintro rfl
    simp

theorem lastPresence_eq_none :
    lastPresence log p = none ↔ ∀ online devices, Control.presence p online devices ∉ log := by
  rw [lastPresence, getLast?_eq_none_iff, filterMap_eq_nil_iff]
  constructor
  · intro h online devices hmem
    have := h _ hmem
    rw [presenceAbout_eq_some (v := (online, devices)).mpr rfl] at this
    cases this
  intro h msg hmem
  refine Option.eq_none_iff_forall_not_mem.mpr fun v hv => ?_
  rw [presenceAbout_eq_some.mp hv] at hmem
  exact h _ _ hmem

theorem lastPresence_append {added : List Control} :
    lastPresence (log ++ added) p = (lastPresence added p).or (lastPresence log p) := by
  rw [lastPresence, lastPresence, lastPresence, filterMap_append, getLast?_append]

theorem lastPresence_of_mem (h : ∀ online devices, Control.presence p online devices ∈ log → (online, devices) = v)
    (hmem : ∃ online devices, Control.presence p online devices ∈ log) :
    lastPresence log p = some v := by
  obtain ⟨online, devices, hmem⟩ := hmem
  cases hlast : lastPresence log p with
  | none => exact absurd hmem (lastPresence_eq_none.mp hlast online devices)
  | some w =>
    obtain ⟨msg, hmsg, hw⟩ := mem_filterMap.mp (mem_of_getLast? hlast)
    rw [presenceAbout_eq_some.mp hw] at hmsg
    exact congrArg some (h _ _ hmsg)

theorem Hub.Informs.told {h' : Hub} (hI : Hub.Informs h h' pushes) {c' : ConnSlot} (hc : h.conns.lookup g = some c) (hc' : h'.conns.lookup g = some c')
    (hp : p ∈ c.watch) (hp' : p ∈ c'.watch) (hlog : (lastPresence log p).getD (false, []) = h.presenceOf p c.peerId) :
    (lastPresence (log ++ sentTo g pushes) p).getD (false, []) = h'.presenceOf p c'.peerId := by
  have hsound : ∀ online devices, Control.presence p online devices ∈ sentTo g pushes →
      (online, devices) = h'.presenceOf p c'.peerId := by
    intro online devices hmem
    obtain ⟨c₁, hc₁, -, hv⟩ := hI.sound g p online devices (mem_sentTo.mp hmem)
    rw [hc'] at hc₁
    cases hc₁
    exact hv
  rw [lastPresence_append]
  by_cases hmem : ∃ online devices, Control.presence p online devices ∈ sentTo g pushes
  · rw [lastPresence_of_mem hsound hmem]
    rfl
  have hnone : lastPresence (sentTo g pushes) p = none :=
    lastPresence_eq_none.mpr fun online devices h => hmem ⟨online, devices, h⟩
  rw [hnone, Option.none_or, hlog]
  -- nobody was told, so that nothing changed
  by_contra hne
  obtain ⟨online, devices, hpush⟩ := hI.complete g c c' p hc hc' hp hp' hne
  exact hmem ⟨online, devices, mem_sentTo.mpr hpush⟩

/-- The snapshot of a `watch` tells the truth, after a log that calls those it lacks offline. -/
theorem Hub.Wf.told_snapshot (H : h.Wf) {peers : List String}
    (hc : h.conns.lookup g = some c) (hself : c.peerId ∉ peers) (hp : p ∈ peers)
    (hlog : ¬ (h.watching g c peers).peerWatches p c.peerId →
      (lastPresence log p).getD (false, []) = (false, [])) :
    (lastPresence (log ++ (h.setWatch c.peerId g peers).1) p).getD (false, []) =
      (h.watching g c peers).presenceOf p c.peerId := by
  have hmem : ∀ {msg : Control}, msg ∈ (h.setWatch c.peerId g peers).1 ↔
      ∃ q ∈ peers, (h.watching g c peers).peerWatches q c.peerId ∧
        msg = .presence q true ((h.watching g c peers).deviceList q) :=
    (H.watching hc).mem_snapshot hc hself
  rw [lastPresence_append, presenceOf]
  by_cases hback : (h.watching g c peers).peerWatches p c.peerId
  · rw [lastPresence_of_mem (v := (true, (h.watching g c peers).deviceList p)), if_pos hback]
    · rfl
    · intro online devices hsnap
      obtain ⟨q, -, -, hmsg⟩ := hmem.mp hsnap
      cases hmsg
      rfl
    · exact ⟨_, _, hmem.mpr ⟨p, hp, hback, rfl⟩⟩
  · rw [lastPresence_eq_none.mpr fun online devices hsnap => ?_, Option.none_or, if_neg hback,
      hlog hback]
    obtain ⟨q, -, hq, hmsg⟩ := hmem.mp hsnap
    cases hmsg
    exact hback hq

/-- The hub, and what each connection was sent since its last `watch`. -/
structure Audience where
  hub : Hub := {}
  log : Nat → List Control := fun _ => []

inductive PresenceOp
  | register (spec : RegisterSpec)
  | unregister (peerId : String) (generation : Nat)
  | watch (peerId : String) (generation : Nat) (v : Json)

namespace Audience

variable {s : Audience}

/-- The hub after an operation, what is sent, the reply included, and whose log starts anew. -/
def step (s : Audience) : PresenceOp → Hub × List Push × Option Nat
  | .register spec => ((s.hub.register spec).2.1, (s.hub.register spec).2.2, none)
  | .unregister peerId generation =>
    ((s.hub.unregister peerId generation).1, (s.hub.unregister peerId generation).2, none)
  | .watch peerId generation v =>
    match watchPeers peerId v with
    | none => (s.hub, [(generation, .error "invalid")], none)
    | some peers =>
      let (snapshot, hub, pushes) := s.hub.setWatch peerId generation peers
      (hub, pushes ++ snapshot.map (generation, ·),
        if s.hub.connMatches peerId generation then some generation else none)

def apply (s : Audience) (op : PresenceOp) : Audience :=
  let (hub, sent, anew) := s.step op
  ⟨hub, fun g => (if anew = some g then [] else s.log g) ++ sentTo g sent⟩

def after : List PresenceOp → Audience := List.foldl apply {}

/-- The invariant: the last word on a watched peer is the truth, and no word means offline. -/
structure Informed (s : Audience) : Prop where
  wf : s.hub.Wf
  noSelfWatch : s.hub.NoSelfWatch
  told : ∀ g c, s.hub.conns.lookup g = some c → ∀ p ∈ c.watch,
    (lastPresence (s.log g) p).getD (false, []) = s.hub.presenceOf p c.peerId

theorem Informed.apply (H : s.Informed) (op : PresenceOp) : (s.apply op).Informed := by
  cases op with
  | register spec =>
    have hI := H.wf.informs_register H.noSelfWatch spec
    refine ⟨H.wf.register spec, fun g c hc => ?_, fun g c hc p hp => ?_⟩
    all_goals
      rcases H.wf.lookup_register hc with ⟨-, rfl⟩ | ⟨-, hc'⟩
    · exact not_mem_nil
    · exact H.noSelfWatch g c hc'
    · cases hp
    · exact hI.told hc' hc hp hp (H.told g c hc' p hp)
  | unregister peerId generation =>
    have hI := H.wf.informs_unregister (p := peerId) (g := generation) H.noSelfWatch
    have hlookup : ∀ {g c}, (s.hub.unregister peerId generation).1.conns.lookup g = some c →
        s.hub.conns.lookup g = some c := by
      intro g c hc
      rw [Hub.unregister] at hc
      split at hc
      next hm =>
        obtain ⟨c', hc', -⟩ := Hub.connMatches_iff.mp hm
        exact Hub.lookup_conns_detachConn hc' hc
      next => exact hc
    exact ⟨H.wf.unregister, fun g c hc => H.noSelfWatch g c (hlookup hc),
      fun g c hc p hp => hI.told (hlookup hc) hc hp hp (H.told g c (hlookup hc) p hp)⟩
  | watch peerId generation v =>
    cases hpeers : watchPeers peerId v with
    | none =>
      have hsent : ∀ g p, lastPresence (sentTo g [(generation, .error "invalid")]) p = none := by
        intro g p
        refine lastPresence_eq_none.mpr fun online devices hmem => ?_
        cases mem_singleton.mp (mem_sentTo.mp hmem)
      simp only [Audience.apply, Audience.step, hpeers]
      refine ⟨H.wf, H.noSelfWatch, fun g c hc p hp => ?_⟩
      rw [lastPresence_append, hsent, Option.none_or]
      exact H.told g c hc p hp
    | some peers =>
      have hself := not_mem_watchPeers hpeers
      simp only [Audience.apply, Audience.step, hpeers]
      rcases Hub.setWatch_cases s.hub peerId generation peers with ⟨hgone, he⟩ | ⟨c₀, hc₀, rfl, he⟩
      · have hm : s.hub.connMatches peerId generation = false := by
          rw [Bool.eq_false_iff]
          intro hm
          obtain ⟨c, hc, hp⟩ := Hub.connMatches_iff.mp hm
          exact hgone c hc hp
        simp only [he, hm, map_nil, append_nil]
        exact ⟨H.wf, H.noSelfWatch, fun g c hc p hp => by simpa [sentTo] using H.told g c hc p hp⟩
      · have hI := H.wf.informs_setWatch (g := generation) H.noSelfWatch hself
        have hm : s.hub.connMatches c₀.peerId generation = true :=
          Hub.connMatches_iff.mpr ⟨c₀, hc₀, rfl⟩
        simp only [hm, if_true]
        rw [he] at hI ⊢
        refine ⟨H.wf.watching hc₀, Hub.noSelfWatch_watching H.noSelfWatch hself,
          fun g c hc p hp => ?_⟩
        rcases Hub.lookup_watching hc with ⟨rfl, rfl⟩ | ⟨hg, hc'⟩
        · simp only [if_true, nil_append, sentTo_append, sentTo_map_self]
          refine H.wf.told_snapshot hc₀ hself (mem_dedup.mp hp) fun hback => ?_
          -- what was sent before the reply is true, too
          cases hlast : lastPresence (sentTo g (s.hub.setWatch c₀.peerId g peers).2.2) p with
          | none => rfl
          | some v =>
            obtain ⟨msg, hmsg, hv⟩ := mem_filterMap.mp (mem_of_getLast? hlast)
            rw [presenceAbout_eq_some.mp hv] at hmsg
            obtain ⟨c', hc', -, hv'⟩ := hI.sound g p v.1 v.2 (mem_sentTo.mp hmsg)
            rw [hc] at hc'
            cases hc'
            rw [Hub.presenceOf, if_neg hback] at hv'
            exact hv'
        · simp only [Option.some.injEq, hg.symm, if_false, sentTo_append, sentTo_map_ne hg,
            append_nil]
          exact hI.told hc' hc hp hp (H.told g c hc' p hp)

theorem informed_after (ops : List PresenceOp) : (after ops).Informed := by
  have : ∀ {s : Audience}, s.Informed → (ops.foldl Audience.apply s).Informed := by
    induction ops with
    | nil => exact id
    | cons op ops ih => exact fun H => ih (H.apply op)
  exact this ⟨Hub.wf_empty, nofun, nofun⟩

/-- The last presence of a watched peer is online, with its devices, exactly while the peer watches
back, and `online` goes nowhere else. -/
theorem mutual_presence (ops : List PresenceOp) :
    (∀ g c, (after ops).hub.conns.lookup g = some c → ∀ p ∈ c.watch,
      if (after ops).hub.peerWatches p c.peerId then
        lastPresence ((after ops).log g) p = some (true, (after ops).hub.deviceList p)
      else ∀ online devices, lastPresence ((after ops).log g) p = some (online, devices) →
        online = false) ∧
    ∀ op g p devices, (g, Control.presence p true devices) ∈ ((after ops).step op).2.1 →
      ∃ c, ((after ops).step op).1.conns.lookup g = some c ∧
        ((after ops).step op).1.peerWatches p c.peerId := by
  have H := informed_after ops
  constructor
  · intro g c hc p hp
    have htold := H.told g c hc p hp
    rw [Hub.presenceOf] at htold
    split
    next hback =>
      rw [if_pos hback] at htold
      cases hlast : lastPresence ((after ops).log g) p with
      | none => rw [hlast] at htold; cases htold
      | some v => rw [hlast] at htold; exact congrArg some htold
    next hback =>
    intro online devices hlast
    rw [if_neg hback, hlast] at htold
    exact congrArg Prod.fst htold
  · intro op g p devices hmem
    have hsound : ∀ {pushes}, ((after ops).step op).1.Sound pushes →
        (g, Control.presence p true devices) ∈ pushes →
        ∃ c, ((after ops).step op).1.conns.lookup g = some c ∧
          ((after ops).step op).1.peerWatches p c.peerId := by
      intro pushes hs hpush
      obtain ⟨c, hc, -, hv⟩ := hs g p true devices hpush
      refine ⟨c, hc, ?_⟩
      rw [Hub.presenceOf] at hv
      split at hv
      next hback => exact hback
      next => cases hv
    cases op with
    | register spec => exact hsound (H.wf.informs_register H.noSelfWatch spec).sound hmem
    | unregister peerId generation =>
      exact hsound (H.wf.informs_unregister H.noSelfWatch).sound hmem
    | watch peerId generation v =>
      cases hpeers : watchPeers peerId v with
      | none =>
        simp only [Audience.step, hpeers] at hmem
        cases mem_singleton.mp hmem
      | some peers =>
        have hself := not_mem_watchPeers hpeers
        simp only [Audience.step, hpeers, mem_append] at hmem hsound ⊢
        rcases hmem with hmem | hmem
        · exact hsound (H.wf.informs_setWatch H.noSelfWatch hself).sound hmem
        obtain ⟨msg, hmsg, heq⟩ := mem_map.mp hmem
        cases heq
        rcases Hub.setWatch_cases (after ops).hub peerId g peers with
          ⟨-, he⟩ | ⟨c₀, hc₀, rfl, he⟩
        · rw [he] at hmsg
          cases hmsg
        obtain ⟨q, -, hback, hmsg⟩ :=
          ((H.wf.watching hc₀).mem_snapshot hc₀ hself).mp hmsg
        cases hmsg
        rw [he]
        exact ⟨_, Hub.lookup_watching_self, hback⟩

end Audience

end Bluetalk.Relay

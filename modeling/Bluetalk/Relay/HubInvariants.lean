import Bluetalk.Relay.Hub
import Bluetalk.Relay.TunnelInvariants

/-!
# The registry of the hub

Connections and devices name each other, tunnels join live connections only, and a generation is
given once. `Hub.Wf` says so of a state; every operation keeps it.
-/

open List Option

namespace Bluetalk.Relay

theorem Tunnels.Wf.congr {t : Tunnels} {peerOf peerOf' : Nat → String} (h : t.Wf peerOf)
    (hp : ∀ {k a x e}, t.entry k a x = some e → peerOf' a = peerOf a) : t.Wf peerOf' where
  symm := h.symm
  single := h.single
  ne_zero := h.ne_zero
  peers he := by
    rw [hp he, hp (h.symm he)]
    exact h.peers he
  total_le := h.total_le
  pendingOut_le := h.pendingOut_le
  pendingIn_le := h.pendingIn_le

namespace Hub

def peerOf (h : Hub) (gen : Nat) : String := ((h.conns.lookup gen).map (·.peerId)).getD ""

structure Wf (h : Hub) : Prop where
  /-- A live connection stands under its peer and device, and nowhere else. -/
  listed : ∀ {g c}, h.conns.lookup g = some c → ∀ p d,
    (h.devicesOf p).lookup d = some g ↔ p = c.peerId ∧ d = c.device
  live : ∀ {p d g}, (h.devicesOf p).lookup d = some g → g ∈ h.conns
  nonempty : ∀ {p m}, h.byPeer.lookup p = some m → m.keys ≠ []
  devices_le : ∀ p, (h.devicesOf p).keys.length ≤ maxDevicesPerPeer
  fresh : ∀ {g}, g ∈ h.conns → g < h.nextGen
  tunnels : h.tunnels.Wf h.peerOf
  tunnels_live : ∀ {k a x e}, h.tunnels.entry k a x = some e → a ∈ h.conns

variable {h : Hub} {g g' : Nat} {p d : String} {c : ConnSlot} {k : Kind} {a : Nat} {x : UInt32}
  {spec : RegisterSpec} {code : String}

theorem wf_empty : ({} : Hub).Wf where
  listed := nofun
  live := nofun
  nonempty := nofun
  devices_le p := Nat.zero_le _
  fresh := nofun
  tunnels := Tunnels.wf_empty
  tunnels_live {k a x e} H := by cases k <;> cases H

theorem peerOf_eq (hc : h.conns.lookup g = some c) : h.peerOf g = c.peerId := by
  simp [peerOf, hc]

theorem Wf.tunnels_live' (H : h.Wf) {e : Endpoint}
    (he : h.tunnels.entry k a x = some e) : e.remoteGen ∈ h.conns :=
  H.tunnels_live (H.tunnels.symm he)

/-! ## Detaching -/

theorem detachConn_of_not_mem (hg : g ∉ h.conns) : h.detachConn g = (h, []) := by
  rw [detachConn, AList.lookup_eq_none.mpr hg]

section

variable (hc : h.conns.lookup g = some c)

include hc

theorem conns_detachConn : (h.detachConn g).1.conns = h.conns.erase g := by
  rw [detachConn, hc]

theorem nextGen_detachConn : (h.detachConn g).1.nextGen = h.nextGen := by
  rw [detachConn, hc]

theorem tunnels_detachConn : (h.detachConn g).1.tunnels = (h.tunnels.dropConn g).2 := by
  rw [detachConn, hc]

theorem byPeer_detachConn (H : h.Wf) : (h.detachConn g).1.byPeer =
    if ((h.devicesOf c.peerId).erase c.device).keys = [] then h.byPeer.erase c.peerId
    else h.byPeer.insert c.peerId ((h.devicesOf c.peerId).erase c.device) := by
  have hlisted : (h.devicesOf c.peerId).lookup c.device = some g :=
    (H.listed hc _ _).mpr ⟨rfl, rfl⟩
  have hmem : c.peerId ∈ h.byPeer := by
    rw [← AList.lookup_isSome]
    by_contra hnone
    rw [Bool.not_eq_true, Option.isSome_eq_false_iff, Option.isNone_iff_eq_none] at hnone
    simp [devicesOf, hnone] at hlisted
  simp only [detachConn, hc, hlisted, if_true, if_neg (not_not.mpr hmem), List.isEmpty_iff]

theorem devicesOf_detachConn (H : h.Wf) : (h.detachConn g).1.devicesOf p =
    if p = c.peerId then (h.devicesOf p).erase c.device else h.devicesOf p := by
  rw [devicesOf, byPeer_detachConn hc H]
  by_cases hp : p = c.peerId
  · subst hp
    rw [if_pos rfl]
    split
    next hempty =>
      rw [AList.lookup_erase]
      apply AList.ext
      exact (map_eq_nil_iff.mp hempty).symm
    next => rw [AList.lookup_insert]; rfl
  · split
    · rw [AList.lookup_erase_ne hp]; rfl
    · rw [AList.lookup_insert_ne hp]; rfl

theorem lookup_detachConn (H : h.Wf) : ((h.detachConn g).1.devicesOf p).lookup d = some g' ↔
    (h.devicesOf p).lookup d = some g' ∧ g' ≠ g := by
  have hlisted := H.listed hc p d
  rw [devicesOf_detachConn hc H]
  by_cases hp : p = c.peerId
  · rw [if_pos hp]
    by_cases hd : d = c.device
    · rw [hlisted.mpr ⟨hp, hd⟩, hd, AList.lookup_erase]
      simp [eq_comm]
    · rw [AList.lookup_erase_ne hd]
      exact ⟨fun h' => ⟨h', fun e => hd (hlisted.mp (e ▸ h')).2⟩, And.left⟩
  · rw [if_neg hp]
    exact ⟨fun h' => ⟨h', fun e => hp (hlisted.mp (e ▸ h')).1⟩, And.left⟩

theorem Wf.detachConn (H : h.Wf) : (h.detachConn g).1.Wf := by
  have hconns := conns_detachConn hc
  have hlookup : ∀ {g' c'}, (h.detachConn g).1.conns.lookup g' = some c' →
      g' ≠ g ∧ h.conns.lookup g' = some c' := by
    intro g' c' hg'
    rw [hconns] at hg'
    by_cases hne : g' = g
    · rw [hne, AList.lookup_erase] at hg'
      cases hg'
    · exact ⟨hne, AList.lookup_erase_ne hne ▸ hg'⟩
  have hentry : ∀ {k a x e}, (h.detachConn g).1.tunnels.entry k a x = some e →
      a ≠ g ∧ h.tunnels.entry k a x = some e := by
    intro k a x e he
    rw [tunnels_detachConn hc, Tunnels.dropConn_eq, Tunnels.entry_eraseAll] at he
    split at he
    · cases he
    rw [Tunnels.entry_dropped] at he
    split at he
    · cases he
    next hne => exact ⟨hne, he⟩
  constructor
  case listed =>
    intro g' c' hg' p d
    obtain ⟨hne, hg'⟩ := hlookup hg'
    rw [lookup_detachConn hc H, H.listed hg']
    exact and_iff_left hne
  case live =>
    intro p d g' hg'
    obtain ⟨hg', hne⟩ := (lookup_detachConn hc H).mp hg'
    rw [hconns, AList.mem_erase]
    exact ⟨hne, H.live hg'⟩
  case nonempty =>
    intro p m hm
    rw [byPeer_detachConn hc H] at hm
    by_cases hp : p = c.peerId
    · split at hm
      · rw [hp, AList.lookup_erase] at hm
        cases hm
      next hne =>
      rw [hp, AList.lookup_insert] at hm
      cases hm
      exact hne
    · split at hm
      · rw [AList.lookup_erase_ne hp] at hm
        exact H.nonempty hm
      · rw [AList.lookup_insert_ne hp] at hm
        exact H.nonempty hm
  case devices_le =>
    intro p
    rw [devicesOf_detachConn hc H]
    split
    · rw [AList.keys_erase]
      exact length_erase_le.trans (H.devices_le p)
    · exact H.devices_le p
  case fresh =>
    intro g' hg'
    rw [hconns, AList.mem_erase] at hg'
    rw [nextGen_detachConn hc]
    exact H.fresh hg'.2
  case tunnels =>
    have hpeer : ∀ {a}, a ≠ g → (h.detachConn g).1.peerOf a = h.peerOf a := by
      intro a hne
      rw [peerOf, hconns, AList.lookup_erase_ne hne]
      rfl
    refine Tunnels.Wf.congr ?_ fun he => hpeer (hentry he).1
    rw [tunnels_detachConn hc]
    exact H.tunnels.dropConn
  case tunnels_live =>
    intro k a x e he
    rw [hconns, AList.mem_erase]
    exact ⟨(hentry he).1, H.tunnels_live (hentry he).2⟩

end

/-! ## Registering -/

theorem Wf.nextGen (H : h.Wf) : ({ h with nextGen := h.nextGen + 1 } : Hub).Wf where
  listed := H.listed
  live := H.live
  nonempty := H.nonempty
  devices_le := H.devices_le
  fresh hg := (H.fresh hg).trans (Nat.lt_succ_self _)
  tunnels := H.tunnels
  tunnels_live := H.tunnels_live

theorem mem_generationsOf : g ∈ h.generationsOf p ↔ ∃ d, (h.devicesOf p).lookup d = some g := by
  simp only [generationsOf, List.mem_map]
  constructor
  · rintro ⟨⟨d, g⟩, hmem, rfl⟩
    exact ⟨d, AList.mem_lookup_iff.mpr hmem⟩
  · rintro ⟨d, hd⟩
    exact ⟨⟨d, g⟩, AList.mem_lookup_iff.mp hd, rfl⟩

theorem displaced_some {old : Nat} (hold : h.displaced p d = some old) :
    ∃ d', (h.devicesOf p).lookup d' = some old ∧ ∀ g, (h.devicesOf p).lookup d = some g → d' = d := by
  rw [displaced] at hold
  split at hold
  next hd => cases hold; exact ⟨d, hd, fun _ _ => rfl⟩
  next hd =>
  split at hold
  next =>
    obtain ⟨d', hd'⟩ := mem_generationsOf.mp (min?_mem hold)
    exact ⟨d', hd', fun g hg => by rw [hd] at hg; cases hg⟩
  next => cases hold

theorem displaced_none (hnone : h.displaced p d = none) :
    d ∉ (h.devicesOf p).keys ∧ (h.devicesOf p).keys.length < maxDevicesPerPeer := by
  rw [displaced] at hnone
  split at hnone
  · cases hnone
  next hd =>
  refine ⟨AList.lookup_eq_none.mp hd, ?_⟩
  split at hnone
  next hfull =>
    -- a full map has an oldest connection
    rw [min?_eq_none_iff, generationsOf, map_eq_nil_iff] at hnone
    simp [AList.keys, List.keys, hnone, maxDevicesPerPeer] at hfull
  next hroom => exact Nat.not_le.mp hroom

theorem Wf.makeRoom_cases (H : h.Wf) (p d : String) :
    (h.displaced p d = none ∧ h.makeRoom p d = (none, h, [])) ∨
    ∃ old c, h.displaced p d = some old ∧ h.conns.lookup old = some c ∧ c.peerId = p ∧
      h.makeRoom p d = (some old, h.detachConn old) := by
  cases hold : h.displaced p d with
  | none => exact .inl ⟨rfl, by rw [makeRoom, hold]; rfl⟩
  | some old =>
    obtain ⟨d', hd', -⟩ := displaced_some hold
    obtain ⟨c, hc⟩ := isSome_iff_exists.mp (AList.lookup_isSome.mpr (H.live hd'))
    refine .inr ⟨old, c, rfl, hc, (((H.listed hc _ _).mp hd').1).symm, ?_⟩
    rw [makeRoom, hold, filter_some, if_pos (decide_eq_true (H.live hd'))]

theorem Wf.makeRoom (H : h.Wf) : (h.makeRoom p d).2.1.Wf := by
  rcases H.makeRoom_cases p d with ⟨-, he⟩ | ⟨old, c, -, hc, -, he⟩
  · rw [he]; exact H
  · rw [he]; exact H.detachConn hc

theorem Wf.nextGen_makeRoom (H : h.Wf) : (h.makeRoom p d).2.1.nextGen = h.nextGen := by
  rcases H.makeRoom_cases p d with ⟨-, he⟩ | ⟨old, c, -, hc, -, he⟩
  · rw [he]
  · rw [he]; exact nextGen_detachConn hc

theorem mem_conns_detachConn (hg : g' ∈ (h.detachConn g).1.conns) : g' ∈ h.conns := by
  cases hc : h.conns.lookup g with
  | none =>
    rw [detachConn_of_not_mem (AList.lookup_eq_none.mp hc)] at hg
    exact hg
  | some c =>
    rw [conns_detachConn hc, AList.mem_erase] at hg
    exact hg.2

theorem Wf.mem_conns_makeRoom (H : h.Wf) (hg : g ∈ (h.makeRoom p d).2.1.conns) : g ∈ h.conns := by
  rcases H.makeRoom_cases p d with ⟨-, he⟩ | ⟨old, c, -, hc, -, he⟩
  · rw [he] at hg; exact hg
  · rw [he] at hg; exact mem_conns_detachConn hg

theorem Wf.room (H : h.Wf) : d ∉ (((h.makeRoom p d).2.1).devicesOf p).keys ∧
    (((h.makeRoom p d).2.1).devicesOf p).keys.length < maxDevicesPerPeer := by
  rcases H.makeRoom_cases p d with ⟨hnone, he⟩ | ⟨old, c, hold, hc, -, he⟩
  · rw [he]
    exact displaced_none hnone
  obtain ⟨d', hd', hsame⟩ := displaced_some hold
  obtain ⟨hp, hdev⟩ := (H.listed hc _ _).mp hd'
  have hmem : d' ∈ (h.devicesOf p).keys :=
    AList.lookup_isSome.mp (isSome_of_eq_some hd')
  have hpos := length_pos_of_mem hmem
  have hle := H.devices_le p
  rw [he, devicesOf_detachConn hc H, if_pos hp, ← hdev, AList.keys_erase]
  constructor
  · intro hd
    rw [(h.devicesOf p).keys_nodup.mem_erase_iff] at hd
    obtain ⟨g, hg⟩ := isSome_iff_exists.mp (AList.lookup_isSome.mpr hd.2)
    exact hd.1 (hsame g hg).symm
  · rw [length_erase_of_mem hmem]
    omega

theorem lookup_enter (hc : (h.enter g spec).conns.lookup g' = some c) :
    (g' = g ∧ c = ⟨spec.peerId, spec.device, spec.deviceName, spec.name, []⟩) ∨
      (g' ≠ g ∧ h.conns.lookup g' = some c) := by
  simp only [Hub.enter] at hc
  by_cases hne : g' = g
  · rw [hne, AList.lookup_insert] at hc
    cases hc
    exact .inl ⟨hne, rfl⟩
  · rw [AList.lookup_insert_ne hne] at hc
    exact .inr ⟨hne, hc⟩

theorem Wf.enter (H : h.Wf) (hd : spec.device ∉ (h.devicesOf spec.peerId).keys)
    (hlen : (h.devicesOf spec.peerId).keys.length < maxDevicesPerPeer) (hg : g ∉ h.conns)
    (hgen : g < h.nextGen) : (h.enter g spec).Wf := by
  have hdevices : ∀ p d, ((h.enter g spec).devicesOf p).lookup d =
      if p = spec.peerId ∧ d = spec.device then some g else (h.devicesOf p).lookup d := by
    intro p d
    simp only [Hub.enter, devicesOf]
    by_cases hp : p = spec.peerId
    · subst hp
      by_cases hd' : d = spec.device
      · subst hd'
        simp [AList.lookup_insert]
      · simp [hd', AList.lookup_insert_ne hd']
    · rw [AList.lookup_insert_ne hp, if_neg fun h' => hp h'.1]
  have hmem : ∀ {g'}, g' ∈ (h.enter g spec).conns ↔ g' = g ∨ g' ∈ h.conns := by
    intro g'
    exact AList.mem_insert _
  have hpeer : ∀ {a}, a ∈ h.conns → (h.enter g spec).peerOf a = h.peerOf a := by
    intro a ha
    have hne : a ≠ g := fun e => hg (e ▸ ha)
    simp [peerOf, Hub.enter, AList.lookup_insert_ne hne]
  constructor
  case listed =>
    intro g' c hc p d
    rw [hdevices]
    rcases lookup_enter hc with ⟨rfl, rfl⟩ | ⟨hne, hc⟩
    · split
      next heq => simp [heq]
      next hne =>
      -- the new generation stands nowhere else
      refine iff_of_false (fun hd => hg (H.live hd)) hne
    split
    next heq =>
      obtain ⟨rfl, rfl⟩ := heq
      refine iff_of_false (fun e => hne (some.inj e).symm) fun heq => hd ?_
      rw [heq.1, heq.2]
      exact AList.lookup_isSome.mp (isSome_of_eq_some ((H.listed hc _ _).mpr ⟨rfl, rfl⟩))
    next => exact H.listed hc p d
  case live =>
    intro p d g' hg'
    rw [hdevices] at hg'
    rw [hmem]
    split at hg'
    · exact .inl (some.inj hg').symm
    · exact .inr (H.live hg')
  case nonempty =>
    intro p m hm
    simp only [Hub.enter] at hm
    by_cases hp : p = spec.peerId
    · rw [hp, AList.lookup_insert] at hm
      cases hm
      exact cons_ne_nil _ _
    · rw [AList.lookup_insert_ne hp] at hm
      exact H.nonempty hm
  case devices_le =>
    intro p
    by_cases hp : p = spec.peerId
    · subst hp
      have : (h.enter g spec).devicesOf spec.peerId =
          (h.devicesOf spec.peerId).insert spec.device g := by
        simp [Hub.enter, devicesOf, AList.lookup_insert]
      rw [this, AList.keys_insert, erase_of_not_mem hd, length_cons]
      exact hlen
    have : (h.enter g spec).devicesOf p = h.devicesOf p := by
      simp [Hub.enter, devicesOf, AList.lookup_insert_ne hp]
    rw [this]
    exact H.devices_le p
  case fresh =>
    intro g' hg'
    rcases hmem.mp hg' with rfl | hg'
    · exact hgen
    · exact H.fresh hg'
  case tunnels => exact H.tunnels.congr fun he => hpeer (H.tunnels_live he)
  case tunnels_live =>
    intro k a x e he
    exact hmem.mpr (.inr (H.tunnels_live he))

theorem Wf.register (H : h.Wf) (spec : RegisterSpec) : (h.register spec).2.1.Wf := by
  have H₁ := H.nextGen
  have hroom := H₁.room (p := spec.peerId) (d := spec.device)
  have hnext : ({ h with nextGen := h.nextGen + 1 } : Hub).makeRoom spec.peerId spec.device
      |>.2.1.nextGen = h.nextGen + 1 := H₁.nextGen_makeRoom
  refine H₁.makeRoom.enter hroom.1 hroom.2 (fun hg => ?_) (by rw [hnext]; exact Nat.lt_succ_self _)
  exact absurd (H.fresh (H₁.mem_conns_makeRoom hg)) (Nat.lt_irrefl _)

/-! ## The other operations -/

theorem connMatches_iff : h.connMatches p g ↔ ∃ c, h.conns.lookup g = some c ∧ c.peerId = p := by
  rw [connMatches]
  cases h.conns.lookup g <;> simp

theorem Wf.unregister (H : h.Wf) : (h.unregister p g).1.Wf := by
  rw [Hub.unregister]
  split
  next hm =>
    obtain ⟨c, hc, -⟩ := connMatches_iff.mp hm
    exact H.detachConn hc
  next => exact H

theorem Wf.setWatch {peers : List String} (H : h.Wf) : (h.setWatch p g peers).2.1.Wf := by
  rw [Hub.setWatch]
  split
  · exact H
  next c hc =>
  split
  · exact H
  next =>
  -- only the watch list of a connection changes
  set h' : Hub := { h with conns := h.conns.insert g { c with watch := peers.dedup } }
  have hmem : ∀ {g'}, g' ∈ h'.conns ↔ g' ∈ h.conns := by
    intro g'
    rw [AList.mem_insert, or_iff_right_of_imp]
    rintro rfl
    exact AList.lookup_isSome.mp (isSome_of_eq_some hc)
  have hlookup : ∀ {g' c'}, h'.conns.lookup g' = some c' →
      ∃ c₀, h.conns.lookup g' = some c₀ ∧ c'.peerId = c₀.peerId ∧ c'.device = c₀.device := by
    intro g' c' hc'
    by_cases hg : g' = g
    · subst hg
      rw [AList.lookup_insert] at hc'
      cases hc'
      exact ⟨c, hc, rfl, rfl⟩
    · rw [AList.lookup_insert_ne hg] at hc'
      exact ⟨c', hc', rfl, rfl⟩
  constructor
  case listed =>
    intro g' c' hc' p d
    obtain ⟨c₀, hc₀, hp, hd⟩ := hlookup hc'
    rw [hp, hd]
    exact H.listed hc₀ p d
  case live => exact fun hd => hmem.mpr (H.live hd)
  case nonempty => exact H.nonempty
  case devices_le => exact H.devices_le
  case fresh => exact fun hg => H.fresh (hmem.mp hg)
  case tunnels =>
    refine H.tunnels.congr fun {k a x e} he => ?_
    by_cases ha : a = g
    · subst ha
      simp [peerOf, AList.lookup_insert, hc]
    · simp [peerOf, AList.lookup_insert_ne ha]
  case tunnels_live => exact fun he => hmem.mpr (H.tunnels_live he)

theorem Wf.withTunnels (H : h.Wf) {t : Tunnels} (ht : t.Wf h.peerOf)
    (hlive : ∀ {a}, t.Uses a → a ∈ h.conns) : ({ h with tunnels := t } : Hub).Wf where
  listed := H.listed
  live := H.live
  nonempty := H.nonempty
  devices_le := H.devices_le
  fresh := H.fresh
  tunnels := ht
  tunnels_live he := hlive ⟨_, _, _, he⟩

theorem Wf.uses (H : h.Wf) (ha : h.tunnels.Uses a) : a ∈ h.conns := by
  obtain ⟨k, x, e, he⟩ := ha
  exact H.tunnels_live he

theorem Wf.openTunnel {q : String} {dev : Option String} (H : h.Wf) :
    (h.openTunnel p g x q dev).2.Wf := by
  rw [Hub.openTunnel]
  split
  · exact H
  next c hc =>
  obtain ⟨hc, hp⟩ := filter_eq_some_iff.mp hc
  simp only [decide_eq_true_eq] at hp
  have hg : g ∈ h.conns := AList.lookup_isSome.mp (isSome_of_eq_some hc)
  split
  · exact H
  split
  · exact H
  next target htarget =>
  split
  · exact H
  next hmem =>
  rw [not_not] at hmem
  obtain ⟨c', hc'⟩ := isSome_iff_exists.mp (AList.lookup_isSome.mpr hmem)
  have hq : c'.peerId = q := by
    cases dev with
    | some d => exact (((H.listed hc' _ _).mp htarget).1).symm
    | none =>
      obtain ⟨d, hd⟩ := mem_generationsOf.mp (max?_mem htarget)
      exact (((H.listed hc' _ _).mp hd).1).symm
  have hopen : ({ h with tunnels := (h.tunnels.open g p x target q).2 } : Hub).Wf := by
    refine H.withTunnels ?_ fun ha => ?_
    · have := H.tunnels.open (a := g) (x := x) (b := target)
      rwa [peerOf_eq hc, peerOf_eq hc', hp, hq] at this
    rcases ha.of_open with rfl | rfl | ha
    · exact hg
    · exact hmem
    · exact H.uses ha
  split
  all_goals
    next heq =>
    rw [heq] at hopen
    exact hopen

theorem Wf.unlinked (H : h.Wf) :
    ({ h with tunnels := (h.tunnels.unlink k a x).2 } : Hub).Wf :=
  H.withTunnels H.tunnels.unlink fun ha => H.uses ha.of_unlink

theorem Wf.failOpen (H : h.Wf) : (h.failOpen p x g code).1.Wf := by
  have hun := H.unlinked (k := .pendingOut) (a := g) (x := x)
  rw [Hub.failOpen]
  split
  · split
    all_goals
      next heq =>
      rw [Tunnels.timeoutOpen] at heq
      rw [heq] at hun
      exact hun
  · exact H

theorem Wf.acceptTunnel (H : h.Wf) : (h.acceptTunnel p g x).2.Wf := by
  have hacc : ({ h with tunnels := (h.tunnels.accept g x).2 } : Hub).Wf :=
    H.withTunnels H.tunnels.accept fun ha => H.uses (ha.of_accept H.tunnels)
  rw [Hub.acceptTunnel]
  split
  · split
    all_goals
      next heq =>
      rw [heq] at hacc
      exact hacc
  · exact H

theorem Wf.rejectTunnel (H : h.Wf) : (h.rejectTunnel p g x).2.Wf := by
  have hrej := H.unlinked (k := .pendingIn) (a := g) (x := x)
  rw [← Tunnels.reject_snd] at hrej
  rw [Hub.rejectTunnel]
  split
  · split
    all_goals
      next heq =>
      rw [heq] at hrej
      exact hrej
  · exact H

theorem Wf.closeTunnel (H : h.Wf) :
    (h.closeTunnel p g x code).1.Wf := by
  have hclose : ({ h with tunnels := (h.tunnels.close g x).2 } : Hub).Wf := by
    rcases Tunnels.close_snd (t := h.tunnels) (a := g) (x := x) with hc | hc | hc
    all_goals
      rw [hc]
      exact H.unlinked
  rw [Hub.closeTunnel]
  split
  · split
    all_goals
      next heq =>
      rw [heq] at hclose
      exact hclose
  · exact H

end Hub

/-! ## Sequences of operations -/

/-- What the connections and timers do under the lock of the hub, in any order and with any
arguments. A slow consumer that is kicked comes back as the `unregister` of its connection, as does
one that was replaced before. -/
inductive HubOp
  | register (spec : RegisterSpec)
  | unregister (peerId : String) (generation : Nat)
  | detachConn (generation : Nat)
  | setWatch (peerId : String) (generation : Nat) (peers : List String)
  | openTunnel (sender : String) (generation : Nat) (localId : UInt32) (toPeer : String)
      (toDevice : Option String)
  | failOpen (sender : String) (localId : UInt32) (generation : Nat) (code : String)
  | acceptTunnel (peer : String) (generation : Nat) (localId : UInt32)
  | rejectTunnel (peer : String) (generation : Nat) (localId : UInt32)
  | closeTunnel (peer : String) (generation : Nat) (localId : UInt32) (code : String)

namespace Hub

variable {h : Hub} {p code : String} {g : Nat} {x : UInt32} {peers : List String}

def apply (h : Hub) : HubOp → Hub
  | .register spec => (h.register spec).2.1
  | .unregister peerId generation => (h.unregister peerId generation).1
  | .detachConn generation => (h.detachConn generation).1
  | .setWatch peerId generation peers => (h.setWatch peerId generation peers).2.1
  | .openTunnel sender generation localId toPeer toDevice =>
    (h.openTunnel sender generation localId toPeer toDevice).2
  | .failOpen sender localId generation code => (h.failOpen sender localId generation code).1
  | .acceptTunnel peer generation localId => (h.acceptTunnel peer generation localId).2
  | .rejectTunnel peer generation localId => (h.rejectTunnel peer generation localId).2
  | .closeTunnel peer generation localId code => (h.closeTunnel peer generation localId code).1

theorem Wf.apply (H : h.Wf) (op : HubOp) : (h.apply op).Wf := by
  cases op with
  | register spec => exact H.register spec
  | unregister peerId generation => exact H.unregister
  | detachConn generation =>
    cases hc : h.conns.lookup generation with
    | none =>
      rw [Hub.apply, detachConn_of_not_mem (AList.lookup_eq_none.mp hc)]
      exact H
    | some c => exact H.detachConn hc
  | setWatch peerId generation peers => exact H.setWatch
  | openTunnel sender generation localId toPeer toDevice => exact H.openTunnel
  | failOpen sender localId generation code => exact H.failOpen
  | acceptTunnel peer generation localId => exact H.acceptTunnel
  | rejectTunnel peer generation localId => exact H.rejectTunnel
  | closeTunnel peer generation localId code => exact H.closeTunnel

/-- The generation an operation gives to a new connection. -/
def issued (h : Hub) : HubOp → List Nat
  | .register spec => [(h.register spec).1.generation]
  | _ => []

/-- The hub after a sequence of operations, and the generations given on the way. -/
def after : List HubOp → Hub × List Nat := List.foldl
  (fun s op => (s.1.apply op, s.2 ++ s.1.issued op)) ({}, [])

theorem openTunnel_registry {q : String} {dev : Option String} :
    ∃ t, (h.openTunnel p g x q dev).2 = { h with tunnels := t } := by
  rw [openTunnel]
  split
  · exact ⟨_, rfl⟩
  split
  · exact ⟨_, rfl⟩
  split
  · exact ⟨_, rfl⟩
  split
  · exact ⟨_, rfl⟩
  split <;> exact ⟨_, rfl⟩

theorem failOpen_registry :
    ∃ t, (h.failOpen p x g code).1 = { h with tunnels := t } := by
  rw [failOpen]
  split
  · split <;> exact ⟨_, rfl⟩
  · exact ⟨_, rfl⟩

theorem acceptTunnel_registry :
    ∃ t, (h.acceptTunnel p g x).2 = { h with tunnels := t } := by
  rw [acceptTunnel]
  split
  · split <;> exact ⟨_, rfl⟩
  · exact ⟨_, rfl⟩

theorem rejectTunnel_registry :
    ∃ t, (h.rejectTunnel p g x).2 = { h with tunnels := t } := by
  rw [rejectTunnel]
  split
  · split <;> exact ⟨_, rfl⟩
  · exact ⟨_, rfl⟩

theorem closeTunnel_registry :
    ∃ t, (h.closeTunnel p g x code).1 = { h with tunnels := t } := by
  rw [closeTunnel]
  split
  · split <;> exact ⟨_, rfl⟩
  · exact ⟨_, rfl⟩

theorem nextGen_detachConn' (h : Hub) (g : Nat) : (h.detachConn g).1.nextGen = h.nextGen := by
  cases hc : h.conns.lookup g with
  | none => rw [detachConn_of_not_mem (AList.lookup_eq_none.mp hc)]
  | some c => exact nextGen_detachConn hc

theorem mem_conns_setWatch {g' : Nat} :
    g' ∈ (h.setWatch p g peers).2.1.conns ↔ g' ∈ h.conns := by
  rw [setWatch]
  split
  · rfl
  next c hc =>
  split
  · rfl
  · rw [AList.mem_insert, or_iff_right_of_imp]
    rintro rfl
    exact AList.lookup_isSome.mp (isSome_of_eq_some hc)

theorem nextGen_setWatch :
    (h.setWatch p g peers).2.1.nextGen = h.nextGen := by
  rw [setWatch]
  split
  · rfl
  · split <;> rfl

theorem Wf.mem_conns_register (H : h.Wf) {spec : RegisterSpec} (hg : g ∈ (h.register spec).2.1.conns) : g = h.nextGen ∨ g ∈ h.conns := by
  rcases (AList.mem_insert _).mp hg with rfl | hg
  · exact .inl rfl
  · exact .inr (H.nextGen.mem_conns_makeRoom hg)

theorem Wf.mem_conns_apply (H : h.Wf) {op : HubOp} (hg : g ∈ (h.apply op).conns) :
    g ∈ h.issued op ∨ g ∈ h.conns := by
  have hsame : ∀ {h' : Hub}, (∃ t, h' = { h with tunnels := t }) → g ∈ h'.conns → g ∈ h.conns := by
    rintro _ ⟨t, rfl⟩ hg
    exact hg
  cases op with
  | register spec => exact (H.mem_conns_register hg).imp_left mem_singleton.mpr
  | unregister peerId generation =>
    rw [Hub.apply, Hub.unregister] at hg
    split at hg
    · exact .inr (mem_conns_detachConn hg)
    · exact .inr hg
  | detachConn generation => exact .inr (mem_conns_detachConn hg)
  | setWatch peerId generation peers => exact .inr (mem_conns_setWatch.mp hg)
  | openTunnel sender generation localId toPeer toDevice => exact .inr (hsame openTunnel_registry hg)
  | failOpen sender localId generation code => exact .inr (hsame failOpen_registry hg)
  | acceptTunnel peer generation localId => exact .inr (hsame acceptTunnel_registry hg)
  | rejectTunnel peer generation localId => exact .inr (hsame rejectTunnel_registry hg)
  | closeTunnel peer generation localId code => exact .inr (hsame closeTunnel_registry hg)

theorem Wf.nextGen_apply (H : h.Wf) (op : HubOp) :
    (h.apply op).nextGen = h.nextGen + (h.issued op).length := by
  have hsame : ∀ {h' : Hub}, (∃ t, h' = { h with tunnels := t }) → h'.nextGen = h.nextGen := by
    rintro _ ⟨t, rfl⟩
    rfl
  cases op with
  | register spec => exact H.nextGen.nextGen_makeRoom
  | unregister peerId generation =>
    rw [Hub.apply, Hub.unregister]
    split
    · exact nextGen_detachConn' h generation
    · rfl
  | detachConn generation => exact nextGen_detachConn' h generation
  | setWatch peerId generation peers => exact nextGen_setWatch
  | openTunnel sender generation localId toPeer toDevice => exact hsame openTunnel_registry
  | failOpen sender localId generation code => exact hsame failOpen_registry
  | acceptTunnel peer generation localId => exact hsame acceptTunnel_registry
  | rejectTunnel peer generation localId => exact hsame rejectTunnel_registry
  | closeTunnel peer generation localId code => exact hsame closeTunnel_registry

/-- What is known of a hub together with the generations it gave. -/
structure Registry (s : Hub × List Nat) : Prop where
  wf : s.1.Wf
  nodup : s.2.Nodup
  issued : ∀ g ∈ s.1.conns, g ∈ s.2
  below : ∀ g ∈ s.2, g < s.1.nextGen

theorem Registry.step {s : Hub × List Nat} (H : Registry s) (op : HubOp) :
    Registry (s.1.apply op, s.2 ++ s.1.issued op) := by
  have hnext := H.wf.nextGen_apply op
  -- a generation given now is the next one
  have hissued : ∀ g ∈ s.1.issued op, g = s.1.nextGen := by
    intro g hg
    cases op with
    | register spec => exact mem_singleton.mp hg
    | _ => cases hg
  have hsingle : (s.1.issued op).Nodup := by
    cases op with
    | register spec => exact nodup_singleton _
    | _ => exact nodup_nil
  constructor
  case wf => exact H.wf.apply op
  case nodup =>
    refine nodup_append.mpr ⟨H.nodup, hsingle, fun g hg g' hg' => ?_⟩
    rintro rfl
    exact absurd (H.below g hg) (by rw [hissued g hg']; exact Nat.lt_irrefl _)
  case issued =>
    intro g hg
    rcases H.wf.mem_conns_apply hg with hg | hg
    · exact mem_append_right _ hg
    · exact mem_append_left _ (H.issued g hg)
  case below =>
    intro g hg
    rw [hnext]
    rcases mem_append.mp hg with hg | hg
    · exact Nat.lt_add_right _ (H.below g hg)
    · rw [hissued g hg]
      exact Nat.lt_add_of_pos_right (length_pos_of_mem hg)

theorem registry_after (ops : List HubOp) : Registry (after ops) := by
  have : ∀ {s : Hub × List Nat}, Registry s → Registry (ops.foldl
      (fun s op => (s.1.apply op, s.2 ++ s.1.issued op)) s) := by
    induction ops with
    | nil => exact id
    | cons op ops ih => exact fun H => ih (H.step op)
  exact this ⟨wf_empty, nodup_nil, nofun, nofun⟩

/-- After any operations the maps name each other, tunnels and pending opens join live connections,
and no generation was given twice. -/
theorem registry_invariant (ops : List HubOp) :
    (after ops).1.Wf ∧
    (∀ k a x e, (after ops).1.tunnels.entry k a x = some e →
      a ∈ (after ops).1.conns ∧ e.remoteGen ∈ (after ops).1.conns) ∧
    (after ops).2.Nodup ∧ ∀ g ∈ (after ops).1.conns, g ∈ (after ops).2 :=
  have H := registry_after ops
  ⟨H.wf, fun _ _ _ _ he => ⟨H.wf.tunnels_live he, H.wf.tunnels_live' he⟩, H.nodup, H.issued⟩

end Hub

end Bluetalk.Relay

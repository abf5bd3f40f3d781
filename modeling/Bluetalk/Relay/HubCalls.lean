import Bluetalk.Relay.Presence

/-!
# What a call does to the tunnels

One lemma for each operation of the hub on tunnels: what it removes, what it enters, and whom it
tells. Later modules use these only.
-/

open List Option

namespace Bluetalk.Relay

namespace Tunnels

variable {t : Tunnels} {peerOf : Nat → String} {k k' : Kind} {a b gen : Nat} {x y : UInt32}
  {e e' : Endpoint}

theorem Wf.entry_without (H : t.Wf peerOf) (he : t.entry k a x = some e) :
    (t.without k a x e).entry k' b y = some e' ↔
      t.entry k' b y = some e' ∧ (⟨b, y⟩ : Endpoint) ≠ ⟨a, x⟩ ∧ (⟨b, y⟩ : Endpoint) ≠ e := by
  constructor
  · intro h
    refine ⟨?_, fun hb => ?_, fun hb => ?_⟩
    · simp only [Tunnels.without, entry_erase] at h
      split at h
      · cases h
      · split at h
        · cases h
        · exact h
    · cases hb
      rw [(H.free_without he k').1] at h
      cases h
    · cases hb
      rw [(H.free_without he k').2] at h
      cases h
  · rintro ⟨h, ha, hb⟩
    simp only [Tunnels.without, entry_erase]
    rw [if_neg fun hc => hb (by rw [hc.2.1, hc.2.2]), if_neg fun hc => ha (by rw [hc.2.1, hc.2.2])]
    exact h

theorem Wf.entry_accept (H : t.Wf peerOf) (he : t.entry .pendingIn a x = some e) :
    (t.accept a x).2.entry k' b y = some e' ↔
      (t.entry k' b y = some e' ∧ (⟨b, y⟩ : Endpoint) ≠ ⟨a, x⟩ ∧ (⟨b, y⟩ : Endpoint) ≠ e) ∨
        (k' = .established ∧ (((⟨b, y⟩ : Endpoint) = ⟨a, x⟩ ∧ e' = e) ∨
          ((⟨b, y⟩ : Endpoint) = e ∧ e' = ⟨a, x⟩))) := by
  have hne : (⟨a, x⟩ : Endpoint) ≠ e := fun h => H.ne he (congrArg Endpoint.remoteGen h)
  have hwithout : (t.without .pendingIn a x e).entry k' b y = some e' ↔
      t.entry k' b y = some e' ∧ (⟨b, y⟩ : Endpoint) ≠ ⟨a, x⟩ ∧ (⟨b, y⟩ : Endpoint) ≠ e :=
    H.entry_without he
  obtain ⟨c, z⟩ := e
  rw [H.accept_eq he]
  simp only [entry_insert]
  by_cases hb : (⟨b, y⟩ : Endpoint) = ⟨c, z⟩
  · cases hb
    have hfree := (H.free_without he k').2
    by_cases hk : k' = .established
    · subst hk
      simp [hne.symm, eq_comm]
    · simp [hk, hfree]
  · by_cases ha : (⟨b, y⟩ : Endpoint) = ⟨a, x⟩
    · cases ha
      have hba : ¬ (a = c ∧ x = z) := fun h => hb (by rw [h.1, h.2])
      have hfree := (H.free_without he k').1
      by_cases hk : k' = .established
      · subst hk
        simp [hba, hb, eq_comm]
      · simp [hk, hfree]
    · have hb' : ¬ (b = c ∧ y = z) := fun h => hb (by rw [h.1, h.2])
      have ha' : ¬ (b = a ∧ y = x) := fun h => ha (by rw [h.1, h.2])
      rw [if_neg fun h => hb' h.2, if_neg fun h => ha' h.2, hwithout]
      simp [ha, hb]

theorem Wf.entry_dropConn (H : t.Wf peerOf) : (t.dropConn gen).2.entry k b y = some e ↔
    t.entry k b y = some e ∧ b ≠ gen ∧ e.remoteGen ≠ gen := by
  obtain ⟨P, hJ⟩ := H.joins
  have hdrop := hJ.dropConn gen k ⟨b, y⟩ e
  have hold := hJ k ⟨b, y⟩ e
  rw [hdrop, hold]
  simp only [Pairing.drop]
  by_cases hb : b = gen
  · simp [hb]
  · simp [hb]

theorem Wf.entry_open {p q : String} {c : Nat} :
    (∃ f, (t.open a p x c q).1 = .error f ∧ t.Same (t.open a p x c q).2) ∨
      ∃ z, (t.open a p x c q).1 = .ok z ∧ t.CanOpen a p x c q z ∧
        ∀ k b y e, (t.open a p x c q).2.entry k b y = some e ↔ t.entry k b y = some e ∨
          (k = .pendingOut ∧ (⟨b, y⟩ : Endpoint) = ⟨a, x⟩ ∧ e = ⟨c, z⟩) ∨
          (k = .pendingIn ∧ (⟨b, y⟩ : Endpoint) = ⟨c, z⟩ ∧ e = ⟨a, x⟩) := by
  rcases open_cases t a p x c q with h | ⟨z, t₁, hc, hs, heq⟩
  · exact .inl h
  refine .inr ⟨z, by rw [heq], hc, fun k b y e => ?_⟩
  simp only [heq, entry_insert, hs.entry, Endpoint.mk.injEq]
  have hfree := hc.local_free
  have hfree' := hc.remote_free
  by_cases hb : k = .pendingIn ∧ b = c ∧ y = z
  · obtain ⟨rfl, rfl, rfl⟩ := hb
    simp [hfree', eq_comm]
  rw [if_neg hb]
  by_cases ha : k = .pendingOut ∧ b = a ∧ y = x
  · obtain ⟨rfl, rfl, rfl⟩ := ha
    simp [hfree, eq_comm]
  rw [if_neg ha]
  constructor
  · exact .inl
  rintro (h | h | h)
  · exact h
  · exact absurd ⟨h.1, h.2.1⟩ ha
  · exact absurd ⟨h.1, h.2.1⟩ hb

end Tunnels

namespace Hub

variable {h : Hub} {p q code : String} {g : Nat} {x : UInt32} {dev : Option String}
  {peers : List String}

theorem Wf.tell (H : h.Wf) {k : Kind} {a : Nat} {y : UInt32} {e : Endpoint} {msg : Control}
    (he : h.tunnels.entry k a y = some e) :
    h.tell a msg = [(a, msg)] ∧ h.tell e.remoteGen msg = [(e.remoteGen, msg)] := by
  rw [Hub.tell, Hub.tell, if_pos (H.tunnels_live he), if_pos (H.tunnels_live' he)]
  exact ⟨rfl, rfl⟩

/-- A table with the same entries as that of the hub, in its place. -/
def Unchanged (h h' : Hub) : Prop :=
  ∃ t, h' = { h with tunnels := t } ∧ ∀ k a y, t.entry k a y = h.tunnels.entry k a y

theorem Unchanged.refl (h : Hub) : Unchanged h h := ⟨_, rfl, fun _ _ _ => rfl⟩

/-- A pair is taken out of the table. -/
def Removed (h h' : Hub) (k : Kind) (g : Nat) (x : UInt32) (e : Endpoint) : Prop :=
  h.tunnels.entry k g x = some e ∧ h' = { h with tunnels := h.tunnels.without k g x e }

theorem unlink_cases (h : Hub) (k : Kind) (g : Nat) (x : UInt32) :
    (h.tunnels.entry k g x = none ∧ h.tunnels.unlink k g x = (none, h.tunnels)) ∨
      ∃ e, h.tunnels.entry k g x = some e ∧
        h.tunnels.unlink k g x = (some (e.remoteGen, e.remoteId), h.tunnels.without k g x e) := by
  rw [Tunnels.unlink]
  cases he : h.tunnels.entry k g x with
  | none => exact .inl ⟨rfl, rfl⟩
  | some e => exact .inr ⟨e, rfl, rfl⟩

theorem Wf.failOpen_cases (H : h.Wf) :
    (¬ (h.connMatches p g ∧ (h.tunnels.entry .pendingOut g x).isSome) ∧
      h.failOpen p x g code = (h, [])) ∨
    ∃ e, h.connMatches p g ∧ Removed h (h.failOpen p x g code).1 .pendingOut g x e ∧
      (h.failOpen p x g code).2 =
        [(g, .openFailed x code), (e.remoteGen, .closed e.remoteId "remote")] := by
  rw [Hub.failOpen]
  split
  next hm =>
    rw [Tunnels.timeoutOpen]
    rcases unlink_cases h .pendingOut g x with ⟨hnone, hu⟩ | ⟨e, he, hu⟩
    · rw [hu]
      exact .inl ⟨fun hc => by simp [hnone] at hc, rfl⟩
    rw [hu]
    refine .inr ⟨e, hm, ⟨he, rfl⟩, ?_⟩
    change h.tell g _ ++ h.tell e.remoteGen _ = _
    rw [(H.tell he).1, (H.tell he).2]
    rfl
  next hm => exact .inl ⟨fun hc => hm hc.1, rfl⟩

theorem Wf.closeTunnel_cases (H : h.Wf) :
    (¬ (h.connMatches p g ∧ ∃ k, h.tunnels.entry k g x ≠ none) ∧
      h.closeTunnel p g x code = (h, [])) ∨
    ∃ k e, h.connMatches p g ∧ Removed h (h.closeTunnel p g x code).1 k g x e ∧
      (h.closeTunnel p g x code).2 = [(e.remoteGen, .closed e.remoteId code)] := by
  rw [Hub.closeTunnel]
  split
  next hm =>
    rw [Tunnels.close]
    rcases unlink_cases h .established g x with ⟨hest, hu⟩ | ⟨e, he, hu⟩
    · rw [hu]
      simp only
      rcases unlink_cases h .pendingOut g x with ⟨hout, hu⟩ | ⟨e, he, hu⟩
      · rw [hu]
        simp only
        rcases unlink_cases h .pendingIn g x with ⟨hin, hu⟩ | ⟨e, he, hu⟩
        · rw [hu]
          refine .inl ⟨fun hc => ?_, rfl⟩
          obtain ⟨-, k, hk⟩ := hc
          cases k
          exacts [hk hest, hk hout, hk hin]
        · rw [hu]
          exact .inr ⟨_, e, hm, ⟨he, rfl⟩, (H.tell he).2⟩
      · rw [hu]
        exact .inr ⟨_, e, hm, ⟨he, rfl⟩, (H.tell he).2⟩
    · rw [hu]
      exact .inr ⟨_, e, hm, ⟨he, rfl⟩, (H.tell he).2⟩
  next hm => exact .inl ⟨fun hc => hm hc.1, rfl⟩

theorem Wf.rejectTunnel_cases (H : h.Wf) :
    h.rejectTunnel p g x = (.error (), h) ∨
    ∃ e, h.connMatches p g ∧ Removed h (h.rejectTunnel p g x).2 .pendingIn g x e ∧
      (h.rejectTunnel p g x).1 = .ok [(e.remoteGen, .openFailed e.remoteId "rejected")] := by
  rw [Hub.rejectTunnel]
  split
  next hm =>
    rw [Tunnels.reject]
    rcases unlink_cases h .pendingIn g x with ⟨-, hu⟩ | ⟨e, he, hu⟩
    · rw [hu]
      exact .inl rfl
    · rw [hu]
      exact .inr ⟨e, hm, ⟨he, rfl⟩, congrArg Except.ok (H.tell he).2⟩
  next => exact .inl rfl

theorem Wf.acceptTunnel_cases (H : h.Wf) :
    h.acceptTunnel p g x = (.error (), h) ∨
    ∃ e, h.connMatches p g ∧ h.tunnels.entry .pendingIn g x = some e ∧
      h.acceptTunnel p g x =
        (.ok [(e.remoteGen, .opened e.remoteId)], { h with tunnels := (h.tunnels.accept g x).2 }) := by
  rw [Hub.acceptTunnel]
  split
  next hm =>
    cases he : h.tunnels.entry .pendingIn g x with
    | none =>
      rw [Tunnels.accept, he]
      exact .inl rfl
    | some e =>
      rw [H.tunnels.accept_eq he]
      exact .inr ⟨e, hm, rfl, congrArg (·, _) (congrArg Except.ok (H.tell he).2)⟩
  next => exact .inl rfl

/-- What a successful open found and did. -/
structure Opened (h h' : Hub) (p : String) (g : Nat) (x : UInt32) (q : String) (target : Nat)
    (y : UInt32) (msg : Control) : Prop where
  sender : h.connMatches p g
  incoming : ∃ device name, msg = .incoming y p device name
  target_mem : target ∈ h.conns
  free : ∀ k, h.tunnels.entry k g x = none
  target_free : ∀ k, h.tunnels.entry k target y = none
  ne : target ≠ g
  registry : ∃ t, h' = { h with tunnels := t }
  entry : ∀ {k b z e}, h'.tunnels.entry k b z = some e ↔ h.tunnels.entry k b z = some e ∨
    (k = .pendingOut ∧ (⟨b, z⟩ : Endpoint) = ⟨g, x⟩ ∧ e = ⟨target, y⟩) ∨
    (k = .pendingIn ∧ (⟨b, z⟩ : Endpoint) = ⟨target, y⟩ ∧ e = ⟨g, x⟩)

theorem Wf.openTunnel_cases (H : h.Wf) :
    (∃ code, (h.openTunnel p g x q dev).1 = .error code ∧
      Unchanged h (h.openTunnel p g x q dev).2) ∨
    ∃ target y msg, (h.openTunnel p g x q dev).1 = .ok (target, msg) ∧
      Opened h (h.openTunnel p g x q dev).2 p g x q target y msg := by
  rw [Hub.openTunnel]
  split
  · exact .inl ⟨_, rfl, Unchanged.refl h⟩
  next c hc =>
  obtain ⟨hc, hp⟩ := filter_eq_some_iff.mp hc
  simp only [decide_eq_true_eq] at hp
  split
  · exact .inl ⟨_, rfl, Unchanged.refl h⟩
  next hpq =>
  split
  · exact .inl ⟨_, rfl, Unchanged.refl h⟩
  next target htarget =>
  split
  · exact .inl ⟨_, rfl, Unchanged.refl h⟩
  next hmem =>
  rw [not_not] at hmem
  have hne : target ≠ g := by
    rintro rfl
    -- the target is a connection of the other peer
    have : q = c.peerId := by
      cases dev with
      | some d => exact ((H.listed hc _ _).mp htarget).1
      | none =>
        obtain ⟨d, hd⟩ := Hub.mem_generationsOf.mp (max?_mem htarget)
        exact ((H.listed hc _ _).mp hd).1
    exact hpq (hp.symm.trans this.symm)
  rcases Tunnels.Wf.entry_open (t := h.tunnels) (a := g) (p := p) (x := x) (c := target)
    (q := q) with ⟨f, hf, hs⟩ | ⟨y, hy, hcan, hentry⟩
  · have hsame : Unchanged h { h with tunnels := (h.tunnels.open g p x target q).2 } :=
      ⟨_, rfl, fun _ _ _ => hs.entry⟩
    rcases hopen : h.tunnels.open g p x target q with ⟨_ | _, t⟩
    · rw [hopen] at hsame
      rename_i f'
      cases f' <;> exact .inl ⟨_, rfl, hsame⟩
    · rw [hopen] at hf
      cases hf
  · rcases hopen : h.tunnels.open g p x target q with ⟨_ | y', t⟩
    · rw [hopen] at hy
      cases hy
    · rw [hopen] at hy hentry
      cases hy
      refine .inr ⟨target, y, _, rfl, connMatches_iff.mpr ⟨c, hc, hp⟩, ⟨_, _, rfl⟩, hmem,
        hcan.local_free, hcan.remote_free, hne, ⟨_, rfl⟩, fun {k b z e} => hentry k b z e⟩

/-! ## Connections that go -/

/-- The messages that tell of presence and of own devices. -/
def isNotice : Control → Bool
  | .presence .. | .devices _ => true
  | _ => false

theorem queueOwnDevices_notice {except : Option Nat} :
    ∀ push ∈ h.queueOwnDevices p except, isNotice push.2 := by
  intro push hmem
  obtain ⟨d, -, hd⟩ := mem_filterMap.mp hmem
  split at hd
  · cases hd
  · obtain ⟨c, -, rfl⟩ := map_eq_some_iff.mp hd
    rfl

theorem pushPresenceToWatchers_notice {online : Bool} {devices : List DeviceInfo} :
    ∀ push ∈ h.pushPresenceToWatchers p q online devices, isNotice push.2 := by
  intro push hmem
  obtain ⟨c, -, rfl⟩ := mem_map.mp hmem
  rfl

theorem queuePresenceDiff_notice {old : List String} :
    ∀ push ∈ h.queuePresenceDiff p old, isNotice push.2 := by
  intro push hmem
  rcases mem_append.mp hmem with hmem | hmem
  · obtain ⟨q, -, hmem⟩ := mem_flatMap.mp hmem
    exact pushPresenceToWatchers_notice push hmem
  split at hmem
  · obtain ⟨q, -, hmem⟩ := mem_flatMap.mp hmem
    exact pushPresenceToWatchers_notice push hmem
  · cases hmem

theorem setWatch_notice :
    ∀ push ∈ (h.setWatch p g peers).2.2, isNotice push.2 := by
  intro push hmem
  rw [setWatch] at hmem
  split at hmem
  · cases hmem
  split at hmem
  · cases hmem
  rcases mem_append.mp hmem with hmem | hmem
  all_goals
    obtain ⟨q, -, hmem⟩ := mem_flatMap.mp hmem
    exact pushPresenceToWatchers_notice push hmem

theorem setWatch_snapshot :
    ∀ msg ∈ (h.setWatch p g peers).1, ∃ q devices, msg = .presence q true devices := by
  intro msg hmem
  rw [setWatch] at hmem
  split at hmem
  · cases hmem
  split at hmem
  · cases hmem
  · obtain ⟨q, -, rfl⟩ := mem_map.mp hmem
    exact ⟨_, _, rfl⟩

/-- The connection `gone` left with its tunnels, if one did; whoever had a tunnel with it is told so,
and beside that there are notices only. -/
structure Detached (t t' : Tunnels) (gone : Option Nat) (pushes : List Push) : Prop where
  entry : ∀ {k b y e}, t'.entry k b y = some e ↔
    t.entry k b y = some e ∧ ∀ g, gone = some g → b ≠ g ∧ e.remoteGen ≠ g
  pushes : ∀ push ∈ pushes, isNotice push.2 ∨ ∃ g k x b y, gone = some g ∧
    t.entry k g x = some ⟨b, y⟩ ∧ push = (b, .closed y "disconnect")

section

variable {t t' : Tunnels} {gone : Option Nat} {pushes more : List Push}

theorem Detached.nothing (t : Tunnels) : Detached t t none [] where
  entry := ⟨fun he => ⟨he, nofun⟩, And.left⟩
  pushes _ hmem := absurd hmem not_mem_nil

theorem Detached.notices (H : Detached t t' gone pushes) (hmore : ∀ push ∈ more, isNotice push.2) :
    Detached t t' gone (pushes ++ more) where
  entry := H.entry
  pushes push hmem := by
    rcases mem_append.mp hmem with hmem | hmem
    · exact H.pushes push hmem
    · exact .inl (hmore push hmem)

end

theorem Wf.detached (H : h.Wf) {c : ConnSlot} (hc : h.conns.lookup g = some c) :
    Detached h.tunnels (h.detachConn g).1.tunnels (some g) (h.detachConn g).2 where
  entry {k b y e} := by
    rw [tunnels_detachConn hc, H.tunnels.entry_dropConn]
    simp [eq_comm]
  pushes push hmem := by
    rw [Hub.detachConn, hc] at hmem
    obtain ⟨⟨b, y⟩, hn, rfl⟩ := mem_map.mp hmem
    obtain ⟨k, x, he⟩ := Tunnels.mem_dropConn.mp (mem_filter.mp hn).1
    exact .inr ⟨g, k, x, b, y, rfl, he, rfl⟩

theorem Wf.detached_unregister (H : h.Wf) :
    Detached h.tunnels (h.unregister p g).1.tunnels
      (if h.connMatches p g then some g else none) (h.unregister p g).2 := by
  rw [Hub.unregister]
  split
  next hm =>
    obtain ⟨c, hc, -⟩ := connMatches_iff.mp hm
    exact ((H.detached hc).notices queueOwnDevices_notice).notices queuePresenceDiff_notice
  next => exact Detached.nothing _

theorem Wf.detached_makeRoom (H : h.Wf) : Detached h.tunnels (h.makeRoom p q).2.1.tunnels
    (h.displaced p q) (h.makeRoom p q).2.2 := by
  rcases H.makeRoom_cases p q with ⟨hnone, he⟩ | ⟨old, c, hold, hc, -, he⟩
  · rw [he, hnone]
    exact Detached.nothing _
  · rw [he, hold]
    exact H.detached hc

theorem Wf.detached_register (H : h.Wf) (spec : RegisterSpec) :
    Detached h.tunnels (h.register spec).2.1.tunnels (h.displaced spec.peerId spec.device)
      (h.register spec).2.2 :=
  (H.nextGen.detached_makeRoom.notices queueOwnDevices_notice).notices queuePresenceDiff_notice

theorem Wf.displaced_gone (H : h.Wf) {spec : RegisterSpec}
    (hd : h.displaced spec.peerId spec.device = some g) : g ∉ (h.register spec).2.1.conns := by
  intro hmem
  obtain ⟨c', hc'⟩ := isSome_iff_exists.mp (AList.lookup_isSome.mpr hmem)
  change (((({ h with nextGen := h.nextGen + 1 } : Hub).makeRoom spec.peerId spec.device).2.1).enter
    h.nextGen spec).conns.lookup g = some c' at hc'
  rcases H.nextGen.makeRoom_cases spec.peerId spec.device with ⟨hnone, -⟩ | ⟨old, c, hold, hc, -, he⟩
  · cases hnone.symm.trans hd
  obtain rfl : old = g := some.inj (hold.symm.trans hd)
  rcases lookup_enter hc' with ⟨rfl, -⟩ | ⟨-, hc'⟩
  · exact absurd (H.fresh (AList.lookup_isSome.mp (isSome_of_eq_some hc))) (lt_irrefl _)
  · rw [he, conns_detachConn hc, AList.lookup_erase] at hc'
    cases hc'

theorem unregister_gone (hm : h.connMatches p g) : g ∉ (h.unregister p g).1.conns := by
  obtain ⟨c, hc, -⟩ := connMatches_iff.mp hm
  intro hmem
  rw [Hub.unregister, if_pos hm] at hmem
  rw [conns_detachConn hc, AList.mem_erase] at hmem
  exact hmem.1 rfl

end Hub

end Bluetalk.Relay

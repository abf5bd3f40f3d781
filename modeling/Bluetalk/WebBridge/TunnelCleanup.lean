import Bluetalk.WebBridge.RelayClient

/-!
# The end of a tunnel of the web client

A tunnel is used by a handshake and by the session that comes of it. When both have ended, the
client should have no entry of the tunnel any more, and the relay should know that it is over: the
client has sent `close`, or the relay itself closed the tunnel, or the connection has ended.
-/

open List Option

namespace Bluetalk.WebBridge

namespace RelayClient

variable {own : String} {s s' s₁ : RelayClient} {b : Nat} {x : Binding}
  {key target peerId deviceKey deviceName : String} {α : Type} {id tunnelId : Nat}
  {f : Binding → Binding} {y : Binding} {initiator : Bool} {follows : Option (Nat × Nat)}

/-- The handshake of a binding has ended, and so has the session that came of it. -/
def userEnded (s : RelayClient) (x : Binding) : Bool :=
  match x.phase with
  | .naming | .shaking _ | .failing => false
  | .established | .done =>
    match x.session with
    | some i => (s.bridge.sessions[i]?).any (·.ended)
    | none => true

/-- The relay closed the tunnel, or the connection that it was on is over. -/
def gone (s : RelayClient) (x : Binding) : Bool :=
  x.released || x.connection ≠ s.connection || !s.serving

/-- A tunnel that is no longer used has no entry, so that its peer and device have none but for
tunnels in use, and the relay knows that it is over. -/
structure Cleaned (s : RelayClient) : Prop where
  unmapped : ∀ t ∈ s.tunnels, ∀ x, s.bindings[t.2.binding]? = some x → s.userEnded x = false
  told : ∀ x ∈ s.bindings, s.userEnded x = true →
    (x.connection, .close x.tunnelId) ∈ s.sent ∨ s.gone x = true

/-- A handshake that fails and a session that ends do so over a tunnel that is gone. -/
def leavesGone (s : RelayClient) : ClientAction → Bool
  | .handshakeFails b => (s.bindings[b]?).all s.gone
  | .bridge (.finishClose i) => s.bindings.all fun x => x.session ≠ some i || s.gone x
  | .bridge (.close i _ false) =>
    s.bridge.isClosed i || s.bindings.all fun x => x.session ≠ some i || s.gone x
  | _ => true

/-! ## Steps that leave the tunnels alone -/

/-- Nothing happens to tunnels and bindings, and no `close` is sent. -/
structure Quiet (s s' : RelayClient) : Prop where
  bridge : s'.bridge = s.bridge
  serving : s'.serving = s.serving
  connection : s'.connection = s.connection
  tunnels : s'.tunnels = s.tunnels
  bindings : s'.bindings = s.bindings
  sent : ∀ m ∈ s'.sent, m ∈ s.sent ∨ ∀ tunnel, m.2 ≠ .close tunnel

theorem Quiet.refl (s : RelayClient) : s.Quiet s := ⟨rfl, rfl, rfl, rfl, rfl, fun _ hm => .inl hm⟩

theorem Quiet.trans (h : s.Quiet s₁) (h' : s₁.Quiet s') : s.Quiet s' where
  bridge := h'.bridge.trans h.bridge
  serving := h'.serving.trans h.serving
  connection := h'.connection.trans h.connection
  tunnels := h'.tunnels.trans h.tunnels
  bindings := h'.bindings.trans h.bindings
  sent m hm := (h'.sent m hm).elim (h.sent m) .inr

theorem quiet_sendJson {message : ClientMessage} (h : ∀ tunnel, message ≠ .close tunnel) :
    s.Quiet (s.sendJson message) := by
  rw [sendJson]
  split
  · refine ⟨rfl, rfl, rfl, rfl, rfl, fun m hm => ?_⟩
    rcases mem_append.mp hm with hm | hm
    · exact .inl hm
    · rw [mem_singleton.mp hm]
      exact .inr h
  · exact .refl s

theorem quiet_settle {q : Nat} {outcome : Outcome} : s.Quiet (s.settle q outcome) :=
  ⟨rfl, rfl, rfl, rfl, rfl, fun _ hm => .inl hm⟩

theorem quiet_newPromise {request : Request} {outcome : Option Outcome} :
    s.Quiet (s.newPromise request outcome) := ⟨rfl, rfl, rfl, rfl, rfl, fun _ hm => .inl hm⟩

theorem quiet_requestOpen : s.Quiet (s.requestOpen target key) := by
  refine Quiet.trans ?_ (quiet_sendJson fun _ => ClientMessage.noConfusion)
  exact ⟨rfl, rfl, rfl, rfl, rfl, fun _ hm => .inl hm⟩

theorem quiet_startOpen : s.Quiet (s.startOpen target key) := by
  rw [startOpen]
  split
  · exact quiet_newPromise
  · exact quiet_requestOpen

theorem quiet_foldl {l : List α} {f : RelayClient → α → RelayClient}
    (hf : ∀ s a, Quiet s (f s a)) : s.Quiet (l.foldl f s) :=
  foldlRecOn l f (.refl s) fun _ h a _ => h.trans (hf _ a)

theorem quiet_openAll {devices : List String} :
    s.Quiet (s.openAll target devices) := by
  refine quiet_foldl fun s device => ?_
  split
  · exact .refl s
  · exact quiet_startOpen

theorem quiet_openPeer {deviceId : Option String} :
    s.Quiet (s.openPeer peerId deviceId) := by
  rw [openPeer]
  split
  · exact .refl s
  · split
    · exact quiet_openAll
    · split <;> exact quiet_openAll

theorem quiet_postMail {id uuid : String} {body : Json} :
    s.Quiet (s.postMail peerId body id uuid) := by
  rw [postMail]
  split
  · exact .refl s
  · refine Quiet.trans ?_ (quiet_sendJson fun _ => ClientMessage.noConfusion)
    exact ⟨rfl, rfl, rfl, rfl, rfl, fun _ hm => .inl hm⟩

theorem quiet_maybeOpen : s.Quiet (s.maybeOpen peerId key) := by
  rw [maybeOpen]
  split
  · exact .refl s
  · split
    · exact quiet_startOpen
    · exact .refl s

theorem quiet_handlePresence {value : Json} : s.Quiet (s.handlePresence value) := by
  rw [handlePresence]
  dsimp only
  have hdevices : ∀ devices, s.Quiet { s with remoteDevices := devices } :=
    fun _ => ⟨rfl, rfl, rfl, rfl, rfl, fun _ hm => .inl hm⟩
  split
  · exact .refl s
  · split
    · exact hdevices _
    · exact (hdevices _).trans (quiet_foldl fun _ _ => quiet_maybeOpen)

theorem quiet_rememberRemoteDevice {name : String} :
    s.Quiet (s.rememberRemoteDevice peerId key name) := by
  rw [rememberRemoteDevice]
  split
  · exact .refl s
  dsimp only
  split
  · exact .refl s
  · exact ⟨rfl, rfl, rfl, rfl, rfl, fun _ hm => .inl hm⟩

theorem quiet_removePending {pending : PendingOpen} :
    s.Quiet (s.removePending id pending) := ⟨rfl, rfl, rfl, rfl, rfl, fun _ hm => .inl hm⟩

/-! ## What the tables are about -/

/-- Entries are those of bindings on the connection that goes on and that the relay has not closed;
a handshake that has not ended has no session; and no `close` was ever sent. -/
structure Bound (s : RelayClient) : Prop where
  mapped : ∀ t ∈ s.tunnels, ∃ x, s.bindings[t.2.binding]? = some x ∧ x.tunnelId = t.1 ∧
    s.gone x = false
  young : ∀ x ∈ s.bindings, x.connection ≤ s.connection ∧
    (x.session ≠ none → x.phase = .established ∨ x.phase = .done)
  silent : ∀ m ∈ s.sent, ∀ tunnel, m.2 ≠ .close tunnel

theorem Bound.empty : Bound {} := by
  constructor <;> intro _ h <;> cases h

theorem Bound.of_quiet (H : s.Bound) (h : s.Quiet s') : s'.Bound where
  mapped := by
    simp only [gone, h.tunnels, h.bindings, h.connection, h.serving]
    exact H.mapped
  young := by
    rw [h.bindings, h.connection]
    exact H.young
  silent m hm := (h.sent m hm).elim (H.silent m) id

theorem Bound.cleaned_iff (H : s.Bound) :
    s.Cleaned ↔ ∀ x ∈ s.bindings, s.userEnded x = true → s.gone x = true := by
  constructor
  · intro hclean x hx hended
    exact (hclean.told x hx hended).resolve_left fun hsent => H.silent _ hsent _ rfl
  intro hgone
  refine ⟨fun t ht x hx => ?_, fun x hx hended => .inr (hgone x hx hended)⟩
  obtain ⟨y, hy, -, hlive⟩ := H.mapped t ht
  obtain rfl : x = y := some.inj (hx.symm.trans hy)
  cases hended : s.userEnded x with
  | false => rfl
  | true =>
    have hx := hgone x (mem_of_getElem? hx) hended
    rw [hlive] at hx
    cases hx

theorem Cleaned.of_quiet (H : s.Bound) (hclean : s.Cleaned) (h : s.Quiet s') : s'.Cleaned := by
  refine (H.of_quiet h).cleaned_iff.mpr ?_
  simp only [userEnded, gone, h.bindings, h.bridge, h.connection, h.serving]
  exact H.cleaned_iff.mp hclean

theorem mem_modify (hy : y ∈ s.bindings.modify b f) :
    ∃ x ∈ s.bindings, y = x ∨ y = f x ∧ s.bindings[b]? = some x := by
  obtain ⟨i, hi⟩ := mem_iff_getElem?.mp hy
  rw [getElem?_modify] at hi
  split at hi
  next hb =>
    obtain ⟨x, hx, rfl⟩ := map_eq_some_iff.mp hi
    exact ⟨x, mem_of_getElem? hx, .inr ⟨rfl, hb ▸ hx⟩⟩
  next =>
  have hi : (s.bindings[i]?).map id = some y := hi
  rw [map_id_apply] at hi
  exact ⟨y, mem_of_getElem? hi, .inl rfl⟩

/-! ## Changes to a binding -/

/-- What a change to a binding keeps of what the tables are about. -/
structure Keeps (f : Binding → Binding) (x : Binding) : Prop where
  tunnelId : (f x).tunnelId = x.tunnelId
  connection : (f x).connection = x.connection
  released : (f x).released = x.released
  young : (f x).session ≠ none → (f x).phase = .established ∨ (f x).phase = .done

theorem Bound.modify (H : s.Bound)
    (hf : ∀ x, s.bindings[b]? = some x → Keeps f x) :
    Bound { s with bindings := s.bindings.modify b f } where
  mapped t ht := by
    obtain ⟨x, hx, hid, hlive⟩ := H.mapped t ht
    rw [getElem?_modify, hx]
    split
    next hb =>
      obtain ⟨hid', hconn, hrel, -⟩ := hf x (hb ▸ hx)
      refine ⟨f x, rfl, hid'.trans hid, ?_⟩
      have hgone : s.gone (f x) = s.gone x := by rw [gone, gone, hrel, hconn]
      exact hgone.trans hlive
    next => exact ⟨x, rfl, hid, hlive⟩
  young y hy := by
    obtain ⟨x, hx, rfl | ⟨rfl, hxb⟩⟩ := mem_modify hy
    · exact H.young y hx
    · exact ⟨(hf x hxb).connection ▸ (H.young x hx).1, (hf x hxb).young⟩
  silent := H.silent

theorem Bound.filter (H : s.Bound) (id : Nat) :
    Bound { s with tunnels := s.tunnels.filter (·.1 ≠ id) } where
  mapped t ht := H.mapped t (mem_of_mem_filter ht)
  young := H.young
  silent := H.silent

theorem Cleaned.modify (H : s.Bound) (hclean : s.Cleaned)
    (hf : ∀ x, s.bindings[b]? = some x → Keeps f x ∧ (s.userEnded (f x) → s.userEnded x)) :
    Cleaned { s with bindings := s.bindings.modify b f } := by
  refine (H.modify fun x hx => (hf x hx).1).cleaned_iff.mpr fun y hy hended => ?_
  obtain ⟨x, hx, rfl | ⟨rfl, hxb⟩⟩ := mem_modify hy
  · exact H.cleaned_iff.mp hclean y hx hended
  · obtain ⟨hkeeps, hused⟩ := hf x hxb
    have hgone : s.gone (f x) = s.gone x := by rw [gone, gone, hkeeps.released, hkeeps.connection]
    exact hgone.trans (H.cleaned_iff.mp hclean x hx (hused hended))

theorem Cleaned.filter (hclean : s.Cleaned) (id : Nat) :
    Cleaned { s with tunnels := s.tunnels.filter (·.1 ≠ id) } where
  unmapped t ht := hclean.unmapped t (mem_of_mem_filter ht)
  told := hclean.told

theorem closeTransport_cases (x : Binding) : x.closeTransport = x ∨
    x.phase = .shaking false ∧ x.closeTransport = { x with phase := .failing } := by
  rw [Binding.closeTransport]
  split
  next hphase => exact .inr ⟨hphase, rfl⟩
  all_goals exact .inl rfl

theorem keeps_closeTransport (H : s.Bound) (hx : s.bindings[b]? = some x) :
    Keeps Binding.closeTransport x ∧ (s.userEnded x.closeTransport → s.userEnded x) := by
  have hyoung := (H.young x (mem_of_getElem? hx)).2
  rcases closeTransport_cases x with heq | ⟨hphase, heq⟩
  · refine ⟨⟨?_, ?_, ?_, ?_⟩, ?_⟩ <;> rw [heq]
    · exact hyoung
    · exact id
  refine ⟨⟨?_, ?_, ?_, ?_⟩, ?_⟩ <;> rw [heq]
  · intro hsession
    rcases hyoung hsession with h | h <;> rw [hphase] at h <;> cases h
  · exact Bool.noConfusion

theorem Bound.closeTransport (H : s.Bound) : (s.closeTransport b).Bound :=
  H.modify fun _ hx => (keeps_closeTransport H hx).1

theorem Cleaned.closeTransport (H : s.Bound) (hclean : s.Cleaned) : (s.closeTransport b).Cleaned :=
  Cleaned.modify H hclean fun _ hx => keeps_closeTransport H hx

theorem Bound.closeLocalTunnel (H : s.Bound) : (s.closeLocalTunnel id).Bound := by
  rw [RelayClient.closeLocalTunnel]
  split
  · exact H
  · exact (H.filter id).closeTransport

theorem Cleaned.closeLocalTunnel (H : s.Bound) (hclean : s.Cleaned) :
    (s.closeLocalTunnel id).Cleaned := by
  rw [RelayClient.closeLocalTunnel]
  split
  · exact hclean
  · exact Cleaned.closeTransport (H.filter id) (hclean.filter id)

theorem closeLocalTunnel_binding (hx : s.bindings[b]? = some x) :
    (s.closeLocalTunnel id).bindings[b]? = some x ∨
      (s.closeLocalTunnel id).bindings[b]? = some x.closeTransport := by
  rw [closeLocalTunnel]
  split
  · exact .inl hx
  next handle _ =>
  change (s.bindings.modify handle.binding _)[b]? = _ ∨
    (s.bindings.modify handle.binding _)[b]? = _
  rw [getElem?_modify, hx]
  split
  · exact .inr rfl
  · exact .inl rfl

theorem gone_closeLocalTunnel : (s.closeLocalTunnel id).gone = s.gone := by
  rw [closeLocalTunnel]
  split <;> rfl

theorem Bound.setPhase {phase : BindingPhase} (H : s.Bound)
    (hphase : phase = .done ∨ ∀ x, s.bindings[b]? = some x → x.session = none) :
    (s.setPhase b phase).Bound := by
  refine H.modify fun x hx => ⟨rfl, rfl, rfl, fun hsession => ?_⟩
  rcases hphase with rfl | hnone
  · exact .inr rfl
  · exact absurd (hnone x hx) hsession

theorem Bound.finishBinding (H : s.Bound) : (s.finishBinding b x).Bound := by
  have hdone : (s.setPhase b .done).Bound := H.setPhase (.inl rfl)
  rw [RelayClient.finishBinding]
  split
  · exact hdone.of_quiet quiet_settle
  · exact hdone

theorem cleaned_finishBinding (H : s.Bound) :
    (s.finishBinding b x).Cleaned ↔ (s.setPhase b .done).Cleaned := by
  have hdone : (s.setPhase b .done).Bound := H.setPhase (.inl rfl)
  rw [RelayClient.finishBinding]
  split
  · rw [hdone.cleaned_iff, (hdone.of_quiet quiet_settle).cleaned_iff]
    rfl
  · exact Iff.rfl

theorem Cleaned.fail_iff (H : s.Bound) (hclean : s.Cleaned) (hx : s.bindings[b]? = some x)
    (hsession : x.session = none) : (s.setPhase b .done).Cleaned ↔ s.gone x = true := by
  have hdone : (s.setPhase b .done).Bound := H.setPhase (.inl rfl)
  rw [hdone.cleaned_iff]
  constructor
  · intro hgone
    refine hgone { x with phase := .done } (mem_iff_getElem?.mpr ⟨b, ?_⟩) ?_
    · change (s.bindings.modify b _)[b]? = _
      rw [getElem?_modify_eq, hx]
      rfl
    · rw [userEnded]
      rw [hsession]
  · intro hgone y hy hended
    obtain ⟨z, hz, rfl | ⟨rfl, hzb⟩⟩ := mem_modify hy
    · exact H.cleaned_iff.mp hclean y hz hended
    · obtain rfl : x = z := some.inj (hx.symm.trans hzb)
      exact hgone

/-! ## The other changes -/

theorem gone_of_not_serving (h : s.serving = false) : s.gone x = true := by
  rw [gone, h, Bool.not_false, Bool.or_true]

theorem Bound.bindTunnel (H : s.Bound) (hserving : s.serving = true) :
    (s.bindTunnel tunnelId peerId initiator deviceKey deviceName follows).Bound where
  mapped t ht := by
    rcases mem_of_mem_put ht with rfl | ht
    · refine ⟨_, getElem?_concat_length, rfl, ?_⟩
      change (false || decide (s.connection ≠ s.connection) || !s.serving) = false
      rw [hserving]
      simp
    · obtain ⟨x, hx, hid, hlive⟩ := H.mapped t ht
      refine ⟨x, ?_, hid, hlive⟩
      exact (List.getElem?_append_left (List.getElem?_eq_some_iff.mp hx).1).trans hx
  young y hy := by
    rcases mem_append.mp hy with hy | hy
    · exact H.young y hy
    · rw [mem_singleton.mp hy]
      exact ⟨Nat.le_refl _, fun h => absurd rfl h⟩
  silent := H.silent

theorem Cleaned.bindTunnel (H : s.Bound) (hclean : s.Cleaned)
    (hserving : s.serving = true) :
    (s.bindTunnel tunnelId peerId initiator deviceKey deviceName follows).Cleaned := by
  refine (H.bindTunnel hserving).cleaned_iff.mpr fun y hy hended => ?_
  rcases mem_append.mp hy with hy | hy
  · exact H.cleaned_iff.mp hclean y hy hended
  · rw [mem_singleton.mp hy] at hended
    cases hended

theorem release_cases (x : Binding) (tunnelId connection : Nat) :
    x.release tunnelId connection = { x with released := true } ∨
      x.release tunnelId connection = x ∧
        (x.tunnelId = tunnelId → x.connection ≠ connection) := by
  rw [Binding.release]
  split
  · exact .inl rfl
  next h =>
  refine .inr ⟨rfl, fun hid hconn => h ?_⟩
  rw [hid, hconn, decide_eq_true rfl, decide_eq_true rfl]
  rfl

theorem Bound.closed {tunnelId : Nat} (H : s.Bound) :
    ((s.release tunnelId).closeLocalTunnel tunnelId).Bound := by
  -- what is left in the table has another id
  have hfilter : Bound { s.release tunnelId with
      tunnels := s.tunnels.filter (·.1 ≠ tunnelId) } := by
    refine ⟨fun t ht => ?_, fun y hy => ?_, H.silent⟩
    · obtain ⟨hmem, hid⟩ := mem_filter.mp ht
      obtain ⟨x, hx, hxid, hlive⟩ := H.mapped t hmem
      refine ⟨x, ?_, hxid, hlive⟩
      change (s.bindings.map _)[t.2.binding]? = some x
      have hne : x.tunnelId ≠ tunnelId := fun h => of_decide_eq_true hid (hxid.symm.trans h)
      rw [getElem?_map, hx, map_some, Binding.release, decide_eq_false hne,
        Bool.false_and, if_neg Bool.noConfusion]
    · obtain ⟨x, hx, rfl⟩ := mem_map.mp hy
      rcases release_cases x tunnelId s.connection with heq | ⟨heq, -⟩ <;> rw [heq] <;>
        exact H.young x hx
  rw [RelayClient.closeLocalTunnel]
  split
  next hnone =>
    -- there was no entry
    have htunnels : s.tunnels.filter (·.1 ≠ tunnelId) = s.tunnels := by
      refine filter_eq_self.mpr fun t ht => decide_eq_true fun hid => ?_
      exact find?_eq_none.mp hnone t ht (decide_eq_true hid)
    rw [htunnels] at hfilter
    exact hfilter
  · exact hfilter.closeTransport

theorem Cleaned.of_bindings (H : s.Bound) (H' : s'.Bound) (hclean : s.Cleaned)
    (hx : ∀ y ∈ s'.bindings, s'.userEnded y = true → s'.gone y = false →
      ∃ x ∈ s.bindings, s.userEnded x = true ∧ s.gone x = false) : s'.Cleaned := by
  refine H'.cleaned_iff.mpr fun y hy hended => ?_
  by_contra hgone
  obtain ⟨x, hmem, hused, hlive⟩ := hx y hy hended (Bool.not_eq_true _ ▸ hgone)
  rw [H.cleaned_iff.mp hclean x hmem hused] at hlive
  cases hlive

theorem mem_closeLocalTunnel (hy : y ∈ (s.closeLocalTunnel id).bindings) :
    ∃ x ∈ s.bindings, y = x ∨ y = x.closeTransport := by
  rw [RelayClient.closeLocalTunnel] at hy
  split at hy
  · exact ⟨y, hy, .inl rfl⟩
  · obtain ⟨x, hx, h⟩ := mem_modify hy
    exact ⟨x, hx, h.imp_right And.left⟩

theorem Cleaned.closed {tunnelId : Nat} (H : s.Bound) (hclean : s.Cleaned) :
    ((s.release tunnelId).closeLocalTunnel tunnelId).Cleaned := by
  have hbridge : ((s.release tunnelId).closeLocalTunnel tunnelId).userEnded = s.userEnded := by
    rw [RelayClient.closeLocalTunnel]
    split <;> rfl
  refine hclean.of_bindings H H.closed fun y hy hended hlive => ?_
  rw [hbridge] at hended
  rw [gone_closeLocalTunnel] at hlive
  have hlive : s.gone y = false := hlive
  obtain ⟨z, hz, hyz⟩ := mem_closeLocalTunnel hy
  obtain ⟨x, hx, rfl⟩ := mem_map.mp hz
  rcases release_cases x tunnelId s.connection with heq | ⟨heq, -⟩ <;> rw [heq] at hyz
  · -- a released binding is gone
    have hgone : s.gone y = true := by
      have hrel : y.released = true := by
        rcases hyz with rfl | rfl
        · rfl
        · rcases closeTransport_cases { x with released := true } with h | ⟨-, h⟩ <;> rw [h]
      rw [gone, hrel]
      rfl
    rw [hlive] at hgone
    cases hgone
  · rcases hyz with rfl | rfl
    · exact ⟨y, hx, hended, hlive⟩
    · refine ⟨x, hx, ?_, ?_⟩
      · rcases closeTransport_cases x with h | ⟨-, h⟩ <;> rw [h] at hended
        · exact hended
        · cases hended
      · rcases closeTransport_cases x with h | ⟨-, h⟩ <;> rw [h] at hlive <;> exact hlive

theorem Bound.connect {peerId deviceId : String} {tunnels body : Nat} (H : s.Bound) :
    (s.connect peerId deviceId tunnels body).Bound where
  mapped _ ht := by cases ht
  young x hx := ⟨Nat.le_succ_of_le (H.young x hx).1, (H.young x hx).2⟩
  silent := H.silent

theorem Cleaned.connect {peerId deviceId : String} {tunnels body : Nat} (H : s.Bound) :
    (s.connect peerId deviceId tunnels body).Cleaned := by
  refine H.connect.cleaned_iff.mpr fun x hx _ => ?_
  have hne : x.connection ≠ s.connection + 1 := by
    have := (H.young x hx).1
    omega
  have hgone : (decide (x.connection ≠ s.connection + 1)) = true := decide_eq_true hne
  change (x.released || decide (x.connection ≠ s.connection + 1) || !true) = true
  rw [hgone, Bool.or_true, Bool.true_or]

theorem Bound.tearDown (H : s.Bound) : s.tearDown.Bound := by
  have hclosed : s.closeAll.Bound := foldlRecOn _ _ H fun _ H _ _ => H.closeTransport
  have hopens : s.closeAll.interruptOpens.Bound :=
    hclosed.of_quiet (quiet_foldl fun _ _ => quiet_settle)
  have hposts : s.closeAll.interruptOpens.interruptPosts.Bound :=
    hopens.of_quiet (quiet_foldl fun _ _ => quiet_settle)
  refine ⟨fun t ht => ?_, hposts.young, hposts.silent⟩
  cases ht

theorem Cleaned.tearDown (H : s.Bound) : s.tearDown.Cleaned :=
  H.tearDown.cleaned_iff.mpr fun _ _ _ => gone_of_not_serving rfl

end RelayClient

/-! ## The sessions that have ended -/

namespace Bridge

variable {s s' : Bridge} {i j : Nat} {x : PeerSession} {own p k reason : String}

def hasEnded (s : Bridge) (i : Nat) : Bool := (s.sessions[i]?).any (·.ended)

theorem hasEnded_modify {f : PeerSession → PeerSession} (hf : ∀ x, (f x).ended = x.ended) :
    (s.modify i f).hasEnded j = s.hasEnded j := any_modify hf

theorem hasEnded_markClosed : (s.markClosed i reason).hasEnded j = s.hasEnded j :=
  hasEnded_modify fun _ => rfl

theorem hasEnded_enter : (s.enter i x).hasEnded j = s.hasEnded j := by
  rw [hasEnded, hasEnded, enter_spec.1]
  exact any_modify fun _ => rfl

theorem hasEnded_resume : (s.resume own i x).hasEnded j = s.hasEnded j := by
  rcases resume_cases (s := s) (i := i) (x := x) with
    ⟨-, heq⟩ | ⟨i', reason, phase, -, heq⟩ <;> rw [heq]
  · exact hasEnded_enter
  · refine (hasEnded_modify ?_).trans hasEnded_markClosed
    exact fun _ => rfl

theorem hasEnded_establish {a : Attach} : (s.establish a).hasEnded j = s.hasEnded j := by
  rw [hasEnded, hasEnded, establish]
  rcases Nat.lt_or_ge j s.sessions.length with hj | hj
  · rw [getElem?_append_left hj]
  · rw [getElem?_append_right hj, getElem?_eq_none hj]
    cases j - s.sessions.length <;> rfl

theorem hasEnded_forgetSession : (s.forgetSession p k reason).hasEnded j = s.hasEnded j := by
  rcases forgetSession_cases (s := s) (p := p) (k := k) with
    ⟨-, heq⟩ | ⟨-, -, heq, -⟩
  · rw [heq]
  · rw [hasEnded, hasEnded, heq]

theorem hasEnded_onClose (hx : s.sessions[i]? = some x) :
    (s.onClose i).hasEnded j = (decide (i = j) || s.hasEnded j) := by
  rw [onClose, hx]
  rw [hasEnded_forgetSession, hasEnded, modify_sessions]
  split
  next hij =>
    rw [← hij, hx, decide_eq_true rfl]
    rfl
  next hij =>
  rw [decide_eq_false hij, Bool.false_or]
  rfl

end Bridge

namespace RelayClient

variable {own : String} {s s' : RelayClient} {b : Nat} {x : Binding} {br : Bridge}
  {a : ClientAction} {k request : Nat}

theorem Bound.bridge (H : s.Bound) : Bound { s with bridge := br } := ⟨H.mapped, H.young, H.silent⟩

theorem Cleaned.bridge (H : s.Bound) (hclean : s.Cleaned)
    (hended : ∀ i, br.hasEnded i = s.bridge.hasEnded i) : Cleaned { s with bridge := br } := by
  refine hclean.of_bindings H H.bridge fun y hy hused hlive => ⟨y, hy, ?_, hlive⟩
  rw [userEnded] at hused ⊢
  cases hphase : y.phase with
  | naming | shaking | failing =>
    rw [hphase] at hused
    exact hused
  | established | done =>
    rw [hphase] at hused
    cases hsession : y.session with
    | none => rfl
    | some i =>
      rw [hsession] at hused
      exact (hended i).symm.trans hused

theorem Cleaned.bridge_iff {i : Nat} (H : s.Bound) (hclean : s.Cleaned)
    (hended : ∀ j, br.hasEnded j = (decide (i = j) || s.bridge.hasEnded j)) :
    Cleaned { s with bridge := br } ↔
      s.bindings.all (fun x => x.session ≠ some i || s.gone x) = true := by
  have H' : Bound { s with bridge := br } := H.bridge
  rw [H'.cleaned_iff, List.all_eq_true]
  constructor
  · intro hgone y hy
    rw [Bool.or_eq_true, decide_eq_true_eq]
    by_cases hsession : y.session = some i
    · refine .inr (hgone y hy ?_)
      have hend : br.hasEnded i = true := by rw [hended, decide_eq_true rfl, Bool.true_or]
      rcases (H.young y hy).2 (by rw [hsession]; exact Option.some_ne_none i) with h | h <;>
      · rw [userEnded, h, hsession]
        exact hend
    · exact .inl hsession
  · intro hall y hy hused
    have hor := hall y hy
    rw [Bool.or_eq_true, decide_eq_true_eq] at hor
    rcases hor with hsession | hgone
    · refine H.cleaned_iff.mp hclean y hy ?_
      rw [userEnded] at hused ⊢
      cases hphase : y.phase with
      | naming | shaking | failing =>
        rw [hphase] at hused
        exact hused
      | established | done =>
        rw [hphase] at hused
        cases hs : y.session with
        | none => rfl
        | some j =>
          rw [hs] at hused
          have hused : br.hasEnded j = true := hused
          have hne : i ≠ j := fun h => hsession (by rw [hs, h])
          rw [hended, decide_eq_false hne, Bool.false_or] at hused
          exact hused
    · exact hgone

/-! ## Steps -/

/-- A step keeps what the tables are about, and keeps everything cleaned up exactly when it ends no
use of a tunnel that is not gone. -/
structure Steps (s s' : RelayClient) (a : ClientAction) : Prop where
  bound : s'.Bound
  cleaned : s.Cleaned → (s'.Cleaned ↔ s.leavesGone a = true)

theorem Steps.of_quiet (H : s.Bound) (h : s.Quiet s')
    (ha : s.leavesGone a = true) : s.Steps s' a where
  bound := H.of_quiet h
  cleaned hclean := iff_of_true (hclean.of_quiet H h) ha

theorem Steps.bindTunnel {tunnelId : Nat} {peerId deviceKey deviceName : String}
    {initiator : Bool} {follows : Option (Nat × Nat)} (H : s.Bound) (h : s.Quiet s')
    (hserving : s.serving = true) (ha : s.leavesGone a = true) :
    s.Steps (s'.bindTunnel tunnelId peerId initiator deviceKey deviceName follows) a where
  bound := (H.of_quiet h).bindTunnel (h.serving.trans hserving)
  cleaned hclean := iff_of_true
    ((hclean.of_quiet H h).bindTunnel (H.of_quiet h) (h.serving.trans hserving)) ha

theorem steps_incoming {tunnel : Nat} {sender senderDevice : String} (H : s.Bound)
    (hserving : s.serving = true) :
    s.Steps (s.handleIncoming tunnel sender senderDevice) (.incoming tunnel sender senderDevice) := by
  have hremember : s.Quiet (s.rememberRemoteDevice sender (normalizeDeviceKey senderDevice) "") :=
    quiet_rememberRemoteDevice
  rw [handleIncoming]
  split
  · exact .of_quiet H (hremember.trans (quiet_sendJson fun _ => ClientMessage.noConfusion)) rfl
  · refine .bindTunnel H (hremember.trans ?_) hserving rfl
    exact quiet_sendJson fun _ => ClientMessage.noConfusion

theorem steps_answerOpen {id : Nat} {opened : Bool} {requests : List (Nat × Nat)}
    (H : s.Bound) (hserving : s.serving = true) :
    let s₁ := { s with openRequests := requests, answers := request :: s.answers }
    s.Steps (if opened then s₁.handleOpened id request else s₁.handleOpenFailed id request)
      (.answerOpen k opened) := by
  intro s₁
  have hquiet : s.Quiet s₁ := ⟨rfl, rfl, rfl, rfl, rfl, fun _ hm => .inl hm⟩
  split
  · rw [handleOpened]
    split
    · exact .of_quiet H hquiet rfl
    · exact .bindTunnel H (hquiet.trans quiet_removePending) hserving rfl
  rw [handleOpenFailed]
  split
  · exact .of_quiet H hquiet rfl
  · exact .of_quiet H ((hquiet.trans quiet_removePending).trans quiet_settle) rfl

theorem steps_answerPost {id : String} {requests : List (String × Nat)}
    (H : s.Bound) :
    s.Steps ({ s with postRequests := requests, answers := request :: s.answers
      }.handlePosted id request) (.answerPost k) := by
  rw [handlePosted]
  split
  · exact .of_quiet H ⟨rfl, rfl, rfl, rfl, rfl, fun _ hm => .inl hm⟩ rfl
  · refine .of_quiet H (Quiet.trans ?_ quiet_settle) rfl
    exact ⟨rfl, rfl, rfl, rfl, rfl, fun _ hm => .inl hm⟩

theorem steps_shaking {part : Bool} (H : s.Bound) (hx : s.bindings[b]? = some x)
    (hyoung : x.session = none) (ha : s.leavesGone a = true) :
    s.Steps (s.setPhase b (.shaking part)) a where
  bound := H.setPhase (.inr fun y hy => some.inj (hx.symm.trans hy) ▸ hyoung)
  cleaned hclean := by
    refine iff_of_true (Cleaned.modify H hclean fun y hy => ⟨⟨rfl, rfl, rfl, fun h => ?_⟩, ?_⟩) ha
    · exact absurd (some.inj (hx.symm.trans hy) ▸ hyoung) h
    · exact Bool.noConfusion

theorem steps_handshakeFails (H : s.Bound) (hx : s.bindings[b]? = some x)
    (hyoung : x.session = none) :
    s.Steps ((s.closeLocalTunnel x.tunnelId).finishBinding b x) (.handshakeFails b) where
  bound := H.closeLocalTunnel.finishBinding
  cleaned hclean := by
    rw [cleaned_finishBinding H.closeLocalTunnel, leavesGone, hx, all_some]
    have hclean' : (s.closeLocalTunnel x.tunnelId).Cleaned := hclean.closeLocalTunnel H
    rcases closeLocalTunnel_binding hx with hx' | hx'
    · rw [hclean'.fail_iff H.closeLocalTunnel hx' hyoung, gone_closeLocalTunnel]
    rcases closeTransport_cases x with heq | ⟨-, heq⟩ <;> rw [heq] at hx'
    · rw [hclean'.fail_iff H.closeLocalTunnel hx' hyoung, gone_closeLocalTunnel]
    · rw [hclean'.fail_iff H.closeLocalTunnel hx' hyoung, gone_closeLocalTunnel]
      rfl

theorem steps_handshakeDone {remote name address : String} {now : Int} {attach : Attach}
    (H : s.Bound) :
    s.Steps { s with
      bridge := s.bridge.establish attach
      bindings := s.bindings.modify b fun x => { x with
        phase := .established, session := some s.bridge.sessions.length } }
      (.handshakeDone b remote name address now) := by
  have hbridge : Bound { s with bridge := s.bridge.establish attach } := H.bridge
  refine ⟨hbridge.modify fun y _ => ⟨rfl, rfl, rfl, fun _ => .inl rfl⟩, fun hclean => ?_⟩
  have hclean' : Cleaned { s with bridge := s.bridge.establish attach } :=
    hclean.bridge H fun _ => Bridge.hasEnded_establish
  refine iff_of_true ?_ rfl
  refine Cleaned.modify hbridge hclean' fun y _ => ⟨⟨rfl, rfl, rfl, fun _ => .inl rfl⟩, fun h => ?_⟩
  -- the new session has not ended
  have hend : (s.bridge.establish attach).hasEnded s.bridge.sessions.length = true := h
  rw [Bridge.hasEnded_establish, Bridge.hasEnded, getElem?_eq_none (Nat.le_refl _)] at hend
  cases hend

theorem steps_attachDone (H' : s'.Bound)
    (hclean : s.Cleaned → s'.Cleaned) (hx : s'.bindings[b]? = some x)
    (hphase : x.phase = .established) (ha : s.leavesGone a = true) :
    s.Steps (s'.finishBinding b x) a where
  bound := H'.finishBinding
  cleaned hc := by
    rw [cleaned_finishBinding H']
    refine iff_of_true (Cleaned.modify H' (hclean hc) fun y hy =>
      ⟨⟨rfl, rfl, rfl, fun _ => .inr rfl⟩, ?_⟩) ha
    obtain rfl : x = y := some.inj (hx.symm.trans hy)
    intro hused
    rw [userEnded] at hused ⊢
    rw [hphase]
    exact hused

theorem Bound.session_eq_none (H : s.Bound) (hx : s.bindings[b]? = some x)
    (hphase : x.phase ≠ .established) (hphase' : x.phase ≠ .done) : x.session = none := by
  by_contra hsession
  rcases (H.young x (mem_of_getElem? hx)).2 hsession with h | h
  · exact hphase h
  · exact hphase' h

theorem steps_bridge {a : BridgeAction} (H : s.Bound)
    (h : s.move own (.bridge a) = some s') : s.Steps s' (.bridge a) := by
  have hgoes : ∀ {br : Bridge}, (∀ i, br.hasEnded i = s.bridge.hasEnded i) →
      s.leavesGone (.bridge a) = true → s.Steps { s with bridge := br } (.bridge a) :=
    fun hended ha => ⟨H.bridge, fun hclean => iff_of_true (hclean.bridge H hended) ha⟩
  cases a with
  | establish => cases h
  | resume i =>
    obtain ⟨br, hbr, rfl⟩ := map_eq_some_iff.mp h
    simp only [Bridge.step] at hbr
    split at hbr
    · split at hbr
      · cases hbr
        exact hgoes (fun _ => Bridge.hasEnded_resume) rfl
      · cases hbr
    · cases hbr
  | enter i =>
    obtain ⟨br, hbr, rfl⟩ := map_eq_some_iff.mp h
    simp only [Bridge.step] at hbr
    split at hbr
    · split at hbr
      · split at hbr
        · cases hbr
          exact hgoes (fun _ => Bridge.hasEnded_enter) rfl
        · cases hbr
      all_goals cases hbr
    · cases hbr
  | close i reason notify =>
    obtain ⟨br, hbr, rfl⟩ := map_eq_some_iff.mp h
    simp only [Bridge.step] at hbr
    split at hbr
    next hi =>
      cases hbr
      cases notify with
      | true =>
        rw [Bridge.close_notify]
        exact hgoes (fun _ => Bridge.hasEnded_markClosed) rfl
      | false =>
        by_cases hclosed : s.bridge.isClosed i = true
        · rw [Bridge.close, if_pos hclosed]
          refine hgoes (fun _ => rfl) ?_
          rw [leavesGone, hclosed, Bool.true_or]
        refine ⟨H.bridge, fun hclean => ?_⟩
        rw [leavesGone, (Bool.not_eq_true _).mp hclosed, Bool.false_or, Bridge.close,
          if_neg hclosed]
        refine hclean.bridge_iff H fun j => ?_
        obtain ⟨x, hx⟩ : ∃ x, (s.bridge.markClosed i reason).sessions[i]? = some x := by
          rw [Bridge.markClosed_sessions, if_pos rfl, getElem?_eq_getElem hi]
          exact ⟨_, rfl⟩
        refine (Bridge.hasEnded_onClose hx).trans ?_
        rw [Bridge.hasEnded_markClosed]
    · cases hbr
  | finishClose i =>
    obtain ⟨br, hbr, rfl⟩ := map_eq_some_iff.mp h
    simp only [Bridge.step] at hbr
    split at hbr
    next x hx =>
      split at hbr
      · cases hbr
        exact ⟨H.bridge, fun hclean => hclean.bridge_iff H fun _ => Bridge.hasEnded_onClose hx⟩
      · cases hbr
    · cases hbr

theorem steps_move (H : s.Bound) (h : s.move own a = some s') :
    s.Steps s' a := by
  cases a with
  | connect =>
    simp only [move] at h
    split at h
    · cases h
    · cases h
      exact ⟨H.connect, fun _ => iff_of_true (.connect H) rfl⟩
  | socketGone | leaveOnline | setBlocked =>
    cases h
    exact .of_quiet H ⟨rfl, rfl, rfl, rfl, rfl, fun _ hm => .inl hm⟩ rfl
  | tearDown =>
    simp only [move] at h
    split at h
    · cases h
      exact ⟨H.tearDown, fun _ => iff_of_true (.tearDown H) rfl⟩
    · cases h
  | openPeer =>
    cases h
    exact .of_quiet H quiet_openPeer rfl
  | postMail =>
    cases h
    exact .of_quiet H quiet_postMail rfl
  | presence =>
    simp only [move] at h
    split at h
    · cases h
      exact .of_quiet H quiet_handlePresence rfl
    · cases h
  | incoming =>
    simp only [move] at h
    split at h
    next hserving =>
      cases h
      exact steps_incoming H hserving
    · cases h
  | answerOpen k opened =>
    simp only [move] at h
    split at h
    next hserving =>
      obtain ⟨⟨id, request⟩, -, rfl⟩ := map_eq_some_iff.mp h
      exact steps_answerOpen H hserving
    · cases h
  | answerPost k =>
    simp only [move] at h
    split at h
    · obtain ⟨⟨id, request⟩, -, rfl⟩ := map_eq_some_iff.mp h
      exact steps_answerPost H
    · cases h
  | closed tunnel =>
    simp only [move] at h
    split at h
    · cases h
      exact ⟨H.closed, fun hclean => iff_of_true (hclean.closed H) rfl⟩
    · cases h
  | overflow tunnel =>
    simp only [move] at h
    split at h
    · cases h
      exact ⟨H.closeLocalTunnel, fun hclean => iff_of_true (hclean.closeLocalTunnel H) rfl⟩
    · cases h
  | ready b part =>
    obtain ⟨x, hx, h⟩ := bind_eq_some_iff.mp h
    split at h
    next hphase =>
      cases h
      refine steps_shaking H hx (H.session_eq_none hx ?_ ?_) rfl <;> rw [hphase] <;>
        exact BindingPhase.noConfusion
    · cases h
  | bytes b part =>
    obtain ⟨x, hx, h⟩ := bind_eq_some_iff.mp h
    split at h
    next hphase =>
      split at h
      · cases h
        refine steps_shaking H hx (H.session_eq_none hx ?_ ?_) rfl <;> rw [hphase] <;>
          exact BindingPhase.noConfusion
      · cases h
    · cases h
  | handshakeFails b =>
    obtain ⟨x, hx, h⟩ := bind_eq_some_iff.mp h
    have hfails : x.phase ≠ .established → x.phase ≠ .done →
        s.Steps ((s.closeLocalTunnel x.tunnelId).finishBinding b x) (.handshakeFails b) :=
      fun h h' => steps_handshakeFails H hx (H.session_eq_none hx h h')
    cases hphase : x.phase with
    | naming | shaking | failing =>
      rw [hphase] at h hfails
      cases h
      exact hfails BindingPhase.noConfusion BindingPhase.noConfusion
    | established | done =>
      rw [hphase] at h
      cases h
  | handshakeDone b remote name address now =>
    obtain ⟨x, hx, h⟩ := bind_eq_some_iff.mp h
    split at h
    · obtain ⟨br, hbr, rfl⟩ := map_eq_some_iff.mp h
      simp only [Bridge.step] at hbr
      split at hbr
      · cases hbr
      · cases hbr
        exact steps_handshakeDone H
    · cases h
  | attachDone b =>
    obtain ⟨x, hx, h⟩ := bind_eq_some_iff.mp h
    split at h
    next hphase =>
      obtain ⟨session, -, h⟩ := bind_eq_some_iff.mp h
      have hreturn := steps_attachDone (a := .attachDone b) H id hx hphase rfl
      split at h
      · cases h
        exact hreturn
      · split at h
        · cases h
          refine steps_attachDone H.closeLocalTunnel (fun hclean => hclean.closeLocalTunnel H)
            ?_ hphase rfl
          -- a closed transport does nothing to an established binding
          have hsame : x.closeTransport = x := by rw [Binding.closeTransport, hphase]
          rcases closeLocalTunnel_binding hx with h | h
          · exact h
          · rwa [hsame] at h
        · cases h
          exact hreturn
      all_goals cases h
    · cases h
  | bridge a => exact steps_bridge H h

theorem move_of_step (h : s.step own a = some s') : s.move own a = some s' :=
  (filter_eq_some_iff.mp h).1

/-- The tables of tunnels are sound, whatever the relay, the peers and the sessions do. -/
theorem tunnels_bound {acts : List ClientAction} : Always (step own) Bound {} acts :=
  Run.always (fun H h => (steps_move H (move_of_step h)).bound) .empty

theorem Cleaned.empty : Cleaned {} :=
  Bound.empty.cleaned_iff.mpr fun _ hx => by cases hx

/-- Tunnels are cleaned up all along a run exactly when no handshake fails and no session ends over
a tunnel that the relay has not closed, while the connection goes on. -/
theorem cleaned_iff_leavesGone {acts : List ClientAction} (h : FreeRun (step own) {} acts s) :
    Always (step own) Cleaned {} acts ↔
      Run (step own) (fun s a => s.leavesGone a = true) {} acts s :=
  Run.always_iff (I := Bound) (fun H hstep => (steps_move H (move_of_step hstep)).bound)
    (fun H hclean hstep => (steps_move H (move_of_step hstep)).cleaned hclean) h .empty .empty

/-- A tunnel from the peer b is bound and its session entered, for concrete runs. -/
def sampleSession : List ClientAction := [.connect "a" "" 64 1000, .incoming 1 "b" "device-1",
  .ready 0 false, .handshakeDone 0 "b" "B" "relay://host" 0, .bridge (.resume 0), .attachDone 0]

/-- The relay closes the tunnel, and then the session ends. -/
theorem cleaned_iff_leavesGone_closed : ∃ acts s, FreeRun (step "a") {} acts s ∧
    s.bridge.hasEnded 0 = true ∧ Always (step "a") Cleaned {} acts := by
  let acts := sampleSession ++ [.closed 1, .bridge (.close 0 "connection closed" false)]
  have hrun : (exec (step "a") {} acts).map (fun s => s.bridge.hasEnded 0) = some true := by
    decide +kernel
  have hok : allowed (step "a") leavesGone {} acts = true := by decide +kernel
  obtain ⟨s, hs, hend⟩ := map_eq_some_iff.mp hrun
  exact ⟨acts, s, .of_exec hs, hend,
    (cleaned_iff_leavesGone (.of_exec hs)).mpr (Run.of_allowed hok hs)⟩

/-- A session ends for its idle time; its tunnel stays in the table. -/
theorem tunnel_outlives_session : ¬ ∀ acts s, FreeRun (step "a") {} acts s → s.Cleaned := by
  intro h
  let acts := sampleSession ++ [.bridge (.close 0 "idle timeout" true), .bridge (.finishClose 0)]
  have hrun : (exec (step "a") {} acts).map (fun s =>
      (s.tunnels, s.bindings.map fun x => s.userEnded x)) =
      some ([(1, ⟨"b", "device-1", "", 0⟩)], [true]) := by
    decide +kernel
  obtain ⟨s, hs, hend⟩ := map_eq_some_iff.mp hrun
  obtain ⟨htunnels, hused⟩ := Prod.mk.inj hend
  obtain ⟨x, hx, hxused⟩ := map_eq_singleton_iff.mp hused
  have hunmapped := (h acts s (.of_exec hs)).unmapped (1, ⟨"b", "device-1", "", 0⟩)
    (by rw [htunnels]; exact mem_singleton.mpr rfl) x (by rw [hx]; rfl)
  rw [hxused] at hunmapped
  cases hunmapped

end RelayClient
end Bluetalk.WebBridge

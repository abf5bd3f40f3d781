import Bluetalk.PeerProtocol.Records
import Bluetalk.Theory.Run
import Mathlib.Data.List.Nodup

/-!
# The records of a session

Both ends of a session, each of either client, encrypt whatever they like, and are presented with
whatever records an attacker makes up, those of the session among them.
-/

open List Option Function

namespace Bluetalk.PeerProtocol

inductive Client
  | desktop
  | web

inductive Side
  | initiator
  | responder
  deriving DecidableEq

def Side.other : Side → Side
  | .initiator => .responder
  | .responder => .initiator

inductive Sender
  | desktop (c : Desktop.SendCipher)
  | web (c : Web.SendCipher)

inductive Receiver
  | desktop (c : Desktop.ReceiveCipher)
  | web (c : Web.ReceiveCipher)

def Sender.view : Sender → Cipher
  | .desktop c => c.view
  | .web c => c.view

def Receiver.view : Receiver → Cipher
  | .desktop c => c.view
  | .web c => c.view

def Sender.encrypt (A : Aead) (log : List Sealed) (plaintext : Bytes) :
    Sender → Option Bytes × Sender × List Sealed
  | .desktop c =>
    let (result, c, log) := c.encrypt A log plaintext
    (result.toOption, .desktop c, log)
  | .web c =>
    let (result, c, log) := c.encrypt A log plaintext
    (result.toOption, .web c, log)

def Receiver.decrypt (A : Aead) (log : List Sealed) (record : Bytes) :
    Receiver → Option Bytes × Receiver
  | .desktop c =>
    let (result, c) := c.decrypt A log record
    (result.toOption, .desktop c)
  | .web c =>
    let (result, c) := c.decrypt A log record
    (result.toOption, .web c)

def Client.deriveSessionCiphers (client : Client) (hkdf : Hkdf) (sharedSecret transcriptHash : Bytes)
    (initiator : Bool) (maximum : Nat) : Sender × Receiver :=
  match client with
  | .desktop =>
    let (send, receive) :=
      Desktop.deriveSessionCiphers hkdf sharedSecret transcriptHash initiator maximum
    (.desktop send, .desktop receive)
  | .web =>
    let (send, receive) :=
      Web.deriveSessionCiphers hkdf sharedSecret transcriptHash initiator maximum
    (.web send, .web receive)

/-- One end of a session. -/
structure Party where
  send : Sender
  receive : Receiver
  /-- the plaintexts that it made records of -/
  sent : List Bytes := []
  accepted : List Bytes := []

structure Link where
  party : Side → Party
  log : List Sealed := []

inductive LinkAction
  | encrypt (side : Side) (plaintext : Bytes)
  | present (side : Side) (record : Bytes)

namespace Link

def encrypt (A : Aead) (s : Link) (side : Side) (plaintext : Bytes) : Link :=
  let p := s.party side
  let (result, send, log) := p.send.encrypt A s.log plaintext
  ⟨update s.party side
    { p with send := send, sent := if result.isSome then p.sent ++ [plaintext] else p.sent }, log⟩

def present (A : Aead) (s : Link) (side : Side) (record : Bytes) : Link :=
  let p := s.party side
  let (result, receive) := p.receive.decrypt A s.log record
  ⟨update s.party side
    { p with receive := receive, accepted := p.accepted ++ result.toList }, s.log⟩

def step (A : Aead) (s : Link) : LinkAction → Option Link
  | .encrypt side plaintext => some (s.encrypt A side plaintext)
  | .present side record => some (s.present A side record)

/-- A session between two clients, each with a limit of its own, after their handshake. -/
def established (hkdf : Hkdf) (sharedSecret transcriptHash : Bytes) (clients : Side → Client)
    (maximum : Side → Nat) : Link where
  party side :=
    let (send, receive) := (clients side).deriveSessionCiphers hkdf sharedSecret transcriptHash
      (side = .initiator) (maximum side)
    ⟨send, receive, [], []⟩

/-- What is accepted is what was sent, up to some point; a rejected record changes no counter; and
no nonce is used twice with a key. -/
structure Secure (A : Aead) (s : Link) : Prop where
  accepted : ∀ side, (s.party side).accepted <+: (s.party side.other).sent
  rejected : ∀ side record, ((s.party side).receive.decrypt A s.log record).1 = none →
    ((s.party side).receive.decrypt A s.log record).2 = (s.party side).receive
  nonces : (s.log.map fun x => (x.key, x.nonce)).Nodup

end Link

variable {A : Aead} {log : List Sealed} {plaintext record : Bytes} {c c' : Cipher}
  {receive : Receiver}

/-! ## One cipher -/

theorem Sender.encrypt_view (A : Aead) (log : List Sealed) (plaintext : Bytes) (send : Sender) :
    send.view.send A log plaintext = ((send.encrypt A log plaintext).1,
      (send.encrypt A log plaintext).2.1.view, (send.encrypt A log plaintext).2.2) := by
  cases send with
  | desktop c => exact Desktop.SendCipher.encrypt_view rfl
  | web c => exact Web.SendCipher.encrypt_view rfl

theorem Receiver.decrypt_result (A : Aead) (log : List Sealed) (record : Bytes)
    (receive : Receiver) :
    (receive.view.receive A log record).1 = (receive.decrypt A log record).1 := by
  cases receive with
  | desktop c => exact (Desktop.ReceiveCipher.decrypt_view rfl).1
  | web c => exact congrArg Prod.fst (Web.ReceiveCipher.decrypt_view rfl)

theorem Receiver.decrypt_view (h : receive.view.next + 1 < 2 ^ 64) :
    (receive.view.receive A log record).2 = (receive.decrypt A log record).2.view := by
  cases receive with
  | desktop c => exact (Desktop.ReceiveCipher.decrypt_view rfl).2 (.inr h)
  | web c => exact congrArg Prod.snd (Web.ReceiveCipher.decrypt_view rfl)

theorem Receiver.decrypt_none (h : (receive.decrypt A log record).1 = none) :
    (receive.decrypt A log record).2 = receive := by
  cases receive with
  | desktop c =>
    refine congrArg Receiver.desktop ?_
    have h : (c.decrypt A log record).1.toOption = none := h
    cases hresult : (c.decrypt A log record).1 with
    | ok plaintext =>
      rw [hresult] at h
      cases h
    | error e => exact Desktop.ReceiveCipher.decrypt_error hresult
  | web c =>
    refine congrArg Receiver.web ?_
    have h : (c.decrypt A log record).1.toOption = none := h
    cases hresult : (c.decrypt A log record).1 with
    | ok plaintext =>
      rw [hresult] at h
      cases h
    | error e => exact Web.ReceiveCipher.decrypt_error hresult

theorem Cipher.send_cases {r : Option Bytes × Cipher × List Sealed}
    (h : c.send A log plaintext = r) : r = (none, c, log) ∨
      ∃ ciphertext, c.next ≠ 2 ^ 64 - 1 ∧
        r = (some ciphertext, { c with next := c.next + 1 }, log ++ [c.seals c.next plaintext]) := by
  rw [Cipher.send] at h
  split at h
  · exact .inl h.symm
  next hgoes =>
  rw [Aead.encrypt] at h
  cases henc : A.enc c.key (c.nonce c.next) (c.aad c.next) plaintext with
  | none =>
    rw [henc] at h
    exact .inl h.symm
  | some ciphertext =>
    rw [henc] at h
    exact .inr ⟨_, fun hend => hgoes (.inr hend), h.symm⟩

theorem Cipher.receive_cases {r : Option Bytes × Cipher} (h : c.receive A log record = r) :
    r = (none, c) ∨ ∃ message, r = (some message, { c with next := c.next + 1 }) ∧
      A.dec log c.key (c.nonce c.next) (c.aad c.next) (record.drop 8) = some message := by
  rw [Cipher.receive] at h
  split at h
  · exact .inl h.symm
  · split at h
    · exact .inl h.symm
    next hdec => exact .inr ⟨_, h.symm, hdec⟩

theorem Cipher.nonce_inj {i j : Nat} (hi : i < 2 ^ 64) (hj : j < 2 ^ 64)
    (h : c.nonce i = c.nonce j) : i = j :=
  bigEndian_inj (w := 8) hi hj (append_cancel_left h)

/-- Two ciphers of the same records, at whatever number and with whatever limit. -/
structure Cipher.Alike (c c' : Cipher) : Prop where
  key : c.key = c'.key
  noncePrefix : c.noncePrefix = c'.noncePrefix
  transcriptHash : c.transcriptHash = c'.transcriptHash

theorem Cipher.Alike.nonce (h : c.Alike c') (i : Nat) : c.nonce i = c'.nonce i := by
  rw [Cipher.nonce, Cipher.nonce, h.noncePrefix]

theorem Cipher.Alike.aad (h : c.Alike c') (i : Nat) : c.aad i = c'.aad i := by
  rw [Cipher.aad, Cipher.aad, h.transcriptHash]

theorem Cipher.Alike.seals (h : c.Alike c') (i : Nat) (message : Bytes) :
    c.seals i message = c'.seals i message := by
  rw [Cipher.seals, Cipher.seals, h.key, h.nonce, h.aad]

/-! ## The whole session -/

/-- A session without the clients: what matters of it here. -/
structure Traffic where
  send : Side → Cipher
  receive : Side → Cipher
  sent : Side → List Bytes
  accepted : Side → List Bytes
  log : List Sealed

def Link.traffic (s : Link) : Traffic where
  send side := (s.party side).send.view
  receive side := (s.party side).receive.view
  sent side := (s.party side).sent
  accepted side := (s.party side).accepted
  log := s.log

namespace Traffic

variable {t : Traffic} {base : Side → Cipher} {side side' : Side} {message : Bytes}

/-- What a side has sealed is what it sent, under one number after the other; what it has accepted
is the first part of what the other side sent. -/
structure Kept (base : Side → Cipher) (t : Traffic) : Prop where
  keys : ∀ side side', side ≠ side' → (base side).key ≠ (base side').key
  send : ∀ side, (t.send side).Alike (base side)
  receive : ∀ side, (t.receive side).Alike (base side.other)
  next : ∀ side, (t.send side).next = (t.sent side).length ∧ (t.sent side).length < 2 ^ 64
  log : ∀ side, t.log.filter (·.key = (base side).key) = (t.sent side).mapIdx (base side).seals
  taken : ∀ side, (t.receive side).next ≤ (t.sent side.other).length ∧
    t.accepted side = (t.sent side.other).take (t.receive side).next
  nonces : (t.log.map fun x => (x.key, x.nonce)).Nodup

theorem Kept.mem_log (H : t.Kept base) {x : Sealed} (hx : x ∈ t.log)
    (hkey : x.key = (base side).key) :
    ∃ i message, (t.sent side)[i]? = some message ∧ x = (base side).seals i message := by
  have hmem : x ∈ (t.sent side).mapIdx (base side).seals := by
    rw [← H.log side]
    exact mem_filter.mpr ⟨hx, decide_eq_true hkey⟩
  obtain ⟨i, hi⟩ := mem_iff_getElem?.mp hmem
  rw [getElem?_mapIdx] at hi
  obtain ⟨message, hmessage, rfl⟩ := map_eq_some_iff.mp hi
  exact ⟨i, message, hmessage, rfl⟩

theorem Kept.opened (H : t.Kept base) (hA : A.Ideal) {ciphertext : Bytes}
    (h : A.dec t.log (t.receive side).key ((t.receive side).nonce (t.receive side).next)
      ((t.receive side).aad (t.receive side).next) ciphertext = some message) :
    (t.sent side.other)[(t.receive side).next]? = some message := by
  obtain ⟨hmem, -⟩ := (hA ..).mp h
  have halike := H.receive side
  obtain ⟨i, message', hmessage, heq⟩ := H.mem_log hmem halike.key
  obtain ⟨-, hnonce, -, rfl⟩ := Sealed.mk.inj heq
  have hi : i < (t.sent side.other).length := (List.getElem?_eq_some_iff.mp hmessage).1
  have hsent := (H.next side.other).2
  have hnext := (H.taken side).1
  rw [halike.nonce] at hnonce
  rwa [Cipher.nonce_inj (Nat.lt_of_le_of_lt hnext hsent) (Nat.lt_trans hi hsent) hnonce]

def push (t : Traffic) (side : Side) (message : Bytes) : Traffic := { t with
  send := update t.send side { t.send side with next := (t.send side).next + 1 }
  sent := update t.sent side (t.sent side ++ [message])
  log := t.log ++ [(t.send side).seals (t.send side).next message] }

def take (t : Traffic) (side : Side) (message : Bytes) : Traffic := { t with
  receive := update t.receive side
    { t.receive side with next := (t.receive side).next + 1 }
  accepted := update t.accepted side (t.accepted side ++ [message]) }

theorem Kept.push (H : t.Kept base) (hend : (t.send side).next ≠ 2 ^ 64 - 1) :
    (t.push side message).Kept base where
  keys := H.keys
  send side' := by
    change (update t.send side _ side').Alike _
    by_cases h : side' = side
    · subst h
      rw [update_self]
      exact ⟨(H.send side').key, (H.send side').noncePrefix, (H.send side').transcriptHash⟩
    · rw [update_of_ne h]
      exact H.send side'
  receive := H.receive
  next side' := by
    change (update t.send side _ side').next =
      (update t.sent side _ side').length ∧ (update t.sent side _ side').length < _
    obtain ⟨hnext, hlt⟩ := H.next side'
    by_cases h : side' = side
    · subst h
      rw [update_self, update_self, length_append, length_singleton]
      refine ⟨congrArg (· + 1) hnext, ?_⟩
      omega
    · rw [update_of_ne h, update_of_ne h]
      exact ⟨hnext, hlt⟩
  log side' := by
    change (t.log ++ [_]).filter _ = (update t.sent side _ side').mapIdx _
    rw [filter_append, H.log side', (H.send side).seals]
    by_cases h : side' = side
    · subst h
      rw [update_self, mapIdx_concat, (H.next side').1]
      congr 1
      exact filter_cons_of_pos (decide_eq_true rfl)
    · rw [update_of_ne h]
      refine (congrArg (_ ++ ·) (filter_cons_of_neg fun heq => ?_)).trans (append_nil _)
      exact H.keys side side' (Ne.symm h) (of_decide_eq_true heq)
  taken side' := by
    change _ ≤ (update t.sent side _ side'.other).length ∧
      _ = (update t.sent side _ side'.other).take _
    obtain ⟨hle, heq⟩ := H.taken side'
    by_cases h : side'.other = side
    · subst h
      rw [update_self, length_append]
      refine ⟨Nat.le_trans hle (Nat.le_add_right _ _), ?_⟩
      exact heq.trans (take_append_of_le_length hle).symm
    · rw [update_of_ne h]
      exact ⟨hle, heq⟩
  nonces := by
    change ((t.log ++ [_]).map _).Nodup
    rw [map_append]
    refine nodup_append.mpr ⟨H.nonces, nodup_singleton _, ?_⟩
    rintro k hk k' hk' rfl
    obtain ⟨x, hx, rfl⟩ := mem_map.mp hk
    obtain ⟨hkey, hnonce⟩ := Prod.mk.inj (mem_singleton.mp hk')
    obtain ⟨i, message, hmessage, rfl⟩ := H.mem_log hx (hkey.trans (H.send side).key)
    -- the numbers so far are smaller than the new one
    have hi : i < (t.sent side).length := (List.getElem?_eq_some_iff.mp hmessage).1
    have hnonce : (base side).nonce i = (base side).nonce (t.send side).next :=
      hnonce.trans ((H.send side).nonce _)
    obtain ⟨hnext, hlt⟩ := H.next side
    rw [hnext] at hnonce
    exact Nat.ne_of_lt hi (Cipher.nonce_inj (Nat.lt_trans hi hlt) hlt hnonce)

theorem Kept.take (H : t.Kept base)
    (hsent : (t.sent side.other)[(t.receive side).next]? = some message) :
    (t.take side message).Kept base where
  keys := H.keys
  send := H.send
  receive side' := by
    change (update t.receive side _ side').Alike _
    by_cases h : side' = side
    · subst h
      rw [update_self]
      exact ⟨(H.receive side').key, (H.receive side').noncePrefix, (H.receive side').transcriptHash⟩
    · rw [update_of_ne h]
      exact H.receive side'
  next := H.next
  log := H.log
  taken side' := by
    change (update t.receive side _ side').next ≤ (t.sent side'.other).length ∧
      update t.accepted side _ side' =
        (t.sent side'.other).take (update t.receive side _ side').next
    obtain ⟨hle, heq⟩ := H.taken side'
    by_cases h : side' = side
    · subst h
      rw [update_self, update_self]
      refine ⟨(List.getElem?_eq_some_iff.mp hsent).1, ?_⟩
      rw [List.take_add_one, hsent, heq]
      rfl
    · rw [update_of_ne h, update_of_ne h]
      exact ⟨hle, heq⟩
  nonces := H.nonces

end Traffic

namespace Link

variable {s s' : Link} {base : Side → Cipher} {side : Side}

theorem traffic_update {p : Party} :
    (Link.mk (update s.party side p) log).traffic =
      { send := update s.traffic.send side p.send.view
        receive := update s.traffic.receive side p.receive.view
        sent := update s.traffic.sent side p.sent
        accepted := update s.traffic.accepted side p.accepted
        log := log } := by
  simp only [traffic, Traffic.mk.injEq, and_true]
  refine ⟨?_, ?_, ?_, ?_⟩ <;> funext side'
  · exact Function.apply_update (fun _ p => p.send.view) s.party side p side'
  · exact Function.apply_update (fun _ p => p.receive.view) s.party side p side'
  · exact Function.apply_update (fun _ p => p.sent) s.party side p side'
  · exact Function.apply_update (fun _ p => p.accepted) s.party side p side'

theorem traffic_encrypt : (s.encrypt A side plaintext).traffic = s.traffic ∨
    (s.traffic.send side).next ≠ 2 ^ 64 - 1 ∧
      (s.encrypt A side plaintext).traffic = s.traffic.push side plaintext := by
  have hview := Sender.encrypt_view A s.log plaintext (s.party side).send
  have hreceive : update s.traffic.receive side (s.party side).receive.view =
      s.traffic.receive := update_eq_self side _
  have haccepted : update s.traffic.accepted side (s.party side).accepted =
      s.traffic.accepted := update_eq_self side _
  rw [encrypt]
  generalize (s.party side).send.encrypt A s.log plaintext = r at hview ⊢
  obtain ⟨result, send, log⟩ := r
  rcases Cipher.send_cases hview with heq | ⟨ciphertext, hend, heq⟩
  · obtain ⟨hresult, heq⟩ := Prod.mk.inj heq
    obtain ⟨hsend, hlog⟩ := Prod.mk.inj heq
    obtain rfl : result = none := hresult
    obtain rfl : log = s.log := hlog
    have hsend : update s.traffic.send side send.view = s.traffic.send := by
      rw [hsend]
      exact update_eq_self side _
    have hsent : update s.traffic.sent side (s.party side).sent = s.traffic.sent :=
      update_eq_self side _
    refine .inl (traffic_update.trans ?_)
    rw [hsend, hreceive, haccepted]
    exact congrArg (Traffic.mk _ _ · _ _) hsent
  · obtain ⟨hresult, heq⟩ := Prod.mk.inj heq
    obtain ⟨hsend, hlog⟩ := Prod.mk.inj heq
    obtain rfl : result = some _ := hresult
    obtain rfl : log = _ := hlog
    refine .inr ⟨hend, traffic_update.trans ?_⟩
    rw [hsend, hreceive, haccepted]
    rfl

theorem traffic_present (H : s.traffic.Kept base) (hA : A.Ideal) :
    (s.present A side record).traffic = s.traffic ∨
      ∃ message, (s.traffic.sent side.other)[(s.traffic.receive side).next]? = some message ∧
        (s.present A side record).traffic = s.traffic.take side message := by
  have hresult := Receiver.decrypt_result A s.log record (s.party side).receive
  have hnone : ((s.party side).receive.decrypt A s.log record).1 = none → _ :=
    Receiver.decrypt_none
  have hview : (s.party side).receive.view.next + 1 < 2 ^ 64 →
      ((s.party side).receive.view.receive A s.log record).2 = _ := Receiver.decrypt_view
  have hsend : update s.traffic.send side (s.party side).send.view =
      s.traffic.send := update_eq_self side _
  have hsent : update s.traffic.sent side (s.party side).sent =
      s.traffic.sent := update_eq_self side _
  rw [present]
  generalize (s.party side).receive.decrypt A s.log record = r at hresult hnone hview ⊢
  obtain ⟨result, receive⟩ := r
  rcases Cipher.receive_cases (rfl : (s.party side).receive.view.receive A s.log record = _) with
    heq | ⟨message, heq, hdec⟩
  · rw [heq] at hresult
    obtain rfl : none = result := hresult
    obtain rfl : receive = (s.party side).receive := hnone rfl
    have hreceive : update s.traffic.receive side (s.party side).receive.view =
        s.traffic.receive := update_eq_self side _
    have haccepted : update s.traffic.accepted side (s.party side).accepted =
        s.traffic.accepted := update_eq_self side _
    refine .inl (traffic_update.trans ?_)
    rw [hsend, hsent, hreceive, toList_none, append_nil, haccepted]
    rfl
  · have hopened : (s.traffic.sent side.other)[(s.traffic.receive side).next]? = some message :=
      H.opened hA hdec
    have hlt := (List.getElem?_eq_some_iff.mp hopened).1
    rw [heq] at hresult hview
    obtain rfl : some message = result := hresult
    have hreceive : receive.view = { s.traffic.receive side with
      next := (s.traffic.receive side).next + 1 } :=
      (hview (Nat.lt_of_le_of_lt hlt (H.next side.other).2)).symm
    refine .inr ⟨message, hopened, traffic_update.trans ?_⟩
    rw [hsend, hsent, hreceive]
    rfl

theorem kept_step {a : LinkAction} (hA : A.Ideal) (H : s.traffic.Kept base)
    (h : s.step A a = some s') : s'.traffic.Kept base := by
  cases a with
  | encrypt side plaintext =>
    cases h
    rcases traffic_encrypt (A := A) (s := s) with
      heq | ⟨hend, heq⟩
    · exact heq ▸ H
    · exact heq ▸ H.push hend
  | present side record =>
    cases h
    rcases traffic_present H hA with heq | ⟨message, hsent, heq⟩
    · exact heq ▸ H
    · exact heq ▸ H.take hsent

theorem secure_of_kept (H : s.traffic.Kept base) : s.Secure A where
  accepted side := by
    have heq : (s.party side).accepted = _ := (H.taken side).2
    rw [heq]
    exact take_prefix _ _
  rejected _ _ := Receiver.decrypt_none
  nonces := H.nonces

variable {hkdf : Hkdf} {sharedSecret transcriptHash : Bytes} {clients : Side → Client}
  {maximum : Side → Nat}

theorem Client.deriveSessionCiphers_view {client : Client} {initiator : Bool} {limit : Nat} :
    let ciphers := client.deriveSessionCiphers hkdf sharedSecret transcriptHash initiator limit
    (ciphers.1.view, ciphers.2.view) =
      sessionCiphers hkdf sharedSecret transcriptHash initiator limit := by
  cases client with
  | desktop => exact Desktop.deriveSessionCiphers_view
  | web => exact Web.deriveSessionCiphers_view

theorem kept_established
    (hkeys : initiatorKey (keyMaterial hkdf sharedSecret transcriptHash) ≠
      responderKey (keyMaterial hkdf sharedSecret transcriptHash)) :
    (established hkdf sharedSecret transcriptHash clients maximum).traffic.Kept fun side =>
      (sessionCiphers hkdf sharedSecret transcriptHash (side = .initiator) 0).1 := by
  have hview : ∀ side, ((established hkdf sharedSecret transcriptHash clients maximum).traffic.send
      side, (established hkdf sharedSecret transcriptHash clients maximum).traffic.receive side) =
      sessionCiphers hkdf sharedSecret transcriptHash (side = .initiator) (maximum side) :=
    fun side => Client.deriveSessionCiphers_view
  have hsend := fun side => congrArg Prod.fst (hview side)
  have hreceive := fun side => congrArg Prod.snd (hview side)
  dsimp only at hsend hreceive
  constructor
  case keys =>
    intro side side' hne
    cases side <;> cases side' <;> first
      | exact absurd rfl hne
      | exact hkeys
      | exact hkeys.symm
  case send =>
    intro side
    rw [hsend]
    cases side <;> exact ⟨rfl, rfl, rfl⟩
  case receive =>
    intro side
    rw [hreceive]
    cases side <;> exact ⟨rfl, rfl, rfl⟩
  case next =>
    intro side
    rw [hsend]
    cases side <;> exact ⟨rfl, Nat.two_pow_pos 64⟩
  case log => exact fun _ => rfl
  case taken =>
    intro side
    rw [hreceive]
    cases side <;> exact ⟨Nat.zero_le _, rfl⟩
  case nonces => exact nodup_nil

/-- In every run of a session the records are secure, whatever is presented to either end; and
either client makes and takes the same bytes as the other. -/
theorem records_secure {acts : List LinkAction} {s : Link} (hA : A.Ideal)
    (hkeys : initiatorKey (keyMaterial hkdf sharedSecret transcriptHash) ≠
      responderKey (keyMaterial hkdf sharedSecret transcriptHash))
    (h : FreeRun (step A) (established hkdf sharedSecret transcriptHash clients maximum) acts s) :
    s.Secure A ∧ ClientsAgree A := by
  have hkept := h.invariant (I := fun s => s.traffic.Kept fun side =>
      (sessionCiphers hkdf sharedSecret transcriptHash (side = .initiator) 0).1)
    (fun _ H hstep => kept_step hA H hstep) (kept_established hkeys)
  exact ⟨secure_of_kept hkept, clients_agree A⟩

/-- A cipher that hides nothing: the message with a tag of 16 bytes behind it. -/
def plainAead : Aead where
  enc _ _ _ message := some (message ++ List.replicate 16 0)
  dec log key nonce aad ciphertext :=
    let message := ciphertext.take (ciphertext.length - 16)
    if ⟨key, nonce, aad, message⟩ ∈ log ∧ message ++ List.replicate 16 0 = ciphertext then
      some message
    else none

theorem plainAead_ideal : plainAead.Ideal := by
  intro log key nonce aad ciphertext message
  constructor
  · intro h
    change (if _ then _ else _) = _ at h
    split at h
    next hopen =>
      cases h
      exact ⟨hopen.1, congrArg some hopen.2⟩
    · cases h
  · rintro ⟨hmem, henc⟩
    cases henc
    have htake : (message ++ List.replicate 16 0).take
        ((message ++ List.replicate 16 0).length - 16) = message := by
      rw [length_append, length_replicate, Nat.add_sub_cancel, take_left]
    change (if _ then _ else _) = _
    rw [htake, if_pos ⟨hmem, rfl⟩]

/-- Key material that is not the same twice. -/
def countingHkdf : Hkdf := fun _ _ _ length => (List.range length).map .ofNat

/-- Two records are sent by a web client. The desktop is presented with the first of them twice,
with the second one altered and as it was sent, and the web client with its own. -/
theorem records_secure_replayed : ∃ acts s,
    FreeRun (step plainAead) (established countingHkdf [] []
      (fun side => if side = .initiator then .web else .desktop) fun _ => 1000) acts s ∧
    (s.party .responder).accepted = [[1], [2]] ∧ (s.party .initiator).accepted = [] ∧
    s.Secure plainAead ∧ ClientsAgree plainAead := by
  let record (sequence : Nat) (byte : UInt8) : Bytes :=
    bigEndian 8 sequence ++ byte :: List.replicate 16 0
  let acts : List LinkAction := [.encrypt .initiator [1], .encrypt .initiator [2],
    .present .responder (record 0 1), .present .responder (record 0 1),
    .present .responder (record 1 3), .present .initiator (record 0 1),
    .present .responder (record 1 2)]
  have hrun : (exec (step plainAead) (established countingHkdf [] []
      (fun side => if side = .initiator then .web else .desktop) fun _ => 1000) acts).map (fun s =>
      ((s.party .responder).accepted, (s.party .initiator).accepted)) =
      some ([[1], [2]], []) := by
    decide +kernel
  obtain ⟨s, hs, hend⟩ := map_eq_some_iff.mp hrun
  obtain ⟨hresponder, hinitiator⟩ := Prod.mk.inj hend
  exact ⟨acts, s, .of_exec hs, hresponder, hinitiator,
    records_secure plainAead_ideal (by decide) (.of_exec hs)⟩

end Link
end Bluetalk.PeerProtocol

import Mathlib.Data.String.Basic
import Bluetalk.NetworkCore.Sessions

/-!
# Connections that two cores open to each other at one time

Two cores have connections between them, each opened by one end, and register them in any order.
An end that refuses or replaces a connection closes it, and the other end notices that later. Both
prefer the connections that the smaller peer id opened, and among those the one they registered
last; without one they keep the first. `kept` is that choice. Where it is the same at both ends, both
tables hold that connection and no other; and so they do when no end gives up a connection that
both have for one that the other end has already dropped.
-/

open List Option Function

namespace Bluetalk.NetworkCore

inductive End | a | b
  deriving DecidableEq

def End.other : End → End
  | .a => .b
  | .b => .a

@[simp] theorem End.other_other (e : End) : e.other.other = e := by cases e <;> rfl

theorem End.eq_or (e e' : End) : e' = e ∨ e' = e.other := by cases e <;> cases e' <;> simp [other]

structure Connection where
  id : String
  opener : End

/-- Two cores with the connections between them. A transcript hash is that of one connection. -/
structure Dials where
  peerId : End → String
  distinct : peerId .a ≠ peerId .b
  /-- the key under which an end keeps its sessions with the other -/
  device : End → String
  connections : List Connection
  ids : (connections.map (·.id)).Nodup
  /-- the sessions with other peers -/
  others : End → List PeerHandle
  apart : ∀ e, ∀ h ∈ others e, h.info.peerId ≠ peerId e.other

/-- The sessions of one end are known by the numbers of the connections. -/
structure EndState where
  core : ServiceState
  /-- in the order in which `spawn_session` was called -/
  registered : List Nat := []
  running : List Nat := []
  /-- refused, or the session ended -/
  ended : List Nat := []

namespace EndState

variable (t : EndState) (core : ServiceState) (k : Nat)

/-- `spawn_session` fails, and the connection is closed. -/
def refuse : EndState := { t with registered := t.registered ++ [k], ended := t.ended ++ [k] }

def run : EndState := { t with
  core
  registered := t.registered ++ [k]
  running := t.running ++ [k] }

@[simp] theorem registered_refuse : (t.refuse k).registered = t.registered ++ [k] := rfl

@[simp] theorem registered_run : (t.run core k).registered = t.registered ++ [k] := rfl

@[simp] theorem core_run : (t.run core k).core = core := rfl

/-- The session at a place of `running` is over. -/
def finish (i : Nat) : EndState := { t with
  core
  running := t.running.eraseIdx i
  ended := t.ended ++ [k] }

@[simp] theorem core_finish (i : Nat) : (t.finish core k i).core = core := rfl

end EndState

/-- The end has closed the connection, or asks its session to close. -/
def EndState.Dropped (t : EndState) (k : Nat) : Prop := k ∈ t.ended ∨ k ∈ t.core.closing

instance (t : EndState) (k : Nat) : Decidable (t.Dropped k) := inferInstanceAs (Decidable (_ ∨ _))

abbrev DialState := End → EndState

inductive DialAction
  | register (e : End) (k : Nat) (displayName remoteAddress deviceName : String) (now : Int)
  | finish (e : End) (i : Nat) (reason : String)

namespace ServiceState

/-- `sessions_for_peer` -/
def sessionsForPeer (s : ServiceState) (peerId : String) : List PeerHandle :=
  s.peers.filter fun h => h.info.peerId = peerId

end ServiceState

/-- The connection that an end keeps, from the order in which it registered them. -/
def keptOf (pref : Nat → Bool) (log : List Nat) : Option Nat :=
  (log.filter pref).getLast?.or log.head?

namespace Dials

variable (d : Dials)

def init : DialState := fun e => { core := { peers := d.others e } }

def smaller : End := if d.peerId .a < d.peerId .b then .a else .b

def pref (k : Nat) : Bool := (d.connections[k]?).any fun c => c.opener = d.smaller

def newSession (e : End) (k : Nat) (c : Connection) (displayName remoteAddress deviceName : String)
    (now : Int) : NewSession where
  session := ⟨d.peerId e.other, displayName, c.id⟩
  remoteAddress := remoteAddress
  direction := if c.opener = e then .outbound else .inbound
  deviceKey := d.device e
  deviceName := deviceName
  now := now
  close := k

/-- A handshake completes and the connection is registered, or a session ends that has to: its close
was requested, or the other end closed or refused the connection. -/
def step (s : DialState) : DialAction → Option DialState
  | .register e k displayName remoteAddress deviceName now =>
    (d.connections[k]?).bind fun c =>
      if k ∈ (s e).registered then none
      else
        match spawnSession (d.peerId e) (s e).core
          (d.newSession e k c displayName remoteAddress deviceName now) with
        | .error _ => some (update s e ((s e).refuse k))
        | .ok (core, _) => some (update s e ((s e).run core k))
  | .finish e i reason =>
    ((s e).running[i]?).bind fun k =>
      (d.connections[k]?).bind fun c =>
        if k ∈ (s e).core.closing ∨ k ∈ (s e.other).ended then
          some (update s e ((s e).finish
            (endSession (s e).core (d.peerId e.other) (d.device e) c.id reason).1 k i))
        else none

/-- The branch that goes wrong is not taken: where `spawn_session` finds a session, one of the two
connections goes, and when the other end still has it, then the other end has the one that stays. -/
def Sound (s : DialState) : DialAction → Prop
  | .register e k .. => ∀ h ∈ (s e).core.findSession (d.peerId e.other) (d.device e),
    if d.pref k then (s e.other).Dropped k → (s e.other).Dropped h.close
    else (s e.other).Dropped h.close → (s e.other).Dropped k
  | .finish .. => True

instance (s : DialState) : DecidablePred (d.Sound s) := fun a => by
  cases a <;> unfold Sound <;> infer_instance

def kept (s : DialState) (e : End) : Option Nat := keptOf d.pref (s e).registered

/-- Nothing is in flight: every connection is registered at both ends, and no session has to end. -/
def Quiet (s : DialState) : Prop :=
  ∀ e, (∀ k, k < d.connections.length → k ∈ (s e).registered) ∧
    ∀ k ∈ (s e).running, k ∉ (s e).core.closing ∧ k ∉ (s e.other).ended

/-- Both tables hold one session for the pair, that of connection `c`. -/
def BothHold (s : DialState) (c : Connection) : Prop :=
  ∀ e, ∃ h, (s e).core.sessionsForPeer (d.peerId e.other) = [h] ∧ h.connectionId = c.id

def Agrees (s : DialState) : Prop :=
  d.Quiet s → d.connections ≠ [] → ∃ c ∈ d.connections, d.BothHold s c

/-- Of two connections, one from each side, that of the smaller peer id is kept. -/
def SmallerWins (s : DialState) : Prop :=
  d.Quiet s → ∀ x y, d.connections.Perm [x, y] → x.opener = d.smaller → y.opener ≠ d.smaller →
    d.BothHold s x

/-! ## The table of one end -/

variable {d} {s s' : DialState} {e : End} {k j : Nat} {c : Connection} {core core' : ServiceState}
  {reason : String}

/-- The table holds the session of connection `k` with the other end, or none. -/
inductive Holds (d : Dials) (e : End) (core : ServiceState) : Option Nat → Prop
  | nothing (h : core.sessionsForPeer (d.peerId e.other) = []) : Holds d e core none
  | session {k c h} (hsessions : core.sessionsForPeer (d.peerId e.other) = [h])
      (hkey : h.key = (d.peerId e.other, d.device e)) (hclose : h.close = k)
      (hk : d.connections[k]? = some c) (hid : h.connectionId = c.id) : Holds d e core (some k)

end Dials

namespace ServiceState

variable {s : ServiceState} {p dev : String} {h : PeerHandle}

theorem put_filter {l : List PeerHandle} (hp : h.info.peerId = p) :
    (put PeerHandle.key h l).filter (fun x => x.info.peerId = p) =
      put PeerHandle.key h (l.filter fun x => x.info.peerId = p) := by
  induction l with
  | nil => simp [put, hp]
  | cons x l ih =>
    by_cases hkey : x.key = h.key
    · have hx : x.info.peerId = p := (congrArg Prod.fst hkey).trans hp
      simp [put, hkey, hx, hp]
    · by_cases hx : x.info.peerId = p <;> simp [put, hkey, hx, ih]

theorem sessionsForPeer_insert (hp : h.info.peerId = p) :
    (s.insert h).sessionsForPeer p = put PeerHandle.key h (s.sessionsForPeer p) := put_filter hp

theorem findSession_eq :
    s.findSession p dev = (s.sessionsForPeer p).find? fun h => h.key = (p, dev) := by
  rw [findSession, sessionsForPeer, find?_filter]
  congr 1
  funext x
  by_cases hx : x.key = (p, dev)
  · have hp : x.info.peerId = p := congrArg Prod.fst hx
    simp [hx, hp]
  · simp [hx]

theorem sessionsForPeer_remove : (s.remove p dev).sessionsForPeer p =
    (s.sessionsForPeer p).filter fun h => h.key ≠ (p, dev) := by
  rw [sessionsForPeer, remove, sessionsForPeer, List.filter_filter, List.filter_filter]
  refine List.filter_congr fun x _ => Bool.and_comm ..

end ServiceState

namespace Dials

variable {d : Dials} {s s' : DialState} {e : End} {k j : Nat} {c : Connection}
  {core core' : ServiceState} {reason displayName remoteAddress deviceName : String} {now : Int}
  {events : List NetworkEvent} {n : NewSession}

theorem eq_of_id {c' : Connection} (hk : d.connections[k]? = some c)
    (hj : d.connections[j]? = some c') (hid : c.id = c'.id) : k = j := by
  have hk' : (d.connections.map (·.id))[k]? = some c.id := by rw [getElem?_map, hk]; rfl
  have hj' : (d.connections.map (·.id))[j]? = some c.id := by rw [getElem?_map, hj, hid]; rfl
  obtain ⟨hlt, -⟩ := List.getElem?_eq_some_iff.mp hk'
  exact (List.getElem?_inj hlt d.ids).mp (hk'.trans hj'.symm)

theorem peerId_ne (d : Dials) (e : End) : d.peerId e.other ≠ d.peerId e := by
  cases e
  · exact d.distinct.symm
  · exact d.distinct

theorem direction_preferred (d : Dials) (e : End) (c : Connection) :
    (if c.opener = e then ConnectionDirection.outbound else .inbound) =
      preferred (d.peerId e) (d.peerId e.other) ↔ c.opener = d.smaller := by
  have hlt : d.peerId .b < d.peerId .a ↔ ¬d.peerId .a < d.peerId .b := by
    exact ⟨le_of_lt, fun h => lt_of_le_of_ne h d.distinct.symm⟩
  obtain ⟨id, opener⟩ := c
  by_cases h : d.peerId .a < d.peerId .b <;> cases e <;> cases opener <;>
    simp [preferred, smaller, End.other, hlt, h]

theorem Holds.spawn_none (H : d.Holds e core none) (hk : d.connections[k]? = some c)
    (hn : n = d.newSession e k c displayName remoteAddress deviceName now) :
    ∃ core' events, spawnSession (d.peerId e) core n = .ok (core', events) ∧
      d.Holds e core' (some k) ∧ core'.closing = core.closing := by
  cases H with
  | nothing h =>
  have hpeer : n.info.peerId = d.peerId e.other := by rw [hn]; rfl
  have hfind : core.findSession n.info.peerId n.deviceKey = none := by
    rw [ServiceState.findSession_eq, hpeer, h]
    rfl
  refine ⟨core.insert n.handle, registeredEvents (core.insert n.handle) n !core.hasPeer n.info.peerId,
    ?_, .session (h := n.handle) ?_ ?_ ?_ hk ?_, rfl⟩
  · have hself : n.session.remotePeerId ≠ d.peerId e := fun h => d.peerId_ne e (hpeer.symm.trans h)
    rw [spawnSession, if_neg hself, hfind]
  · rw [ServiceState.sessionsForPeer_insert hpeer, h]
    rfl
  · rw [hn]; rfl
  · rw [hn]; rfl
  · rw [hn]; rfl

theorem Holds.spawn_some (H : d.Holds e core (some j)) (hk : d.connections[k]? = some c)
    (hn : n = d.newSession e k c displayName remoteAddress deviceName now) :
    (c.opener = d.smaller ∧ ∃ core' events, spawnSession (d.peerId e) core n = .ok (core', events) ∧
      d.Holds e core' (some k) ∧ core'.closing = j :: core.closing) ∨
    (c.opener ≠ d.smaller ∧ ∃ error, spawnSession (d.peerId e) core n = .error error) := by
  cases H with
  | @session _ c' h hsessions hkey hclose hj hid =>
  have hpeer : n.info.peerId = d.peerId e.other := by rw [hn]; rfl
  have hfind : core.findSession n.info.peerId n.deviceKey = some h := by
    have hdevice : n.deviceKey = d.device e := by rw [hn]; rfl
    rw [ServiceState.findSession_eq, hpeer, hdevice, hsessions,
      find?_cons_of_pos (by simpa using hkey)]
  have hself : n.session.remotePeerId ≠ d.peerId e := fun h => d.peerId_ne e (hpeer.symm.trans h)
  have hdirection : n.direction = preferred (d.peerId e) n.info.peerId ↔ c.opener = d.smaller := by
    rw [hpeer, hn]
    exact d.direction_preferred e c
  rw [spawnSession, if_neg hself, hfind]
  simp only [hdirection]
  by_cases hpref : c.opener = d.smaller
  · refine .inl ⟨hpref, (core.requestClose h).insert n.handle, _, if_pos hpref,
      .session (h := n.handle) ?_ ?_ ?_ hk ?_, by rw [← hclose]; rfl⟩
    · have hsame : (core.requestClose h).sessionsForPeer (d.peerId e.other) = [h] := hsessions
      have hkey' : h.key = n.handle.key := by rw [hkey, hn]; rfl
      rw [ServiceState.sessionsForPeer_insert hpeer, hsame, put, if_pos hkey']
    · rw [hn]; rfl
    · rw [hn]; rfl
    · rw [hn]; rfl
  · exact .inr ⟨hpref, _, if_neg hpref⟩

theorem Holds.finish_self (H : d.Holds e core (some k)) (reason : String) (hk : d.connections[k]? = some c) :
    d.Holds e (endSession core (d.peerId e.other) (d.device e) c.id reason).1 none ∧
      (endSession core (d.peerId e.other) (d.device e) c.id reason).1.closing = core.closing := by
  cases H with
  | @session _ c' h hsessions hkey hclose hj hid =>
  have hfind : core.findSession (d.peerId e.other) (d.device e) = some h := by
    rw [ServiceState.findSession_eq, hsessions, find?_cons_of_pos (by simpa using hkey)]
  obtain rfl : c' = c := some.inj (hj.symm.trans hk)
  rw [endSession, hfind]
  simp only [hid, if_true]
  refine ⟨.nothing ?_, rfl⟩
  rw [ServiceState.sessionsForPeer_remove, hsessions]
  simp [hkey]

theorem Holds.finish_other {o : Option Nat} (H : d.Holds e core o) (reason : String) (hne : o ≠ some k)
    (hk : d.connections[k]? = some c) :
    (endSession core (d.peerId e.other) (d.device e) c.id reason).1 = core := by
  cases H with
  | nothing h =>
    have hfind : core.findSession (d.peerId e.other) (d.device e) = none := by
      rw [ServiceState.findSession_eq, h]
      rfl
    rw [endSession, hfind]
  | @session j c' h hsessions hkey hclose hj hid =>
    have hfind : core.findSession (d.peerId e.other) (d.device e) = some h := by
      rw [ServiceState.findSession_eq, hsessions, find?_cons_of_pos (by simpa using hkey)]
    have hother : h.connectionId ≠ c.id := fun heq =>
      hne (congrArg some (eq_of_id hj hk (hid.symm.trans heq)))
    rw [endSession, hfind]
    simp only [if_neg hother]

end Dials

/-! ## The connection that is kept -/

section
variable {pref : Nat → Bool} {log : List Nat} {k : Nat}

theorem keptOf_concat : keptOf pref (log ++ [k]) =
    if pref k then some k else (keptOf pref log).or (some k) := by
  rw [keptOf, keptOf, filter_append, head?_append]
  split
  next hk => simp [hk]
  next hk =>
  rw [List.filter_cons_of_neg hk, List.filter_nil, List.append_nil, Option.or_assoc]
  rfl

theorem mem_of_keptOf (h : keptOf pref log = some k) : k ∈ log := by
  rw [keptOf, or_eq_some_iff] at h
  rcases h with h | ⟨-, h⟩
  · exact mem_of_mem_filter (mem_of_getLast? h)
  · exact mem_of_head? h

theorem keptOf_isSome (pref : Nat → Bool) (h : k ∈ log) : (keptOf pref log).isSome := by
  rw [keptOf, isSome_or, Bool.or_eq_true]
  cases log with
  | nil => exact absurd h not_mem_nil
  | cons j log => exact .inr rfl

theorem keptOf_preferred (h : k ∈ log) (hk : pref k) : ∃ j, keptOf pref log = some j ∧ pref j := by
  have hmem : k ∈ log.filter pref := mem_filter.mpr ⟨h, hk⟩
  have hne : log.filter pref ≠ [] := ne_nil_of_mem hmem
  refine ⟨(log.filter pref).getLast hne, ?_, (mem_filter.mp (getLast_mem hne)).2⟩
  rw [keptOf, getLast?_eq_getLast_of_ne_nil hne]
  rfl

theorem keptOf_concat_ne {j : Nat} (hj : j ∈ log) (hne : keptOf pref log ≠ some j) (hkj : k ≠ j) :
    keptOf pref (log ++ [k]) ≠ some j := by
  rw [keptOf_concat]
  split
  · simpa using hkj
  · obtain ⟨i, hi⟩ := isSome_iff_exists.mp (keptOf_isSome pref hj)
    rw [hi] at hne ⊢
    exact hne

end

namespace Dials

variable {d : Dials} {s s' : DialState} {e : End} {k j : Nat} {c : Connection} {core : ServiceState}
  {t : EndState} {l : List Nat} {deviceName displayName remoteAddress : String} {now : Int}
  {as : List DialAction}

theorem dropped_append {p q : List Nat} : j ∈ p ++ [k] ∨ j ∈ q ↔ j = k ∨ j ∈ p ∨ j ∈ q := by
  rw [mem_append, mem_singleton, or_right_comm, or_comm]

theorem EndState.dropped_refuse : (t.refuse k).Dropped j ↔ j = k ∨ t.Dropped j :=
  dropped_append

theorem EndState.dropped_run :
    (t.run core k).Dropped j ↔ j ∈ t.ended ∨ j ∈ core.closing := Iff.rfl

/-- What is so at one end: what the table holds is registered and not dropped, everything else that
is registered is dropped, and the connection that the end would keep is in the table unless the
other end closed it. -/
structure EndInv (d : Dials) (e : End) (t : EndState) (dropped : List Nat) : Prop where
  slot : ∃ o, d.Holds e t.core o ∧ (∀ k ∈ o, k ∈ t.registered ∧ ¬t.Dropped k) ∧
    (∀ k ∈ t.registered, o = some k ∨ t.Dropped k) ∧
    ∀ k, keptOf d.pref t.registered = some k → o = some k ∨ k ∈ dropped
  closing : ∀ k ∈ t.core.closing, k ∈ t.registered ∧ keptOf d.pref t.registered ≠ some k
  ended : ∀ k ∈ t.ended, k ∈ t.registered
  running : ∀ k ∈ t.running, k ∈ t.registered

structure Inv (d : Dials) (s : DialState) : Prop where
  ends : ∀ e, EndInv d e (s e) (s e.other).ended
  /-- what is dropped at one end was not kept, at this end or at the other -/
  dropped : ∀ e, ∀ k ∈ (s e).ended, ∃ e', k ∈ (s e').registered ∧ d.kept s e' ≠ some k

theorem EndInv.mono {l' : List Nat} (H : EndInv d e t l)
    (h : ∀ k ∈ l, k ∈ l') : EndInv d e t l' := by
  obtain ⟨⟨o, hholds, ho, hrest, hkept⟩, hclosing, hended, hrunning⟩ := H
  exact ⟨⟨o, hholds, ho, hrest, fun k hk => (hkept k hk).imp_right (h k)⟩, hclosing, hended,
    hrunning⟩

theorem EndInv.registered_of_dropped (H : EndInv d e t l)
    (hk : t.Dropped k) : k ∈ t.registered :=
  hk.elim (H.ended k) fun hk => (H.closing k hk).1

theorem Inv.update (H : d.Inv s) (hself : EndInv d e t (s e.other).ended)
    (hended : ∀ k ∈ (s e).ended, k ∈ t.ended)
    (hkept : ∀ k ∈ (s e).registered, d.kept s e ≠ some k →
      k ∈ t.registered ∧ keptOf d.pref t.registered ≠ some k)
    (hdropped : ∀ k ∈ t.ended, k ∈ (s e).ended ∨ k ∈ (s e.other).ended ∨
      k ∈ t.registered ∧ keptOf d.pref t.registered ≠ some k) :
    d.Inv (Function.update s e t) := by
  have hother : Function.update s e t e.other = s e.other :=
    Function.update_of_ne (by cases e <;> simp [End.other]) ..
  have hdrop : ∀ e', ∀ k ∈ (s e').ended, ∃ e'', k ∈ (Function.update s e t e'').registered ∧
      d.kept (Function.update s e t) e'' ≠ some k := by
    intro e' k hk
    obtain ⟨e'', hreg, hne⟩ := H.dropped e' k hk
    refine ⟨e'', ?_⟩
    rcases End.eq_or e e'' with rfl | rfl
    · rw [kept, update_self]
      exact hkept k hreg hne
    · rw [kept, hother]
      exact ⟨hreg, hne⟩
  constructor
  · intro e'
    rcases End.eq_or e e' with rfl | rfl
    · rw [hother, update_self]
      exact hself
    rw [hother, End.other_other, update_self]
    have hends := H.ends e.other
    rw [End.other_other] at hends
    exact hends.mono hended
  · intro e' k hk
    rcases End.eq_or e e' with rfl | rfl
    · rw [update_self] at hk
      rcases hdropped k hk with hk | hk | hk
      · exact hdrop e' k hk
      · exact hdrop e'.other k hk
      · refine ⟨e', ?_⟩
        rw [kept, update_self]
        exact hk
    · rw [hother] at hk
      exact hdrop e.other k hk

theorem kept_stable {log : List Nat} (hnew : k ∉ log) (hj : j ∈ log)
    (hne : keptOf d.pref log ≠ some j) :
    j ∈ log ++ [k] ∧ keptOf d.pref (log ++ [k]) ≠ some j :=
  ⟨mem_append_left _ hj, keptOf_concat_ne hj hne fun h => hnew (h ▸ hj)⟩

theorem Inv.init (d : Dials) : d.Inv d.init where
  ends e := by
    refine ⟨⟨none, .nothing ?_, by simp, fun k hk => absurd hk not_mem_nil, fun k hk => ?_⟩,
      fun k hk => absurd hk not_mem_nil, fun k hk => absurd hk not_mem_nil,
      fun k hk => absurd hk not_mem_nil⟩
    · rw [ServiceState.sessionsForPeer, filter_eq_nil_iff]
      exact fun h hh => by simpa using d.apart e h hh
    · simp [Dials.init, keptOf] at hk
  dropped _ _ hk := absurd hk not_mem_nil

theorem pref_iff (hk : d.connections[k]? = some c) : d.pref k ↔ c.opener = d.smaller := by
  simp [pref, hk]

theorem Holds.find (H : d.Holds e core (some j)) : ∃ h,
    core.findSession (d.peerId e.other) (d.device e) = some h ∧ h.close = j ∧
      j < d.connections.length := by
  cases H with
  | @session _ c' h hsessions hkey hclose hj hid =>
  refine ⟨h, ?_, hclose, (List.getElem?_eq_some_iff.mp hj).1⟩
  rw [ServiceState.findSession_eq, hsessions, List.find?_cons_of_pos (by simpa using hkey)]

theorem Holds.find_none (H : d.Holds e core none) :
    core.findSession (d.peerId e.other) (d.device e) = none := by
  cases H with
  | nothing h =>
  rw [ServiceState.findSession_eq, h]
  rfl

/-- The registration of `k` drops `i`, which is `k` or the connection that the table held. -/
def Gives (d : Dials) (e : End) (t : EndState) (k i : Nat) : Prop :=
  ∃ h, t.core.findSession (d.peerId e.other) (d.device e) = some h ∧
    h.close < d.connections.length ∧ ¬t.Dropped h.close ∧ i = if d.pref k then h.close else k

theorem Inv.register (H : d.Inv s) (hk : d.connections[k]? = some c)
    (hnew : k ∉ (s e).registered) {n : NewSession} (hn : n = d.newSession e k c displayName remoteAddress deviceName now) :
    ∃ t, (match spawnSession (d.peerId e) (s e).core n with
        | .error _ => t = (s e).refuse k
        | .ok (core, _) => t = (s e).run core k) ∧
      d.Inv (Function.update s e t) ∧
      ∀ i, t.Dropped i → (s e).Dropped i ∨ d.Gives e (s e) k i := by
  obtain ⟨⟨o, hholds, ho, hrest, hkept⟩, hclosing, hended, hrunning⟩ := H.ends e
  have hdropped {j} (h : (s e).Dropped j) : j ∈ (s e).registered :=
    (H.ends e).registered_of_dropped h
  have hlast : ∀ l, k ∈ l ++ [k] := fun l => List.mem_append_right l List.mem_cons_self
  have hended' : ∀ j ∈ (s e).ended, j ∈ (s e).registered ++ [k] := fun j hj =>
    List.mem_append_left _ (hended j hj)
  have hrunning' : ∀ j ∈ (s e).running ++ [k], j ∈ (s e).registered ++ [k] := fun j hj =>
    (List.mem_append.mp hj).elim (fun hj => List.mem_append_left _ (hrunning j hj))
      (List.mem_append_right _)
  cases o with
  | none =>
    obtain ⟨core, events, hspawn, hholds', hclosing'⟩ := hholds.spawn_none hk hn
    rw [hspawn]
    have hsame : ∀ j, ((s e).run core k).Dropped j ↔ (s e).Dropped j := by
      intro j
      rw [EndState.dropped_run, hclosing']
      rfl
    refine ⟨_, rfl, H.update ⟨⟨some k, hholds', ?_, ?_, ?_⟩, ?_, hended', hrunning'⟩ (fun _ => id)
      (fun j hj hne => kept_stable hnew hj hne) (fun j hj => .inl hj), fun i hi => .inl ?_⟩
    · rintro _ ⟨⟩
      exact ⟨hlast _, fun h => hnew (hdropped ((hsame k).mp h))⟩
    · intro j hj
      rcases List.mem_append.mp hj with hj | hj
      · exact .inr ((hsame j).mpr ((hrest j hj).resolve_left (by simp)))
      · exact .inl (congrArg some (List.mem_singleton.mp hj).symm)
    · intro j hj
      rw [EndState.registered_run, keptOf_concat] at hj
      split at hj
      · exact .inl hj
      rcases Option.or_eq_some_iff.mp hj with hj | ⟨-, hj⟩
      · -- what was kept before is gone, so the other end dropped it
        exact .inr ((hkept j hj).resolve_left (by simp))
      · exact .inl hj
    · rw [EndState.core_run, hclosing']
      exact fun j hj => kept_stable hnew (hclosing j hj).1 (hclosing j hj).2
    · exact (hsame i).mp hi
  | some i =>
    obtain ⟨hi, hidropped⟩ := ho i rfl
    obtain ⟨h, hfind, hclose, hlt⟩ := hholds.find
    have hki : k ≠ i := fun h => hnew (h ▸ hi)
    rcases hholds.spawn_some hk hn with
      ⟨hpref, core, events, hspawn, hholds', hclosing'⟩ | ⟨hpref, error, hspawn⟩
    · have hself : keptOf d.pref ((s e).registered ++ [k]) = some k := by
        rw [keptOf_concat, if_pos ((pref_iff hk).mpr hpref)]
      have hadds : ∀ j, ((s e).run core k).Dropped j ↔ j = i ∨ (s e).Dropped j := by
        intro j
        rw [EndState.dropped_run, hclosing', List.mem_cons, or_left_comm]
        rfl
      rw [hspawn]
      refine ⟨_, rfl, H.update ⟨⟨some k, hholds', ?_, ?_, ?_⟩, ?_, hended', hrunning'⟩ (fun _ => id)
        (fun j hj hne => kept_stable hnew hj hne) (fun j hj => .inl hj), fun j hj => ?_⟩
      · rintro _ ⟨⟩
        rw [hadds, not_or]
        exact ⟨hlast _, hki, fun h => hnew (hdropped h)⟩
      · intro j hj
        rw [hadds]
        rcases List.mem_append.mp hj with hj | hj
        · exact .inr ((hrest j hj).imp_left fun h => (Option.some.inj h).symm)
        · exact .inl (congrArg some (List.mem_singleton.mp hj).symm)
      · exact fun j hj => .inl (hself.symm.trans hj)
      · rw [EndState.core_run, hclosing']
        intro j hj
        rcases List.mem_cons.mp hj with rfl | hj
        · refine ⟨List.mem_append_left _ hi, fun h => hki ?_⟩
          exact Option.some.inj (hself.symm.trans h)
        · exact kept_stable hnew (hclosing j hj).1 (hclosing j hj).2
      · rcases (hadds j).mp hj with rfl | hj
        · refine .inr ⟨h, hfind, hclose ▸ hlt, hclose ▸ hidropped, ?_⟩
          rw [if_pos ((pref_iff hk).mpr hpref), hclose]
        · exact .inl hj
    · -- the connection is refused: what was kept before still is
      have hpref' : ¬d.pref k = true := fun h => hpref ((pref_iff hk).mp h)
      have hself : keptOf d.pref ((s e).registered ++ [k]) = keptOf d.pref (s e).registered := by
        rw [keptOf_concat, if_neg hpref']
        obtain ⟨j, hj⟩ := Option.isSome_iff_exists.mp (keptOf_isSome d.pref hi)
        rw [hj]
        rfl
      rw [hspawn]
      refine ⟨_, rfl, H.update ⟨⟨some i, hholds, ?_, ?_, ?_⟩, ?_, ?_, ?_⟩
        (fun j hj => List.mem_append_left _ hj) (fun j hj hne => kept_stable hnew hj hne) ?_, ?_⟩
      · rintro _ ⟨⟩
        rw [EndState.dropped_refuse, not_or]
        exact ⟨List.mem_append_left _ hi, hki.symm, hidropped⟩
      · intro j hj
        rw [EndState.dropped_refuse]
        rcases List.mem_append.mp hj with hj | hj
        · exact (hrest j hj).imp_right .inr
        · exact .inr (.inl (List.mem_singleton.mp hj))
      · rw [EndState.registered_refuse, hself]
        exact hkept
      · exact fun j hj => kept_stable hnew (hclosing j hj).1 (hclosing j hj).2
      · exact fun j hj => (List.mem_append.mp hj).elim (hended' j) (List.mem_append_right _)
      · exact fun j hj => List.mem_append_left _ (hrunning j hj)
      · intro j hj
        rcases List.mem_append.mp hj with hj | hj
        · exact .inl hj
        · obtain rfl := List.mem_singleton.mp hj
          refine .inr (.inr ⟨hlast _, fun h => hnew ?_⟩)
          exact mem_of_keptOf (hself.symm.trans h)
      · intro j hj
        rcases EndState.dropped_refuse.mp hj with rfl | hj
        · refine .inr ⟨h, hfind, hclose ▸ hlt, hclose ▸ hidropped, ?_⟩
          rw [if_neg hpref']
        · exact .inl hj

theorem Inv.finish (H : d.Inv s) (hk : d.connections[k]? = some c) (reason : String)
    {i : Nat} (hrun : k ∈ (s e).running)
    (hdue : k ∈ (s e).core.closing ∨ k ∈ (s e.other).ended) (ht : t = (s e).finish
      (endSession (s e).core (d.peerId e.other) (d.device e) c.id reason).1 k i) :
    d.Inv (Function.update s e t) ∧ ∀ i, t.Dropped i → i = k ∨ (s e).Dropped i := by
  obtain ⟨⟨o, hholds, ho, hrest, hkept⟩, hclosing, hended, hrunning⟩ := H.ends e
  have hreg := hrunning k hrun
  have hdropped : ∀ j ∈ (s e).ended ++ [k], j ∈ (s e).ended ∨ j ∈ (s e.other).ended ∨
      j ∈ (s e).registered ∧ keptOf d.pref (s e).registered ≠ some j := by
    intro j hj
    rcases List.mem_append.mp hj with hj | hj
    · exact .inl hj
    · obtain rfl := List.mem_singleton.mp hj
      exact .inr (hdue.symm.imp_right fun h => hclosing j h)
  have hended' : ∀ j ∈ (s e).ended ++ [k], j ∈ (s e).registered := by
    intro j hj
    rcases List.mem_append.mp hj with hj | hj
    · exact hended j hj
    · exact List.mem_singleton.mp hj ▸ hreg
  have hclosing' : t.core.closing = (s e).core.closing := by
    by_cases hself : o = some k
    · subst hself
      rw [ht]
      exact (hholds.finish_self reason hk).2
    · rw [ht]
      exact congrArg ServiceState.closing (hholds.finish_other reason hself hk)
  have hadds : ∀ j, t.Dropped j ↔ j = k ∨ (s e).Dropped j := by
    intro j
    rw [EndState.Dropped, hclosing', ht]
    exact dropped_append
  refine ⟨H.update ⟨?_, ?_, ?_, ?_⟩ ?_ ?_ ?_, fun j => (hadds j).mp⟩
  · by_cases hself : o = some k
    · subst hself
      have hholds' := (hholds.finish_self reason hk).1
      refine ⟨none, by rwa [ht], by simp, fun j hj => .inr ?_, fun j hj => .inr ?_⟩
      · rw [hadds]
        rw [ht] at hj
        exact (hrest j hj).imp_left fun h => (Option.some.inj h).symm
      rw [ht] at hj
      rcases hkept j hj with heq | hj
      · -- the session in the table was not asked to close
        exact Option.some.inj heq ▸ hdue.resolve_left fun h => (ho k rfl).2 (.inr h)
      · exact hj
    · have hcore := hholds.finish_other reason hself hk
      refine ⟨o, by rw [ht, EndState.core_finish, hcore]; exact hholds, fun j hj => ?_, fun j hj => ?_, fun j hj => ?_⟩
      · rw [hadds, not_or, ht]
        exact ⟨(ho j hj).1, fun h => hself (h ▸ hj), (ho j hj).2⟩
      · rw [ht] at hj
        rw [hadds]
        exact (hrest j hj).imp_right .inr
      · rw [ht] at hj
        exact hkept j hj
  · rw [hclosing', ht]
    exact hclosing
  · rw [ht]
    exact hended'
  · rw [ht]
    exact fun j hj => hrunning j (List.mem_of_mem_eraseIdx hj)
  · rw [ht]
    exact fun j hj => List.mem_append_left _ hj
  · rw [ht]
    exact fun j hj hne => ⟨hj, hne⟩
  · rw [ht]
    exact hdropped

/-- Neither end has dropped some connection. -/
def Live (d : Dials) (s : DialState) : Prop :=
  ∃ k < d.connections.length, ∀ e, ¬(s e).Dropped k

theorem Live.update (H : d.Live s) (h : ∀ i < d.connections.length,
    (∀ e, ¬(s e).Dropped i) → t.Dropped i →
      ∃ j < d.connections.length, ¬t.Dropped j ∧ ¬(s e.other).Dropped j) :
    d.Live (update s e t) := by
  have hother : Function.update s e t e.other = s e.other :=
    Function.update_of_ne (by cases e <;> simp [End.other]) ..
  have hends : ∀ j < d.connections.length, ¬t.Dropped j → ¬(s e.other).Dropped j →
      d.Live (Function.update s e t) := by
    intro j hj hself hoth
    refine ⟨j, hj, fun e' => ?_⟩
    rcases End.eq_or e e' with rfl | rfl
    · rwa [update_self]
    · rwa [hother]
  obtain ⟨i, hi, hlive⟩ := H
  by_cases hdropped : t.Dropped i
  · obtain ⟨j, hj, hself, hoth⟩ := h i hi hlive hdropped
    exact hends j hj hself hoth
  · exact hends i hi hdropped (hlive _)

theorem Live.register (H : d.Live s) (hk : d.connections[k]? = some c)
    (hfresh : ¬(s e).Dropped k) (hsound : d.Sound s (.register e k displayName remoteAddress deviceName now)) (ht : ∀ i, t.Dropped i → (s e).Dropped i ∨ d.Gives e (s e) k i)
    (hnot : ∀ h, (s e).core.findSession (d.peerId e.other) (d.device e) = some h → h.close ≠ k) :
    d.Live (Function.update s e t) := by
  have hklt := (List.getElem?_eq_some_iff.mp hk).1
  refine H.update fun i hi hlive hdropped => ?_
  obtain ⟨h, hfind, hlt, hhas, hgives⟩ := (ht i hdropped).resolve_left (hlive e)
  have hsound := hsound h hfind
  -- the table held one session, so nothing else is dropped
  have honly : ∀ j, t.Dropped j → ¬(s e).Dropped j → j = i := by
    intro j hj hjnot
    obtain ⟨h', hfind', -, -, hgives'⟩ := (ht j hj).resolve_left hjnot
    obtain rfl : h = h' := some.inj (hfind.symm.trans hfind')
    exact hgives'.trans hgives.symm
  split at hgives
  next hpref =>
    rw [if_pos hpref] at hsound
    refine ⟨k, hklt, fun hk => ?_, fun hk => hlive e.other (hgives ▸ hsound hk)⟩
    exact hnot h hfind (hgives.symm.trans (honly k hk hfresh).symm)
  next hpref =>
  rw [if_neg hpref] at hsound
  refine ⟨h.close, hlt, fun hclose => ?_, fun hclose => hlive e.other (hgives ▸ hsound hclose)⟩
  exact hnot h hfind ((honly h.close hclose hhas).trans hgives)

theorem Inv.step {a : DialAction} (H : d.Inv s) (h : d.step s a = some s') :
    d.Inv s' ∧ (d.Sound s a → d.Live s → d.Live s') := by
  cases a with
  | register e k displayName remoteAddress deviceName now =>
    obtain ⟨c, hk, h⟩ := Option.bind_eq_some_iff.mp h
    split at h
    · cases h
    next hnew =>
    have hdropped {j} (h : (s e).Dropped j) : j ∈ (s e).registered :=
      (H.ends e).registered_of_dropped h
    have hnot : ∀ p, (s e).core.findSession (d.peerId e.other) (d.device e) = some p →
        p.close ≠ k := by
      obtain ⟨o, hholds, ho, -, -⟩ := (H.ends e).slot
      intro p hfind hpk
      cases o with
      | none => exact absurd (hholds.find_none.symm.trans hfind) (by simp)
      | some j =>
        obtain ⟨p', hfind', hclose, -⟩ := hholds.find
        obtain rfl : p = p' := Option.some.inj (hfind.symm.trans hfind')
        exact hnew (hpk ▸ hclose ▸ (ho j rfl).1)
    obtain ⟨t, ht, H', hgives⟩ :=
      H.register (n := d.newSession e k c displayName remoteAddress deviceName now) hk hnew rfl
    have hs' : s' = Function.update s e t := by
      revert h ht
      cases spawnSession (d.peerId e) (s e).core
        (d.newSession e k c displayName remoteAddress deviceName now) with
      | error | ok r => exact fun h ht => ht ▸ (Option.some.inj h).symm
    subst hs'
    exact ⟨H', fun hsound H =>
      H.register hk (fun h => hnew (hdropped h)) hsound hgives hnot⟩
  | finish e i reason =>
    obtain ⟨k, hrun, h⟩ := Option.bind_eq_some_iff.mp h
    obtain ⟨c, hk, h⟩ := Option.bind_eq_some_iff.mp h
    split at h
    next hdue =>
      cases h
      obtain ⟨H', hdropped⟩ := H.finish hk reason (List.mem_of_getElem? hrun) hdue rfl
      refine ⟨H', fun _ H => H.update fun j hj hlive hdrop => ?_⟩
      -- the session that ends was dropped before
      obtain rfl := (hdropped j hdrop).resolve_right (hlive e)
      rcases hdue with hdue | hdue
      · exact absurd (.inr hdue) (hlive e)
      · exact absurd (.inl hdue) (hlive e.other)
    next => cases h

/-! ## When nothing is in flight -/

theorem Inv.of_run (h : FreeRun d.step d.init as s) : d.Inv s :=
  h.invariant (fun _ H hstep => (Inv.step H hstep).1) (Inv.init d)

/-- In every run each end has at most one session for the pair, and drops every other one. -/
theorem dials_sound {as : List DialAction} : Always d.step d.Inv d.init as :=
  Run.always (fun H h => (Inv.step H h).1) (Inv.init d)

theorem Live.of_run (h : Run d.step d.Sound d.init as s)
    (hne : d.connections ≠ []) : d.Live s := by
  have hinit : d.Live d.init :=
    ⟨0, length_pos_of_ne_nil hne, fun e h => by rcases h with h | h <;> cases h⟩
  refine (h.invariant (I := fun s => d.Inv s ∧ d.Live s) ?_ ⟨Inv.init d, hinit⟩).2
  exact fun hsound H hstep => ⟨(H.1.step hstep).1, (H.1.step hstep).2 hsound H.2⟩

theorem Inv.bothHold (H : d.Inv s) (hreg : ∀ e, k ∈ (s e).registered)
    (hlive : ∀ e, ¬(s e).Dropped k) : ∃ c, d.connections[k]? = some c ∧ d.BothHold s c := by
  have hends : ∀ e, d.Holds e (s e).core (some k) := by
    intro e
    obtain ⟨o, hholds, -, hrest, -⟩ := (H.ends e).slot
    obtain rfl := (hrest k (hreg e)).resolve_right (hlive e)
    exact hholds
  obtain ⟨c, hk⟩ : ∃ c, d.connections[k]? = some c := by
    cases hends .a with
    | @session _ c h hsessions hkey hclose hk hid => exact ⟨c, hk⟩
  refine ⟨c, hk, fun e => ?_⟩
  cases hends e with
  | @session _ c' h hsessions hkey hclose hk' hid =>
  obtain rfl : c' = c := some.inj (hk'.symm.trans hk)
  exact ⟨h, hsessions, hid⟩

theorem Inv.bothHold_of_kept (H : d.Inv s) (hkept : ∀ e, d.kept s e = some k) :
    ∃ c, d.connections[k]? = some c ∧ d.BothHold s c := by
  refine H.bothHold (fun e => mem_of_keptOf (hkept e)) fun e hdropped => ?_
  rcases hdropped with hdropped | hdropped
  · obtain ⟨e', -, hne⟩ := H.dropped e k hdropped
    exact hne (hkept e')
  · exact ((H.ends e).closing k hdropped).2 (hkept e)

theorem agrees_of_sound (h : Run d.step d.Sound d.init as s) :
    d.Agrees s := by
  intro hquiet hne
  obtain ⟨k, hk, hlive⟩ := Live.of_run h hne
  obtain ⟨c, hc, hhold⟩ := (Inv.of_run h.free).bothHold (fun e => (hquiet e).1 k hk) hlive
  exact ⟨c, mem_of_getElem? hc, hhold⟩

theorem smallerWins (h : FreeRun d.step d.init as s) : d.SmallerWins s := by
  intro hquiet x y hperm hx hy
  obtain ⟨i, hi⟩ := mem_iff_getElem?.mp (hperm.mem_iff.mpr (mem_cons_self (a := x)))
  have hpref : d.pref i := (pref_iff hi).mpr hx
  have honly : ∀ j, d.pref j → j = i := by
    intro j hj
    obtain ⟨c, hc, hopener⟩ : ∃ c, d.connections[j]? = some c ∧ c.opener = d.smaller := by
      simpa [pref, Option.any_eq_true] using hj
    have hmem := hperm.mem_iff.mp (List.mem_of_getElem? hc)
    simp only [mem_cons, not_mem_nil, or_false] at hmem
    rcases hmem with rfl | rfl
    · exact eq_of_id hc hi rfl
    · exact absurd hopener hy
  have hkept : ∀ e, d.kept s e = some i := by
    intro e
    have hreg := (hquiet e).1 i (List.getElem?_eq_some_iff.mp hi).1
    obtain ⟨j, hj, hjpref⟩ := keptOf_preferred hreg hpref
    exact honly j hjpref ▸ hj
  obtain ⟨c, hc, hhold⟩ := (Inv.of_run h).bothHold_of_kept hkept
  obtain rfl : x = c := some.inj (hi.symm.trans hc)
  exact hhold

/-- As long as no end gives up a connection that both have for one that the other end has dropped,
both tables come to hold the same one connection. With one from each side it is that of the smaller
peer id in every run. -/
theorem connect_agrees (d : Dials) :
    (∀ as s, Run d.step d.Sound d.init as s → d.Agrees s) ∧
      ∀ as s, FreeRun d.step d.init as s → d.SmallerWins s :=
  ⟨fun _ _ h => agrees_of_sound h, fun _ _ h => smallerWins h⟩

/-- Two cores with the given connections between them and no other session. -/
def between (connections : List Connection) (ids : (connections.map (·.id)).Nodup) : Dials where
  peerId
    | .a => "alice"
    | .b => "bob"
  distinct := by decide
  device _ := "phone"
  connections
  ids
  others _ := []
  apart _ _ h := absurd h not_mem_nil

def registers (e : End) (k : Nat) : DialAction := .register e k "" "" "" 0

/-- Each side has dialled, and each registers its own connection first. -/
theorem connect_agrees_crossed : ∃ d as s, Run (Dials.step d) d.Sound d.init as s ∧ d.Quiet s ∧
    (∃ c ∈ d.connections, d.BothHold s c) ∧ d.SmallerWins s := by
  let d := between [⟨"0", .a⟩, ⟨"1", .b⟩] (by decide)
  let acts := [registers .a 0, registers .b 1, registers .a 1, registers .b 0, .finish .b 0 ""]
  have hrun : (exec d.step d.init acts).any fun s => decide
      ((∀ e ∈ [End.a, .b], (∀ k, k < d.connections.length → k ∈ (s e).registered) ∧
        ∀ k ∈ (s e).running, k ∉ (s e).core.closing ∧ k ∉ (s e.other).ended)) := by
    decide +kernel
  have hok : allowed d.step (fun s a => decide (d.Sound s a)) d.init acts = true := by
    decide +kernel
  obtain ⟨s, hs, hquiet⟩ := (Option.any_eq_true ..).mp hrun
  have hquiet : d.Quiet s := fun e => of_decide_eq_true hquiet e (by cases e <;> decide)
  have hsound : Run d.step d.Sound d.init acts s :=
    (Run.of_allowed hok hs).mono fun _ _ h => of_decide_eq_true h
  exact ⟨d, acts, s, hsound, hquiet, (connect_agrees d).1 acts s hsound hquiet (by decide),
    (connect_agrees d).2 acts s hsound.free⟩

/-- Two connections of the same side, registered in either order: each end drops the one that the
other end keeps. -/
theorem both_dropped : ¬∀ d as s, FreeRun (Dials.step d) d.init as s → d.Agrees s := by
  intro h
  let d := between [⟨"0", .a⟩, ⟨"1", .a⟩] (by decide)
  let acts := [registers .a 0, registers .a 1, registers .b 1, registers .b 0,
    .finish .a 0 "", .finish .b 0 "", .finish .a 0 "", .finish .b 0 ""]
  have hrun : (exec d.step d.init acts).any fun s => decide
      ((∀ e ∈ [End.a, .b], ((∀ k, k < d.connections.length → k ∈ (s e).registered) ∧
        ∀ k ∈ (s e).running, k ∉ (s e).core.closing ∧ k ∉ (s e.other).ended)) ∧
        (s .a).core.sessionsForPeer "bob" = []) := by
    decide +kernel
  obtain ⟨s, hs, hend⟩ := (Option.any_eq_true ..).mp hrun
  obtain ⟨hquiet, hnone⟩ := of_decide_eq_true hend
  have hquiet : d.Quiet s := fun e => hquiet e (by cases e <;> decide)
  obtain ⟨c, -, hhold⟩ := h d acts s (Run.of_exec hs) hquiet (by decide)
  obtain ⟨p, hp, -⟩ := hhold .a
  exact absurd (hnone.symm.trans hp) (by simp)

end Dials

end Bluetalk.NetworkCore

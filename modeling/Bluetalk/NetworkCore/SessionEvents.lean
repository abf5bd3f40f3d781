import Mathlib.Data.List.Chain
import Bluetalk.NetworkCore.Sessions

/-!
# The connects and disconnects that a core emits

Sessions start and end in tasks of their own. Each changes the table under the lock and emits what
it changed afterwards, so the events of two tasks may be emitted in another order than the table
changed. `Told` is what the events, those still to be emitted included, say of each peer.
-/

open List Option

namespace Bluetalk.NetworkCore

/-- A running `run_session`. -/
structure Session where
  peerId : String
  deviceKey : String
  connectionId : String
  deriving DecidableEq

inductive Effect
  | emit (event : NetworkEvent)
  /-- `tokio::spawn(run_session(…))` -/
  | run (session : Session)
  deriving DecidableEq

structure Core where
  table : ServiceState := {}
  sessions : List Session := []
  /-- the tasks between a change of the table and their last event, the oldest first -/
  tasks : List (Task Unit Effect) := []
  emitted : List NetworkEvent := []

inductive CoreAction
  | start (n : NewSession)
  | perform (k : Nat)
  /-- the session at `i` ends, for whatever reason -/
  | finish (i : Nat) (reason : String)

/-- The events among effects. -/
def eventsOf (es : List Effect) : List NetworkEvent :=
  es.filterMap fun
    | .emit event => some event
    | .run _ => none

/-- The peer that an event tells a connect or a disconnect of. -/
def toldPeer : NetworkEvent → Option String
  | .peerConnected info => some info.peerId
  | .peerDisconnected peerId _ => some peerId
  | .peerDevices _ _ => none

namespace Core

def performEffect (s : Core) : Effect → Core
  | .emit event => { s with emitted := s.emitted ++ [event] }
  | .run session => { s with sessions := s.sessions ++ [session] }

def step (own : String) (s : Core) : CoreAction → Option Core
  | .start n =>
    match spawnSession own s.table n with
    | .error _ => some s
    | .ok (table, events) => some { s with
        table
        tasks := Task.spawn s.tasks none
          (events.map .emit ++ [.run ⟨n.info.peerId, n.deviceKey, n.session.connectionId⟩]) }
  | .perform k =>
    match s.tasks[k]? with
    | some ⟨o, e :: rest⟩ => some ({ s with tasks := Task.advance s.tasks k o rest }.performEffect e)
    | _ => none
  | .finish i reason =>
    (s.sessions[i]?).map fun session =>
      let result := endSession s.table session.peerId session.deviceKey session.connectionId reason
      { s with
        table := result.1
        sessions := s.sessions.eraseIdx i
        tasks := Task.spawn s.tasks none (result.2.map .emit) }

/-- The connects and disconnects of every peer alternate from a connect on, and when no task has
anything to emit the last of them is a connect exactly where the table has a session of the peer. -/
structure Lawful (s : Core) : Prop where
  alternate : ∀ p, (false :: peerEvents p s.emitted).IsChain (· ≠ ·)
  quiet : s.tasks = [] →
    ∀ p, (peerEvents p s.emitted).getLast? = some true ↔ s.table.hasPeer p = true

/-- A connect or disconnect is emitted after those of the peer that belong to earlier changes. -/
def inTurn (s : Core) : CoreAction → Bool
  | .perform k =>
    match s.tasks[k]? with
    | some ⟨_, .emit event :: _⟩ => (toldPeer event).all fun p =>
        (peerEvents p (eventsOf (Task.allTodo (s.tasks.take k)))).isEmpty
    | _ => true
  | _ => true

variable {own p : String} {s s' : Core} {events : List NetworkEvent}

@[simp] theorem eventsOf_append {es es' : List Effect} :
    eventsOf (es ++ es') = eventsOf es ++ eventsOf es' := filterMap_append

@[simp] theorem eventsOf_emit : eventsOf (events.map .emit) = events := by
  simp [eventsOf, filterMap_map]

/-- What a peer's events say, those still to be emitted included. -/
def told (s : Core) (p : String) : List Bool :=
  peerEvents p s.emitted ++ peerEvents p (eventsOf (Task.allTodo s.tasks))

structure Told (s : Core) : Prop where
  alternate : ∀ p, (false :: s.told p).IsChain (· ≠ ·)
  last : ∀ p, (s.told p).getLastD false = s.table.hasPeer p

theorem isChain_concat {l : List Bool} {b : Bool} :
    (false :: (l ++ [b])).IsChain (· ≠ ·) ↔ (false :: l).IsChain (· ≠ ·) ∧ l.getLastD false ≠ b := by
  rw [← cons_append, isChain_append, getLast?_cons]
  simp [getLastD_eq_getLast?]

theorem Told.change (H : s.Told) (htable : Tells s.table s'.table events)
    (htold : ∀ p, s'.told p = s.told p ++ peerEvents p events) : s'.Told := by
  constructor
  · intro p
    rw [htold, htable]
    split
    · rw [append_nil]
      exact H.alternate p
    next hne => exact isChain_concat.mpr ⟨H.alternate p, by rw [H.last]; exact Ne.symm hne⟩
  intro p
  rw [htold, htable]
  split
  next heq => rw [append_nil, H.last, heq]
  next => simp

theorem told_perform {k : Nat} {o : Option Unit} {e : Effect} {rest : List Effect}
    (hk : s.tasks[k]? = some ⟨o, e :: rest⟩) (hturn : s.inTurn (.perform k)) :
    ({ s with tasks := Task.advance s.tasks k o rest }.performEffect e).told p = s.told p := by
  have hbefore : s.told p = peerEvents p s.emitted ++
      (peerEvents p (eventsOf (Task.allTodo (s.tasks.take k))) ++ (peerEvents p (eventsOf [e]) ++
        peerEvents p (eventsOf (rest ++ Task.allTodo (s.tasks.drop (k + 1)))))) := by
    rw [told, Task.allTodo_eq hk]
    simp [← peerEvents_append, ← eventsOf_append]
  have hafter : ∀ emitted, peerEvents p emitted ++ peerEvents p (eventsOf
      (Task.allTodo (Task.advance s.tasks k o rest))) = peerEvents p emitted ++
        (peerEvents p (eventsOf (Task.allTodo (s.tasks.take k))) ++
          peerEvents p (eventsOf (rest ++ Task.allTodo (s.tasks.drop (k + 1))))) := by
    intro emitted
    rw [Task.allTodo_advance]
    simp [← peerEvents_append, ← eventsOf_append]
  rw [hbefore]
  cases e with
  | run session => exact hafter s.emitted
  | emit event =>
    refine (hafter (s.emitted ++ [event])).trans ?_
    rw [peerEvents_append, append_assoc]
    congr 1
    -- either the event is not about the peer, or nothing about it comes before
    by_cases hp : toldPeer event = some p
    · simp only [inTurn, hk, hp, Option.all_some, List.isEmpty_iff] at hturn
      rw [hturn, List.nil_append, List.nil_append]
      rfl
    have hnone : peerEvents p [event] = [] := by
      cases event <;> simp_all [peerEvents, toldPeer]
    have hnone' : peerEvents p (eventsOf [.emit event]) = [] := hnone
    rw [hnone, hnone', nil_append, nil_append]

@[simp] theorem performEffect_table (s : Core) (e : Effect) : (s.performEffect e).table = s.table := by
  cases e <;> rfl

theorem Told.step {a : CoreAction} (H : s.Told) (hturn : s.inTurn a)
    (h : s.step own a = some s') : s'.Told := by
  cases a with
  | start n =>
    simp only [Core.step] at h
    split at h
    · cases h
      exact H
    next table events hspawn =>
    cases h
    refine H.change (spawnSession_tells hspawn) fun p => ?_
    simp [told, eventsOf]
  | perform k =>
    simp only [Core.step] at h
    split at h
    next o e rest hk =>
      cases h
      constructor
      · intro p
        rw [told_perform hk hturn]
        exact H.alternate p
      · intro p
        rw [told_perform hk hturn, performEffect_table]
        exact H.last p
    · cases h
  | finish i reason =>
    obtain ⟨session, -, rfl⟩ := map_eq_some_iff.mp h
    refine H.change (endSession_tells s.table session.peerId session.deviceKey
      session.connectionId reason) fun p => ?_
    simp [told]

theorem Told.lawful (H : s.Told) : s.Lawful where
  alternate p := by
    have hchain := H.alternate p
    rw [told, ← cons_append, isChain_append] at hchain
    exact hchain.1
  quiet hquiet p := by
    have hlast := H.last p
    rw [told, hquiet] at hlast
    simp only [Task.allTodo, flatMap_nil, eventsOf, filterMap_nil, peerEvents, append_nil] at hlast
    rw [← hlast, getLastD_eq_getLast?]
    rw [peerEvents]
    cases List.getLast? _ <;> simp

theorem Told.empty : Told {} := ⟨fun _ => .singleton _, fun _ => rfl⟩

/-- The law holds as long as the events of each peer are emitted in the order of the changes. -/
theorem events_lawful {as : List CoreAction}
    (h : Run (step own) (fun s a => s.inTurn a = true) {} as s) : s.Lawful :=
  (h.invariant (I := Told) (fun hturn H hstep => H.step hturn hstep) .empty).lawful

/-- A session of the peer b for concrete runs. -/
def sample (connectionId : String) (direction : ConnectionDirection) : NewSession :=
  ⟨⟨"b", "B", connectionId⟩, "", direction, "direct", "", 0, 0⟩

/-- A session is replaced by another, which then ends. -/
theorem events_lawful_replaced : ∃ as s,
    Run (step "a") (fun s a => s.inTurn a = true) {} as s ∧ s.tasks = [] ∧
    peerEvents "b" s.emitted = [true, false] ∧ s.Lawful := by
  let as : List CoreAction := [.start (sample "c1" .outbound), .perform 0, .perform 0, .perform 0,
    .start (sample "c2" .outbound), .perform 0, .perform 0, .finish 0 "closed locally",
    .finish 0 "connection closed", .perform 0, .perform 0]
  have hrun : (exec (step "a") {} as).map (fun s => (s.tasks, peerEvents "b" s.emitted)) =
      some ([], [true, false]) := by
    decide +kernel
  have hok : allowed (step "a") inTurn {} as = true := by decide +kernel
  obtain ⟨s, hs, hevents⟩ := map_eq_some_iff.mp hrun
  rw [Prod.mk.injEq] at hevents
  exact ⟨as, s, Run.of_allowed hok hs, hevents.1, hevents.2, events_lawful (Run.of_allowed hok hs)⟩

/-- A session ends and another starts before the disconnect is emitted. -/
theorem disconnect_overtaken : ¬ ∀ as s, FreeRun (step "a") {} as s → s.Lawful := by
  intro h
  let as : List CoreAction := [.start (sample "c1" .outbound), .perform 0, .perform 0, .perform 0,
    .finish 0 "connection closed", .start (sample "c2" .outbound), .perform 1]
  have hrun : (exec (step "a") {} as).map (fun s => peerEvents "b" s.emitted) =
      some [true, true] := by
    decide +kernel
  obtain ⟨s, hs, hevents⟩ := map_eq_some_iff.mp hrun
  have halternate := (h as s (.of_exec hs)).alternate "b"
  rw [hevents] at halternate
  exact absurd halternate (by decide)

end Core

end Bluetalk.NetworkCore

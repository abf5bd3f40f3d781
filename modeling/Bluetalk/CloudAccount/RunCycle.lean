import Bluetalk.Theory.Run

/-!
# Sync cycles

`runCycle` of `src/renderer/cloudAccount/syncEngine.js` and its callers on one device. Code between
two awaits runs to its end; the machine has a step for every such stretch. A body is the function
that pulls and pushes, named by the promise it settles. `await` leaves a reaction on a promise; when
the promise settles its reactions are queued in the order they came, and the queue is worked off
from its head, with calls, settlements and changes of the engine's state in between.
-/

open List

namespace Bluetalk.CloudAccount

/-- What continues when a promise has settled: the call that created the promise goes on to
`inflight = null`, any other call goes on to start a body of its own. -/
structure Reaction where
  promise : Nat
  owner : Bool

structure CycleState where
  running : Bool
  /-- `live?.encKey && live?.macKey && live?.token` -/
  live : Bool
  inflight : Option Nat
  /-- The bodies that have not settled. -/
  executing : List Nat
  /-- The promises that have settled with an error. -/
  rejected : List Nat
  waiting : List Reaction
  ready : List Reaction
  nextPromise : Nat

inductive CycleAction
  | call
  | settle (promise : Nat) (rejected : Bool)
  | resume
  | setRunning (running : Bool)
  | setLive (live : Bool)

/-- The engine before its first cycle. -/
def CycleState.init (running live : Bool) : CycleState := ⟨running, live, none, [], [], [], [], 0⟩

/-- `runCycle` from the check of the account on: `stopSync()`, or a new body whose promise it
stores and awaits. -/
def enterCycle (s : CycleState) : CycleState :=
  if !s.live then { s with running := false }
  else { s with
    inflight := some s.nextPromise
    executing := s.nextPromise :: s.executing
    waiting := s.waiting ++ [⟨s.nextPromise, true⟩]
    nextPromise := s.nextPromise + 1 }

/-- `runCycle` from its start to its first await. -/
def callCycle (s : CycleState) : CycleState :=
  if !s.running then s
  else
    match s.inflight with
    | none => enterCycle s
    | some p =>
      if p ∈ s.executing then { s with waiting := s.waiting ++ [⟨p, false⟩] }
      else { s with ready := s.ready ++ [⟨p, false⟩] }

/-- `runCycle` after its await. An error goes on to the caller, past the `finally` of the owner. -/
def resumeCycle (s : CycleState) (r : Reaction) : CycleState :=
  if r.owner then { s with inflight := none }
  else if r.promise ∈ s.rejected ∨ !s.running then s
  else enterCycle s

def cycleStep (s : CycleState) : CycleAction → Option CycleState
  | .call => some (callCycle s)
  | .settle p rejected =>
    if p ∈ s.executing then
      some { s with
        executing := s.executing.erase p
        rejected := if rejected then p :: s.rejected else s.rejected
        waiting := s.waiting.filter fun r => r.promise ≠ p
        ready := s.ready ++ s.waiting.filter fun r => r.promise = p }
    else none
  | .resume =>
    match s.ready with
    | [] => none
    | r :: ready => some (resumeCycle { s with ready } r)
  | .setRunning running => some { s with running }
  | .setLive live => some { s with live }

/-- The call that resumes next would start a body. -/
def StartsBody (s : CycleState) : Prop :=
  ∃ r ∈ s.ready.head?, r.owner = false ∧ r.promise ∉ s.rejected ∧ s.running = true ∧ s.live = true

/-- A waiting call finds `inflight` empty when it resumes to start a body. -/
def FindsInflightEmpty (s : CycleState) (a : CycleAction) : Prop :=
  a = .resume → StartsBody s → s.inflight = none

/-- The promises whose creators are among the reactions. -/
def owners (rs : List Reaction) : List Nat := (rs.filter (·.owner)).map (·.promise)

@[simp] theorem owners_nil : owners [] = [] := rfl

@[simp] theorem owners_append (rs rs' : List Reaction) :
    owners (rs ++ rs') = owners rs ++ owners rs' := by simp [owners]

@[simp] theorem owners_cons (r : Reaction) (rs : List Reaction) :
    owners (r :: rs) = if r.owner then r.promise :: owners rs else owners rs := by
  cases h : r.owner <;> simp [owners, h]

theorem owners_filter (rs : List Reaction) (f : Nat → Bool) :
    owners (rs.filter fun r => f r.promise) = (owners rs).filter f := by
  simp only [owners, filter_filter, filter_map]
  congr 2
  funext r
  exact Bool.and_comm ..

/-- The three states of the shared variable: no cycle; one body running; one body settled whose
creator has not yet resumed. -/
inductive Exclusive (s : CycleState) : Prop
  | idle : s.inflight = none → s.executing = [] → owners s.waiting = [] → owners s.ready = [] →
    Exclusive s
  | busy (p : Nat) : s.inflight = some p → s.executing = [p] → owners s.waiting = [p] →
    owners s.ready = [] → Exclusive s
  | settled (p : Nat) : s.inflight = some p → s.executing = [] → owners s.waiting = [] →
    owners s.ready = [p] → Exclusive s

namespace Exclusive

variable {s s' : CycleState} {a : CycleAction}

theorem congr (H : Exclusive s) (hi : s'.inflight = s.inflight)
    (he : s'.executing = s.executing) (hw : owners s'.waiting = owners s.waiting)
    (hr : owners s'.ready = owners s.ready) : Exclusive s' := by
  cases H with
  | idle hi' he' hw' hr' => exact .idle (hi ▸ hi') (he ▸ he') (hw ▸ hw') (hr ▸ hr')
  | busy p hi' he' hw' hr' => exact .busy p (hi ▸ hi') (he ▸ he') (hw ▸ hw') (hr ▸ hr')
  | settled p hi' he' hw' hr' => exact .settled p (hi ▸ hi') (he ▸ he') (hw ▸ hw') (hr ▸ hr')

theorem enterCycle (hi : s.inflight = none) (he : s.executing = []) (hw : owners s.waiting = [])
    (hr : owners s.ready = []) : Exclusive (enterCycle s) := by
  simp only [CloudAccount.enterCycle]
  split
  · exact .idle hi he hw hr
  · exact .busy s.nextPromise rfl (by simp [he]) (by simp [hw]) hr

theorem callCycle (H : Exclusive s) : Exclusive (callCycle s) := by
  simp only [CloudAccount.callCycle]
  split
  · exact H
  cases H with
  | idle hi he hw hr => simp only [hi]; exact enterCycle hi he hw hr
  | busy p hi he hw hr =>
    simp only [hi, he, mem_singleton, if_true]
    exact .busy p rfl rfl (by simp [hw]) hr
  | settled p hi he hw hr =>
    simp only [hi, he, not_mem_nil, if_false]
    exact .settled p rfl rfl hw (by simp [hr])

theorem settle (H : Exclusive s) {p : Nat} {rejected : Bool}
    (h : cycleStep s (.settle p rejected) = some s') : Exclusive s' := by
  simp only [cycleStep] at h
  split at h
  · next hp =>
    cases h
    cases H with
    | idle _ he _ _ | settled _ _ he _ _ => simp [he] at hp
    | busy q hi he hw hr =>
      obtain rfl : p = q := by simpa [he] using hp
      refine .settled p hi (by simp [he]) ?_ ?_
      · have := owners_filter s.waiting fun q => q ≠ p
        simpa [hw] using this
      · have := owners_filter s.waiting fun q => q = p
        simpa [hw, hr] using this
  · cases h

theorem resume (H : Exclusive s) (hok : StartsBody s → s.inflight = none)
    (h : cycleStep s .resume = some s') : Exclusive s' := by
  simp only [cycleStep] at h
  split at h
  · cases h
  next r ready hready =>
  cases h
  simp only [resumeCycle]
  cases howner : r.owner with
  | true =>
    -- only a settled body has its creator in the queue, and it is the only one there
    cases H with
    | idle _ _ _ hr | busy _ _ _ _ hr => simp [hready, howner] at hr
    | settled p hi he hw hr =>
      simp only [hready, owners_cons, howner, if_true, List.cons.injEq] at hr
      exact .idle rfl he hw hr.2
  | false =>
    have hrest : owners s.ready = owners ready := by simp [hready, howner]
    have H' : Exclusive { s with ready } := H.congr rfl rfl rfl hrest.symm
    simp only [Bool.false_eq_true, if_false]
    split
    · exact H'
    next hgo =>
    simp only [not_or, Bool.not_eq_true', Bool.not_eq_false] at hgo
    cases hlive : s.live with
    | false =>
      exact H'.congr rfl rfl rfl rfl
    | true =>
      have hnone := hok ⟨r, by simp [hready], howner, hgo.1, hgo.2, hlive⟩
      cases H' with
      | idle hi he hw hr => exact enterCycle hi he hw hr
      | busy p hi _ _ _ | settled p hi _ _ _ => simp [hnone] at hi

theorem step (H : Exclusive s) (hok : FindsInflightEmpty s a) (h : cycleStep s a = some s') :
    Exclusive s' := by
  cases a with
  | call => cases h; exact H.callCycle
  | settle p rejected => exact H.settle h
  | resume => exact H.resume (hok rfl) h
  | setRunning running | setLive live => cases h; exact H.congr rfl rfl rfl rfl

end Exclusive

end Bluetalk.CloudAccount

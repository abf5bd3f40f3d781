import Bluetalk.Theory.Run

/-!
# The debounce of sync hints

`notify_sync` and `flush_sync_hint` of `hub.rs`: a push tells the devices of the account its last
sequence number, at most once a second. The state is the record of each peer in `sync_hints` and the
tasks that sleep until they flush; `flushes` and `owed` record what was flushed and what was notified
and not yet covered by a flush. Both functions hold the lock throughout, and the clock does not go
back. Times are in nanoseconds.
-/

open List Option Function

namespace Bluetalk.Relay

def syncHintIntervalMs : Nat := 1000

/-- `Duration::from_millis(SYNC_HINT_INTERVAL_MS)` -/
def syncHintInterval : Nat := syncHintIntervalMs * 1000000

structure SyncHint where
  lastFlush : Option Nat := none
  pendingSeq : Option Int := none
  timerArmed : Bool := false

/-- A task that sleeps before it calls `flush_sync_hint`. -/
structure SyncTimer where
  peer : String
  due : Nat

/-- A call of `flush_sync`. -/
structure SyncFlush where
  peer : String
  time : Nat
  seq : Int
  deriving DecidableEq

structure SyncHints where
  clock : Nat := 0
  hints : String → Option SyncHint := fun _ => none
  timers : List SyncTimer := []
  /-- the latest first -/
  flushes : List SyncFlush := []
  /-- the numbers notified for each peer that no flush since carried or exceeded -/
  owed : String → List Int := fun _ => []

inductive SyncHintStep
  | notify (peer : String) (latestSeq : Int) (now : Nat)
  | fire (i : Nat) (now : Nat)
  /-- `unregister` of the last connection of the peer -/
  | gone (peer : String)

namespace SyncHints

/-- The record of a peer, as `entry(peer).or_default()` finds it. -/
def hint (s : SyncHints) (peer : String) : SyncHint := (s.hints peer).getD {}

def set (s : SyncHints) (peer : String) (hint : SyncHint) : SyncHints :=
  { s with hints := update s.hints peer (some hint) }

/-- A number is notified. -/
def owe (s : SyncHints) (peer : String) (seq : Int) : SyncHints :=
  { s with owed := update s.owed peer (seq :: s.owed peer) }

def spawn (s : SyncHints) (timer : SyncTimer) : SyncHints :=
  { s with timers := s.timers ++ [timer] }

/-- `flush_sync` -/
def flush (s : SyncHints) (peer : String) (now : Nat) (seq : Int) : SyncHints :=
  { s with
    flushes := ⟨peer, now, seq⟩ :: s.flushes
    owed := update s.owed peer ((s.owed peer).filter fun q => seq < q) }

/-- How long the next flush has to wait. -/
def wait (hint : SyncHint) (now : Nat) : Nat :=
  match hint.lastFlush with
  | none => 0
  | some t => syncHintInterval - (now - t)

def notifySync (s : SyncHints) (peer : String) (latestSeq : Int) (now : Nat) : SyncHints :=
  let hint := { s.hint peer with pendingSeq := some latestSeq }
  let s := s.owe peer latestSeq
  if wait hint now = 0 then
    (s.set peer { hint with timerArmed := false, pendingSeq := none, lastFlush := some now }).flush
      peer now latestSeq
  else if hint.timerArmed then s.set peer hint
  else (s.spawn ⟨peer, now + wait hint now⟩).set peer { hint with timerArmed := true }

def flushSyncHint (s : SyncHints) (peer : String) (now : Nat) : SyncHints :=
  match s.hints peer with
  | none => s
  | some hint =>
    match hint.pendingSeq with
    | none => s.set peer { hint with timerArmed := false }
    | some seq =>
      (s.set peer { hint with timerArmed := false, pendingSeq := none, lastFlush := some now }).flush
        peer now seq

def step (s : SyncHints) : SyncHintStep → Option SyncHints
  | .notify peer latestSeq now =>
    if s.clock ≤ now then some { s.notifySync peer latestSeq now with clock := now } else none
  | .fire i now =>
    (s.timers[i]?).bind fun timer =>
      if s.clock ≤ now ∧ timer.due ≤ now then
        some { { s with timers := s.timers.eraseIdx i }.flushSyncHint timer.peer now with clock := now }
      else none
  | .gone peer => some { s with hints := update s.hints peer none }

/-- Every flush for the peer so far is a second old. -/
def rested (s : SyncHints) (peer : String) (now : Nat) : Bool :=
  s.flushes.all fun f => f.peer ≠ peer || f.time + syncHintInterval ≤ now

/-- A flush for the peer is to come, with a number as high as any that it still owes. -/
def Carried (s : SyncHints) (peer : String) : Prop :=
  ∀ seq ∈ s.owed peer, (∃ pending ∈ (s.hint peer).pendingSeq, seq ≤ pending) ∧
    ∃ timer ∈ s.timers, timer.peer = peer

/-- The flushes for one peer are a second apart, and a number that was notified and not flushed is
carried by a flush still to come. -/
structure Kept (s : SyncHints) : Prop where
  spaced : s.flushes.Pairwise fun g f => g.peer = f.peer → f.time + syncHintInterval ≤ g.time
  carried : ∀ peer, s.Carried peer

/-- A number is not notified over a higher one that waits; a timer that finds a number to flush does
not find a flush less than a second old; the last connection of a peer does not go while a number
waits, and a peer that comes back is not notified of before the last flush is a second old. -/
def timely (s : SyncHints) : SyncHintStep → Bool
  | .notify peer latestSeq now =>
    (s.hint peer).pendingSeq.all (· ≤ latestSeq) && ((s.hints peer).isSome || s.rested peer now)
  | .fire i now => (s.timers[i]?).all fun timer =>
      (s.hint timer.peer).pendingSeq.isNone || s.rested timer.peer now
  | .gone peer => (s.hint peer).pendingSeq.isNone

variable {s s' : SyncHints} {peer other : String} {hint : SyncHint} {now : Nat} {seq : Int}
  {timers : List SyncTimer} {a : SyncHintStep}

@[simp] theorem hint_set : (s.set peer hint).hint peer = hint := by simp [SyncHints.hint, set]

@[simp] theorem hint_set_of_ne (h : other ≠ peer) : (s.set peer hint).hint other = s.hint other := by
  simp [SyncHints.hint, set, h]

@[simp] theorem owed_owe : (s.owe peer seq).owed peer = seq :: s.owed peer := by simp [owe]

@[simp] theorem hint_flush : (s.flush peer now seq).hint other = s.hint other := rfl

/-! ## What a step does to the law -/

theorem rested_iff : s.rested peer now ↔
    ∀ f ∈ s.flushes, peer = f.peer → f.time + syncHintInterval ≤ now := by
  simp only [rested, List.all_eq_true, Bool.or_eq_true, decide_eq_true_eq]
  refine forall₂_congr fun f _ => ?_
  rw [imp_iff_not_or, eq_comm (a := peer)]

theorem kept_flush_iff (hspaced : s.flushes.Pairwise fun g f =>
      g.peer = f.peer → f.time + syncHintInterval ≤ g.time)
    (hothers : ∀ other, other ≠ peer → s.Carried other) (hnone : hint.pendingSeq = none) :
    ((s.set peer hint).flush peer now seq).Kept ↔
      s.rested peer now ∧ ∀ q ∈ s.owed peer, q ≤ seq := by
  constructor
  · intro H
    refine ⟨rested_iff.mpr (pairwise_cons.mp H.spaced).1, fun q hq => ?_⟩
    by_contra hlt
    obtain ⟨⟨pending, hpending, -⟩, -⟩ := H.carried peer q (by
      simp only [flush, set, update_self]
      exact mem_filter.mpr ⟨hq, by simpa using hlt⟩)
    simp [hnone] at hpending
  · rintro ⟨hrested, howed⟩
    refine ⟨pairwise_cons.mpr ⟨rested_iff.mp hrested, hspaced⟩, fun other q hq => ?_⟩
    by_cases hother : other = peer
    · subst hother
      simp only [flush, set, update_self] at hq
      obtain ⟨hq, hlt⟩ := mem_filter.mp hq
      exact absurd (howed q hq) (by simpa using hlt)
    · simp only [flush, set, update_of_ne hother] at hq
      obtain ⟨hpending, htimer⟩ := hothers other hother q hq
      exact ⟨by simpa [hother] using hpending, htimer⟩

theorem kept_set_iff (hspaced : s.flushes.Pairwise fun g f =>
      g.peer = f.peer → f.time + syncHintInterval ≤ g.time)
    (hothers : ∀ other, other ≠ peer → s.Carried other) :
    (s.set peer hint).Kept ↔ (s.set peer hint).Carried peer := by
  refine ⟨fun H => H.carried peer, fun H => ⟨hspaced, fun other => ?_⟩⟩
  by_cases hother : other = peer
  · exact hother ▸ H
  · intro q hq
    obtain ⟨hpending, htimer⟩ := hothers other hother q hq
    exact ⟨by simpa [hother] using hpending, htimer⟩

/-! ## The records -/

/-- What the record of a peer says. -/
structure Sound (s : SyncHints) (peer : String) (hint : SyncHint) : Prop where
  last : ∃ f, hint.lastFlush = some f.time ∧ s.flushes.find? (fun f => f.peer = peer) = some f
  armed : hint.timerArmed → ∃ timer ∈ s.timers, timer.peer = peer
  pending : ∀ seq ∈ hint.pendingSeq, seq ∈ s.owed peer

structure Inv (s : SyncHints) : Prop where
  past : ∀ f ∈ s.flushes, f.time ≤ s.clock
  record : ∀ peer hint, s.hints peer = some hint → s.Sound peer hint

theorem Sound.mono (H : s.Sound peer hint)
    (hflushes : s'.flushes.find? (fun f => f.peer = peer) =
      s.flushes.find? fun f => f.peer = peer)
    (htimers : (∃ timer ∈ s.timers, timer.peer = peer) → ∃ timer ∈ s'.timers, timer.peer = peer)
    (howed : ∀ q ∈ s.owed peer, q ∈ s'.owed peer) : s'.Sound peer hint where
  last := hflushes ▸ H.last
  armed h := htimers (H.armed h)
  pending seq h := howed seq (H.pending seq h)

theorem owed_le_iff (hI : s.Inv) (H : s.Kept) :
    (∀ q ∈ s.owed peer, q ≤ seq) ↔ (s.hint peer).pendingSeq.all (· ≤ seq) := by
  rw [Option.all_eq_true]
  constructor
  · intro h pending hpending
    rw [decide_eq_true_eq]
    refine h pending ?_
    cases hhint : s.hints peer with
    | none => simp [SyncHints.hint, hhint] at hpending
    | some hint =>
      refine (hI.record peer hint hhint).pending pending ?_
      simpa [SyncHints.hint, hhint] using hpending
  · intro h q hq
    obtain ⟨⟨pending, hpending, hle⟩, -⟩ := H.carried peer q hq
    have hbound : pending ≤ seq := by simpa using h pending hpending
    exact Int.le_trans hle hbound

theorem rested_of_find (H : s.Kept) {f : SyncFlush}
    (hfind : s.flushes.find? (fun f => f.peer = peer) = some f)
    (hrest : f.time + syncHintInterval ≤ now) : s.rested peer now := by
  obtain ⟨hpeer, before, after, hflushes, hbefore⟩ := find?_eq_some_iff_append.mp hfind
  rw [rested_iff, hflushes]
  intro g hg hgpeer
  rcases mem_append.mp hg with hg | hg
  · have hne := hbefore g hg
    simp only [Bool.not_eq_true', decide_eq_false_iff_not] at hne
    exact absurd hgpeer.symm hne
  rcases mem_cons.mp hg with rfl | hg
  · exact hrest
  have hspaced := H.spaced
  rw [hflushes] at hspaced
  have hle := (pairwise_cons.mp (pairwise_append.mp hspaced).2.1).1 g hg
    ((of_decide_eq_true hpeer).trans hgpeer)
  omega

theorem rested_of_wait (hI : s.Inv) (H : s.Kept) (hclock : s.clock ≤ now)
    (hwait : wait (s.hint peer) now = 0) :
    (s.hints peer).isSome || s.rested peer now ↔ s.rested peer now := by
  rw [Bool.or_eq_true, or_iff_right_iff_imp, isSome_iff_exists]
  rintro ⟨hint, hhint⟩
  obtain ⟨f, hlast, hfind⟩ := (hI.record peer hint hhint).last
  have hpast := hI.past f (mem_of_find?_eq_some hfind)
  simp only [SyncHints.hint, hhint, getD_some, wait, hlast] at hwait
  exact rested_of_find H hfind (by omega)

/-! ## One step -/

theorem carried_set_iff (htimer : ∃ timer ∈ s.timers, timer.peer = peer)
    (hpending : hint.pendingSeq = some seq) :
    (s.set peer hint).Carried peer ↔ ∀ q ∈ s.owed peer, q ≤ seq := by
  refine forall₂_congr fun q _ => ?_
  simp only [hint_set, hpending, mem_some_iff, exists_eq_left']
  exact and_iff_left htimer

theorem notify_kept_iff (hI : s.Inv) (H : s.Kept) (hclock : s.clock ≤ now) :
    (s.notifySync peer seq now).Kept ↔ s.timely (.notify peer seq now) := by
  have howed : (∀ q ∈ seq :: s.owed peer, q ≤ seq) ↔ (s.hint peer).pendingSeq.all (· ≤ seq) := by
    rw [forall_mem_cons, owed_le_iff hI H]
    exact and_iff_right (Int.le_refl seq)
  have hothers : ∀ other, other ≠ peer → (s.owe peer seq).Carried other := by
    intro other hother q hq
    simp only [owe, update_of_ne hother] at hq
    exact H.carried other q hq
  rw [timely, Bool.and_eq_true, notifySync]
  split
  next hwait =>
    rw [kept_flush_iff (s := s.owe peer seq) H.spaced hothers rfl, owed_owe, howed, and_comm,
      rested_of_wait hI H hclock hwait]
    rfl
  next hwait =>
  -- there is a record, and a timer sleeps or is started
  have hsome : (s.hints peer).isSome := by
    rw [isSome_iff_ne_none]
    intro hnone
    exact hwait (by simp [SyncHints.hint, hnone, wait])
  rw [hsome, Bool.true_or, and_iff_left rfl, ← howed]
  split
  next harmed =>
    obtain ⟨hint, hhint⟩ := isSome_iff_exists.mp hsome
    have htimer := (hI.record peer hint hhint).armed (by
      simpa [SyncHints.hint, hhint] using harmed)
    rw [kept_set_iff (s := s.owe peer seq) H.spaced hothers,
      carried_set_iff (s := s.owe peer seq) htimer rfl, owed_owe]
  next =>
  generalize htask : SyncTimer.mk peer _ = task
  have htimer : ∃ timer ∈ ((s.owe peer seq).spawn task).timers, timer.peer = peer :=
    ⟨task, mem_append_right _ mem_cons_self, htask ▸ rfl⟩
  have hothers' : ∀ other, other ≠ peer → ((s.owe peer seq).spawn task).Carried other := by
    intro other hother q hq
    obtain ⟨hpending, timer, hmem, hpeer⟩ := hothers other hother q hq
    exact ⟨hpending, timer, mem_append_left _ hmem, hpeer⟩
  rw [kept_set_iff (s := (s.owe peer seq).spawn task) H.spaced hothers', carried_set_iff htimer rfl]
  exact Eq.to_iff (congrArg (fun l => ∀ q ∈ l, q ≤ seq) owed_owe)

theorem mem_eraseIdx_of_ne {i : Nat} {timer other : SyncTimer} (htimer : timers[i]? = some timer) (hother : other ∈ timers) (hne : other.peer ≠ timer.peer) :
    other ∈ timers.eraseIdx i := by
  rw [mem_eraseIdx_iff_getElem?]
  obtain ⟨j, hj⟩ := mem_iff_getElem?.mp hother
  refine ⟨j, fun hij => hne ?_, hj⟩
  rw [hij] at hj
  rw [some.inj (htimer.symm.trans hj)]

theorem fire_kept_iff (H : s.Kept) (htimers : ∀ timer ∈ s.timers, timer.peer ≠ peer → timer ∈ timers) :
    (flushSyncHint { s with timers } peer now).Kept ↔
      (s.hint peer).pendingSeq.isNone || s.rested peer now := by
  have hothers : ∀ other, other ≠ peer → Carried { s with timers } other := by
    intro other hother q hq
    obtain ⟨hpending, timer, htimer, hpeer⟩ := H.carried other q hq
    exact ⟨hpending, timer, htimers timer htimer (hpeer ▸ hother), hpeer⟩
  -- without a number that waits nothing is owed
  have hnone : (s.hint peer).pendingSeq = none → ∀ q ∈ s.owed peer, False := by
    intro hpending q hq
    obtain ⟨⟨pending, hmem, -⟩, -⟩ := H.carried peer q hq
    simp [hpending] at hmem
  rw [flushSyncHint]
  cases hhint : s.hints peer with
  | none =>
    have hpending : (s.hint peer).pendingSeq = none := by simp [SyncHints.hint, hhint]
    rw [hpending, isNone_none, Bool.true_or]
    refine iff_of_true ⟨H.spaced, fun other => ?_⟩ rfl
    by_cases hother : other = peer
    · exact fun q hq => (hnone hpending q (hother ▸ hq)).elim
    · exact hothers other hother
  | some hint =>
    have hself : s.hint peer = hint := by simp [SyncHints.hint, hhint]
    rw [hself] at hnone ⊢
    simp only
    cases hpending : hint.pendingSeq with
    | none =>
      rw [isNone_none, Bool.true_or, kept_set_iff (s := { s with timers }) H.spaced hothers]
      exact iff_of_true (fun q hq => (hnone hpending q hq).elim) rfl
    | some seq =>
      rw [isNone_some, Bool.false_or, kept_flush_iff (s := { s with timers }) H.spaced hothers rfl]
      refine and_iff_left fun q hq => ?_
      obtain ⟨⟨pending, hmem, hle⟩, -⟩ := H.carried peer q hq
      rw [hself, hpending, mem_some_iff] at hmem
      exact hmem ▸ hle

theorem gone_kept_iff (hI : s.Inv) (H : s.Kept) :
    Kept { s with hints := update s.hints peer none } ↔ s.timely (.gone peer) := by
  rw [timely, isNone_iff_eq_none]
  constructor
  · intro H'
    rw [eq_none_iff_forall_not_mem]
    intro seq hseq
    have howed : seq ∈ s.owed peer := by
      cases hhint : s.hints peer with
      | none => simp [SyncHints.hint, hhint] at hseq
      | some hint =>
        exact (hI.record peer hint hhint).pending seq (by simpa [SyncHints.hint, hhint] using hseq)
    obtain ⟨⟨pending, hpending, -⟩, -⟩ := H'.carried peer seq howed
    simp [SyncHints.hint] at hpending
  · intro hnone
    refine ⟨H.spaced, fun other q hq => ?_⟩
    by_cases hother : other = peer
    · obtain ⟨⟨pending, hmem, -⟩, -⟩ := H.carried other q hq
      simp [hother, hnone] at hmem
    · obtain ⟨hpending, htimer⟩ := H.carried other q hq
      exact ⟨by simpa [SyncHints.hint, hother] using hpending, htimer⟩

theorem kept_clock : Kept { s with clock := now } ↔ s.Kept :=
  ⟨fun H => ⟨H.spaced, H.carried⟩, fun H => ⟨H.spaced, H.carried⟩⟩

theorem step_kept_iff (hI : s.Inv) (H : s.Kept) (h : s.step a = some s') :
    s'.Kept ↔ s.timely a := by
  cases a with
  | notify peer seq now =>
    simp only [step] at h
    split at h
    next hclock =>
      cases h
      rw [kept_clock, notify_kept_iff hI H hclock]
    next => cases h
  | fire i now =>
    simp only [step, bind_eq_some_iff] at h
    obtain ⟨timer, htimer, h⟩ := h
    split at h
    next =>
      cases h
      rw [kept_clock, timely, htimer, all_some]
      exact fire_kept_iff H fun other hother hne => mem_eraseIdx_of_ne htimer hother hne
    next => cases h
  | gone peer =>
    cases h
    exact gone_kept_iff hI H

/-! ## The records along a run -/

theorem Inv.empty : Inv {} := ⟨fun _ h => absurd h not_mem_nil, fun _ _ h => by cases h⟩

theorem Inv.of_peer (H : s.Inv) (peer : String) (hpast : ∀ f ∈ s'.flushes, f.time ≤ s'.clock)
    (hself : ∀ hint, s'.hints peer = some hint → s'.Sound peer hint)
    (hhints : ∀ other, other ≠ peer → s'.hints other = s.hints other)
    (hothers : ∀ other hint, other ≠ peer → s.Sound other hint → s'.Sound other hint) : s'.Inv where
  past := hpast
  record other hint hhint := by
    by_cases hother : other = peer
    · exact hother ▸ hself hint (hother ▸ hhint)
    · exact hothers other hint hother (H.record other hint (hhints other hother ▸ hhint))

theorem sound_flush (hnone : hint.pendingSeq = none) (hlast : hint.lastFlush = some now)
    (harmed : hint.timerArmed = false) : ((s.set peer hint).flush peer now seq).Sound peer hint where
  last := ⟨⟨peer, now, seq⟩, hlast, by simp [flush]⟩
  armed h := absurd (harmed.symm.trans h) Bool.false_ne_true
  pending _ h := by simp [hnone] at h

theorem Inv.set (H : s.Inv) (hsound : s.Sound peer hint) : (s.set peer hint).Inv := by
  refine H.of_peer peer H.past (fun hint' h => ?_) (fun other hother => ?_)
    fun other hint' _ h => h.mono rfl id fun _ => id
  · simp only [SyncHints.set, update_self, Option.some.injEq] at h
    exact h ▸ hsound.mono rfl id fun _ => id
  · exact update_of_ne hother ..

theorem Inv.flush (H : s.Inv) (hclock : s.clock ≤ now) (hnone : hint.pendingSeq = none)
    (hlast : hint.lastFlush = some now) (harmed : hint.timerArmed = false) :
    Inv { (s.set peer hint).flush peer now seq with clock := now } := by
  refine H.of_peer peer ?_ (fun hint' h => ?_) (fun other hother => ?_)
    fun other hint' hother h => h.mono ?_ id ?_
  · intro f hf
    rcases mem_cons.mp hf with rfl | hf
    · exact Nat.le_refl now
    · exact Nat.le_trans (H.past f hf) hclock
  · simp only [SyncHints.flush, SyncHints.set, update_self, Option.some.injEq] at h
    exact h ▸ (sound_flush hnone hlast harmed).mono rfl id fun _ => id
  · exact update_of_ne hother ..
  · exact find?_cons_of_neg (by simpa using Ne.symm hother)
  · intro q hq
    simpa [SyncHints.flush, SyncHints.set, hother] using hq

theorem Inv.owe (H : s.Inv) : (s.owe peer seq).Inv where
  past := H.past
  record other hint hhint := by
    refine (H.record other hint hhint).mono rfl id fun q hq => ?_
    by_cases hother : other = peer
    · subst hother
      simpa using Or.inr hq
    · simpa [SyncHints.owe, hother] using hq

theorem Inv.spawn (H : s.Inv) (timer : SyncTimer) : (s.spawn timer).Inv where
  past := H.past
  record other hint hhint := by
    refine (H.record other hint hhint).mono rfl ?_ fun _ => id
    exact fun ⟨timer, hmem, hpeer⟩ => ⟨timer, mem_append_left _ hmem, hpeer⟩

theorem Inv.tick (H : s.Inv) (hclock : s.clock ≤ now) : Inv { s with clock := now } where
  past f hf := Nat.le_trans (H.past f hf) hclock
  record other hint hhint := (H.record other hint hhint).mono rfl id fun _ => id

theorem Inv.notify (H : s.Inv) (hclock : s.clock ≤ now) :
    Inv { s.notifySync peer seq now with clock := now } := by
  rw [notifySync]
  split
  · exact H.owe.flush hclock rfl rfl rfl
  next hwait =>
  obtain ⟨hint, hhint⟩ : ∃ hint, s.hints peer = some hint := by
    rw [← isSome_iff_exists, isSome_iff_ne_none]
    intro hnone
    exact hwait (by simp [SyncHints.hint, hnone, wait])
  have hself : s.hint peer = hint := by simp [SyncHints.hint, hhint]
  have hsound := H.record peer hint hhint
  have hpending : ∀ q ∈ some seq, q ∈ (s.owe peer seq).owed peer := by simp
  rw [hself]
  split
  next harmed =>
    have hnew : (s.owe peer seq).Sound peer { hint with pendingSeq := some seq } :=
      ⟨hsound.last, hsound.armed, hpending⟩
    exact (H.owe.set hnew).tick hclock
  next =>
  generalize htask : SyncTimer.mk peer _ = task
  have hnew : ((s.owe peer seq).spawn task).Sound peer
      { hint with pendingSeq := some seq, timerArmed := true } :=
    ⟨hsound.last, fun _ => ⟨task, mem_append_right _ mem_cons_self, htask ▸ rfl⟩,
      hpending⟩
  exact ((H.owe.spawn task).set hnew).tick hclock

theorem Inv.fire (H : s.Inv) (hclock : s.clock ≤ now) (htimers : ∀ timer ∈ s.timers, timer.peer ≠ peer → timer ∈ timers) :
    Inv { flushSyncHint { s with timers } peer now with clock := now } := by
  -- the record of the peer may believe in the timer that is gone, until it is written
  have hothers : ∀ other hint, other ≠ peer → s.Sound other hint →
      Sound { s with timers } other hint := by
    intro other hint hother h
    refine h.mono rfl ?_ fun _ => id
    exact fun ⟨timer, hmem, hpeer⟩ => ⟨timer, htimers timer hmem (hpeer ▸ hother), hpeer⟩
  have hbase : Inv { s with timers, hints := update s.hints peer none } := by
    refine H.of_peer peer H.past (fun hint h => ?_) (fun other hother => ?_)
      fun other hint hother h => (hothers other hint hother h).mono rfl id fun _ => id
    · simp at h
    · exact update_of_ne hother ..
  have hset : ∀ hint, SyncHints.set { s with timers } peer hint = SyncHints.set
      { s with timers, hints := update s.hints peer none } peer hint := by
    intro hint
    simp [SyncHints.set]
  rw [flushSyncHint]
  cases hhint : s.hints peer with
  | none =>
    have hsame : update s.hints peer none = s.hints := by
      rw [← hhint, update_eq_self]
    rw [hsame] at hbase
    exact hbase.tick hclock
  | some hint =>
    simp only
    cases hpending : hint.pendingSeq with
    | none =>
      have hsound : Sound { s with timers, hints := update s.hints peer none } peer
          { lastFlush := hint.lastFlush } :=
        ⟨(H.record peer hint hhint).last, fun h => absurd h Bool.false_ne_true,
          fun _ hq => absurd hq (not_mem_none _)⟩
      simp only [hset]
      exact (hbase.set hsound).tick hclock
    | some seq =>
      simp only [hset]
      exact hbase.flush hclock rfl rfl rfl

theorem Inv.step (H : s.Inv) (h : s.step a = some s') : s'.Inv := by
  cases a with
  | notify peer seq now =>
    simp only [SyncHints.step] at h
    split at h
    next hclock =>
      cases h
      exact H.notify hclock
    next => cases h
  | fire i now =>
    simp only [SyncHints.step, bind_eq_some_iff] at h
    obtain ⟨timer, htimer, h⟩ := h
    split at h
    next hclock =>
      cases h
      exact H.fire hclock.1 fun other hother hne => mem_eraseIdx_of_ne htimer hother hne
    next => cases h
  | gone peer =>
    cases h
    refine H.of_peer peer H.past (fun hint h => ?_) (fun other hother => ?_)
      fun other hint _ h => h.mono rfl id fun _ => id
    · simp at h
    · exact update_of_ne hother ..

/-- Nothing is flushed later than now, and what is pending has been notified. -/
theorem hints_sound {as : List SyncHintStep} : Always step Inv {} as :=
  Run.always (fun H h => H.step h) .empty

theorem kept_empty : Kept {} := ⟨.nil, fun _ _ h => absurd h not_mem_nil⟩

end SyncHints

end Bluetalk.Relay

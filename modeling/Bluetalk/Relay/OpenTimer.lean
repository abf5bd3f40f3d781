import Bluetalk.Relay.ServerSteps

/-!
# The timer of an open

`handle_open` starts a timer that fails the open after 15 seconds. The timer knows the connection
and the tunnel id only: the open that it finds there may be another one, and younger.
-/

open List Option

namespace Bluetalk.Relay

namespace Effect

variable {e : Effect} {now now' : Nat}

/-- The earliest time at which the task goes on, when the effect is performed at `now` or later. -/
def done (now : Nat) : Effect → Nat
  | sleep ms => now + ms
  | wait due => max now due
  | _ => now

/-- At `now` the open has been entered, and long enough ago when it is to be timed out. -/
def Timely (now : Nat) : Effect → Prop
  | put (.offer opening) _ _ => opening.label.since ≤ now
  | call (.failOpen opening code) => code = "timeout" → opening.label.since + openTimeout ≤ now
  | _ => True

theorem done_mono (hle : now ≤ now') : e.done now ≤ e.done now' := by
  cases e with
  | sleep ms => exact Nat.add_le_add_right hle ms
  | wait due => simp only [done]; omega
  | _ => exact hle

theorem Timely.mono (h : e.Timely now) (hle : now ≤ now') : e.Timely now' := by
  cases e with
  | put how gen item =>
    cases how with
    | offer opening => exact le_trans h hle
    | _ => trivial
  | call c =>
    cases c with
    | failOpen opening code => exact fun hc => (h hc).trans hle
    | _ => trivial
  | _ => trivial

/-- An effect that neither waits nor has to do with an open that was entered. -/
def Untimed (e : Effect) : Prop := ∀ now, e.done now = now ∧ e.Timely now

theorem Untimed.reaction {peerId : String} {gen request : Nat} (h : Reaction peerId gen request e) :
    e.Untimed := by
  cases h <;> exact fun now => ⟨rfl, trivial⟩

end Effect

/-- A task that goes on at `now` or later times out no open of its own before the time is up. -/
def Timed (now : Nat) : List Effect → Prop
  | [] => True
  | e :: rest => e.Timely now ∧ Timed (e.done now) rest

namespace Timed

variable {now now' : Nat} {todo rest : List Effect} {item : Item}

theorem mono (h : Timed now todo) (hle : now ≤ now') : Timed now' todo := by
  induction todo generalizing now now' with
  | nil => trivial
  | cons e rest ih => exact ⟨h.1.mono hle, ih h.2 (Effect.done_mono hle)⟩

theorem append (hes : ∀ e ∈ todo, e.Untimed) (h : Timed now rest) : Timed now (todo ++ rest) := by
  induction todo with
  | nil => exact h
  | cons e es ih =>
    rw [forall_mem_cons] at hes
    refine ⟨(hes.1 now).2, ?_⟩
    rw [(hes.1 now).1]
    exact ih hes.2

theorem of_untimed (hes : ∀ e ∈ todo, e.Untimed) : Timed now todo := by
  have h : Timed now (todo ++ []) := append hes trivial
  rwa [append_nil] at h

theorem pushes (l : Ledger) (ps : List Push) (h : Timed now rest) :
    Timed now (l.pushes ps ++ rest) := by
  refine append (fun e he => ?_) h
  obtain ⟨p, -, rfl⟩ := mem_map.mp he
  exact fun now => ⟨rfl, trivial⟩

theorem deliverTo (post : Posting) (item : Item) (any : Bool) (targets : List Nat)
    (h : Timed now rest) : Timed now (deliverTo post item any targets :: rest) := by
  cases targets <;> exact ⟨trivial, h⟩

theorem sent {how : How} {gen : Nat} (h : Timed now (.put how gen item :: rest)) :
    Timed now (how.sent item rest) := by
  cases how with
  | offer opening => exact ⟨trivial, fun _ => Nat.add_le_add_right h.1 _, h.2.mono (Nat.le_add_right _ _)⟩
  | deliver others any post => exact deliverTo _ _ _ _ h.2
  | _ => exact h.2

theorem failed {how : How} {gen : Nat} (h : Timed now (.put how gen item :: rest)) :
    Timed now (how.failed gen item rest) := by
  cases how with
  | push => exact h.2
  | offer opening => exact ⟨fun hc => absurd hc (by decide), trivial, h.2⟩
  | deliver others any post => exact deliverTo _ _ _ _ h.2
  | _ => exact ⟨trivial, trivial⟩

end Timed

namespace Server

variable {s s' : Server} {a : Action}

/-- The timers of a state are right, and what was timed out before was so in time. -/
structure InTime (s : Server) : Prop where
  tasks : ∀ t ∈ s.tasks, Timed s.now t.todo
  timeouts : ∀ p ∈ s.ledger.timeouts, p.1 + openTimeout ≤ p.2

/-- The open that a timer finds was entered no later than the one it was started for. -/
def ownTimer (s : Server) (a : Action) : Bool :=
  match s.performed a with
  | some (.call (.failOpen opening "timeout")) =>
    (s.hub.tunnels.entry .pendingOut opening.gen opening.localId).isNone ||
      (s.labelOf opening.gen opening.localId).since ≤ opening.label.since
  | _ => true

theorem enter_timed (c : Call) (rest : List Effect) (hrest : Timed s.now rest) :
    Timed s.now ((s.enter c).2 ++ rest) := by
  cases c with
  | watch peerId gen peers =>
    simp only [enter, append_assoc]
    refine .pushes _ _ (.append (fun e he => ?_) hrest)
    obtain ⟨msg, -, rfl⟩ := mem_map.mp he
    exact fun now => ⟨rfl, trivial⟩
  | «open» sender gen localId toPeer toDevice request =>
    simp only [enter]
    split
    · exact ⟨trivial, hrest⟩
    · exact ⟨le_rfl, hrest⟩
  | failOpen opening code | close peerId gen localId code sentFor | unregister peerId gen =>
    exact .pushes _ _ hrest
  | accept peerId gen localId | reject peerId gen localId =>
    simp only [enter]
    split
    · exact .pushes _ _ hrest
    · exact ⟨trivial, hrest⟩
  | tell gen item =>
    simp only [enter]
    split
    · exact ⟨trivial, hrest⟩
    · exact hrest
  | forward peerId gen localId payload =>
    simp only [enter]
    split
    · exact hrest
    · exact ⟨trivial, hrest⟩
  | deliver post toPeer row => exact .deliverTo _ _ _ _ hrest

@[simp] theorem now_enter (c : Call) : (s.enter c).1.now = s.now := by
  cases c with
  | «open» | accept | reject | forward =>
    simp only [enter]
    split <;> rfl
  | _ => rfl

theorem timeouts_enter (c : Call) : (s.enter c).1.ledger.timeouts = s.ledger.timeouts ∨
    ∃ opening, c = .failOpen opening "timeout" ∧
      (s.hub.tunnels.entry .pendingOut opening.gen opening.localId).isSome ∧
      (s.enter c).1.ledger.timeouts = s.ledger.timeouts ++
        [((s.labelOf opening.gen opening.localId).since, s.now)] := by
  cases c with
  | failOpen opening code =>
    simp only [enter, noteFail]
    split
    next h =>
      simp only [Bool.and_eq_true, decide_eq_true_eq] at h
      obtain ⟨⟨rfl, -⟩, h⟩ := h
      exact .inr ⟨opening, rfl, h, rfl⟩
    next => exact .inl rfl
  | close peerId gen localId code sentFor =>
    simp only [enter, noteClose]
    split <;> exact .inl rfl
  | «open» | accept | reject | forward =>
    simp only [enter]
    split <;> exact .inl rfl
  | _ => exact .inl rfl

theorem InTime.moved (H : s.InTime) (hok : s.ownTimer a) (hm : s.Moved a s') : s'.InTime := by
  have htask : ∀ {k : Nat} {t : Task Nat Effect}, s.tasks[k]? = some t → Timed s.now t.todo :=
    fun ht => H.tasks _ (Task.mem_of_getElem? ht)
  -- a task that goes on with `todo`, after what was found at its head
  have hadv : ∀ {k o todo}, Timed s.now todo →
      ∀ t ∈ Task.advance s.tasks k o todo, Timed s.now t.todo := by
    intro k o todo htodo t ht
    rcases Task.mem_advance ht with ht | rfl
    · exact H.tasks t ht
    · exact htodo
  have hspawn : ∀ {g todo}, Timed s.now todo →
      ∀ t ∈ Task.spawn s.tasks (some g) todo, Timed s.now t.todo := by
    intro g todo htodo t ht
    rcases Task.mem_spawn.mp ht with ht | ⟨-, rfl⟩
    · exact H.tasks t ht
    · exact htodo
  cases hm with
  | connect =>
    refine ⟨hspawn (.pushes _ _ (.of_untimed fun e he => ?_)), H.timeouts⟩
    obtain ⟨item, -, rfl⟩ := mem_map.mp he
    exact fun now => ⟨rfl, trivial⟩
  | request hr hq =>
    refine ⟨hspawn ?_, H.timeouts⟩
    cases hq with
    | text =>
      rcases onText_reacts with hnil | ⟨e, he, hreact⟩
      · rw [hnil]; trivial
      · rw [he]
        exact .of_untimed fun e' he' =>
          mem_singleton.mp he' ▸ Effect.Untimed.reaction hreact
    | binary | ping => exact ⟨trivial, trivial⟩
    | noise => trivial
  | leave => exact ⟨hspawn ⟨trivial, trivial⟩, H.timeouts⟩
  | put ht => exact ⟨hadv (htask ht).sent, H.timeouts⟩
  | putFails ht => exact ⟨hadv (htask ht).failed, H.timeouts⟩
  | frame ht => exact ⟨hadv (htask ht).2, H.timeouts⟩
  | frameFails ht => exact ⟨hadv ⟨trivial, trivial, (htask ht).2⟩, H.timeouts⟩
  | sleep ht =>
    refine ⟨hadv ⟨trivial, ?_⟩, H.timeouts⟩
    exact (htask ht).2.mono (Nat.le_max_right _ _)
  | wait ht hdue =>
    refine ⟨hadv ?_, H.timeouts⟩
    have := (htask ht).2
    rwa [Effect.done, max_eq_left hdue] at this
  | @call k o c rest ht =>
    have htimed := htask ht
    constructor
    · intro t hmem
      rw [afterCall_now, now_enter]
      rcases Task.mem_requeue hmem with hmem | rfl
      · exact H.tasks t hmem
      · exact enter_timed c rest (by cases c <;> exact htimed.2)
    rcases timeouts_enter (s := s) c with hsame | ⟨opening, rfl, hpending, hnew⟩
    · rw [afterCall_ledger, hsame]
      exact H.timeouts
    rw [afterCall_ledger, hnew]
    intro p hp
    rcases mem_append.mp hp with hp | hp
    · exact H.timeouts p hp
    cases mem_singleton.mp hp
    have hown : (s.labelOf opening.gen opening.localId).since ≤ opening.label.since := by
      rw [ownTimer, performed_eq ht] at hok
      simpa [← not_isSome, hpending] using hok
    exact (Nat.add_le_add_right hown _).trans (htimed.1 rfl)
  | tick => exact ⟨fun t ht => (H.tasks t ht).mono (Nat.le_add_right _ _), H.timeouts⟩
  | write => exact ⟨H.tasks, H.timeouts⟩

/-- An open that timed out was entered 15 seconds before, in every run in which the timers only
find opens that are no younger than their own. -/
theorem timeout_not_early {as : List Action}
    (h : Run step (fun s a => s.ownTimer a = true) {} as s) :
    ∀ p ∈ s.ledger.timeouts, p.1 + openTimeout ≤ p.2 := by
  have hstep : ∀ {s : Server} {a s'}, s.ownTimer a = true → InTime s → step s a = some s' →
      InTime s' := fun hok H hs => H.moved hok (step_moved hs)
  have hstart : ({} : Server).InTime := ⟨fun t ht => absurd ht not_mem_nil,
    fun p hp => absurd hp not_mem_nil⟩
  exact (Run.invariant hstep h hstart).timeouts

/-- An open that nobody answers times out after 15 seconds. -/
theorem timeout_not_early_unanswered : ∃ (as : List Action) (s : Server),
    exec step {} as = some s ∧ s.ledger.timeouts = [(0, 15000)] ∧
      ∀ p ∈ s.ledger.timeouts, p.1 + openTimeout ≤ p.2 := by
  let acts := meet ++ [request "open" [("tunnel", .num 7), ("to", .str peerB)] 1, .perform 0,
    .perform 0, .perform 0, .tick 15000, .perform 0, .perform 0]
  have hrun : (exec step {} acts).map (·.ledger.timeouts) = some [(0, 15000)] := by decide +kernel
  have hok : allowed step ownTimer {} acts = true := by decide +kernel
  obtain ⟨s, hs, htimeouts⟩ := map_eq_some_iff.mp hrun
  exact ⟨acts, s, hs, htimeouts, timeout_not_early (Run.of_allowed hok hs)⟩

/-- The timer of an open that was rejected fails the next one under its id after a second. -/
theorem timeout_early : ¬ ∀ (as : List Action) (s : Server), FreeRun step {} as s →
    ∀ p ∈ s.ledger.timeouts, p.1 + openTimeout ≤ p.2 := by
  intro h
  let acts := meet ++ [request "open" [("tunnel", .num 7), ("to", .str peerB)] 1, .perform 0,
    .perform 0, .perform 0, request "reject" [("tunnel", .num 1)] 2, .perform 1, .perform 1,
    .tick 14000, request "open" [("tunnel", .num 7), ("to", .str peerB)] 1, .perform 1, .perform 1,
    .perform 1, .tick 1000, .perform 0, .perform 0]
  have hrun : ((exec step {} acts).map (·.ledger.timeouts)) = some [(14000, 15000)] := by
    decide +kernel
  obtain ⟨s, hs, htimeouts⟩ := map_eq_some_iff.mp hrun
  have := h acts s (.of_exec hs) (14000, 15000) (by rw [htimeouts]; exact mem_singleton_self _)
  exact absurd this (by decide)

end Server

end Bluetalk.Relay

import Mathlib.Data.Bool.Basic
import Mathlib.Data.List.Basic
import Mathlib.Logic.Relation

/-!
# The protocol of a call

What two peers that call each other agree on, over call ids and keys of any kind. A peer is idle, or
in one call; what it says travels in the order it was said. Of a message the protocol asks only what
it does to a call: it offers it, accepts it, declines it, hangs up, or tells that another device has
answered. A turn of a peer takes at most one message in and says what follows.
-/

open List Function

namespace Bluetalk.Calls.CallProtocol

variable {ι κ : Type*}

inductive Stage (ι κ : Type*)
  | idle
  | outgoing (c : ι) (k : κ)
  | incoming (c : ι) (k : κ)
  | active (c : ι) (k : κ) (caller : Bool)

inductive Message (ι κ : Type*)
  | offer (c : ι) (k : κ)
  | accept (c : ι)
  /-- `reject` and `busy` -/
  | decline (c : ι)
  /-- `cancel` and `end` -/
  | hangup (c : ι)
  | elsewhere (c : ι)
  /-- what changes no call -/
  | other

def Stage.call : Stage ι κ → Option ι
  | .idle => none
  | .outgoing c _ | .incoming c _ | .active c _ _ => some c

def Message.call : Message ι κ → Option ι
  | .offer c _ | .accept c | .decline c | .hangup c | .elsewhere c => some c
  | .other => none

def Message.offered : Message ι κ → Option ι
  | .offer c _ => some c
  | _ => none

/-- Nothing is said of a call before it is offered. -/
def Message.NotAfter (m : Message ι κ) : Message ι κ → Prop
  | .offer c _ => m.call ≠ some c
  | _ => True

/-- A message that need not change anything for a peer in a stage. -/
def Ignorable (a : Stage ι κ) : Message ι κ → Prop
  | .offer .. => False
  | .accept c => ∀ k, a ≠ .outgoing c k
  | .hangup c => a.call ≠ some c
  | .decline _ | .elsewhere _ | .other => True

/-- What moves a peer: itself, or a message, which it may refuse. -/
inductive Cause
  | acts
  | hears
  /-- the offer is blocked or stale -/
  | refuses

/-- What a peer does: the stage it is in, what it takes in, the stage it goes to, and what it says.
`lt` decides a glare. -/
inductive Turn (lt : ι → ι → Prop) :
    Cause → Stage ι κ → List (Message ι κ) → Stage ι κ → List (Message ι κ) → Prop
  | talks (n : Nat) : Turn lt .acts a [] a (List.replicate n .other)
  | accepts : Turn lt .acts (.incoming c k) [] (.active c k false) [.accept c]
  | declines : Turn lt .acts (.incoming c k) [] .idle [.decline c]
  | misses : Turn lt .acts (.incoming c k) [] .idle []
  | cancels : Turn lt .acts (.outgoing c k) [] .idle [.hangup c]
  | ends : Turn lt .acts (.active c k r) [] .idle [.hangup c]
  | rings : Turn lt .hears .idle [.offer c k] (.incoming c k) [.other]
  | crosses : c ≠ c' → lt c c' →
    Turn lt .hears (.outgoing c' k') [.offer c k] (.incoming c k) [.hangup c', .other]
  | wins (n : Nat) : ¬ lt c c' →
    Turn lt .hears (.outgoing c' k') [.offer c k] (.outgoing c' k') (List.replicate n .other)
  | isBusy : (∀ c k, a ≠ .outgoing c k) → Turn lt .hears a [.offer c k] a [.decline c]
  | refuses (n : Nat) : Turn lt .refuses a [.offer c k] a (List.replicate n .other)
  | answered (n : Nat) : Turn lt .hears (.outgoing c k) [.accept c] (.active c k true)
    (List.replicate n (.elsewhere c))
  | declined : Turn lt .hears (.outgoing c k) [.decline c] .idle []
  | hungUp : a.call = some c → Turn lt .hears a [.hangup c] .idle []
  | elsewhere : Turn lt .hears (.incoming c k) [.elsewhere c] .idle []
  | ignores (n : Nat) : Ignorable a m → Turn lt .hears a [m] a (List.replicate n .other)

/-- What a turn can do, whichever it is. -/
structure Turned (a : Stage ι κ) (popped : List (Message ι κ)) (a' : Stage ι κ)
    (out : List (Message ι κ)) : Prop where
  offersNone : ∀ c k, .offer c k ∉ out
  tells : ∀ m ∈ out, ∀ c, m.call = some c → a.call = some c ∨ ∃ k, .offer c k ∈ popped
  tellsOver : ∀ c, .decline c ∈ out ∨ .hangup c ∈ out →
    a.call = some c ∧ a'.call ≠ some c ∨ a' = a ∧ ∃ k, .offer c k ∈ popped
  tellsAccept : ∀ c, .accept c ∈ out → ∃ k, a = .incoming c k ∧ a' = .active c k false
  tellsElsewhere : ∀ c, .elsewhere c ∈ out → ∃ k, a' = .active c k true
  enters : ∀ c, a'.call = some c → a.call = some c ∨ ∃ k, .offer c k ∈ popped
  outgoing : ∀ c k, a' = .outgoing c k → a = .outgoing c k
  incoming : ∀ c k, a' = .incoming c k → a = .incoming c k ∨ .offer c k ∈ popped
  active : ∀ c k r, a' = .active c k r → a = .active c k r ∨
    r = false ∧ a = .incoming c k ∧ .accept c ∈ out ∨
    r = true ∧ a = .outgoing c k ∧ .accept c ∈ popped
  leavesOutgoing : ∀ c k, a = .outgoing c k → a' = .outgoing c k ∧ .accept c ∉ popped ∨
    .hangup c ∈ out ∨ a' = .active c k true ∧ .accept c ∈ popped ∨
    .decline c ∈ popped ∨ .hangup c ∈ popped
  leavesActive : ∀ c k r, a = .active c k r →
    a' = .active c k r ∨ .hangup c ∈ out ∨ .hangup c ∈ popped
  hangsUp : ∀ c, .hangup c ∈ popped → a'.call ≠ some c

/-- What holds between a peer in stage `a` that has said `la` and one in stage `b` that has said
`lb`, as far as the calls are concerned that the first one has started. -/
structure Half (used : ι → Prop) (a b : Stage ι κ) (la lb : List (Message ι κ)) : Prop where
  used_call : ∀ c, a.call = some c → used c
  used_message : ∀ m ∈ la, ∀ c, m.call = some c → used c
  first : la.Pairwise Message.NotAfter
  /-- a call is offered once, and to a peer that is not in it -/
  unanswered : ∀ c k, .offer c k ∈ la → b.call ≠ some c
  /-- whoever has left a call stays away from it -/
  closed : ∀ c, .decline c ∈ la ∨ .hangup c ∈ la → a.call ≠ some c ∧ ∀ k, .offer c k ∉ lb
  accepted : ∀ c, .accept c ∈ la → (∀ k, a ≠ .incoming c k) ∧ ∀ k, .offer c k ∉ lb
  bound : ∀ c, .elsewhere c ∈ la → ∀ k, a ≠ .outgoing c k
  /-- a call that is offered, rings or is accepted goes out still, or its end is on the way -/
  offered : ∀ c k, .offer c k ∈ la → a = .outgoing c k ∨ .hangup c ∈ la
  rings : ∀ c k, b = .incoming c k → a = .outgoing c k ∨ .hangup c ∈ la
  answers : ∀ c k, b = .active c k false →
    a = .outgoing c k ∧ .accept c ∈ lb ∨ a = .active c k true ∨ .hangup c ∈ la
  /-- a call that is active for its caller is so for the callee, or its end is on the way -/
  agrees : ∀ c k, a = .active c k true → b = .active c k false ∨ .hangup c ∈ lb
  crossing : ∀ c k, a = .outgoing c k → .accept c ∈ lb → b = .active c k false ∨ .hangup c ∈ lb

variable {lt : ι → ι → Prop} {why : Cause} {used : ι → Prop} {a a' b : Stage ι κ}
  {la lb rest popped out : List (Message ι κ)} {c : ι} {k k' : κ} {m : Message ι κ}

theorem Turn.tellsAccept (h : Turn lt why a popped a' out) (hc : .accept c ∈ out) :
    ∃ k, a = .incoming c k ∧ a' = .active c k false := by
  cases h with
  | accepts =>
    cases mem_singleton.mp hc
    exact ⟨_, rfl, rfl⟩
  | talks n | ignores n | answered n | wins n | refuses n => cases (mem_replicate.mp hc).2
  | _ => simp at hc

theorem Turn.tellsElsewhere (h : Turn lt why a popped a' out) (hc : .elsewhere c ∈ out) :
    ∃ k, a' = .active c k true := by
  cases h with
  | answered n =>
    cases (mem_replicate.mp hc).2
    exact ⟨_, rfl⟩
  | talks n | ignores n | wins n | refuses n => cases (mem_replicate.mp hc).2
  | _ => simp at hc

theorem Turn.turned (h : Turn lt why a popped a' out) : Turned a popped a' out := by
  refine ⟨?_, ?_, ?_, fun _ => h.tellsAccept, fun _ => h.tellsElsewhere, ?_, ?_, ?_, ?_, ?_, ?_, ?_⟩
  all_goals cases h
  all_goals grind [Stage.call, Message.call, Ignorable]

theorem Half.first_rest (H : Half used b a (popped ++ rest) la) (hm : m ∈ popped)
    (hoffer : .offer c k ∈ rest) : m.call ≠ some c :=
  (pairwise_append.mp H.first).2.2 m hm _ hoffer

theorem Turned.hangup_rest (T : Turned a popped a' out) (hcall : a'.call = some c)
    (h : .hangup c ∈ popped ++ rest) : .hangup c ∈ rest :=
  (mem_append.mp h).resolve_left fun hpop => T.hangsUp c hpop hcall

section

variable (T : Turned a popped a' out) (H : Half used a b la (popped ++ rest))
  (H' : Half used b a (popped ++ rest) la)
include T H H'

theorem Half.actor : Half used a' b (la ++ out) rest where
  used_call c h := by
    rcases T.enters c h with hin | ⟨k, hoffer⟩
    · exact H.used_call c hin
    · exact H'.used_message _ (mem_append_left _ hoffer) c rfl
  used_message m hm c hc := by
    rcases mem_append.mp hm with hm | hm
    · exact H.used_message m hm c hc
    · rcases T.tells m hm c hc with hin | ⟨k, hoffer⟩
      · exact H.used_call c hin
      · exact H'.used_message _ (mem_append_left _ hoffer) c rfl
  first := by
    have hout : ∀ m, ∀ m' ∈ out, Message.NotAfter m m' := by
      intro m m' hm'
      cases m' with
      | offer c k => exact absurd hm' (T.offersNone c k)
      | _ => trivial
    exact pairwise_append.mpr ⟨H.first, pairwise_of_forall_mem_list fun m _ => hout m,
      fun m _ => hout m⟩
  unanswered c k h := by
    have hla := (mem_append.mp h).resolve_right (T.offersNone c k)
    exact H.unanswered c k hla
  closed c h := by
    rw [mem_append, mem_append, or_or_or_comm] at h
    rcases h with h | h
    · obtain ⟨hcall, hnone⟩ := H.closed c h
      refine ⟨fun h' => ?_, fun k hk => hnone k (mem_append_right _ hk)⟩
      rcases T.enters c h' with hin | ⟨k, hoffer⟩
      · exact hcall hin
      · exact hnone k (mem_append_left _ hoffer)
    rcases T.tellsOver c h with ⟨hin, hcall⟩ | ⟨rfl, k, hoffer⟩
    · exact ⟨hcall, fun k hk => H'.unanswered c k (mem_append_right _ hk) hin⟩
    · exact ⟨H'.unanswered c k (mem_append_left _ hoffer),
        fun k' hk => H'.first_rest hoffer hk rfl⟩
  accepted c h := by
    rcases mem_append.mp h with h | h
    · obtain ⟨hin, hnone⟩ := H.accepted c h
      refine ⟨fun k hk => ?_, fun k hk => hnone k (mem_append_right _ hk)⟩
      rcases T.incoming c k hk with hk | hk
      · exact hin k hk
      · exact hnone k (mem_append_left _ hk)
    · obtain ⟨k, rfl, rfl⟩ := T.tellsAccept c h
      exact ⟨nofun, fun k' hk => H'.unanswered c k' (mem_append_right _ hk) rfl⟩
  bound c h k hk := by
    rcases mem_append.mp h with h | h
    · exact H.bound c h k (T.outgoing c k hk)
    · obtain ⟨k', rfl⟩ := T.tellsElsewhere c h
      cases hk
  -- a call that went out may have been accepted, declined or hung up by now, but not if it is
  -- still offered or rings
  offered c k h := by
    have hla := (mem_append.mp h).resolve_right (T.offersNone c k)
    rcases H.offered c k hla with hout | hend
    · rcases T.leavesOutgoing c k hout with hstay | hend | hanswer | hover | hover
      · exact .inl hstay.1
      · exact .inr (mem_append_right _ hend)
      · exact absurd hla ((H'.accepted c (mem_append_left _ hanswer.2)).2 k)
      · exact absurd hla ((H'.closed c (.inl (mem_append_left _ hover))).2 k)
      · exact absurd hla ((H'.closed c (.inr (mem_append_left _ hover))).2 k)
    · exact .inr (mem_append_left _ hend)
  rings c k h := by
    have hcall : b.call = some c := by rw [h]; rfl
    rcases H.rings c k h with hout | hend
    · rcases T.leavesOutgoing c k hout with hstay | hend | hanswer | hover | hover
      · exact .inl hstay.1
      · exact .inr (mem_append_right _ hend)
      · exact absurd h ((H'.accepted c (mem_append_left _ hanswer.2)).1 k)
      · exact absurd hcall (H'.closed c (.inl (mem_append_left _ hover))).1
      · exact absurd hcall (H'.closed c (.inr (mem_append_left _ hover))).1
    · exact .inr (mem_append_left _ hend)
  answers c k h := by
    have hcall : b.call = some c := by rw [h]; rfl
    rcases H.answers c k h with ⟨hout, haccept⟩ | hactive | hend
    · rcases T.leavesOutgoing c k hout with ⟨hstay, hnot⟩ | hend | hanswer | hover | hover
      · exact .inl ⟨hstay, (mem_append.mp haccept).resolve_left hnot⟩
      · exact .inr (.inr (mem_append_right _ hend))
      · exact .inr (.inl hanswer.1)
      · exact absurd hcall (H'.closed c (.inl (mem_append_left _ hover))).1
      · exact absurd hcall (H'.closed c (.inr (mem_append_left _ hover))).1
    · rcases T.leavesActive c k true hactive with hstay | hend | hover
      · exact .inr (.inl hstay)
      · exact .inr (.inr (mem_append_right _ hend))
      · exact absurd hcall (H'.closed c (.inr (mem_append_left _ hover))).1
    · exact .inr (.inr (mem_append_left _ hend))
  agrees c k h := by
    have hrest : .hangup c ∈ popped ++ rest → .hangup c ∈ rest := T.hangup_rest (by rw [h]; rfl)
    rcases T.active c k true h with hactive | ⟨hfalse, -⟩ | ⟨-, hout, haccept⟩
    · exact (H.agrees c k hactive).imp_right hrest
    · cases hfalse
    · exact (H.crossing c k hout (mem_append_left _ haccept)).imp_right hrest
  crossing c k h hc := by
    have hcall : a'.call = some c := by rw [h]; rfl
    exact (H.crossing c k (T.outgoing c k h) (mem_append_right _ hc)).imp_right (T.hangup_rest hcall)

omit H in
theorem Half.listener : Half used b a' rest (la ++ out) where
  used_call := H'.used_call
  used_message m hm := H'.used_message m (mem_append_right _ hm)
  first := (pairwise_append.mp H'.first).2.1
  unanswered c k h hc := by
    rcases T.enters c hc with hin | ⟨k', hoffer⟩
    · exact H'.unanswered c k (mem_append_right _ h) hin
    · exact H'.first_rest hoffer h rfl
  closed c h := by
    obtain ⟨hcall, hnone⟩ := H'.closed c (h.imp (mem_append_right _) (mem_append_right _))
    exact ⟨hcall, fun k hk => (mem_append.mp hk).elim (hnone k) (T.offersNone c k)⟩
  accepted c h := by
    obtain ⟨hin, hnone⟩ := H'.accepted c (mem_append_right _ h)
    exact ⟨hin, fun k hk => (mem_append.mp hk).elim (hnone k) (T.offersNone c k)⟩
  bound c h := H'.bound c (mem_append_right _ h)
  offered c k h := by
    refine (H'.offered c k (mem_append_right _ h)).imp_right fun hend => ?_
    exact (mem_append.mp hend).resolve_left fun hpop => H'.first_rest hpop h rfl
  rings c k h := by
    have hrest : .hangup c ∈ popped ++ rest → .hangup c ∈ rest := T.hangup_rest (by rw [h]; rfl)
    rcases T.incoming c k h with hin | hoffer
    · exact (H'.rings c k hin).imp_right hrest
    · exact (H'.offered c k (mem_append_left _ hoffer)).imp_right hrest
  answers c k h := by
    have hrest : .hangup c ∈ popped ++ rest → .hangup c ∈ rest := T.hangup_rest (by rw [h]; rfl)
    rcases T.active c k false h with hactive | ⟨-, hin, haccept⟩ | ⟨htrue, -⟩
    · exact (H'.answers c k hactive).imp (And.imp_right (mem_append_left _))
        (Or.imp_right hrest)
    · rcases H'.rings c k hin with hout | hend
      · exact .inl ⟨hout, mem_append_right _ haccept⟩
      · exact .inr (.inr (hrest hend))
    · cases htrue
  agrees c k h := by
    have hcall : b.call = some c := by rw [h]; rfl
    rcases H'.agrees c k h with hactive | hend
    · rcases T.leavesActive c k false hactive with hstay | hend | hover
      · exact .inl hstay
      · exact .inr (mem_append_right _ hend)
      · exact absurd hcall (H'.closed c (.inr (mem_append_left _ hover))).1
    · exact .inr (mem_append_left _ hend)
  crossing c k h hc := by
    have hcall : b.call = some c := by rw [h]; rfl
    rcases mem_append.mp hc with hc | hc
    · rcases H'.crossing c k h hc with hactive | hend
      · rcases T.leavesActive c k false hactive with hstay | hend | hover
        · exact .inl hstay
        · exact .inr (mem_append_right _ hend)
        · exact absurd hcall (H'.closed c (.inr (mem_append_left _ hover))).1
      · exact .inr (mem_append_left _ hend)
    -- the call is accepted just now, by its key
    obtain ⟨k', hin, hactive⟩ := T.tellsAccept c hc
    rcases H'.rings c k' hin with hout | hend
    · rw [h] at hout
      cases hout
      exact .inl hactive
    · exact absurd hcall (H'.closed c (.inr hend)).1

end

/-- Both peers, the messages that each has on the way, and the calls there have been. -/
structure System (ι κ : Type*) where
  stage : Bool → Stage ι κ
  sent : Bool → List (Message ι κ)
  used : ι → Prop

namespace System

/-- Peer `p` is in stage `a`, with `mine` on the way from it and `theirs` to it. -/
def put (s : System ι κ) (p : Bool) (a : Stage ι κ) (mine theirs : List (Message ι κ)) :
    System ι κ :=
  { s with
    stage := update s.stage p a
    sent := update (update s.sent p mine) (!p) theirs }

variable {s s' : System ι κ} {p : Bool} {mine theirs : List (Message ι κ)}

@[simp] theorem put_stage_self : (s.put p a mine theirs).stage p = a := update_self ..

@[simp] theorem put_stage_other : (s.put p a mine theirs).stage (!p) = s.stage (!p) :=
  update_of_ne (Bool.not_ne_self p) ..

@[simp] theorem put_sent_self : (s.put p a mine theirs).sent p = mine :=
  (update_of_ne (Bool.self_ne_not p) ..).trans (update_self ..)

@[simp] theorem put_sent_other : (s.put p a mine theirs).sent (!p) = theirs :=
  update_self ..

@[simp] theorem put_not_stage : (s.put (!p) a mine theirs).stage p = s.stage p :=
  update_of_ne (Bool.self_ne_not p) ..

@[simp] theorem put_not_sent : (s.put (!p) a mine theirs).sent p = theirs := by
  have h : (s.put (!p) a mine theirs).sent (!!p) = theirs := put_sent_other
  rwa [Bool.not_not] at h

end System

/-- What either peer may do next. A call has an id that no call has had before; an offer may be lost,
and the call withdrawn when this is noticed. -/
inductive Move [DecidableEq ι] (lt : ι → ι → Prop) (s : System ι κ) : Cause → System ι κ → Prop
  | turn {why : Cause} {popped rest out : List (Message ι κ)} {a : Stage ι κ} (p : Bool)
      (hpop : s.sent (!p) = popped ++ rest) (hturn : Turn lt why (s.stage p) popped a out) :
    Move lt s why (s.put p a (s.sent p ++ out) rest)
  | start (p : Bool) (c : ι) (k : κ) (hidle : s.stage p = .idle) (hfresh : ¬ s.used c) :
    Move lt s .acts
      { s.put p (.outgoing c k) (s.sent p ++ [.offer c k]) (s.sent (!p)) with
        used := fun c' => c' = c ∨ s.used c' }
  | lose (p : Bool) (c : ι) :
    Move lt s .acts
      (s.put p (s.stage p) ((s.sent p).filter fun m => m.offered ≠ some c) (s.sent (!p)))
  | withdraw (p : Bool) (c : ι) (k k' : κ) (hout : s.stage p = .outgoing c k)
      (hoffer : .offer c k' ∈ s.sent p) :
    Move lt s .acts
      (s.put p .idle ((s.sent p).filter fun m => m.offered ≠ some c) (s.sent (!p)))

theorem forall_peers {P : Bool → Prop} (p : Bool) (h : P p) (h' : P (!p)) : ∀ q, P q := by
  intro q
  by_cases hq : q = p
  · rw [hq]; exact h
  · rw [Bool.eq_not_of_ne hq]; exact h'

/-- The invariant: each half holds for the calls of its peer. -/
def Inv (s : System ι κ) : Prop :=
  ∀ p, Half s.used (s.stage p) (s.stage (!p)) (s.sent p) (s.sent (!p))

variable {s s' : System ι κ} {p : Bool}

theorem Inv.put {mine theirs : List (Message ι κ)} {used : ι → Prop}
    (h : Half used a (s.stage (!p)) mine theirs) (h' : Half used (s.stage (!p)) a theirs mine) :
    Inv { s.put p a mine theirs with used := used } := by
  refine forall_peers p ?_ ?_
  · simpa using h
  · simpa using h'

theorem Half.start (H : Half used .idle b la lb) (H' : Half used b .idle lb la) (hc : ¬ used c) :
    Half (fun c' => c' = c ∨ used c') (.outgoing c k) b (la ++ [.offer c k]) lb ∧
      Half (fun c' => c' = c ∨ used c') b (.outgoing c k) lb (la ++ [.offer c k]) := by
  -- what is said so far is about other calls, and the new one is only offered
  cases H
  cases H'
  constructor
  all_goals constructor
  all_goals grind [Stage.call, Message.call, Message.NotAfter]

theorem Half.withdraw [DecidableEq ι] (H : Half used (.outgoing c k) b la lb)
    (H' : Half used b (.outgoing c k) lb la) (hoffer : .offer c k' ∈ la) :
    Half used .idle b (la.filter fun m => m.offered ≠ some c) lb ∧
      Half used b .idle lb (la.filter fun m => m.offered ≠ some c) := by
  cases H
  cases H'
  constructor
  all_goals constructor
  all_goals grind [Stage.call, Message.call, Message.NotAfter, Message.offered]

theorem Half.lose [DecidableEq ι] (H : Half used a b la lb) (H' : Half used b a lb la) (c : ι) :
    Half used a b (la.filter fun m => m.offered ≠ some c) lb ∧
      Half used b a lb (la.filter fun m => m.offered ≠ some c) := by
  cases H
  cases H'
  constructor
  all_goals constructor
  all_goals grind [Message.offered]

theorem Inv.move [DecidableEq ι] (H : Inv s) (h : Move lt s why s') : Inv s' := by
  cases h with
  | turn p hpop hturn =>
    have h := H p
    have h' := H (!p)
    rw [Bool.not_not, hpop] at h'
    rw [hpop] at h
    exact .put (h.actor hturn.turned h') (.listener hturn.turned h')
  | start p c k hidle hfresh =>
    have h := H p
    have h' := H (!p)
    rw [Bool.not_not] at h'
    rw [hidle] at h h'
    obtain ⟨hmine, htheirs⟩ := h.start h' hfresh
    exact .put hmine htheirs
  | lose p c =>
    have h := H p
    have h' := H (!p)
    rw [Bool.not_not] at h'
    obtain ⟨hmine, htheirs⟩ := h.lose h' c
    exact .put hmine htheirs
  | withdraw p c k k' hout hoffer =>
    have h := H p
    have h' := H (!p)
    rw [Bool.not_not] at h'
    rw [hout] at h h'
    obtain ⟨hmine, htheirs⟩ := h.withdraw h' hoffer
    exact .put hmine htheirs

/-- Nothing is on the way, and nobody waits for an answer. -/
structure Quiet (s : System ι κ) : Prop where
  delivered : ∀ p, s.sent p = []
  outgoing : ∀ p c k, s.stage p ≠ .outgoing c k
  incoming : ∀ p c k, s.stage p ≠ .incoming c k

/-- Both peers are idle, or in one call, in complementary roles and with one key. -/
def Agreed (s : System ι κ) : Prop :=
  (∀ p, s.stage p = .idle) ∨
    ∃ c k p, s.stage p = .active c k true ∧ s.stage (!p) = .active c k false

theorem Inv.active_both (H : Inv s) (hquiet : Quiet s) {r : Bool} (h : s.stage p = .active c k r) :
    s.stage (!p) = .active c k !r := by
  have hnone : ∀ q (m : Message ι κ), m ∉ s.sent q := by
    intro q m hm
    rw [hquiet.delivered q] at hm
    exact absurd hm not_mem_nil
  cases r with
  | true => exact ((H p).agrees c k h).resolve_right (hnone _ _)
  | false =>
    have h' := (H (!p)).answers c k (by rwa [Bool.not_not])
    rcases h' with ⟨hout, -⟩ | hactive | hend
    · exact absurd hout (hquiet.outgoing _ c k)
    · exact hactive
    · exact absurd hend (hnone _ _)

theorem Inv.agreed (H : Inv s) (hquiet : Quiet s) : Agreed s := by
  by_cases hidle : ∀ p, s.stage p = .idle
  · exact .inl hidle
  obtain ⟨p, hp⟩ := not_forall.mp hidle
  cases hstage : s.stage p with
  | idle => exact absurd hstage hp
  | outgoing c k => exact absurd hstage (hquiet.outgoing p c k)
  | incoming c k => exact absurd hstage (hquiet.incoming p c k)
  | active c k r =>
    have hother := H.active_both hquiet hstage
    cases r with
    | true => exact .inr ⟨c, k, p, hstage, hother⟩
    | false => exact .inr ⟨c, k, !p, hother, by rwa [Bool.not_not]⟩

/-- Peer `p` calls with `c`, the other one with the greater `c'`; the first offer is on the way or
has arrived, and nothing on the way ends either call before they meet. -/
structure Crossing (s : System ι κ) (p : Bool) (c : ι) (k : κ) (c' : ι) (k' : κ) : Prop where
  mine : s.stage p = .outgoing c k
  theirs : s.stage (!p) = .outgoing c' k' ∧ .offer c k ∈ s.sent p ∨
    s.stage (!p) = .incoming c k ∧ ∀ c k, .offer c k ∉ s.sent p
  offers : ∀ c₁ k₁, .offer c₁ k₁ ∈ s.sent p → c₁ = c ∧ k₁ = k
  offers' : ∀ c₁ k₁, .offer c₁ k₁ ∈ s.sent (!p) → c₁ = c'
  harmless : ∀ m ∈ s.sent p, m ≠ .accept c' ∧ m ≠ .decline c' ∧ m ≠ .hangup c' ∧ m ≠ .hangup c ∧
    m ≠ .elsewhere c
  harmless' : ∀ m ∈ s.sent (!p), m ≠ .accept c ∧ m ≠ .decline c ∧ m ≠ .hangup c

variable {c' : ι}

theorem Half.offer_key (H : Half used (.outgoing c k) b la lb) (hoffer : .offer c k' ∈ la) :
    k' = k := by
  rcases H.offered c k' hoffer with hout | hend
  · cases hout
    rfl
  · exact absurd rfl (H.closed c (.inr hend)).1

theorem Inv.crossing {k₂ : κ} (H : Inv s) (hmine : s.stage p = .outgoing c k)
    (htheirs : s.stage (!p) = .outgoing c' k') (hoffer : .offer c k ∈ s.sent p)
    (hoffer' : .offer c' k₂ ∈ s.sent (!p))
    (honly : ∀ c₁ k₁, .offer c₁ k₁ ∈ s.sent p → c₁ = c ∧ k₁ = k)
    (honly' : ∀ c₁ k₁, .offer c₁ k₁ ∈ s.sent (!p) → c₁ = c') : Crossing s p c k c' k' := by
  have h := H p
  have h' := H (!p)
  rw [Bool.not_not] at h'
  have hcall : (s.stage p).call = some c := by rw [hmine]; rfl
  refine ⟨hmine, .inl ⟨htheirs, hoffer⟩, honly, honly', ?_, ?_⟩
  · rintro m hm
    refine ⟨?_, ?_, ?_, ?_, ?_⟩
    · rintro rfl
      exact (h.accepted c' hm).2 k₂ hoffer'
    · rintro rfl
      exact (h.closed c' (.inl hm)).2 k₂ hoffer'
    · rintro rfl
      exact (h.closed c' (.inr hm)).2 k₂ hoffer'
    · rintro rfl
      exact (h.closed c (.inr hm)).1 hcall
    · rintro rfl
      exact h.bound c hm k hmine
  · rintro m hm
    refine ⟨?_, ?_, ?_⟩
    · rintro rfl
      exact (h'.accepted c hm).2 k hoffer
    · rintro rfl
      exact (h'.closed c (.inl hm)).2 k hoffer
    · rintro rfl
      exact (h'.closed c (.inr hm)).2 k hoffer

theorem Crossing.mine_stays (out : List (Message ι κ)) (X : Crossing s p c k c' k')
    (hpop : s.sent (!p) = popped ++ rest) (hout : ∀ m ∈ out, m = .other) :
    Crossing (s.put p (s.stage p) (s.sent p ++ out) rest) p c k c' k' := by
  obtain ⟨h1, h2, h3, h4, h5, h6⟩ := X
  constructor
  all_goals simp only [System.put_stage_self, System.put_stage_other, System.put_sent_self, System.put_sent_other]
  all_goals grind

theorem Crossing.hears_mine (X : Crossing s p c k c' k') (hlt : lt c c')
    (hasymm : ∀ c c', lt c c' → ¬ lt c' c) (hpop : s.sent (!p) = popped ++ rest)
    (hturn : Turn lt .hears (s.stage p) popped a out) :
    Crossing (s.put p a (s.sent p ++ out) rest) p c k c' k' := by
  have hstays := X.mine_stays out hpop
  obtain ⟨h1, h2, h3, h4, h5, h6⟩ := X
  rw [h1] at hturn hstays
  rw [hpop] at h4 h6
  cases hturn with
  | crosses _ hlt' =>
    cases h4 _ _ mem_cons_self
    exact absurd hlt' (hasymm _ _ hlt)
  | isBusy h => exact absurd rfl (h c k)
  | answered => exact absurd rfl (h6 _ mem_cons_self).1
  | declined => exact absurd rfl (h6 _ mem_cons_self).2.1
  | hungUp h =>
    cases h
    exact absurd rfl (h6 _ mem_cons_self).2.2
  | ignores n | wins n => exact hstays fun m hm => (mem_replicate.mp hm).2

theorem Crossing.theirs_stays (out : List (Message ι κ)) (X : Crossing s p c k c' k')
    (hpop : s.sent p = popped ++ rest) (hkeep : .offer c k ∉ popped) (hout : ∀ m ∈ out, m = .other) :
    Crossing (s.put (!p) (s.stage (!p)) (s.sent (!p) ++ out) rest) p c k c' k' := by
  obtain ⟨h1, h2, h3, h4, h5, h6⟩ := X
  constructor
  all_goals simp only [System.put_stage_self, System.put_not_stage, System.put_sent_self,
    System.put_not_sent]
  all_goals grind

theorem not_offer_of_ignorable (h : Ignorable a m) :
    .offer c k ∉ [m] := by
  rw [mem_singleton]
  rintro rfl
  exact h

theorem Crossing.hears_theirs (X : Crossing s p c k c' k') (H : Inv s) (hlt : lt c c') (hne : c ≠ c')
    (hpop : s.sent p = popped ++ rest) (hturn : Turn lt .hears (s.stage (!p)) popped a out) :
    Crossing (s.put (!p) a (s.sent (!p) ++ out) rest) p c k c' k' := by
  have hstays := X.theirs_stays out hpop
  have hfirst := (H p).first
  obtain ⟨h1, h2, h3, h4, h5, h6⟩ := X
  rw [hpop] at h2 h3 h5 hfirst
  rcases h2 with ⟨htheirs, hoffer⟩ | ⟨htheirs, hnone⟩
  · rw [htheirs] at hturn hstays
    cases hturn with
    | crosses =>
      obtain ⟨rfl, rfl⟩ := h3 _ _ mem_cons_self
      have hlast : ∀ c₁ k₁, .offer c₁ k₁ ∉ rest := by
        intro c₁ k₁ hmem
        obtain ⟨rfl, -⟩ := h3 c₁ k₁ (mem_cons_of_mem _ hmem)
        exact (pairwise_cons.mp hfirst).1 _ hmem rfl
      constructor
      all_goals simp only [System.put_stage_self, System.put_not_stage, System.put_sent_self,
        System.put_not_sent]
      all_goals grind
    | wins n hnot =>
      obtain ⟨rfl, rfl⟩ := h3 _ _ mem_cons_self
      exact absurd hlt hnot
    | isBusy h => exact absurd rfl (h c' k')
    | answered => exact absurd rfl (h5 _ mem_cons_self).1
    | declined => exact absurd rfl (h5 _ mem_cons_self).2.1
    | hungUp h =>
      cases h
      exact absurd rfl (h5 _ mem_cons_self).2.2.1
    | ignores n hignorable => exact hstays (not_offer_of_ignorable hignorable) fun m hm => (mem_replicate.mp hm).2
  · rw [htheirs] at hturn hstays
    cases hturn with
    | isBusy h => exact absurd mem_cons_self (hnone _ _)
    | hungUp h =>
      cases h
      exact absurd rfl (h5 _ mem_cons_self).2.2.2.1
    | elsewhere => exact absurd rfl (h5 _ mem_cons_self).2.2.2.2
    | ignores n hignorable => exact hstays (not_offer_of_ignorable hignorable) fun m hm => (mem_replicate.mp hm).2

theorem Crossing.move [DecidableEq ι] (X : Crossing s p c k c' k') (H : Inv s) (hlt : lt c c')
    (hasymm : ∀ c c', lt c c' → ¬ lt c' c) (h : Move lt s .hears s') : Crossing s' p c k c' k' := by
  have hne : c ≠ c' := by
    rintro rfl
    exact hasymm _ _ hlt hlt
  cases h with
  | turn q hpop hturn =>
    by_cases hq : q = p
    · subst hq
      exact X.hears_mine hlt hasymm hpop hturn
    · obtain rfl := Bool.eq_not_of_ne hq
      rw [Bool.not_not] at hpop
      exact X.hears_theirs H hlt hne hpop hturn

theorem Crossing.survives (X : Crossing s p c k c' k') (hdelivered : s.sent p = []) :
    s.stage p = .outgoing c k ∧ s.stage (!p) = .incoming c k := by
  refine ⟨X.mine, ?_⟩
  rcases X.theirs with ⟨-, hoffer⟩ | ⟨hin, -⟩
  · rw [hdelivered] at hoffer
    exact absurd hoffer not_mem_nil
  · exact hin

end Bluetalk.Calls.CallProtocol

import Bluetalk.Relay.ServerLines

/-!
# What the tasks of the relay have left to do

A task has one effect to begin with, but for the messages of a new connection. Calls that a client
asks for, and what they leave to be sent to the other end of a tunnel, stand alone in their task
(`Shaped`). A connection has one task at a time, and what it asked for is done there (`Tidy`).
-/

open List Option Function

namespace Bluetalk.Relay

/-- The effects that may come after another one in a task. -/
def Effect.follows : Effect → Bool
  | .put .push _ item =>
    match item.msg with
    | .text (.opened _) => false
    | _ => true
  | .put (.enqueue _) .. | .put (.send _) .. | .call (.failOpen ..) | .call (.tell ..) => true
  | _ => false

/-- The effects that nothing comes after. -/
def Effect.alone : Effect → Bool
  | .put .push _ item =>
    match item.msg with
    | .text (.opened _) => true
    | _ => false
  | .put (.offer _) .. | .put (.deliver ..) .. | .frame .. => true
  | .call c =>
    match c with
    | .failOpen .. | .tell .. | .close .. => false
    | _ => true
  | _ => false

theorem Effect.follows_not_alone {e : Effect} (h : e.follows) : e.alone = false := by
  cases e with
  | put how gen item =>
    cases how with
    | push =>
      simp only [follows] at h
      simp only [alone]
      split at h
      next => cases h
      next => rfl
    | enqueue | send => rfl
    | offer | deliver => cases h
  | call c => cases c <;> first | rfl | cases h
  | frame | sleep | wait => first | rfl | cases h

/-- The connection that asked for a call. -/
def Call.by? : Call → Option Nat
  | .watch _ gen _ | .open _ gen .. | .accept _ gen _ | .reject _ gen _ | .close _ gen .. |
    .forward _ gen .. | .unregister _ gen | .tell gen _ => some gen
  | .deliver post .. => some post.gen
  | .failOpen .. => none

/-- The connection in whose course an effect is performed. -/
def Effect.by? : Effect → Option Nat
  | .call c => c.by?
  | .put (.offer opening) .. => some opening.gen
  | .put (.enqueue _) gen _ | .put (.send _) gen _ => some gen
  | .put (.deliver _ _ post) .. => some post.gen
  | .frame _ gen .. => some gen
  | _ => none

/-- The messages that end their task when they are not taken. -/
def Effect.own : Effect → Bool
  | .put (.enqueue _) .. | .put (.send _) .. => true
  | _ => false

/-- What may stand in a task, one after the other. -/
def Shaped : List Effect → Prop
  | [] => True
  | e :: rest => (∀ e' ∈ rest, e'.follows) ∧ (e.alone → rest = [])

/-- What a connection has to be told itself comes last. -/
def Ranked (todo : List Effect) : Prop := todo.Pairwise fun e e' => e.own → e'.own

/-- Everything that has to be done in the course of a connection is done by its task. -/
def Owned (o : Option Nat) (todo : List Effect) : Prop := ∀ e ∈ todo, ∀ g, e.by? = some g → o = some g

variable {todo es rest : List Effect} {e : Effect} {how : How} {g : Nat} {item : Item}
  {o : Option Nat}

namespace Shaped

theorem nil : Shaped [] := trivial

theorem single : Shaped [e] := ⟨fun _ he => absurd he not_mem_nil, fun _ => rfl⟩

theorem of_follows (h : ∀ e ∈ todo, e.follows) : Shaped todo := by
  cases todo with
  | nil => trivial
  | cons e rest =>
    rw [forall_mem_cons] at h
    exact ⟨h.2, fun ha => absurd ha (by simp [Effect.follows_not_alone h.1])⟩

theorem follows (h : Shaped (e :: rest)) : ∀ e' ∈ rest, e'.follows := h.1

theorem rest_nil (h : Shaped (e :: rest)) (ha : e.alone) : rest = [] := h.2 ha

theorem cons (ha : e.alone = false) (h : ∀ e ∈ rest, e.follows) : Shaped (e :: rest) :=
  ⟨h, fun hc => absurd (ha.symm.trans hc) Bool.false_ne_true⟩

theorem sent (h : Shaped (.put how g item :: rest)) : Shaped (how.sent item rest) := by
  cases how with
  | offer opening => exact cons rfl (forall_mem_cons.mpr ⟨rfl, h.follows⟩)
  | deliver others any post =>
    rw [h.rest_nil rfl]
    exact single
  | _ => exact of_follows h.follows

theorem failed (h : Shaped (.put how g item :: rest)) : Shaped (how.failed g item rest) := by
  cases how with
  | push => exact of_follows h.follows
  | offer opening => exact cons rfl (forall_mem_cons.mpr ⟨rfl, h.follows⟩)
  | deliver others any post =>
    rw [h.rest_nil rfl]
    exact single
  | enqueue | send => exact single

end Shaped

namespace Ranked

theorem single : Ranked [e] := pairwise_singleton _ _

theorem cons (he : e.own = false) (h : Ranked rest) : Ranked (e :: rest) :=
  pairwise_cons.mpr ⟨fun _ _ ho => absurd (he.symm.trans ho) Bool.false_ne_true, h⟩

theorem of_none (h : ∀ e ∈ todo, e.own = false) : Ranked todo :=
  pairwise_of_forall_mem_list fun e he _ _ ho =>
    absurd ((h e he).symm.trans ho) Bool.false_ne_true

theorem of_all (h : ∀ e ∈ todo, e.own) : Ranked todo :=
  pairwise_of_forall_mem_list fun _ _ e' he' _ => h e' he'

theorem append (h : Ranked todo) (h' : Ranked rest)
    (hlast : (∀ e ∈ todo, e.own = false) ∨ ∀ e ∈ rest, e.own) : Ranked (todo ++ rest) := by
  refine pairwise_append.mpr ⟨h, h', fun e he e' he' ho => ?_⟩
  rcases hlast with hnone | hall
  · exact absurd ((hnone e he).symm.trans ho) Bool.false_ne_true
  · exact hall e' he'

theorem tail (h : Ranked (e :: rest)) : Ranked rest := (pairwise_cons.mp h).2

theorem rest_own (h : Ranked (e :: rest)) (he : e.own) : ∀ e' ∈ rest, e'.own := fun e' he' =>
  (pairwise_cons.mp h).1 e' he' he

theorem sent (h : Ranked (.put how g item :: rest)) (hs : Shaped (.put how g item :: rest)) :
    Ranked (how.sent item rest) := by
  cases how with
  | offer opening => exact cons rfl (cons rfl h.tail)
  | deliver others any post =>
    rw [hs.rest_nil rfl]
    exact single
  | _ => exact h.tail

theorem failed (h : Ranked (.put how g item :: rest)) (hs : Shaped (.put how g item :: rest)) :
    Ranked (how.failed g item rest) := by
  cases how with
  | push => exact h.tail
  | offer opening =>
    rw [hs.rest_nil rfl]
    exact cons rfl single
  | deliver others any post =>
    rw [hs.rest_nil rfl]
    exact single
  | enqueue | send => exact single

end Ranked

namespace Owned

theorem nil : Owned o [] := fun _ he => absurd he not_mem_nil

theorem cons (he : ∀ g, e.by? = some g → o = some g) (h : Owned o rest) : Owned o (e :: rest) :=
  forall_mem_cons.mpr ⟨he, h⟩

theorem head (h : Owned o (e :: rest)) : ∀ g, e.by? = some g → o = some g :=
  h e mem_cons_self

theorem tail (h : Owned o (e :: rest)) : Owned o rest :=
  fun e' he' => h e' (mem_cons_of_mem _ he')

theorem append (h : Owned o todo) (h' : Owned o rest) : Owned o (todo ++ rest) :=
  forall_mem_append.mpr ⟨h, h'⟩

theorem deliverTo {post : Posting} {mail : Item} {any : Bool} {targets : List Nat}
    (h : o = some post.gen) : Owned o [deliverTo post mail any targets] := by
  cases targets <;> exact cons (fun g hg => h.trans hg) nil

theorem sent (h : Owned o (.put how g item :: rest)) (hs : Shaped (.put how g item :: rest)) :
    Owned (how.owner o) (how.sent item rest) := by
  cases how with
  | offer opening =>
    rw [hs.rest_nil rfl]
    exact cons nofun (cons nofun nil)
  | deliver others any post =>
    rw [hs.rest_nil rfl]
    exact deliverTo (h.head _ rfl)
  | _ => exact h.tail

theorem failed (h : Owned o (.put how g item :: rest)) (hs : Shaped (.put how g item :: rest)) :
    Owned o (how.failed g item rest) := by
  cases how with
  | push => exact h.tail
  | offer opening => exact cons nofun (cons (fun g hg => (h.head _ rfl).trans hg) h.tail)
  | deliver others any post =>
    rw [hs.rest_nil rfl]
    exact deliverTo (h.head _ rfl)
  | enqueue | send => exact cons (fun g hg => (h.head _ rfl).trans hg) nil

end Owned

namespace Server

variable {s s' : Server} {a : Action} {c : Call} {k : Nat} {ledger : Ledger} {ps : List Push}

/-! ## Calls -/

theorem follows_notice {msg : Control} (h : Hub.isNotice msg) :
    Effect.follows (.put .push g (ledger.item g msg)) := by
  cases msg <;> first | rfl | cases h

theorem follows_detached {t t' : Tunnels} {gone : Option Nat} {pushes : List Push} (H : Hub.Detached t t' gone pushes) : ∀ e ∈ ledger.pushes pushes, e.follows := by
  intro e he
  obtain ⟨push, hpush, rfl⟩ := mem_map.mp he
  rcases H.pushes push hpush with hn | ⟨g, k, x, b, y, -, -, rfl⟩
  · exact follows_notice hn
  · rfl

theorem entered_todo (H : s.hub.Wf) (h : s.Entered c s' es) :
    (∃ e, es = [e]) ∨ ∀ e ∈ es, e.follows := by
  cases h with
  | watch =>
    refine .inr (forall_mem_append.mpr ⟨fun e he => ?_, fun e he => ?_⟩)
    · obtain ⟨push, hpush, rfl⟩ := mem_map.mp he
      exact follows_notice (Hub.setWatch_notice push hpush)
    · obtain ⟨msg, -, rfl⟩ := mem_map.mp he
      rfl
  | fails => exact .inr (forall_mem_cons.mpr ⟨rfl, forall_mem_singleton.mpr rfl⟩)
  | unregisters => exact .inr (follows_detached H.detached_unregister)
  | failsNothing | closesNothing | tellsNobody | forwardsNothing =>
    exact .inr fun e he => absurd he not_mem_nil
  | _ => exact .inl ⟨_, rfl⟩

theorem shaped_entered (H : s.hub.Wf) (hs : Shaped (.call c :: rest))
    (hproper : Proper (.call c)) (h : s.Entered c s' es) : Shaped (es ++ rest) := by
  cases hc : Effect.alone (.call c) with
  | true =>
    rw [hs.rest_nil hc, append_nil]
    rcases entered_todo H h with ⟨e, rfl⟩ | hfollows
    · exact .single
    · exact .of_follows hfollows
  | false =>
    refine .of_follows (forall_mem_append.mpr ⟨?_, hs.follows⟩)
    cases h with
    | fails => exact forall_mem_cons.mpr ⟨rfl, forall_mem_singleton.mpr rfl⟩
    | closes => exact forall_mem_singleton.mpr rfl
    | tells =>
      obtain ⟨x, code, n, rfl⟩ := hproper
      exact forall_mem_singleton.mpr rfl
    | failsNothing | closesNothing | tellsNobody => exact fun e he => absurd he not_mem_nil
    | _ => cases hc

theorem own_pushes : ∀ e ∈ ledger.pushes ps, e.own = false := by
  intro e he
  obtain ⟨push, -, rfl⟩ := mem_map.mp he
  rfl

theorem ranked_entered (hs : Shaped (.call c :: rest)) (hr : Ranked (.call c :: rest))
    (h : s.Entered c s' es) : Ranked (es ++ rest) := by
  have halone : Effect.alone (.call c) → Ranked es → Ranked (es ++ rest) := by
    intro ha hes
    rwa [hs.rest_nil ha, append_nil]
  have hnone : (∀ e ∈ es, e.own = false) → Ranked (es ++ rest) := fun hes =>
    Ranked.append (.of_none hes) hr.tail (.inl hes)
  cases h with
  | watch =>
    refine halone rfl (.append (.of_none own_pushes) (.of_all fun e he => ?_) (.inl own_pushes))
    obtain ⟨msg, -, rfl⟩ := mem_map.mp he
    rfl
  | fails => exact hnone (forall_mem_cons.mpr ⟨rfl, forall_mem_singleton.mpr rfl⟩)
  | rejects | closes | tells => exact hnone (forall_mem_singleton.mpr rfl)
  | unregisters => exact hnone own_pushes
  | failsNothing | closesNothing | tellsNobody | forwardsNothing =>
    exact hnone fun e he => absurd he not_mem_nil
  | _ => exact halone rfl .single

theorem owned_pushes : Owned o (ledger.pushes ps) := by
  intro e he g hg
  obtain ⟨push, -, rfl⟩ := mem_map.mp he
  cases hg

theorem owned_entered (hc : ∀ g, c.by? = some g → o = some g) (h : s.Entered c s' es) :
    Owned o es := by
  have hreply : ∀ {p g msg answers}, o = some g → Owned o [reply p g msg answers] :=
    fun ho => .cons (fun g hg => ho.trans hg) .nil
  have hpush : ∀ {g item}, Owned o [.put .push g item] := .cons nofun .nil
  cases h with
  | @watch peerId gen peers =>
    refine owned_pushes.append fun e he g hg => ?_
    obtain ⟨msg, -, rfl⟩ := mem_map.mp he
    exact (hc gen rfl).trans hg
  | openFails | acceptFails | rejectFails => exact hreply (hc _ rfl)
  | opens | forwards => exact .cons (fun g hg => (hc _ rfl).trans hg) .nil
  | fails => exact .cons nofun hpush
  | accepts | rejects | closes | tells => exact hpush
  | delivers => exact .deliverTo (hc _ rfl)
  | unregisters => exact owned_pushes
  | failsNothing | closesNothing | tellsNobody | forwardsNothing => exact .nil

theorem nextGen_entered (h : s.Entered c s' es) : s'.hub.nextGen = s.hub.nextGen := by
  cases h with
  | watch => exact Hub.nextGen_setWatch
  | openFails h =>
    obtain ⟨t, rfl, -⟩ := h
    rfl
  | opens label h =>
    obtain ⟨t, rfl⟩ := h.registry
    rfl
  | fails hm h | rejects hm h | closes hm h =>
    obtain ⟨-, rfl⟩ := h
    rfl
  | @unregisters peerId gen =>
    rw [Hub.unregister]
    split
    · exact Hub.nextGen_detachConn' _ _
    · rfl
  | _ => rfl

theorem Moved.nextGen_le (hm : s.Moved a s') (H : s.hub.Wf) :
    s.hub.nextGen ≤ s'.hub.nextGen := by
  cases hm with
  | connect =>
    refine (Nat.le_succ _).trans (le_of_eq ?_)
    exact H.nextGen.nextGen_makeRoom.symm
  | call => exact (nextGen_entered (entered H _)).ge
  | _ => exact le_rfl

theorem Moved.lookup_conns {d : ConnSlot} (hm : s.Moved a s') (H : s.hub.Wf)
    (hd : s'.hub.conns.lookup g = some d) :
    g = s.hub.nextGen ∨ ∃ d₀, s.hub.conns.lookup g = some d₀ ∧ d₀.peerId = d.peerId := by
  have hkeep : s.hub.conns.lookup g = some d → g = s.hub.nextGen ∨
      ∃ d₀, s.hub.conns.lookup g = some d₀ ∧ d₀.peerId = d.peerId := fun h => .inr ⟨d, h, rfl⟩
  cases hm with
  | connect =>
    rcases H.lookup_register hd with ⟨hg, -⟩ | ⟨-, hd⟩
    · exact .inl hg
    · exact hkeep hd
  | @call k o c rest ht =>
    revert hd
    refine enter_cases H c fun _ _ hentered hd => ?_
    cases hentered with
    | @watch peerId gen peers =>
      rcases Hub.setWatch_cases s.hub peerId gen peers with ⟨-, he⟩ | ⟨c₀, hc₀, -, he⟩
      · rw [he] at hd
        exact hkeep hd
      rw [he] at hd
      rcases Hub.lookup_watching hd with ⟨rfl, rfl⟩ | ⟨-, hd⟩
      · exact .inr ⟨c₀, hc₀, rfl⟩
      · exact hkeep hd
    | openFails h =>
      obtain ⟨t, rfl, -⟩ := h
      exact hkeep hd
    | opens label h =>
      obtain ⟨t, rfl⟩ := h.registry
      exact hkeep hd
    | fails hm h | rejects hm h | closes hm h =>
      obtain ⟨-, rfl⟩ := h
      exact hkeep hd
    | @unregisters peerId gen =>
      simp only [Hub.unregister] at hd
      split at hd
      next hmatch =>
        obtain ⟨c₀, hc₀, -⟩ := Hub.connMatches_iff.mp hmatch
        exact hkeep (Hub.lookup_conns_detachConn hc₀ hd)
      next => exact hkeep hd
    | _ => exact hkeep hd
  | _ => exact hkeep hd

/-! ## Tasks -/

/-- The tasks of a state are in order. -/
structure Tidy (s : Server) : Prop where
  shaped : ∀ t ∈ s.tasks, Shaped t.todo
  ranked : ∀ t ∈ s.tasks, Ranked t.todo
  owned : ∀ t ∈ s.tasks, Owned t.owner t.todo
  unique : (Task.owners s.tasks).Nodup
  known : ∀ g ∈ Task.owners s.tasks, g < s.hub.nextGen
  running : ∀ g, (s.lines g).running → g < s.hub.nextGen

theorem Tidy.start : ({} : Server).Tidy where
  shaped _ ht := absurd ht not_mem_nil
  ranked _ ht := absurd ht not_mem_nil
  owned _ ht := absurd ht not_mem_nil
  unique := .nil
  known _ hg := absurd hg not_mem_nil
  running _ hr := absurd hr Bool.false_ne_true

theorem Tidy.advance {o' : Option Nat} {rest' : List Effect} (H : s.Tidy)
    (ht : s.tasks[k]? = some ⟨o, e :: rest⟩) (ho : o' = o ∨ o' = none) (hs : Shaped rest')
    (hr : Ranked rest') (hown : Owned o' rest') :
    (∀ t ∈ Task.advance s.tasks k o' rest', Shaped t.todo) ∧
      (∀ t ∈ Task.advance s.tasks k o' rest', Ranked t.todo) ∧
      (∀ t ∈ Task.advance s.tasks k o' rest', Owned t.owner t.todo) ∧
      (Task.owners (Task.advance s.tasks k o' rest')).Nodup ∧
      ∀ g ∈ Task.owners (Task.advance s.tasks k o' rest'), g < s.hub.nextGen := by
  refine ⟨fun t hmem => ?_, fun t hmem => ?_, fun t hmem => ?_,
    Task.nodup_advance H.unique ht ho, fun g hg => ?_⟩
  · rcases Task.mem_advance hmem with hmem | rfl
    · exact H.shaped t hmem
    · exact hs
  · rcases Task.mem_advance hmem with hmem | rfl
    · exact H.ranked t hmem
    · exact hr
  · rcases Task.mem_advance hmem with hmem | rfl
    · exact H.owned t hmem
    · exact hown
  · obtain ⟨t, hmem, hto⟩ := Task.mem_owners.mp hg
    rcases Task.mem_advance hmem with hmem | rfl
    · exact H.known g (Task.mem_owners.mpr ⟨t, hmem, hto⟩)
    · rcases ho with rfl | rfl
      · exact H.known g (Task.mem_owners.mpr ⟨_, Task.mem_of_getElem? ht, hto⟩)
      · cases hto

theorem Tidy.spawn {n : Nat} (H : s.Tidy) (hle : s.hub.nextGen ≤ n) (hg : g < n)
    (hnone : g ∉ Task.owners s.tasks) (hs : Shaped todo) (hr : Ranked todo)
    (hown : Owned (some g) todo) :
    (∀ t ∈ Task.spawn s.tasks (some g) todo, Shaped t.todo) ∧
      (∀ t ∈ Task.spawn s.tasks (some g) todo, Ranked t.todo) ∧
      (∀ t ∈ Task.spawn s.tasks (some g) todo, Owned t.owner t.todo) ∧
      (Task.owners (Task.spawn s.tasks (some g) todo)).Nodup ∧
      ∀ g' ∈ Task.owners (Task.spawn s.tasks (some g) todo), g' < n := by
  refine ⟨fun t hmem => ?_, fun t hmem => ?_, fun t hmem => ?_,
    Task.nodup_spawn H.unique hnone, fun g' hg' => ?_⟩
  · rcases Task.mem_spawn.mp hmem with hmem | ⟨-, rfl⟩
    · exact H.shaped t hmem
    · exact hs
  · rcases Task.mem_spawn.mp hmem with hmem | ⟨-, rfl⟩
    · exact H.ranked t hmem
    · exact hr
  · rcases Task.mem_spawn.mp hmem with hmem | ⟨-, rfl⟩
    · exact H.owned t hmem
    · exact hown
  · obtain ⟨t, hmem, hto⟩ := Task.mem_owners.mp hg'
    rcases Task.mem_spawn.mp hmem with hmem | ⟨-, rfl⟩
    · exact (H.known g' (Task.mem_owners.mpr ⟨t, hmem, hto⟩)).trans_le hle
    · cases hto
      exact hg

theorem not_owner_of_reads (hr : s.reads g) : g ∉ Task.owners s.tasks := by
  intro hmem
  obtain ⟨t, ht, hto⟩ := Task.mem_owners.mp hmem
  rw [reads, Bool.and_eq_true] at hr
  have := all_eq_true.mp hr.2 t ht
  simp [hto] at this

theorem Moved.running (hm : s.Moved a s') (H : s.hub.Wf) (h : (s'.lines g).running) :
    (s.lines g).running ∨ (g = s.hub.nextGen ∧ s'.hub.nextGen = s.hub.nextGen + 1) := by
  -- one line is changed, and it does not begin to run
  have hupdate : ∀ {g' l}, (l.running → (s.lines g').running) →
      (update s.lines g' l g).running → (s.lines g).running := by
    intro g' l hl h
    by_cases hg : g = g'
    · subst hg
      rw [update_self] at h
      exact hl h
    · rwa [update_of_ne hg] at h
  have hsend : ∀ {l l' : Line} {item}, l.trySend item = some l' → l'.running = l.running := by
    intro l l' item hl
    obtain ⟨-, -, rfl⟩ := Line.trySend_eq_some.mp hl
    rfl
  cases hm with
  | @connect spec mails =>
    rcases lines_connect (s := s) (g := g) spec mails with
      ⟨hg, -⟩ | ⟨-, -, hl⟩ | ⟨-, -, hl⟩
    · exact .inr ⟨hg, H.nextGen.nextGen_makeRoom⟩
    · rw [hl] at h
      refine .inl ?_
      revert h
      simp only [Line.replaced, Line.trySendCtl]
      cases h₁ : (s.lines g).trySend { msg := .text (.error "replaced") } with
      | none =>
        cases h₂ : Line.trySend _ { msg := .close } with
        | none => exact id
        | some l' => exact fun h => (hsend h₂) ▸ h
      | some l =>
        cases h₂ : Line.trySend _ { msg := .close } with
        | none => exact fun h => (hsend h₁) ▸ h
        | some l' => exact fun h => (hsend h₁) ▸ (hsend h₂) ▸ h
    · rw [hl] at h
      exact .inl h
  | leave => exact .inl (hupdate (fun h => absurd h Bool.false_ne_true) h)
  | put ht hl => exact .inl (hupdate (fun h => hsend hl ▸ h) h)
  | @putFails _ _ _ how =>
    refine .inl (hupdate (fun h => ?_) h)
    cases how with
    | push | offer => exact h
    | enqueue | send => cases h
    | deliver =>
      simp only [How.fail] at h
      split at h <;> exact h
  | frame ht hl =>
    obtain ⟨-, -, rfl⟩ := Line.sendFrame_eq_some.mp hl
    refine .inl (hupdate ?_ h)
    exact id
  | @call k o c rest ht =>
    revert h
    refine enter_cases H c fun _ _ hentered h => ?_
    cases hentered with
    | watch =>
      refine .inl (hupdate ?_ h)
      exact id
    | _ => exact .inl h
  | write hw => exact .inl (hupdate (fun h => (Line.write_same hw).2.1 ▸ h) h)
  | _ => exact .inl h

theorem Tidy.moved (H : s.Tidy) (hsane : s.Sane) (hm : s.Moved a s') : s'.Tidy := by
  have hrunning : ∀ g, (s'.lines g).running → g < s'.hub.nextGen := by
    intro g hg
    rcases hm.running hsane.wf hg with hg | ⟨rfl, hnext⟩
    · exact (H.running g hg).trans_le (hm.nextGen_le hsane.wf)
    · rw [hnext]
      exact Nat.lt_succ_self _
  have htask : ∀ {k : Nat} {t : Task Nat Effect}, s.tasks[k]? = some t →
      Shaped t.todo ∧ Ranked t.todo ∧ Owned t.owner t.todo := fun ht =>
    have hmem := Task.mem_of_getElem? ht
    ⟨H.shaped _ hmem, H.ranked _ hmem, H.owned _ hmem⟩
  suffices htasks : (∀ t ∈ s'.tasks, Shaped t.todo) ∧ (∀ t ∈ s'.tasks, Ranked t.todo) ∧
      (∀ t ∈ s'.tasks, Owned t.owner t.todo) ∧ (Task.owners s'.tasks).Nodup ∧
      ∀ g ∈ Task.owners s'.tasks, g < s'.hub.nextGen from
    ⟨htasks.1, htasks.2.1, htasks.2.2.1, htasks.2.2.2.1, htasks.2.2.2.2, hrunning⟩
  cases hm with
  | @connect spec mails =>
    have hnext : (s.connect spec mails).hub.nextGen = s.hub.nextGen + 1 :=
      hsane.wf.nextGen.nextGen_makeRoom
    rw [hnext]
    refine H.spawn (Nat.le_succ _) (Nat.lt_succ_self _) (fun hg => (H.known _ hg).false)
      (.of_follows ?_) (.append (.of_none own_pushes) (.of_all ?_) (.inl own_pushes))
      (owned_pushes.append ?_)
    · refine forall_mem_append.mpr ⟨follows_detached (hsane.wf.detached_register spec), ?_⟩
      intro e he
      obtain ⟨item, -, rfl⟩ := mem_map.mp he
      rfl
    · intro e he
      obtain ⟨item, -, rfl⟩ := mem_map.mp he
      rfl
    · intro e he g hg
      obtain ⟨item, -, rfl⟩ := mem_map.mp he
      exact hg
  | @request a g todo asked hr hq =>
    have hg : (s.lines g).running := by
      rw [reads, Bool.and_eq_true] at hr
      exact hr.1
    -- at most one effect, asked for by the connection
    have htodo : todo = [] ∨ ∃ e, todo = [e] ∧ ∀ g', e.by? = some g' → some g = some g' := by
      cases hq with
      | text =>
        refine onText_reacts.imp_right fun ⟨e, he, hreact⟩ => ⟨e, he, fun g' hg' => ?_⟩
        cases hreact <;> exact hg'
      | binary | ping => exact .inr ⟨_, rfl, fun g' hg' => hg'⟩
      | noise => exact .inl rfl
    rcases htodo with rfl | ⟨e, rfl, hby⟩
    · exact H.spawn le_rfl (H.running g hg) (not_owner_of_reads hr) .nil .nil .nil
    · exact H.spawn le_rfl (H.running g hg) (not_owner_of_reads hr) .single .single (.cons hby .nil)
  | @leave g idle hr =>
    have hg : (s.lines g).running := by
      rw [reads, Bool.and_eq_true] at hr
      exact hr.1
    exact H.spawn le_rfl (H.running g hg) (not_owner_of_reads hr) .single .single
      (.cons (fun g' hg' => hg') .nil)
  | @put k o how g item rest l ht hl =>
    obtain ⟨hs, hr, hown⟩ := htask ht
    refine H.advance ht ?_ hs.sent (hr.sent hs) (hown.sent hs)
    cases how <;> simp [How.owner]
  | putFails ht =>
    obtain ⟨hs, hr, hown⟩ := htask ht
    exact H.advance ht (.inl rfl) hs.failed (hr.failed hs) (hown.failed hs)
  | frame ht | wait ht =>
    obtain ⟨hs, hr, hown⟩ := htask ht
    exact H.advance ht (.inl rfl) (.of_follows hs.follows) hr.tail hown.tail
  | @frameFails a k o sender gen localId g f rest ht =>
    obtain ⟨hs, hr, hown⟩ := htask ht
    have ho : o = some gen := hown.head gen rfl
    exact H.advance ht (.inl rfl) (.cons rfl (forall_mem_cons.mpr ⟨rfl, hs.follows⟩))
      (.cons rfl (.cons rfl hr.tail))
      (.cons (fun g' hg' => ho.trans hg') (.cons (fun g' hg' => ho.trans hg') hown.tail))
  | sleep ht =>
    obtain ⟨hs, hr, hown⟩ := htask ht
    exact H.advance ht (.inl rfl) (.cons rfl hs.follows) (.cons rfl hr.tail) (.cons nofun hown.tail)
  | @call k o c rest ht =>
    obtain ⟨hs, hr, hown⟩ := htask ht
    have hentered := entered hsane.wf c
    have hproper := hsane.proper _ (mem_rest ht mem_cons_self)
    rw [afterCall_hub, nextGen_entered hentered]
    refine ⟨fun t hmem => ?_, fun t hmem => ?_, fun t hmem => ?_, Task.nodup_requeue H.unique ht,
      fun g hg => ?_⟩
    · rcases Task.mem_requeue hmem with hmem | rfl
      · exact H.shaped t hmem
      · exact shaped_entered hsane.wf hs hproper hentered
    · rcases Task.mem_requeue hmem with hmem | rfl
      · exact H.ranked t hmem
      · exact ranked_entered hs hr hentered
    · rcases Task.mem_requeue hmem with hmem | rfl
      · exact H.owned t hmem
      · exact (owned_entered (fun g hg => hown.head g hg) hentered).append hown.tail
    · obtain ⟨t, hmem, hto⟩ := Task.mem_owners.mp hg
      rcases Task.mem_requeue hmem with hmem | rfl
      · exact H.known g (Task.mem_owners.mpr ⟨t, hmem, hto⟩)
      · exact H.known g (Task.mem_owners.mpr ⟨_, Task.mem_of_getElem? ht, hto⟩)
  | tick | write => exact ⟨H.shaped, H.ranked, H.owned, H.unique, H.known⟩

/-! ## Turns -/

theorem Moved.task_kept {t : Task Nat Effect} (hm : s.Moved a s') (ht : t ∈ s.tasks) :
    t ∈ s'.tasks ∨ ∃ k, s.tasks[k]? = some t ∧ Attempts a k := by
  have hadv : ∀ {k t' o' todo}, s.tasks[k]? = some t' → Attempts a k →
      t ∈ Task.advance s.tasks k o' todo ∨ ∃ k, s.tasks[k]? = some t ∧ Attempts a k := by
    intro k t' o' todo ht' ha
    rw [Task.eq_append ht', mem_append, mem_cons] at ht
    rcases ht with ht | rfl | ht
    · exact .inl (mem_append_left _ (mem_append_left _ ht))
    · exact .inr ⟨k, ht', ha⟩
    · exact .inl (mem_append_right _ ht)
  cases hm with
  | connect | request | leave => exact .inl (mem_append_left _ ht)
  | put ht' | frame ht' | sleep ht' | wait ht' => exact hadv ht' (.inl rfl)
  | putFails ht' hl ha | frameFails ht' hl ha => exact hadv ht' ha
  | @call k o c rest ht' =>
    rw [Task.eq_append ht', mem_append, mem_cons] at ht
    rcases ht with ht | rfl | ht
    · exact .inl (mem_append_left _ (mem_append_left _ ht))
    · exact .inr ⟨k, ht', .inl rfl⟩
    · exact .inl (mem_append_left _ (mem_append_right _ ht))
  | tick | write => exact .inl ht

theorem mem_sent_rest (h : e ∈ rest) : e ∈ how.sent item rest := by
  cases how with
  | offer opening => exact mem_cons_of_mem _ (mem_cons_of_mem _ h)
  | deliver others any post => exact mem_cons_of_mem _ h
  | _ => exact h

theorem mem_failed_rest (hown : Effect.own (.put how g item) = false) (h : e ∈ rest) :
    e ∈ how.failed g item rest := by
  cases how with
  | push => exact h
  | offer opening => exact mem_cons_of_mem _ (mem_cons_of_mem _ h)
  | deliver others any post => exact mem_cons_of_mem _ h
  | enqueue | send => cases hown

/-- What is to be done stays so until its turn, or until its connection missed what came first. -/
theorem Moved.keeps_or (hm : s.Moved a s') (he : e ∈ Task.allTodo s.tasks) :
    e ∈ Task.allTodo s'.tasks ∨
      (∃ k o rest, s.tasks[k]? = some ⟨o, e :: rest⟩ ∧ Attempts a k) ∨
      ∃ k o how g item rest, s.tasks[k]? = some ⟨o, .put how g item :: rest⟩ ∧
        Effect.own (.put how g item) ∧ e ∈ rest ∧ s' = s.putFails k o rest how g item := by
  -- the task at `k` went on, with what was left of it
  have hadv : ∀ {k o e' rest o' todo}, s.tasks[k]? = some ⟨o, e' :: rest⟩ → Attempts a k →
      (e ∈ rest → e ∈ todo) → e ∈ Task.allTodo (Task.advance s.tasks k o' todo) ∨
        ∃ k o rest, s.tasks[k]? = some ⟨o, e :: rest⟩ ∧ Attempts a k := by
    intro k o e' rest o' todo ht ha hrest
    rcases Task.mem_allTodo_of_advance ht he with hmem | hmem
    · rcases mem_cons.mp hmem with rfl | hmem
      · exact .inr ⟨k, o, rest, ht, ha⟩
      · refine .inl ?_
        rw [Task.allTodo_advance]
        exact mem_append_left _ (mem_append_right _ (hrest hmem))
    · exact .inl hmem
  have hspawn : ∀ {g todo}, e ∈ Task.allTodo (Task.spawn s.tasks (some g) todo) := by
    intro g todo
    rw [Task.allTodo_spawn]
    exact mem_append_left _ he
  cases hm with
  | connect | request | leave => exact .inl hspawn
  | put ht => exact (hadv ht (.inl rfl) mem_sent_rest).imp_right .inl
  | @putFails a k o how g item rest ht hl ha =>
    cases hown : Effect.own (.put how g item) with
    | false => exact (hadv ht ha (mem_failed_rest hown)).imp_right .inl
    | true =>
      rcases Task.mem_allTodo_of_advance ht he with hmem | hmem
      · rcases mem_cons.mp hmem with rfl | hmem
        · exact .inr (.inl ⟨k, o, rest, ht, ha⟩)
        · exact .inr (.inr ⟨k, o, how, g, item, rest, ht, hown, hmem, rfl⟩)
      · exact .inl hmem
  | frame ht | wait ht => exact (hadv ht (.inl rfl) id).imp_right .inl
  | frameFails ht hl ha =>
    exact (hadv ht ha fun h => mem_cons_of_mem _ (mem_cons_of_mem _ h)).imp_right .inl
  | sleep ht => exact (hadv ht (.inl rfl) (mem_cons_of_mem _)).imp_right .inl
  | @call k o c rest ht =>
    rcases Task.mem_allTodo_of_requeue ht he with hmem | hmem
    · rcases mem_cons.mp hmem with rfl | hmem
      · exact .inr (.inl ⟨k, o, rest, ht, .inl rfl⟩)
      · refine .inl ?_
        rw [afterCall, Task.allTodo_requeue]
        exact mem_append_right _ (mem_append_right _ hmem)
    · exact .inl hmem
  | tick | write => exact .inl he

theorem Moved.keeps (hm : s.Moved a s') (H : s.Tidy) (hf : e.own = false)
    (he : e ∈ Task.allTodo s.tasks) : e ∈ Task.allTodo s'.tasks ∨
      ∃ k o rest, s.tasks[k]? = some ⟨o, e :: rest⟩ ∧ Attempts a k := by
  rcases hm.keeps_or he with hkept | hturn | ⟨k, o, how, g, item, rest, ht, hown, hrest, -⟩
  · exact .inl hkept
  · exact .inr hturn
  · have hown' := (H.ranked _ (Task.mem_of_getElem? ht)).rest_own hown e hrest
    exact absurd (hf.symm.trans hown') Bool.false_ne_true

theorem Moved.keeps_own (hm : s.Moved a s') (H : s.Tidy) (hby : e.by? = some g)
    (he : e ∈ Task.allTodo s.tasks) : e ∈ Task.allTodo s'.tasks ∨
      (∃ k o rest, s.tasks[k]? = some ⟨o, e :: rest⟩ ∧ Attempts a k) ∨
      (s'.lines g).running = false := by
  rcases hm.keeps_or he with hkept | hturn | ⟨k, o, how, g', item, rest, ht, hown, hrest, rfl⟩
  · exact .inl hkept
  · exact .inr (.inl hturn)
  -- the same connection is told both
  have howned := H.owned _ (Task.mem_of_getElem? ht)
  have ho := howned.tail e hrest g hby
  cases how with
  | enqueue | send =>
    obtain rfl : g' = g := some.inj ((howned.head g' rfl).symm.trans ho)
    refine .inr (.inr ?_)
    change (update s.lines _ _ _).running = false
    rw [update_self]
    rfl
  | push | offer | deliver => cases hown

theorem Attempts.same {k' : Nat} (h : Attempts a k) (h' : Attempts a k') : k' = k := by
  rcases h with rfl | rfl <;> rcases h' with h | h <;> cases h <;> rfl

theorem Moved.call_turn (hm : s.Moved a s') (ht : s.tasks[k]? = some ⟨o, .call c :: rest⟩)
    (ha : Attempts a k) :
    a = .perform k ∧ s' = s.afterCall (s.enter c).1 k o ((s.enter c).2 ++ rest) := by
  have hk : ∀ {k' t}, s.tasks[k']? = some t → Attempts a k' → k' = k ∧ t = ⟨o, .call c :: rest⟩ := by
    intro k' t ht' ha'
    obtain rfl := ha.same ha'
    exact ⟨rfl, some.inj (ht'.symm.trans ht)⟩
  cases hm with
  | call ht' =>
    obtain ⟨rfl, heq⟩ := hk ht' (.inl rfl)
    cases heq
    exact ⟨rfl, rfl⟩
  | put ht' | frame ht' | sleep ht' | wait ht' => cases (hk ht' (.inl rfl)).2
  | putFails ht' _ ha' | frameFails ht' _ ha' => cases (hk ht' ha').2
  | request _ hq => rcases ha with rfl | rfl <;> cases hq
  | connect | leave | tick | write => rcases ha with h | h <;> cases h

theorem Moved.put_turn (hm : s.Moved a s') (ht : s.tasks[k]? = some ⟨o, .put how g item :: rest⟩)
    (ha : Attempts a k) :
    (∃ l, (s.lines g).trySend item = some l ∧ s' = { s with
      lines := update s.lines g l
      tasks := Task.advance s.tasks k (how.owner o) (how.sent item rest) }) ∨
      ((s.lines g).trySend item = none ∧ s' = s.putFails k o rest how g item ∧
        (a = .perform k ∧ (how.waits → (s.lines g).writer = .gone) ∨
          ∃ others any post, how = .deliver others any post)) := by
  have hk : ∀ {k' t}, s.tasks[k']? = some t → Attempts a k' →
      k' = k ∧ t = ⟨o, .put how g item :: rest⟩ := by
    intro k' t ht' ha'
    obtain rfl := ha.same ha'
    exact ⟨rfl, some.inj (ht'.symm.trans ht)⟩
  cases hm with
  | put ht' hl =>
    obtain ⟨rfl, heq⟩ := hk ht' (.inl rfl)
    cases heq
    exact .inl ⟨_, hl, rfl⟩
  | putFails ht' hl ha' hw hx =>
    obtain ⟨rfl, heq⟩ := hk ht' ha'
    cases heq
    refine .inr ⟨hl, rfl, ?_⟩
    rcases ha with rfl | rfl
    · exact .inl ⟨rfl, hw _ rfl⟩
    · exact .inr (hx _ rfl)
  | frame ht' | sleep ht' | wait ht' | call ht' => cases (hk ht' (.inl rfl)).2
  | frameFails ht' _ ha' => cases (hk ht' ha').2
  | request _ hq => rcases ha with rfl | rfl <;> cases hq
  | connect | leave | tick | write => rcases ha with h | h <;> cases h

/-! ## Connections that take on messages -/

theorem Moved.connect_eq {spec : RegisterSpec} {mails : List MailRow}
    (hm : s.Moved (.connect spec mails) s') : s' = s.connect spec mails := by
  cases hm with
  | connect => rfl
  | request _ hq => cases hq
  | putFails _ _ ha | frameFails _ _ ha => rcases ha with h | h <;> cases h

/-- The connection of the peer takes on messages: it is registered, and its loop and its writer go
on. -/
def serves (s : Server) (g : Nat) (p : String) : Prop :=
  (∃ c, s.hub.conns.lookup g = some c ∧ c.peerId = p) ∧ (s.lines g).running ∧
    (s.lines g).cancelled = false ∧ (s.lines g).writer ≠ .gone

theorem Moved.serves (hm : s.Moved a s') (H : s.Sane) (h : s'.serves g p) :
    s.serves g p ∨ g = s.hub.nextGen := by
  obtain ⟨⟨c, hc, hp⟩, hrunning, hcancelled, hwriter⟩ := h
  have hle := hm.lines H.wf g
  rcases hm.lookup_conns H.wf hc with hnew | ⟨c₀, hc₀, hp₀⟩
  · exact .inr hnew
  rcases hm.running H.wf hrunning with hrunning | ⟨hnew, -⟩
  · refine .inl ⟨⟨c₀, hc₀, hp₀.trans hp⟩, hrunning, ?_, fun h => hwriter (hle.gone h)⟩
    rw [← Bool.not_eq_true]
    exact fun h => Bool.false_ne_true (hcancelled.symm.trans (hle.cancelled h))
  · exact .inr hnew

theorem Moved.nextGen_eq (hm : s.Moved a s') (H : s.Sane)
    (hconnect : ∀ spec mails, a ≠ .connect spec mails) : s'.hub.nextGen = s.hub.nextGen := by
  cases hm with
  | connect => exact absurd rfl (hconnect _ _)
  | @call k o c rest ht =>
    change (s.enter c).1.hub.nextGen = _
    exact nextGen_entered (entered H.wf c)
  | _ => rfl

theorem Moved.line_peerId (hm : s.Moved a s') (H : s.Sane) :
    (s'.lines g).peerId = (s.lines g).peerId ∨ ∃ spec mails, a = .connect spec mails ∧
      g = s.hub.nextGen ∧ (s'.lines g).peerId = spec.peerId := by
  rcases hm.line_field Line.peerId (fun _ _ => rfl) (fun _ _ => rfl) (fun _ _ => rfl)
    (fun _ _ => rfl) (fun hw => (Line.write_same hw).1) H.wf (g := g) with
    hsame | ⟨spec, mails, ha, hg, hl⟩ | ⟨-, -, -, hl⟩
  · exact .inl hsame
  · exact .inr ⟨spec, mails, ha, hg, by rw [hl]⟩
  · exact .inl (by rw [hl])

theorem Moved.peers (hm : s.Moved a s') (H : s.Sane)
    (hpeers : ∀ g c, s.hub.conns.lookup g = some c → (s.lines g).peerId = c.peerId) (g : Nat)
    (c : ConnSlot) (hc : s'.hub.conns.lookup g = some c) : (s'.lines g).peerId = c.peerId := by
  by_cases hconnect : ∃ spec mails, a = .connect spec mails
  · obtain ⟨spec, mails, rfl⟩ := hconnect
    obtain rfl := hm.connect_eq
    rcases H.wf.lookup_register hc with ⟨hg, rfl⟩ | ⟨hg, hc⟩
    · rcases lines_connect (s := s) (g := g) spec mails with ⟨-, hl⟩ | ⟨hne, -⟩ | ⟨hne, -⟩
      · rw [hl]
      · exact absurd hg hne
      · exact absurd hg hne
    · rcases hm.line_peerId H (g := g) with hsame | ⟨-, -, -, hnew, -⟩
      · rw [hsame, hpeers g c hc]
      · exact absurd hnew hg
  · have hnext := hm.nextGen_eq H fun spec mails h => hconnect ⟨spec, mails, h⟩
    have hlt := (hm.wf H.wf).fresh (AList.lookup_isSome.mp (by rw [hc]; rfl) : g ∈ s'.hub.conns)
    rw [hnext] at hlt
    rcases hm.lookup_conns H.wf hc with rfl | ⟨c₀, hc₀, hp⟩
    · exact absurd hlt (Nat.lt_irrefl _)
    · rcases hm.line_peerId H (g := g) with hsame | ⟨spec, mails, ha, -⟩
      · rw [hsame, hpeers g c₀ hc₀, hp]
      · exact absurd ⟨spec, mails, ha⟩ hconnect

end Server

end Bluetalk.Relay

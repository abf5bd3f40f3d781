import Bluetalk.Relay.ServerTasks
import Bluetalk.Theory.Last

/-!
# What connections are told of their own devices and of others

The hub changes under its lock, and what it has to tell of the change is sent after the lock was
released. So the notices of two changes may be sent in another order than the hub changed. What a
connection was told and is still to be told, in the order of the changes, ends with the truth.
-/

open List Option Function

namespace Bluetalk.Relay

variable {s s' : Server} {a : Action} {g k : Nat} {p : String} {o : Option Nat} {e : Effect}
  {es rest : List Effect} {item : Item} {how : How} {msg : Control}

def Item.control? (item : Item) : Option Control :=
  match item.msg with
  | .text msg => some msg
  | _ => none

/-- What an effect is about to tell the connection. -/
def Effect.tells (g : Nat) : Effect → Option Control
  | .put _ gen item => if gen = g then item.control? else none
  | _ => none

def toldBy (g : Nat) (es : List Effect) : List Control := es.filterMap (Effect.tells g)

/-- The list of the other devices of the peer that a message has. -/
def ownList : Control → Option (List DeviceInfo)
  | .ready _ _ devices | .devices devices => some devices
  | _ => none

/-- The last word that is still to come stays the same, if any is still to come. -/
def lastWordKept {β : Type} [DecidableEq β] (f : Control → Option β) (before after : List Control) :
    Bool :=
  lastSome f after = none ∨ lastSome f after = lastSome f before

namespace Server

/-- What the connection is still to be told, in the order of the changes. -/
def outstanding (s : Server) (g : Nat) : List Control := toldBy g (Task.allTodo s.tasks)

/-- What the hub has of a connection that takes on messages. -/
def live (s : Server) (g : Nat) : Option ConnSlot :=
  if (s.lines g).running ∧ (s.lines g).cancelled = false ∧ (s.lines g).writer ≠ .gone then
    s.hub.conns.lookup g
  else none

/-- Everything the connection was told. -/
def heard (s : Server) (g : Nat) : List Control := (s.lines g).sent.filterMap Item.control?

/-- What it was told since its last `watch`. -/
def heardSince (s : Server) (g : Nat) : List Control :=
  ((s.lines g).sent.drop (s.lines g).watchedAt).filterMap Item.control?

/-- A connection that is to be told nothing more was told last what its own devices are, and of every
peer that it watches what the case is, where no word means offline. -/
def Reflects (s : Server) : Prop :=
  ∀ g c, s.live g = some c → s.outstanding g = [] →
    lastSome ownList (s.heard g) = some (s.hub.otherDevices c.peerId c.device) ∧
      ∀ p ∈ c.watch, (lastPresence (s.heardSince g) p).getD (false, []) =
        s.hub.presenceOf p c.peerId

/-- A notice is sent where no older one is left behind as the last, and a `watch` is granted where
no older notice is to come that calls a peer online that does not watch back. -/
def timely (s : Server) : Action → Bool
  | .perform k =>
    match s.next k with
    | some (o, .put _ gen item, rest) =>
      let after := toldBy gen (Task.allTodo (Task.advance s.tasks k o rest))
      match s.live gen, item.control? with
      | some c, some (.presence p _ _) =>
        p ∉ c.watch || lastWordKept (presenceAbout p) (s.outstanding gen) after
      | some _, some (.ready ..) | some _, some (.devices _) =>
        lastWordKept ownList (s.outstanding gen) after
      | _, _ => true
    | some (_, .call (.watch peerId gen peers), _) =>
      (s.live gen).all fun c => c.peerId ≠ peerId || peers.all fun p =>
        s.hub.peerWatches p peerId || (lastPresence (s.outstanding gen) p).all (· = (false, []))
    | _ => true
  | _ => true

end Server

/-! ## Messages that are no notices -/

/-- The message says nothing of devices. -/
def Control.silent : Control → Bool
  | .ready .. | .devices _ | .presence .. => false
  | _ => true

theorem ownList_silent (h : msg.silent) : ownList msg = none := by
  cases msg <;> first | rfl | cases h

theorem presenceAbout_silent (h : msg.silent) : presenceAbout p msg = none := by
  cases msg <;> first | rfl | cases h

def Effect.silent : Effect → Bool
  | .put _ _ item => item.control?.all (·.silent)
  | _ => true

def Effect.isCall : Effect → Bool
  | .call _ => true
  | _ => false

@[simp] theorem toldBy_append {es' : List Effect} :
    toldBy g (es ++ es') = toldBy g es ++ toldBy g es' := filterMap_append

theorem toldBy_cons : toldBy g (e :: es) = (Effect.tells g e).toList ++ toldBy g es := by
  rw [toldBy, filterMap_cons, toldBy]
  cases Effect.tells g e <;> rfl

theorem silent_toldBy (h : ∀ e ∈ es, e.silent) : ∀ msg ∈ toldBy g es, msg.silent := by
  intro msg hmsg
  obtain ⟨e, he, hmsg⟩ := mem_filterMap.mp hmsg
  have hs := h e he
  cases e with
  | put how gen item =>
    rw [Effect.tells] at hmsg
    split at hmsg
    · rw [Effect.silent, hmsg] at hs
      exact hs
    · cases hmsg
  | _ => cases hmsg

theorem toldBy_pushes {ledger : Ledger} {ps : List Push} :
    toldBy g (ledger.pushes ps) = sentTo g ps := by
  rw [toldBy, sentTo, Ledger.pushes, filterMap_map]
  refine filterMap_congr fun push _ => ?_
  simp only [Function.comp_apply, Effect.tells, Item.control?, Server.item_msg]

theorem toldBy_replies {peerId : String} {gen : Nat} {msgs : List Control} :
    toldBy g (msgs.map (reply peerId gen ·)) = if gen = g then msgs else [] := by
  rw [toldBy, filterMap_map]
  split
  next h =>
    refine (filterMap_congr fun msg _ => ?_).trans filterMap_some
    simp [reply, Effect.tells, Item.control?, h]
  next h =>
  refine filterMap_eq_nil_iff.mpr fun msg _ => ?_
  simp [reply, Effect.tells, h]

/-! ## What comes after a call -/

namespace Server

theorem silent_deliverTo {post : Posting} {any : Bool} {targets : List Nat} {row : MailRow} :
    Effect.silent (deliverTo post row.item any targets) := by
  cases targets <;> rfl

theorem silent_reply {peerId : String} {answers : Option Nat} (h : msg.isReply) :
    Effect.silent (reply peerId g msg answers) := by
  cases msg <;> first | rfl | cases h

theorem sent_eq (rest : List Effect) (hp : Proper (.put how g item)) :
    ∃ front, how.sent item rest = front ++ rest ∧ ∀ e ∈ front, e.silent := by
  cases how with
  | offer opening =>
    exact ⟨[.sleep openTimeout, .call (.failOpen opening "timeout")], rfl,
      forall_mem_cons.mpr ⟨rfl, forall_mem_singleton.mpr rfl⟩⟩
  | deliver others any post =>
    obtain ⟨row, rfl⟩ := hp
    exact ⟨[deliverTo post row.item true others], rfl, forall_mem_singleton.mpr silent_deliverTo⟩
  | push | enqueue | send => exact ⟨[], rfl, fun e he => absurd he not_mem_nil⟩

theorem failed_eq (rest : List Effect) (hp : Proper (.put how g item))
    (hown : Effect.own (.put how g item) = false) :
    ∃ front, how.failed g item rest = front ++ rest ∧ ∀ e ∈ front, e.silent := by
  cases how with
  | offer opening =>
    exact ⟨[.call (.failOpen opening "limit"), _], rfl,
      forall_mem_cons.mpr ⟨rfl, forall_mem_singleton.mpr rfl⟩⟩
  | deliver others any post =>
    obtain ⟨row, rfl⟩ := hp
    exact ⟨[deliverTo post row.item any others], rfl, forall_mem_singleton.mpr silent_deliverTo⟩
  | push => exact ⟨[], rfl, fun e he => absurd he not_mem_nil⟩
  | enqueue | send => cases hown

theorem entered_not_call {c : Call} (h : s.Entered c s' es) : ∀ e ∈ es, e.isCall = false := by
  have hpushes : ∀ {ledger : Ledger} {ps : List Push}, ∀ e ∈ ledger.pushes ps, e.isCall = false := by
    intro ledger ps e he
    obtain ⟨push, -, rfl⟩ := mem_map.mp he
    rfl
  cases h with
  | watch =>
    refine forall_mem_append.mpr ⟨hpushes, fun e he => ?_⟩
    obtain ⟨msg, -, rfl⟩ := mem_map.mp he
    rfl
  | fails => exact forall_mem_cons.mpr ⟨rfl, forall_mem_singleton.mpr rfl⟩
  | unregisters => exact hpushes
  | failsNothing | closesNothing | tellsNobody | forwardsNothing =>
    exact fun e he => absurd he not_mem_nil
  | @delivers post toPeer row =>
    refine forall_mem_singleton.mpr ?_
    cases s.hub.controlTargets toPeer <;> rfl
  | _ => exact forall_mem_singleton.mpr rfl

theorem Entered.change {c : Call} (h : s.Entered c s' es) (hp : Proper (.call c)) :
    (∃ p g peers, c = .watch p g peers ∧
      s' = { s with
        hub := (s.hub.setWatch p g peers).2.1
        lines := update s.lines g
          { s.lines g with watchedAt := (s.lines g).sent.length } } ∧
      es = s.ledger.pushes (s.hub.setWatch p g peers).2.2 ++
        (s.hub.setWatch p g peers).1.map (reply p g ·)) ∨
    (∃ p g, c = .unregister p g ∧ s' = { s with hub := (s.hub.unregister p g).1 } ∧
      es = s.ledger.pushes (s.hub.unregister p g).2) ∨
    (∃ tunnels, s'.hub = { s.hub with tunnels }) ∧ s'.lines = s.lines ∧ ∀ e ∈ es, e.silent := by
  have hone : ∀ {e : Effect}, e.silent → ∀ e' ∈ [e], e'.silent := fun he =>
    forall_mem_singleton.mpr he
  cases h with
  | watch => exact .inl ⟨_, _, _, rfl, rfl, rfl⟩
  | unregisters => exact .inr (.inl ⟨_, _, rfl, rfl, rfl⟩)
  | openFails h =>
    obtain ⟨t, rfl, -⟩ := h
    exact .inr (.inr ⟨⟨_, rfl⟩, rfl, hone rfl⟩)
  | opens label h =>
    obtain ⟨t, rfl⟩ := h.registry
    obtain ⟨device, name, rfl⟩ := h.incoming
    exact .inr (.inr ⟨⟨_, rfl⟩, rfl, hone rfl⟩)
  | fails hm h =>
    obtain ⟨-, rfl⟩ := h
    exact .inr (.inr ⟨⟨_, rfl⟩, rfl, forall_mem_cons.mpr ⟨rfl, hone rfl⟩⟩)
  | rejects hm h | closes hm h =>
    obtain ⟨-, rfl⟩ := h
    exact .inr (.inr ⟨⟨_, rfl⟩, rfl, hone rfl⟩)
  | tells =>
    obtain ⟨x, code, n, rfl⟩ := hp
    exact .inr (.inr ⟨⟨_, rfl⟩, rfl, hone rfl⟩)
  | delivers => exact .inr (.inr ⟨⟨_, rfl⟩, rfl, hone silent_deliverTo⟩)
  | acceptFails | accepts | rejectFails | forwards =>
    exact .inr (.inr ⟨⟨_, rfl⟩, rfl, hone rfl⟩)
  | failsNothing | closesNothing | tellsNobody | forwardsNothing =>
    exact .inr (.inr ⟨⟨_, rfl⟩, rfl, fun e he => absurd he not_mem_nil⟩)

/-- What a task does after a call is nothing of note. -/
def Late (todo : List Effect) : Prop := todo.Pairwise fun e e' => e.isCall → e'.silent

theorem Late.no_call (h : ∀ e ∈ es, e.isCall = false) : Late es :=
  pairwise_of_forall_mem_list fun e he _ _ hc =>
    absurd ((h e he).symm.trans hc) Bool.false_ne_true

theorem Late.of_no_call (h : ∀ e ∈ es, e.isCall = false) (hrest : Late rest) : Late (es ++ rest) :=
  pairwise_append.mpr ⟨Late.no_call h, hrest, fun e he _ _ hc =>
    absurd ((h e he).symm.trans hc) Bool.false_ne_true⟩

theorem Late.single : Late [e] := pairwise_singleton _ _

theorem Late.tail (h : Late (e :: rest)) : Late rest := (pairwise_cons.mp h).2

theorem Late.silent {c : Call} (h : Late (.call c :: rest)) : ∀ e ∈ rest, e.silent := fun e he =>
  (pairwise_cons.mp h).1 e he rfl

/-- Connections watch for their own peer, and not that peer; what they are told of a change is told
at one go. -/
structure Mannered (s : Server) : Prop where
  noSelf : s.hub.NoSelfWatch
  peers : ∀ g c, s.hub.conns.lookup g = some c → (s.lines g).peerId = c.peerId
  polite : ∀ p g peers, .call (.watch p g peers) ∈ Task.allTodo s.tasks →
    p ∉ peers ∧ p = (s.lines g).peerId ∧ g < s.hub.nextGen
  late : ∀ t ∈ s.tasks, Late t.todo
  watched : ∀ g, (s.lines g).watchedAt ≤ (s.lines g).sent.length

theorem Mannered.start : ({} : Server).Mannered where
  noSelf _ _ h := by cases h
  peers _ _ h := by cases h
  polite _ _ _ h := by cases h
  late _ h := by cases h
  watched _ := Nat.zero_le _

theorem Mannered.late_moved (M : s.Mannered) (H : s.Sane) (T : s.Tidy) (hm : s.Moved a s') :
    ∀ t ∈ s'.tasks, Late t.todo := by
  have hspawn : ∀ {g todo}, Late todo → ∀ t ∈ Task.spawn s.tasks (some g) todo, Late t.todo := by
    intro g todo htodo t ht
    rcases Task.mem_spawn.mp ht with ht | ⟨-, rfl⟩
    · exact M.late t ht
    · exact htodo
  have hadv : ∀ {k o todo}, Late todo → ∀ t ∈ Task.advance s.tasks k o todo, Late t.todo := by
    intro k o todo htodo t ht
    rcases Task.mem_advance ht with ht | rfl
    · exact M.late t ht
    · exact htodo
  have htask : ∀ {k : Nat} {o e rest}, s.tasks[k]? = some ⟨o, e :: rest⟩ → Late (e :: rest) :=
    fun ht => M.late _ (Task.mem_of_getElem? ht)
  have halone : ∀ {k : Nat} {o e rest}, s.tasks[k]? = some ⟨o, e :: rest⟩ → e.alone → rest = [] :=
    fun ht ha => (T.shaped _ (Task.mem_of_getElem? ht)).rest_nil ha
  cases hm with
  | @connect spec mails =>
    refine hspawn (.no_call (forall_mem_append.mpr ⟨fun e he => ?_, fun e he => ?_⟩))
    · obtain ⟨push, -, rfl⟩ := mem_map.mp he
      rfl
    · obtain ⟨item, -, rfl⟩ := mem_map.mp he
      rfl
  | request hr hq =>
    refine hspawn ?_
    cases hq with
    | text =>
      rcases onText_reacts with hnil | ⟨e, he, -⟩
      · rw [hnil]
        exact .nil
      · rw [he]
        exact .single
    | noise => exact .nil
    | _ => exact .single
  | leave => exact hspawn .single
  | @put k o how g item rest l ht hl =>
    refine hadv ?_
    cases how with
    | offer =>
      obtain rfl := halone ht rfl
      exact pairwise_pair.mpr fun _ => rfl
    | deliver others any post =>
      obtain rfl := halone ht rfl
      exact .single
    | push | enqueue | send => exact (htask ht).tail
  | @putFails a k o how g item rest ht hl ha hw hx =>
    refine hadv ?_
    cases how with
    | offer =>
      obtain rfl := halone ht rfl
      exact pairwise_pair.mpr fun _ => rfl
    | deliver others any post =>
      obtain rfl := halone ht rfl
      exact .single
    | push => exact (htask ht).tail
    | enqueue | send => exact .single
  | frame ht | wait ht => exact hadv (htask ht).tail
  | frameFails ht =>
    obtain rfl := halone ht rfl
    exact hadv (pairwise_pair.mpr fun _ => rfl)
  | sleep ht =>
    exact hadv (.of_no_call (forall_mem_singleton.mpr rfl) (htask ht).tail)
  | @call k o c rest ht =>
    intro t hmem
    rcases Task.mem_requeue hmem with hmem | rfl
    · exact M.late t hmem
    · exact .of_no_call (entered_not_call (entered H.wf c)) (htask ht).tail
  | tick | write => exact M.late

variable {c c' : ConnSlot} {peers : List String} {h' : Hub} {pushes : List Push} {β : Type}

theorem adds_watch (hadd : s.Adds s' a (.call (.watch p g peers)))
    (H : s.hub.Wf) (T : s.Tidy) : p ∉ peers ∧ p = (s.lines g).peerId ∧ g < s.hub.nextGen := by
  cases hadd with
  | @request a g todo asked e hr hq he =>
    have hg : g < s.hub.nextGen := by
      rw [reads, Bool.and_eq_true] at hr
      exact T.running g hr.1
    cases hq with
    | text =>
      have hreact := reaction_of_mem_onText he
      cases hreact with
      | watch hpeers => exact ⟨hpeers, rfl, hg⟩
    | binary | ping => cases mem_singleton.mp he
    | noise => cases he
  | @sent k o how g item rest e ht he =>
    cases how with
    | offer =>
      rcases mem_cons.mp he with he | he
      · cases he
      · cases mem_singleton.mp he
    | deliver others =>
      have he := mem_singleton.mp he
      cases others <;> cases he
    | push | enqueue | send => cases he
  | @failed a k o how g item rest e ht ha he =>
    cases how with
    | offer =>
      rcases mem_cons.mp he with he | he
      · cases he
      · cases mem_singleton.mp he
    | deliver others =>
      have he := mem_singleton.mp he
      cases others <;> cases he
    | push => cases he
    | enqueue | send => cases mem_singleton.mp he
  | call ht hs he => cases entered_not_call (entered H _) _ he

theorem Mannered.noSelf_moved (M : s.Mannered) (H : s.Sane) (hm : s.Moved a s') :
    s'.hub.NoSelfWatch := by
  have hconns : s'.hub.conns = s.hub.conns → s'.hub.NoSelfWatch := fun h g c hc =>
    M.noSelf g c (h ▸ hc)
  cases hm with
  | @connect spec mails =>
    intro g c hc
    rcases H.wf.lookup_register hc with ⟨-, rfl⟩ | ⟨-, hc⟩
    · exact not_mem_nil
    · exact M.noSelf g c hc
  | @call k o c rest ht =>
    have hproper := H.proper _ (mem_rest ht mem_cons_self)
    rcases (entered H.wf c).change hproper with
      ⟨p, g, peers, rfl, hs, -⟩ | ⟨p, g, rfl, hs, -⟩ | ⟨⟨tunnels, hhub⟩, -, -⟩
    · obtain ⟨hpeers, -, -⟩ := M.polite p g peers (mem_rest ht mem_cons_self)
      rw [afterCall_hub, hs]
      rcases Hub.setWatch_cases s.hub p g peers with ⟨-, he⟩ | ⟨c, hc, rfl, he⟩
      · rw [he]
        exact M.noSelf
      · rw [he]
        exact Hub.noSelfWatch_watching M.noSelf hpeers
    · intro g' c hc
      rw [afterCall_hub, hs] at hc
      rw [Hub.unregister] at hc
      split at hc
      next hm =>
        obtain ⟨c', hc', -⟩ := Hub.connMatches_iff.mp hm
        exact M.noSelf g' c (Hub.lookup_conns_detachConn hc' hc)
      next => exact M.noSelf g' c hc
    · exact hconns (by rw [afterCall_hub, hhub])
  | _ => exact hconns rfl

theorem Mannered.moved (M : s.Mannered) (H : s.Sane) (T : s.Tidy) (hm : s.Moved a s') :
    s'.Mannered where
  noSelf := M.noSelf_moved H hm
  peers := hm.peers H M.peers
  polite p g peers he := by
    have hold : p ∉ peers ∧ p = (s.lines g).peerId ∧ g < s.hub.nextGen := by
      rcases hm.mem_todo he with he | hadd
      · exact M.polite p g peers he
      · exact adds_watch hadd H.wf T
    obtain ⟨hself, hp, hg⟩ := hold
    refine ⟨hself, ?_, hg.trans_le (hm.nextGen_le H.wf)⟩
    rcases hm.line_peerId H (g := g) with hsame | ⟨-, -, -, hnew, -⟩
    · rw [hsame, hp]
    · exact absurd hnew (Nat.ne_of_lt hg)
  late := M.late_moved H T hm
  watched g := by
    have hle := (hm.lines H.wf g).sent
    have hlength : (s.lines g).sent.length ≤ (s'.lines g).sent.length := by
      obtain ⟨added, hadded⟩ := hle
      rw [hadded, length_append]
      exact Nat.le_add_right _ _
    rcases hm.line_field Line.watchedAt (fun _ _ => rfl) (fun _ _ => rfl) (fun _ _ => rfl)
      (fun _ _ => rfl) (fun hw => (Line.write_same hw).2.2.2) H.wf (g := g) with
      hsame | ⟨spec, mails, -, -, hl⟩ | ⟨-, -, -, hl⟩
    · rw [hsame]
      exact (M.watched g).trans hlength
    · rw [hl]
      exact M.watched g
    · rw [hl]
      exact le_rfl

/-! ## What was said and is still to be said -/

/-- What the connection was told after the first `n` messages, and is still to be told. -/
def said (s : Server) (n g : Nat) : List Control :=
  ((s.lines g).sent.drop n).filterMap Item.control? ++ s.outstanding g

theorem live_eq_some : s.live g = some c ↔ s.hub.conns.lookup g = some c ∧
    (s.lines g).running ∧ (s.lines g).cancelled = false ∧ (s.lines g).writer ≠ .gone := by
  rw [live]
  split
  next h => exact ⟨fun hc => ⟨hc, h⟩, And.left⟩
  next h => exact ⟨fun hc => (by cases hc), fun hc => absurd hc.2 h⟩

theorem Moved.live (hm : s.Moved a s') (H : s.Sane) (h : s'.live g = some c) :
    (∃ c₀, s.live g = some c₀ ∧ c₀.peerId = c.peerId) ∨ g = s.hub.nextGen := by
  obtain ⟨hc, hline⟩ := live_eq_some.mp h
  rcases hm.serves H (g := g) ⟨⟨c, hc, rfl⟩, hline⟩ with ⟨⟨c₀, hc₀, hp⟩, hline₀⟩ | hnew
  · exact .inl ⟨c₀, live_eq_some.mpr ⟨hc₀, hline₀⟩, hp⟩
  · exact .inr hnew

theorem outstanding_eq (ht : s.tasks[k]? = some ⟨o, e :: rest⟩) :
    s.outstanding g = toldBy g (Task.allTodo (s.tasks.take k)) ++
      ((Effect.tells g e).toList ++ (toldBy g rest ++
        toldBy g (Task.allTodo (s.tasks.drop (k + 1))))) := by
  rw [outstanding, Task.allTodo_eq ht]
  simp [toldBy_cons]

theorem toldBy_advance : toldBy g (Task.allTodo (Task.advance s.tasks k o es)) =
    toldBy g (Task.allTodo (s.tasks.take k)) ++ (toldBy g es ++
      toldBy g (Task.allTodo (s.tasks.drop (k + 1)))) := by
  rw [Task.allTodo_advance]
  simp

section

variable {β : Type} {f : Control → Option β} (hf : ∀ msg : Control, msg.silent → f msg = none)
  {o' : Option Nat}

include hf

theorem none_of_silent (h : ∀ e ∈ es, e.silent) : ∀ msg ∈ toldBy g es, f msg = none :=
  fun msg hmsg => hf msg (silent_toldBy h msg hmsg)

theorem lastSome_advance (l : List Control) (front : List Effect)
    (ht : s.tasks[k]? = some ⟨o, e :: rest⟩) (htells : Effect.tells g e = none)
    (hfront : ∀ e ∈ front, e.silent) :
    lastSome f (l ++ toldBy g (Task.allTodo (Task.advance s.tasks k o' (front ++ rest)))) =
      lastSome f (l ++ s.outstanding g) := by
  rw [toldBy_advance, outstanding_eq ht, htells, toldBy_append, append_assoc,
    ← append_assoc l, lastSome_append_append_of_none (none_of_silent hf hfront)]
  simp

theorem lastSome_put {l : List Control} {front : List Effect} (ht : s.tasks[k]? = some ⟨o, .put how g item :: rest⟩) (hfront : ∀ e ∈ front, e.silent)
    (hturn : item.control?.bind f = none ∨
      lastSome f (toldBy g (Task.allTodo (Task.advance s.tasks k o rest))) = none ∨
      lastSome f (toldBy g (Task.allTodo (Task.advance s.tasks k o rest))) =
        lastSome f (s.outstanding g)) :
    lastSome f (l ++ item.control?.toList ++
        toldBy g (Task.allTodo (Task.advance s.tasks k o' (front ++ rest)))) =
      lastSome f (l ++ s.outstanding g) := by
  have htells : Effect.tells g (.put how g item) = item.control? := if_pos rfl
  rw [toldBy_advance, outstanding_eq ht, htells] at hturn
  rw [toldBy_advance, outstanding_eq ht, htells, toldBy_append, append_assoc (toldBy g front),
    ← append_assoc (l ++ _), lastSome_append_append_of_none (none_of_silent hf hfront),
    append_assoc (l ++ _)]
  cases hmsg : item.control? with
  | none => simp
  | some msg =>
    rw [hmsg] at hturn
    rcases hturn with hnone | hlast
    · have hnone : ∀ m ∈ [msg], f m = none := fun m hm => mem_singleton.mp hm ▸ hnone
      rw [toList_some, append_assoc l, lastSome_append_append_of_none hnone,
        ← append_assoc l, ← append_assoc l, lastSome_append_append_of_none hnone]
    · exact lastSome_said hlast

theorem Moved.said (hm : s.Moved a s') (H : s.Sane) (T : s.Tidy) {c : ConnSlot}
    (hlive : s'.live g = some c) (hconnect : ∀ spec mails, a ≠ .connect spec mails)
    (hcall : ∀ c, s.performed a ≠ some (.call c))
    (hturn : ∀ k o how item rest, a = .perform k →
      s.tasks[k]? = some ⟨o, .put how g item :: rest⟩ → item.control?.bind f = none ∨
        lastSome f (toldBy g (Task.allTodo (Task.advance s.tasks k o rest))) = none ∨
        lastSome f (toldBy g (Task.allTodo (Task.advance s.tasks k o rest))) =
          lastSome f (s.outstanding g))
    {n : Nat} (hn : n ≤ (s.lines g).sent.length) :
    lastSome f (s'.said n g) = lastSome f (s.said n g) := by
  obtain ⟨-, hrunning, hcancelled, hwriter⟩ := live_eq_some.mp hlive
  have hnothing : ∀ e ∈ ([] : List Effect), e.silent := fun e he => absurd he not_mem_nil
  -- a line that is not the one of the connection changes
  have hother : ∀ {g' l}, g' ≠ g → (update s.lines g' l g) = s.lines g := fun h =>
    update_of_ne h.symm ..
  cases hm with
  | connect => exact absurd rfl (hconnect _ _)
  | call ht => exact absurd (performed_eq ht) (hcall _)
  | @request a g' todo asked hr hq =>
    have htodo : ∀ e ∈ todo, e.silent := by
      cases hq with
      | text =>
        rcases onText_reacts with hnil | ⟨e, he, hreact⟩
        · rw [hnil]
          exact hnothing
        rw [he]
        refine forall_mem_singleton.mpr ?_
        cases hreact with
        | reply hmsg => exact silent_reply hmsg
        | _ => rfl
      | noise => exact hnothing
      | _ => exact forall_mem_singleton.mpr rfl
    simp only [Server.said, outstanding, Task.allTodo_spawn, toldBy_append]
    rw [← append_assoc]
    exact lastSome_append_of_none (none_of_silent hf htodo)
  | @leave g' idle hr =>
    have hg : g' ≠ g := by
      rintro rfl
      simp [Server.leave, spawn] at hrunning
    simp only [Server.said, outstanding, Server.leave, spawn, Task.allTodo_spawn, toldBy_append, hother hg]
    rw [← append_assoc]
    exact lastSome_append_of_none (none_of_silent hf (forall_mem_singleton.mpr rfl))
  | @put k o how g' item rest l ht hl =>
    obtain ⟨front, hfront, hsilent⟩ := sent_eq rest (H.proper _ (mem_rest ht mem_cons_self))
    simp only [Server.said, outstanding, hfront]
    by_cases hg : g' = g
    · subst hg
      rw [update_self, Line.sent_trySend hl, drop_append_of_le_length hn, filterMap_append]
      have hitem : [item].filterMap Item.control? = item.control?.toList := by
        rw [filterMap_cons]
        cases item.control? <;> rfl
      exact lastSome_put hf ht hsilent (hturn k o how item rest rfl ht)
    · rw [hother hg]
      exact lastSome_advance hf _ _ ht (if_neg hg) hsilent
  | @putFails a k o how g' item rest ht hl ha hw hx =>
    have hg : g' ≠ g := by
      rintro rfl
      have hline : (s.putFails k o rest how g' item).lines g' = how.fail (s.lines g') :=
        update_self ..
      rw [hline] at hrunning hcancelled hwriter
      cases how with
      | push | offer => cases hcancelled
      | enqueue | send => cases hrunning
      | deliver others any post =>
        rw [How.fail] at hcancelled hwriter
        split at hcancelled
        next hgone => exact hwriter (by rw [if_pos hgone]; exact hgone)
        next => cases hcancelled
    have hproper := H.proper _ (mem_rest ht mem_cons_self)
    simp only [Server.said, outstanding, Server.putFails, hother hg]
    cases hown : Effect.own (.put how g' item) with
    | false =>
      obtain ⟨front, hfront, hsilent⟩ := failed_eq rest hproper hown
      rw [hfront]
      exact lastSome_advance hf _ _ ht (if_neg hg) hsilent
    | true =>
      -- what is dropped was for the connection that failed
      have htask := Task.mem_of_getElem? ht
      have hdropped : toldBy g rest = [] := by
        refine filterMap_eq_nil_iff.mpr fun e he => ?_
        have hown' := (T.ranked _ htask).rest_own hown e he
        have howner := T.owned _ htask
        have hg' : o = some g' := by
          cases how with
          | enqueue | send => exact howner.head g' rfl
          | push | offer | deliver => cases hown
        cases e with
        | put how' g'' item' =>
          refine if_neg fun heq => hg ?_
          cases how' with
          | enqueue | send =>
            exact (some.inj (hg'.symm.trans (howner.tail _ he g'' rfl))).trans heq
          | push | offer | deliver => cases hown'
        | _ => rfl
      have hfailed : ∃ call, how.failed g' item rest = [.call call] := by
        cases how with
        | enqueue | send => exact ⟨_, rfl⟩
        | push | offer | deliver => cases hown
      obtain ⟨call, hfailed⟩ := hfailed
      have htells : Effect.tells g (.put how g' item) = none := if_neg hg
      have hold := outstanding_eq (g := g) ht
      rw [outstanding, htells, hdropped] at hold
      rw [toldBy_advance, hold, hfailed]
      rfl
  | @frame k o sender gen localId g' f' rest l ht hl =>
    obtain ⟨-, -, rfl⟩ := Line.sendFrame_eq_some.mp hl
    have hsent : (update s.lines g'
        { s.lines g' with data := (s.lines g').data ++ [f'] } g).sent = (s.lines g).sent :=
      sent_update rfl
    simp only [Server.said, outstanding, hsent]
    exact lastSome_advance hf _ [] ht rfl hnothing
  | @frameFails a k o sender gen localId g' f' rest ht hl ha =>
    let front : List Effect := [.call (.close sender gen localId "overflow" none),
      .call (.tell gen { msg := .text (.closed localId "overflow"), tunnel := f'.tunnel })]
    have hfront : ∀ e ∈ front, e.silent :=
      forall_mem_cons.mpr ⟨rfl, forall_mem_singleton.mpr rfl⟩
    have hline : ((s.frameFails k o rest sender gen localId f').lines g) = s.lines g := rfl
    have htasks : (s.frameFails k o rest sender gen localId f').tasks =
        Task.advance s.tasks k o (front ++ rest) := rfl
    exact lastSome_advance hf _ front ht rfl hfront
  | @sleep k o ms rest ht =>
    exact lastSome_advance hf _ [.wait (s.now + ms)] ht rfl (forall_mem_singleton.mpr rfl)
  | wait ht => exact lastSome_advance hf _ [] ht rfl hnothing
  | tick => rfl
  | write hw =>
    simp only [Server.said, outstanding, sent_update (Line.sent_write hw)]

end

/-! ## The last word -/

/-- What every connection that takes on messages was told and is still to be told ends with the
truth. -/
structure Truthful (s : Server) : Prop where
  own : ∀ g c, s.live g = some c →
    lastSome ownList (s.said 0 g) = some (s.hub.otherDevices c.peerId c.device)
  presence : ∀ g c, s.live g = some c → ∀ p ∈ c.watch,
    (lastPresence (s.said (s.lines g).watchedAt g) p).getD (false, []) = s.hub.presenceOf p c.peerId

theorem Truthful.start : ({} : Server).Truthful where
  own _ _ h := by cases h
  presence _ _ h := by cases h

theorem Truthful.reflects (H : s.Truthful) : s.Reflects := by
  intro g c hlive hnone
  have hown := H.own g c hlive
  rw [said, hnone, append_nil, drop_zero] at hown
  refine ⟨hown, fun p hp => ?_⟩
  have hpresence := H.presence g c hlive p hp
  rwa [said, hnone, append_nil] at hpresence

theorem toldOwn {h : Hub} (hI : Hub.Informs h h' pushes)
    (hpushes : ∀ push ∈ pushes, isPush push.2) (hc : h.conns.lookup g = some c)
    (hc' : h'.conns.lookup g = some c') {log : List Control}
    (hlog : lastSome ownList log = some (h.otherDevices c.peerId c.device)) :
    lastSome ownList (log ++ sentTo g pushes) = some (h'.otherDevices c'.peerId c'.device) := by
  have hsound : ∀ msg ∈ sentTo g pushes, ∀ devices, ownList msg = some devices →
      devices = h'.otherDevices c'.peerId c'.device := by
    intro msg hmsg devices hown
    have hmem := mem_sentTo.mp hmsg
    cases msg with
    | devices =>
      cases hown
      obtain ⟨c₁, hc₁, hdevices⟩ := hI.ownSound g devices hmem
      rw [hc'] at hc₁
      cases hc₁
      exact hdevices
    | ready => cases hpushes _ hmem
    | _ => cases hown
  rw [lastSome_append]
  cases hlast : lastSome ownList (sentTo g pushes) with
  | some devices =>
    obtain ⟨msg, hmsg, hown⟩ := exists_mem_of_lastSome hlast
    rw [some_or, hsound msg hmsg devices hown]
  | none =>
    rw [none_or, hlog]
    -- nobody was told, so that nothing changed
    by_contra hne
    obtain ⟨devices, hpush⟩ := hI.ownComplete g c c' hc hc' fun heq => hne (by rw [heq])
    cases lastSome_eq_none.mp hlast _ (mem_sentTo.mpr hpush)

theorem lastSome_call {f : Control → Option β}
    (hf : ∀ msg : Control, msg.silent → f msg = none) {c : Call} (l : List Control)
    (ht : s.tasks[k]? = some ⟨o, .call c :: rest⟩) (hrest : ∀ e ∈ rest, e.silent) :
    lastSome f (l ++ toldBy g (Task.allTodo (Task.requeue s.tasks k o (es ++ rest)))) =
      lastSome f (l ++ s.outstanding g ++ toldBy g es) := by
  have hnone := none_of_silent (g := g) hf hrest
  rw [Task.allTodo_requeue, outstanding_eq ht, toldBy_append, toldBy_append, toldBy_append]
  change _ = lastSome f (l ++ (_ ++ (toldBy g rest ++ _)) ++ _)
  generalize toldBy g (Task.allTodo (s.tasks.take k)) = before
  generalize toldBy g (Task.allTodo (s.tasks.drop (k + 1))) = after
  have hinner : lastSome f (l ++ (before ++ (toldBy g rest ++ after))) =
      lastSome f (l ++ (before ++ after)) := by
    rw [← append_assoc l, lastSome_append_append_of_none hnone, append_assoc]
  rw [lastSome_append (l := l ++ (before ++ (toldBy g rest ++ after))), hinner, ← lastSome_append,
    ← append_assoc _ (toldBy g es), ← append_assoc l, lastSome_append_of_none hnone]
  simp only [append_assoc]

theorem Truthful.informed (hI : Hub.Informs s.hub h' pushes)
    (hpushes : ∀ push ∈ pushes, isPush push.2) (H : s.Truthful) (hlive : s.live g = some c) (hc' : h'.conns.lookup g = some c') (hwatch : c'.watch = c.watch) :
    lastSome ownList (s.said 0 g ++ sentTo g pushes) = some (h'.otherDevices c'.peerId c'.device) ∧
      ∀ p ∈ c'.watch, (lastPresence (s.said (s.lines g).watchedAt g ++ sentTo g pushes) p).getD
        (false, []) = h'.presenceOf p c'.peerId := by
  obtain ⟨hc, -⟩ := live_eq_some.mp hlive
  exact ⟨toldOwn hI hpushes hc hc' (H.own g c hlive), fun p hp =>
    hI.told hc hc' (hwatch ▸ hp) hp (H.presence g c hlive p (hwatch ▸ hp))⟩

theorem Truthful.connect {spec : RegisterSpec} {mails : List MailRow} (H : s.Truthful) (S : s.Sane)
    (M : s.Mannered) : (s.connect spec mails).Truthful := by
  have hI := S.wf.informs_register M.noSelf spec
  have hpushes := isPush_detached (S.wf.detached_register spec)
  have hmails : ∀ e ∈ mails.map fun m => Effect.put (.send spec.peerId)
      (s.hub.register spec).1.generation m.item, e.silent := by
    intro e he
    obtain ⟨m, -, rfl⟩ := List.mem_map.mp he
    rfl
  have houtstanding : ∀ g, (s.connect spec mails).outstanding g = s.outstanding g ++
      sentTo g (s.hub.register spec).2.2 ++ toldBy g (.put (.send spec.peerId)
        (s.hub.register spec).1.generation { msg := .text (.ready spec.peerId
          (s.hub.register spec).1.device (s.hub.register spec).1.otherDevices) } ::
        mails.map fun m => Effect.put (.send spec.peerId)
          (s.hub.register spec).1.generation m.item) := by
    intro g
    simp only [outstanding, Server.connect, spawn, Task.allTodo_spawn, toldBy_append,
      toldBy_pushes, List.map_cons, List.map_map, List.append_assoc]
    rfl
  have hnew : ∀ g c, (s.connect spec mails).live g = some c →
      g = s.hub.nextGen ∧ c.watch = [] ∧ c.peerId = spec.peerId ∧ c.device = spec.device ∨
        g ≠ s.hub.nextGen ∧ s.live g = some c ∧ (s.connect spec mails).lines g = s.lines g := by
    intro g c hlive
    obtain ⟨hc, hrunning, hcancelled, hwriter⟩ := live_eq_some.mp hlive
    rcases S.wf.lookup_register hc with ⟨hg, rfl⟩ | ⟨hg, hc⟩
    · exact .inl ⟨hg, rfl, rfl, rfl⟩
    rcases lines_connect (s := s) (g := g) spec mails with ⟨hg', -⟩ | ⟨-, -, hl⟩ | ⟨-, -, hl⟩
    · exact absurd hg' hg
    · rw [hl] at hcancelled
      cases hcancelled
    · rw [hl] at hrunning hcancelled hwriter
      exact .inr ⟨hg, live_eq_some.mpr ⟨hc, hrunning, hcancelled, hwriter⟩, hl⟩
  have hsilent : ∀ {β : Type} {f : Control → Option β} (_ : ∀ msg : Control, msg.silent → f msg = none)
      {g}, g ≠ s.hub.nextGen → ∀ l, lastSome f (l ++ (s.connect spec mails).outstanding g) =
        lastSome f (l ++ s.outstanding g ++ sentTo g (s.hub.register spec).2.2) := by
    intro β f hf g hg l
    have hready : toldBy g [.put (.send spec.peerId) (s.hub.register spec).1.generation
        { msg := .text (.ready spec.peerId (s.hub.register spec).1.device
          (s.hub.register spec).1.otherDevices) }] = [] := by
      refine List.filterMap_cons_none ?_
      exact if_neg (Ne.symm hg)
    rw [houtstanding, ← List.singleton_append, toldBy_append, hready, List.nil_append,
      ← List.append_assoc, lastSome_append_of_none (none_of_silent hf hmails), List.append_assoc]
  constructor
  · intro g c hlive
    obtain ⟨hc, -⟩ := live_eq_some.mp hlive
    rcases hnew g c hlive with ⟨rfl, -, hp, hd⟩ | ⟨hg, hold, hl⟩
    · -- the last word is `ready`
      rw [hp, hd, said, houtstanding, toldBy_cons, ← List.append_assoc, ← List.append_assoc,
        lastSome_append_of_none (none_of_silent (fun msg => ownList_silent) hmails),
        lastSome_append]
      have hready : Effect.tells s.hub.nextGen (.put (.send spec.peerId)
          (s.hub.register spec).1.generation { msg := .text (.ready spec.peerId
            (s.hub.register spec).1.device (s.hub.register spec).1.otherDevices) }) =
          some (.ready spec.peerId (s.hub.register spec).1.device
            (s.hub.register spec).1.otherDevices) := if_pos rfl
      rw [hready]
      rfl
    · have hkept := (H.informed hI hpushes hold hc rfl).1
      rw [said, hl, hsilent (fun msg => ownList_silent) hg]
      exact hkept
  · intro g c hlive p hp
    obtain ⟨hc, -⟩ := live_eq_some.mp hlive
    rcases hnew g c hlive with ⟨-, hwatch, -, -⟩ | ⟨hg, hold, hl⟩
    · rw [hwatch] at hp
      cases hp
    have hkept := (H.informed hI hpushes hold hc rfl).2 p hp
    rw [said, hl]
    change (lastSome (presenceAbout p) _).getD _ = _
    rw [hsilent (fun msg => presenceAbout_silent) hg]
    exact hkept

theorem Truthful.of_call {c : Call} (ht : s.tasks[k]? = some ⟨o, .call c :: rest⟩) (M : s.Mannered)
    (hsent : ∀ g, (s'.lines g).sent = (s.lines g).sent)
    (htold : ∀ g c', (s.afterCall s' k o (es ++ rest)).live g = some c' →
      lastSome ownList (s.said 0 g ++ toldBy g es) =
          some (s'.hub.otherDevices c'.peerId c'.device) ∧
        ∀ p ∈ c'.watch, (lastPresence (s.said (s'.lines g).watchedAt g ++ toldBy g es) p).getD
          (false, []) = s'.hub.presenceOf p c'.peerId) :
    (s.afterCall s' k o (es ++ rest)).Truthful := by
  have hrest := (M.late _ (Task.mem_of_getElem? ht)).silent
  have hsaid : ∀ {β : Type} {f : Control → Option β}
      (_ : ∀ msg : Control, msg.silent → f msg = none) n g,
      lastSome f ((s.afterCall s' k o (es ++ rest)).said n g) =
        lastSome f (s.said n g ++ toldBy g es) := by
    intro β f hf n g
    have hl : _ = lastSome f (s.said n g ++ toldBy g es) := lastSome_call hf
      (((s.lines g).sent.drop n).filterMap Item.control?) ht hrest
    rw [said, afterCall_lines, hsent]
    exact hl
  constructor
  · intro g c' hlive
    rw [hsaid fun msg => ownList_silent]
    exact (htold g c' hlive).1
  intro g c' hlive p hp
  change (lastSome (presenceAbout p) _).getD _ = _
  rw [hsaid fun msg => presenceAbout_silent]
  exact (htold g c' hlive).2 p hp

theorem Truthful.watching (H : s.Truthful) (S : s.Sane)
    (M : s.Mannered) (hlive : s.live g = some c) (hself : c.peerId ∉ peers)
    (hstale : ∀ p ∈ peers, ¬ s.hub.peerWatches p c.peerId →
      (lastPresence (s.outstanding g) p).all (· = (false, []))) :
    let (snapshot, hub, pushes) := s.hub.setWatch c.peerId g peers
    lastSome ownList (s.said 0 g ++ (sentTo g pushes ++ snapshot)) =
        some (hub.otherDevices c.peerId c.device) ∧
      ∀ p ∈ peers, (lastPresence (s.outstanding g ++ (sentTo g pushes ++ snapshot)) p).getD
        (false, []) = hub.presenceOf p c.peerId := by
  have hI := S.wf.informs_setWatch (g := g) M.noSelf hself
  have hpushes : ∀ push ∈ (s.hub.setWatch c.peerId g peers).2.2, isPush push.2 :=
    fun push h => isPush_notice (Hub.setWatch_notice push h)
  have hsnapshot : ∀ msg ∈ (s.hub.setWatch c.peerId g peers).1,
      ∃ q devices, msg = .presence q true devices := Hub.setWatch_snapshot
  obtain ⟨hc, -⟩ := live_eq_some.mp hlive
  have hhub : (s.hub.setWatch c.peerId g peers).2.1 = s.hub.watching g c peers := by
    rw [Hub.setWatch_eq hc]
  have hc' : (s.hub.watching g c peers).conns.lookup g = some { c with watch := peers.dedup } :=
    Hub.lookup_watching_self
  dsimp only
  constructor
  · have hown := toldOwn hI hpushes hc (hhub ▸ hc') (H.own g c hlive)
    rw [← append_assoc, lastSome_append_of_none fun msg hmsg => ?_]
    · exact hown
    · obtain ⟨q, devices, rfl⟩ := hsnapshot msg hmsg
      rfl
  intro p hp
  rw [← append_assoc, hhub]
  refine Hub.Wf.told_snapshot S.wf hc hself hp fun hnot => ?_
  have hsame : Hub.SamePeer s.hub (s.hub.watching g c peers) p :=
    Hub.samePeer_watching hc fun h => hself (h ▸ hp)
  rw [lastPresence_append]
  cases hlast : lastPresence (sentTo g (s.hub.setWatch c.peerId g peers).2.2) p with
  | some v =>
    obtain ⟨msg, hmsg, hv⟩ := exists_mem_of_lastSome hlast
    rw [presenceAbout_eq_some] at hv
    subst hv
    obtain ⟨c₁, hc₁, -, hv⟩ := hI.sound g p _ _ (mem_sentTo.mp hmsg)
    rw [hhub, hc'] at hc₁
    cases hc₁
    rw [hhub, Hub.presenceOf, if_neg hnot] at hv
    exact hv
  | none =>
    have hall := hstale p hp fun h => hnot (hsame.peerWatches S.wf (S.wf.watching hc) ▸ h)
    cases hpresence : lastPresence (s.outstanding g) p with
    | none => rfl
    | some v =>
      rw [hpresence] at hall
      exact of_decide_eq_true hall

theorem Truthful.call {c : Call} (H : s.Truthful) (S : s.Sane) (M : s.Mannered)
    (ht : s.tasks[k]? = some ⟨o, .call c :: rest⟩) (hok : s.timely (.perform k) = true) :
    (s.afterCall (s.enter c).1 k o ((s.enter c).2 ++ rest)).Truthful := by
  have hmem := mem_rest ht List.mem_cons_self
  rcases (entered S.wf c).change (S.proper _ hmem) with
    ⟨p, g₀, peers, rfl, hs, hes⟩ | ⟨p, g₀, rfl, hs, hes⟩ | ⟨⟨tunnels, hhub⟩, hlines, hsilent⟩
  · obtain ⟨hself, hp, -⟩ := M.polite p g₀ peers hmem
    have hfield : ∀ {α : Type} (F : Line → α) (_ : ∀ l n, F { l with watchedAt := n } = F l) g,
        F ((s.enter (.watch p g₀ peers)).1.lines g) = F (s.lines g) := by
      intro α F hF g
      by_cases hg : g = g₀
      · subst hg
        exact (congrArg F (Function.update_self ..)).trans (hF _ _)
      · exact congrArg F (Function.update_of_ne hg ..)
    refine Truthful.of_call ht M (fun g => hfield Line.sent (fun _ _ => rfl) g) fun g c' hlive => ?_
    obtain ⟨hc', hrunning, hcancelled, hwriter⟩ := live_eq_some.mp hlive
    rw [afterCall_lines, hfield Line.running fun _ _ => rfl] at hrunning
    rw [afterCall_lines, hfield Line.cancelled fun _ _ => rfl] at hcancelled
    rw [afterCall_lines, hfield Line.writer fun _ _ => rfl] at hwriter
    rw [afterCall_hub, hs] at hc'
    have hlive₀ : ∀ {c}, s.hub.conns.lookup g = some c → s.live g = some c := fun hc =>
      live_eq_some.mpr ⟨hc, hrunning, hcancelled, hwriter⟩
    rw [hes, toldBy_append, toldBy_pushes, toldBy_replies, hs]
    by_cases hg : g₀ = g
    · subst hg
      rcases Hub.setWatch_cases s.hub p g₀ peers with ⟨hnot, he⟩ | ⟨c, hc, rfl, he⟩
      · -- the line and the hub agree on the peer of a connection
        rw [he] at hc'
        exact absurd ((M.peers g₀ c' hc').symm.trans hp.symm) (hnot c' hc')
      have hc₁ : (s.hub.watching g₀ c peers).conns.lookup g₀ =
          some { c with watch := peers.dedup } := Hub.lookup_watching_self
      have hwatched := hc'
      rw [he, hc₁] at hwatched
      cases hwatched
      rw [if_pos rfl]
      have hnext : s.next k = some (o, .call (.watch c.peerId g₀ peers), rest) := by
        rw [next, ht]
      simp only [timely, hnext, hlive₀ hc, Option.all_some, ne_eq, not_true, decide_false,
        Bool.false_or, List.all_eq_true, Bool.or_eq_true] at hok
      obtain ⟨hown, hpresence⟩ := H.watching S M (hlive₀ hc) hself fun q hq hback =>
        (hok q hq).resolve_left hback
      refine ⟨hown, fun q hq => ?_⟩
      have hline : (Function.update s.lines g₀
          { s.lines g₀ with watchedAt := (s.lines g₀).sent.length } g₀).watchedAt =
            (s.lines g₀).sent.length := by
        rw [Function.update_self]
      have hnothing : s.said (s.lines g₀).sent.length g₀ = s.outstanding g₀ := by
        rw [said, List.drop_length]
        rfl
      rw [hline, hnothing]
      exact hpresence q (List.mem_dedup.mp hq)
    · have hold : s.hub.conns.lookup g = some c' := by
        rcases Hub.setWatch_cases s.hub p g₀ peers with ⟨-, he⟩ | ⟨c, hc, rfl, he⟩
        · rwa [he] at hc'
        · rw [he] at hc'
          rwa [← Hub.lookup_watching_ne (Ne.symm hg)]
      have hline : Function.update s.lines g₀
          { s.lines g₀ with watchedAt := (s.lines g₀).sent.length } g = s.lines g :=
        Function.update_of_ne (Ne.symm hg) ..
      rw [if_neg hg, List.append_nil]
      dsimp only
      rw [hline]
      exact H.informed (S.wf.informs_setWatch M.noSelf hself)
        (fun push h => isPush_notice (Hub.setWatch_notice push h)) (hlive₀ hold) hc' rfl
  · refine Truthful.of_call ht M (fun g => by rw [hs]) fun g c' hlive => ?_
    obtain ⟨hc', hline⟩ := live_eq_some.mp hlive
    rw [afterCall_hub, hs] at hc'
    have hold : s.hub.conns.lookup g = some c' := by
      have hc'' := hc'
      rw [Hub.unregister] at hc''
      split at hc''
      next hm =>
        obtain ⟨c, hc, -⟩ := Hub.connMatches_iff.mp hm
        exact Hub.lookup_conns_detachConn hc hc''
      next => exact hc''
    rw [hes, toldBy_pushes, hs]
    exact H.informed (S.wf.informs_unregister M.noSelf)
      (isPush_detached S.wf.detached_unregister) (live_eq_some.mpr ⟨hold, hline⟩) hc' rfl
  · refine Truthful.of_call ht M (fun g => by rw [hlines]) fun g c' hlive => ?_
    obtain ⟨hc', hline⟩ := live_eq_some.mp hlive
    rw [afterCall_hub, hhub] at hc'
    rw [afterCall_lines, hlines] at hline
    have hold : s.live g = some c' := live_eq_some.mpr ⟨hc', hline⟩
    rw [hhub, hlines, lastSome_append_of_none (none_of_silent (fun msg => ownList_silent) hsilent)]
    refine ⟨H.own g c' hold, fun p hp => ?_⟩
    change (lastSome (presenceAbout p) _).getD _ = _
    rw [lastSome_append_of_none (none_of_silent (fun msg => presenceAbout_silent) hsilent)]
    exact H.presence g c' hold p hp

section

variable {c : ConnSlot} (hok : s.timely (.perform k) = true)
  (ht : s.tasks[k]? = some ⟨o, .put how g item :: rest⟩) (hlive : s.live g = some c)

include hok ht hlive

theorem timely_own : item.control?.bind ownList = none ∨
    lastSome ownList (toldBy g (Task.allTodo (Task.advance s.tasks k o rest))) = none ∨
    lastSome ownList (toldBy g (Task.allTodo (Task.advance s.tasks k o rest))) =
      lastSome ownList (s.outstanding g) := by
  have hnext : s.next k = some (o, .put how g item, rest) := by rw [next, ht]
  simp only [timely, hnext, hlive] at hok
  cases hmsg : item.control? with
  | none => exact .inl rfl
  | some msg =>
    rw [hmsg] at hok
    cases msg with
    | ready | devices => exact .inr (of_decide_eq_true hok)
    | _ => exact .inl rfl

theorem timely_presence (hp : p ∈ c.watch) : item.control?.bind (presenceAbout p) = none ∨
    lastSome (presenceAbout p) (toldBy g (Task.allTodo (Task.advance s.tasks k o rest))) = none ∨
    lastSome (presenceAbout p) (toldBy g (Task.allTodo (Task.advance s.tasks k o rest))) =
      lastSome (presenceAbout p) (s.outstanding g) := by
  have hnext : s.next k = some (o, .put how g item, rest) := by rw [next, ht]
  simp only [timely, hnext, hlive] at hok
  cases hmsg : item.control? with
  | none => exact .inl rfl
  | some msg =>
    rw [hmsg] at hok
    cases msg with
    | presence q =>
      by_cases hq : q = p
      · subst hq
        simp only [hp, not_true, decide_false, Bool.false_or] at hok
        exact .inr (of_decide_eq_true hok)
      · exact .inl (if_neg hq)
    | _ => exact .inl rfl

end

theorem Truthful.moved (H : s.Truthful) (S : s.Sane) (T : s.Tidy) (M : s.Mannered) (hm : s.Moved a s')
    (hok : s.timely a = true) : s'.Truthful := by
  by_cases hconnect : ∃ spec mails, a = .connect spec mails
  · obtain ⟨spec, mails, rfl⟩ := hconnect
    rw [hm.connect_eq]
    exact H.connect S M
  by_cases hcall : ∃ c, s.performed a = some (.call c)
  · obtain ⟨c, hc⟩ := hcall
    obtain ⟨k, o, rest, rfl, ht⟩ := performed_task hc
    obtain ⟨-, rfl⟩ := hm.call_turn ht (.inl rfl)
    exact H.call S M ht hok
  -- the hub stays as it is
  have hconnect : ∀ spec mails, a ≠ .connect spec mails := fun _ _ h => hconnect ⟨_, _, h⟩
  have hcall : ∀ c, s.performed a ≠ some (.call c) := fun _ h => hcall ⟨_, h⟩
  have hhub : s'.hub = s.hub := by
    cases hm with
    | connect => exact absurd rfl (hconnect _ _)
    | call ht => exact absurd (performed_eq ht) (hcall _)
    | _ => rfl
  have hlive : ∀ {g c}, s'.live g = some c → s.live g = some c := by
    intro g c h
    obtain ⟨hc, -⟩ := live_eq_some.mp h
    rw [hhub] at hc
    rcases hm.live S h with ⟨c₀, h₀, -⟩ | rfl
    · obtain ⟨hc₀, -⟩ := live_eq_some.mp h₀
      cases hc.symm.trans hc₀
      exact h₀
    · exact absurd (AList.lookup_isSome.mp (isSome_of_eq_some hc)) S.wf.nextGen_not_mem
  have hwatched : ∀ g, (s'.lines g).watchedAt = (s.lines g).watchedAt := by
    intro g
    rcases hm.line_field Line.watchedAt (fun _ _ => rfl) (fun _ _ => rfl) (fun _ _ => rfl)
      (fun _ _ => rfl) (fun hw => (Line.write_same hw).2.2.2) S.wf (g := g) with
      hsame | ⟨spec, mails, h, -⟩ | ⟨_, _, h, -⟩
    · exact hsame
    · exact absurd h (hconnect _ _)
    · exact absurd h (hcall _)
  constructor
  · intro g c h
    have hsaid := hm.said (fun msg => ownList_silent) S T h hconnect hcall
      (fun k o how item rest ha ht => timely_own (ha ▸ hok) ht (hlive h)) (Nat.zero_le _)
    rw [hsaid, hhub]
    exact H.own g c (hlive h)
  intro g c h p hp
  have hsaid := hm.said (fun msg => presenceAbout_silent) S T h hconnect hcall
    (fun k o how item rest ha ht => timely_presence (ha ▸ hok) ht (hlive h) hp) (M.watched g)
  change (lastSome (presenceAbout p) _).getD _ = _
  rw [hwatched, hsaid, hhub]
  exact H.presence g c (hlive h) p hp

/-- The last notices are true, in every run in which they are put into the queues in time. -/
theorem notices_reflect {as : List Action} (h : Run step (fun s a => s.timely a = true) {} as s) :
    s.Reflects := by
  have hstep : ∀ {s : Server} {a s'}, s.timely a = true →
      (s.Sane ∧ s.Tidy ∧ s.Mannered ∧ s.Truthful) → step s a = some s' →
      s'.Sane ∧ s'.Tidy ∧ s'.Mannered ∧ s'.Truthful := by
    rintro s a s' hok ⟨S, T, M, H⟩ hs
    have hm := step_moved hs
    exact ⟨S.moved hm, T.moved S hm, M.moved S T hm, H.moved S T M hm hok⟩
  obtain ⟨-, -, -, H⟩ :=
    Run.invariant hstep h ⟨Sane.start, Tidy.start, Mannered.start, Truthful.start⟩
  exact H.reflects

/-- The hub and the tasks are in order, whatever the order in which the tasks go on. -/
theorem server_in_order {as : List Action} :
    Always step (fun s => s.Sane ∧ s.Tidy ∧ s.Mannered) {} as := by
  refine Run.always (fun H h => ?_) ⟨Sane.start, Tidy.start, Mannered.start⟩
  obtain ⟨S, T, M⟩ := H
  have hm := step_moved h
  exact ⟨S.moved hm, T.moved S hm, M.moved S T hm⟩

/-- Two peers watch each other, and another device of the first comes: everybody is told at once. -/
theorem notices_reflect_joins : ∃ (as : List Action) (s : Server), exec step {} as = some s ∧
    ((s.live 1).isSome = true ∧ (s.live 2).isSome = true ∧ s.tasks = []) ∧ s.Reflects := by
  let acts : List Action := [.connect ⟨peerA, "device-1", "", ""⟩ [], .perform 0,
    .connect ⟨peerB, "device-2", "", ""⟩ [], .perform 0,
    request "watch" [("peers", .arr [.str peerB])] 1, .perform 0,
    request "watch" [("peers", .arr [.str peerA])] 2, .perform 0, .perform 0, .perform 0,
    .connect ⟨peerA, "device-3", "", ""⟩ [], .perform 0, .perform 0, .perform 0]
  have hrun : (exec step {} acts).map (fun s => ((s.live 1).isSome, (s.live 2).isSome, s.tasks)) =
      some (true, true, []) := by decide +kernel
  have hok : allowed step timely {} acts = true := by decide +kernel
  obtain ⟨s, hs, hstate⟩ := map_eq_some_iff.mp hrun
  simp only [Prod.mk.injEq] at hstate
  exact ⟨acts, s, hs, hstate, notices_reflect (Run.of_allowed hok hs)⟩

/-- Two devices come after another, and the first device of the peer is told of the second of them
before it is told of the first: it ends with a list that has only one of them. -/
theorem notices_cross : ¬ ∀ (as : List Action) (s : Server), FreeRun step {} as s → s.Reflects := by
  intro h
  let acts : List Action := [.connect ⟨peerA, "device-1", "", ""⟩ [], .perform 0,
    .connect ⟨peerA, "device-2", "", ""⟩ [], .connect ⟨peerA, "device-3", "", ""⟩ [],
    .perform 1, .perform 1, .perform 0, .perform 0, .perform 0]
  have hrun : (exec step {} acts).map (fun s => (s.tasks, (s.live 1).map (·.device),
      lastSome ownList (s.heard 1))) =
      some ([], some "device-1", some [⟨"device-2", ""⟩]) := by decide +kernel
  have hhub : (exec step {} acts).map (fun s => (s.live 1).map fun c =>
      (s.hub.otherDevices c.peerId c.device).length) = some (some 2) := by decide +kernel
  obtain ⟨s, hs, hstate⟩ := map_eq_some_iff.mp hrun
  simp only [Prod.mk.injEq] at hstate
  obtain ⟨htasks, hdevice, hlast⟩ := hstate
  obtain ⟨c, hc, -⟩ := map_eq_some_iff.mp hdevice
  rw [hs, map_some, hc, map_some] at hhub
  have hnone : s.outstanding 1 = [] := by
    rw [outstanding, htasks]
    rfl
  have hown := (h acts s (.of_exec hs) 1 c hc hnone).1
  rw [hlast] at hown
  have hlength := congrArg List.length (some.inj hown)
  cases hlength.trans (some.inj (some.inj hhub))

end Server

end Bluetalk.Relay

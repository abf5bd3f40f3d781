import Bluetalk.Relay.HubCalls
import Bluetalk.Relay.Server

/-!
# What a step of the relay can do

`Server.Moved` lists the outcomes of a step, one constructor each. The invariants of the modules
after this one go through these, and through `Call.Done` for what a call does.
-/

open List Function

namespace Bluetalk.Relay

/-! ## Lines -/

namespace Line

variable {l l' : Line} {item : Item} {frame : Frame} {move : WriterMove}

theorem trySend_eq_some : l.trySend item = some l' ↔
    l.writer ≠ .gone ∧ l.control.length < outboundControlCap ∧
      l' = { l with control := l.control ++ [item] } := by
  rw [trySend]
  split
  next h => simp only [reduceCtorEq, false_iff]; grind
  next h =>
  rw [not_or, Nat.not_le] at h
  simp [h, eq_comm]

theorem sendFrame_eq_some : l.sendFrame frame = some l' ↔
    l.writer ≠ .gone ∧ l.data.length < outboundDataCap ∧
      l' = { l with data := l.data ++ [frame] } := by
  rw [sendFrame]
  split
  next h => simp only [reduceCtorEq, false_iff]; grind
  next h =>
  rw [not_or, Nat.not_le] at h
  simp [h, eq_comm]

@[simp] theorem sent_control (items : List Item) :
    ({ l with control := l.control ++ items } : Line).sent = l.sent ++ items := by
  simp [sent]

theorem sent_trySend (h : l.trySend item = some l') : l'.sent = l.sent ++ [item] := by
  obtain ⟨-, -, rfl⟩ := trySend_eq_some.mp h
  exact sent_control [item]

theorem sent_write (h : l.write move = some l') : l'.sent = l.sent := by
  cases move with
  | takeControl =>
    simp only [write] at h
    split at h
    next hc => cases h; simp [sent, hc, Event.item?]
    next => cases h
  | seeNoControl | wake | ends =>
    simp only [write] at h
    split at h <;> cases h
    rfl
  | takeFrame =>
    simp only [write] at h
    split at h
    next => cases h; simp [sent, Event.item?]
    next => cases h

theorem write_same (h : l.write move = some l') : l'.peerId = l.peerId ∧ l'.running = l.running ∧
    l'.cancelled = l.cancelled ∧ l'.watchedAt = l.watchedAt := by
  cases move
  all_goals
    simp only [write] at h
    split at h <;> cases h
    exact ⟨rfl, rfl, rfl, rfl⟩

@[simp] theorem fail_sent (how : How) : (how.fail l).sent = l.sent := by
  cases how with
  | deliver others any post => simp only [How.fail]; split <;> rfl
  | _ => rfl

/-- What a connection is told when it is replaced or idle. -/
def Farewell (item : Item) : Prop :=
  item = { msg := .text (.error "replaced") } ∨ item = { msg := .close }

theorem sent_trySend_getD (item : Item) :
    ∃ added, ((l.trySend item).getD l).sent = l.sent ++ added ∧ ∀ i ∈ added, i = item := by
  cases h : l.trySend item with
  | none => exact ⟨[], (append_nil _).symm, fun i hi => by cases hi⟩
  | some l' => exact ⟨[item], sent_trySend h, fun i hi => mem_singleton.mp hi⟩

theorem sent_replaced : ∃ added, l.replaced.sent = l.sent ++ added ∧
    ∀ i ∈ added, Farewell i := by
  have hctl : ∃ added, (l.trySendCtl { msg := .text (.error "replaced") }).sent = l.sent ++ added ∧
      ∀ i ∈ added, Farewell i := by
    rw [trySendCtl]
    cases h : l.trySend { msg := .text (.error "replaced") } with
    | none => exact ⟨[], (append_nil _).symm, fun i hi => by cases hi⟩
    | some l' => exact ⟨_, sent_trySend h, fun i hi => .inl (mem_singleton.mp hi)⟩
  obtain ⟨added, hadded, hfar⟩ := hctl
  obtain ⟨more, hmore, hclose⟩ := sent_trySend_getD
    (l := l.trySendCtl { msg := .text (.error "replaced") }) { msg := .close }
  refine ⟨added ++ more, ?_, fun i hi => ?_⟩
  · change ((_ : Option Line).getD _).sent = _
    rw [hmore, hadded, append_assoc]
  · rcases mem_append.mp hi with hi | hi
    · exact hfar i hi
    · exact .inr (hclose i hi)

end Line

/-! ## Requests -/

/-- The messages with which a connection answers its own requests. -/
def Control.isReply : Control → Bool
  | error _ | pong _ | openFailed .. | posted .. | postFailed .. => true
  | _ => false

/-- What `on_text` has a connection do. -/
inductive Reaction (peerId : String) (gen request : Nat) : Effect → Prop
  | reply (hmsg : msg.isReply) : Reaction peerId gen request (reply peerId gen msg answers)
  | watch (hpeers : peerId ∉ peers) : Reaction peerId gen request (.call (.watch peerId gen peers))
  | «open» : Reaction peerId gen request
      (.call (.open peerId gen localId toPeer device request))
  | accept : Reaction peerId gen request (.call (.accept peerId gen localId))
  | reject : Reaction peerId gen request (.call (.reject peerId gen localId))
  | close : Reaction peerId gen request (.call (.close peerId gen localId "remote" sentFor))
  | deliver : Reaction peerId gen request
      (.call (.deliver ⟨peerId, gen, mailId, request⟩ toPeer row))

section

variable {peerId : String} {gen request now : Nat} {v : Json} {outcome : PostOutcome} {e : Effect}

theorem handleWatch_reaction : Reaction peerId gen request (handleWatch peerId gen v) := by
  rw [handleWatch]
  split
  next => exact .reply rfl
  next hpeers => exact .watch (not_mem_watchPeers hpeers)

theorem handleOpen_reaction : Reaction peerId gen request (handleOpen peerId gen request v) := by
  rw [handleOpen]
  split
  · exact .reply rfl
  split
  · exact .reply rfl
  split
  · exact .reply rfl
  · exact .open

theorem handlePost_reaction :
    Reaction peerId gen request (handlePost peerId gen request now outcome v) := by
  rw [handlePost]
  split
  · exact .reply rfl
  split
  · exact .reply rfl
  split
  · exact .reply rfl
  split
  · exact .reply rfl
  split
  · exact .reply rfl
  split
  · exact .reply rfl
  · exact .reply rfl
  · exact .deliver

def Reacts (peerId : String) (gen request : Nat) (todo : List Effect) : Prop :=
  todo = [] ∨ ∃ e, todo = [e] ∧ Reaction peerId gen request e

theorem Reaction.reacts (h : Reaction peerId gen request e) : Reacts peerId gen request [e] :=
  .inr ⟨e, rfl, h⟩

theorem Reacts.ite {c : Prop} [Decidable c] {todo todo' : List Effect}
    (h : Reacts peerId gen request todo) (h' : Reacts peerId gen request todo') :
    Reacts peerId gen request (if c then todo else todo') := by
  split
  · exact h
  · exact h'

theorem Reacts.tunnelId {f : UInt32 → List Effect} (hf : ∀ x, Reacts peerId gen request (f x))
    (hnone : Reacts peerId gen request todo) :
    Reacts peerId gen request (match tunnelId v with | none => todo | some tid => f tid) := by
  split
  · exact hnone
  · exact hf _

theorem onText_reacts {granted : Bool} {text : Option Json} {sentFor : Option Nat} :
    Reacts peerId gen request
      (onText peerId gen request now granted text outcome sentFor) := by
  have hinvalid : ∀ {code}, Reacts peerId gen request [reply peerId gen (.error code)] :=
    fun {code} => (Reaction.reply rfl).reacts
  cases text with
  | none => exact hinvalid
  | some v =>
    rw [onText]
    cases (v.field? "t").bind Json.asStr with
    | none => exact hinvalid
    | some t =>
      refine .ite hinvalid (.ite (Reaction.reply rfl).reacts (.ite hinvalid
        (.ite handleWatch_reaction.reacts (.ite handleOpen_reaction.reacts ?_))))
      refine .ite (.tunnelId (fun x => Reaction.accept.reacts) hinvalid)
        (.ite (.tunnelId (fun x => Reaction.reject.reacts) hinvalid)
          (.ite (.tunnelId (fun x => Reaction.close.reacts) (.inl rfl)) ?_))
      exact .ite handlePost_reaction.reacts (.ite (.inl rfl) hinvalid)

theorem reaction_of_mem_onText {granted : Bool} {text : Option Json} {sentFor : Option Nat}
    (h : e ∈ onText peerId gen request now granted text outcome sentFor) :
    Reaction peerId gen request e := by
  rcases onText_reacts with hnil | ⟨e', he, hreact⟩
  · rw [hnil] at h
    cases h
  · rw [he, mem_singleton] at h
    exact h ▸ hreact

end

/-! ## Steps -/

namespace Server

/-- What a connection reads, and what it has to do then. -/
inductive Request (s : Server) : Action → Nat → List Effect → List Ask → Prop
  | text : Request s (.text g granted v outcome sentFor) g
      (onText (s.lines g).peerId g s.ledger.asked.length s.now granted v outcome sentFor)
      (askOf g v).toList
  | binary (h : decodeFrame bytes = some (x, payload)) : Request s (.binary g bytes) g
      [.call (.forward (s.lines g).peerId g x payload)] []
  | noise (h : decodeFrame bytes = none) : Request s (.binary g bytes) g [] []
  | ping : Request s (.ping g) g [.put (.enqueue (s.lines g).peerId) g { msg := .pong }] []

/-- The task `k` is performed or gives up. -/
def Attempts (a : Action) (k : Nat) : Prop := a = .perform k ∨ a = .expire k

/-- The state after a call that left `s'`. -/
def afterCall (s s' : Server) (k : Nat) (o : Option Nat) (todo : List Effect) : Server :=
  { s' with tasks := Task.requeue s.tasks k o todo }

inductive Moved (s : Server) : Action → Server → Prop
  | connect {spec mails} : Moved s (.connect spec mails) (s.connect spec mails)
  | request {a g todo asked} (hr : s.reads g) (hq : s.Request a g todo asked) : Moved s a
      { s with
        tasks := Task.spawn s.tasks (some g) todo
        ledger := { s.ledger with asked := s.ledger.asked ++ asked } }
  | leave {g idle} (hr : s.reads g) : Moved s (.leave g idle) (s.leave g idle)
  | put {k o how g item rest l} (ht : s.tasks[k]? = some ⟨o, .put how g item :: rest⟩)
      (hl : (s.lines g).trySend item = some l) : Moved s (.perform k)
      { s with
        lines := update s.lines g l
        tasks := Task.advance s.tasks k (how.owner o) (how.sent item rest) }
  | putFails {a k o how g item rest} (ht : s.tasks[k]? = some ⟨o, .put how g item :: rest⟩)
      (hl : (s.lines g).trySend item = none) (ha : Attempts a k)
      (hw : ∀ k, a = .perform k → how.waits → (s.lines g).writer = .gone)
      (hx : ∀ k, a = .expire k → ∃ others any post, how = .deliver others any post) :
      Moved s a (s.putFails k o rest how g item)
  | frame {k o sender gen localId g f rest l}
      (ht : s.tasks[k]? = some ⟨o, .frame sender gen localId g f :: rest⟩)
      (hl : (s.lines g).sendFrame f = some l) : Moved s (.perform k)
      { s with
        lines := update s.lines g l
        tasks := Task.advance s.tasks k o rest }
  | frameFails {a k o sender gen localId g f rest}
      (ht : s.tasks[k]? = some ⟨o, .frame sender gen localId g f :: rest⟩)
      (hl : (s.lines g).sendFrame f = none) (ha : Attempts a k) :
      Moved s a (s.frameFails k o rest sender gen localId f)
  | sleep {k o ms rest} (ht : s.tasks[k]? = some ⟨o, .sleep ms :: rest⟩) : Moved s (.perform k)
      { s with tasks := Task.advance s.tasks k o (.wait (s.now + ms) :: rest) }
  | wait {k o due rest} (ht : s.tasks[k]? = some ⟨o, .wait due :: rest⟩) (hdue : due ≤ s.now) :
      Moved s (.perform k) { s with tasks := Task.advance s.tasks k o rest }
  | call {k o c rest} (ht : s.tasks[k]? = some ⟨o, .call c :: rest⟩) : Moved s (.perform k)
      (s.afterCall (s.enter c).1 k o ((s.enter c).2 ++ rest))
  | tick {ms} : Moved s (.tick ms) { s with now := s.now + ms }
  | write {g move l} (hw : (s.lines g).write move = some l) : Moved s (.write g move)
      { s with lines := update s.lines g l }

inductive Adds (s s' : Server) : Action → Effect → Prop
  | joins {spec mails push} (h : push ∈ (s.hub.register spec).2.2) :
      Adds s s' (.connect spec mails) (.put .push push.1 (s.ledger.item push.1 push.2))
  | ready {spec mails} : Adds s s' (.connect spec mails)
      (.put (.send spec.peerId) (s.hub.register spec).1.generation { msg := .text (.ready spec.peerId
        (s.hub.register spec).1.device (s.hub.register spec).1.otherDevices) })
  | mail {spec mails row} (h : row ∈ mails) : Adds s s' (.connect spec mails)
      (.put (.send spec.peerId) (s.hub.register spec).1.generation (MailRow.item row))
  | request {a g todo asked e} (hr : s.reads g) (hq : s.Request a g todo asked) (he : e ∈ todo) :
      Adds s s' a e
  | leave {g idle} (hr : s.reads g) :
      Adds s s' (.leave g idle) (.call (.unregister (s.lines g).peerId g))
  | sent {k o how g item rest e} (ht : s.tasks[k]? = some ⟨o, .put how g item :: rest⟩)
      (he : e ∈ how.sent item []) : Adds s s' (.perform k) e
  | failed {a k o how g item rest e} (ht : s.tasks[k]? = some ⟨o, .put how g item :: rest⟩)
      (ha : Attempts a k) (he : e ∈ how.failed g item []) : Adds s s' a e
  | close {a k o sender gen localId g f rest}
      (ht : s.tasks[k]? = some ⟨o, .frame sender gen localId g f :: rest⟩) (ha : Attempts a k) :
      Adds s s' a (.call (.close sender gen localId "overflow" none))
  | tell {a k o sender gen localId g f rest}
      (ht : s.tasks[k]? = some ⟨o, .frame sender gen localId g f :: rest⟩) (ha : Attempts a k) :
      Adds s s' a (.call (.tell gen
        { msg := .text (.closed localId "overflow"), tunnel := f.tunnel }))
  | wait {k due} : Adds s s' (.perform k) (.wait due)
  | call {k o c rest e} (ht : s.tasks[k]? = some ⟨o, .call c :: rest⟩)
      (hs : s' = s.afterCall (s.enter c).1 k o ((s.enter c).2 ++ rest)) (he : e ∈ (s.enter c).2) :
      Adds s s' (.perform k) e

variable {s s' : Server} {a : Action} {g k : Nat} {o : Option Nat} {e : Effect}
  {rest todo : List Effect} {how : How} {item : Item} {l : Line} {peerId : String} {msg : Control}

@[simp] theorem afterCall_hub : (s.afterCall s' k o todo).hub = s'.hub := rfl
@[simp] theorem afterCall_lines : (s.afterCall s' k o todo).lines = s'.lines := rfl
@[simp] theorem afterCall_now : (s.afterCall s' k o todo).now = s'.now := rfl
@[simp] theorem afterCall_ledger : (s.afterCall s' k o todo).ledger = s'.ledger := rfl

theorem next_eq_some (h : s.next k = some (o, e, rest)) : s.tasks[k]? = some ⟨o, e :: rest⟩ := by
  rw [next] at h
  split at h
  next heq => cases h; exact heq
  next => cases h

theorem performed_eq (ht : s.tasks[k]? = some ⟨o, e :: rest⟩) :
    s.performed (.perform k) = some e := by
  rw [performed, next, ht]
  rfl

theorem perform_moved (ht : s.tasks[k]? = some ⟨o, e :: rest⟩)
    (h : s.perform k o rest e = some s') : s.Moved (.perform k) s' := by
  cases e with
  | put how gen item =>
    simp only [perform] at h
    split at h
    next l hl => cases h; exact .put ht hl
    next hl =>
    split at h
    · cases h
    next hw =>
    cases h
    refine .putFails ht hl (.inl rfl) (fun _ _ hwaits => ?_) fun _ h => by cases h
    by_contra hgone
    exact hw (by rw [hwaits, Bool.true_and]; exact decide_eq_true hgone)
  | frame sender gen localId toGen f =>
    simp only [perform] at h
    split at h
    next l hl => cases h; exact .frame ht hl
    next hl =>
    split at h
    · cases h
    · cases h; exact .frameFails ht hl (.inl rfl)
  | sleep ms => cases h; exact .sleep ht
  | wait due =>
    simp only [perform] at h
    split at h
    next hdue => cases h; exact .wait ht hdue
    next => cases h
  | call c => cases h; exact .call ht

theorem expire_moved (ht : s.tasks[k]? = some ⟨o, e :: rest⟩)
    (h : s.expire k o rest e = some s') : s.Moved (.expire k) s' := by
  rw [expire.eq_def] at h
  split at h
  · split at h
    next hl =>
      cases h
      exact .putFails ht hl (.inr rfl) (fun _ h => by cases h) fun _ _ => ⟨_, _, _, rfl⟩
    next => cases h
  · split at h
    next hl => cases h; exact .frameFails ht hl (.inr rfl)
    next => cases h
  · cases h

theorem request_nothing (s : Server) (g : Nat) :
    { s with
      tasks := Task.spawn s.tasks (some g) []
      ledger := { s.ledger with asked := s.ledger.asked ++ [] } } = s := by
  rw [append_nil, Task.spawn, Task.ofTodo, append_nil]

theorem step_moved (h : s.step a = some s') : s.Moved a s' := by
  cases a with
  | connect spec mails => cases h; exact .connect
  | text gen granted v outcome sentFor =>
    simp only [step] at h
    split at h
    next hr => cases h; exact .request hr .text
    next => cases h
  | binary gen bytes =>
    simp only [step] at h
    split at h
    next hr =>
      split at h
      next hd =>
        cases h
        have := Moved.request hr (.noise (g := gen) hd)
        rwa [request_nothing] at this
      next hd =>
      cases h
      have := Moved.request hr (.binary (s := s) (g := gen) hd)
      rwa [append_nil] at this
    next => cases h
  | ping gen =>
    simp only [step] at h
    split at h
    next hr =>
      cases h
      have := Moved.request hr (.ping (s := s) (g := gen))
      rwa [append_nil] at this
    next => cases h
  | leave gen idle =>
    simp only [step] at h
    split at h
    next hr => cases h; exact .leave hr
    next => cases h
  | perform k =>
    obtain ⟨⟨o, e, rest⟩, hn, h⟩ := Option.bind_eq_some_iff.mp h
    exact perform_moved (next_eq_some hn) h
  | expire k =>
    obtain ⟨⟨o, e, rest⟩, hn, h⟩ := Option.bind_eq_some_iff.mp h
    exact expire_moved (next_eq_some hn) h
  | tick ms => cases h; exact .tick
  | write gen move =>
    obtain ⟨l, hl, h⟩ := Option.map_eq_some_iff.mp h
    cases h
    exact .write hl

/-! ## Calls -/

/-- What comes of a call. -/
inductive Entered (s : Server) : Call → Server → List Effect → Prop
  | watch {peerId gen peers} : Entered s (.watch peerId gen peers)
      { s with
        hub := (s.hub.setWatch peerId gen peers).2.1
        lines := update s.lines gen
          { s.lines gen with watchedAt := (s.lines gen).sent.length } }
      (s.ledger.pushes (s.hub.setWatch peerId gen peers).2.2 ++
        (s.hub.setWatch peerId gen peers).1.map (reply peerId gen ·))
  | openFails {sender gen localId toPeer toDevice request hub code} (h : s.hub.Unchanged hub) :
      Entered s (.open sender gen localId toPeer toDevice request) { s with hub }
        [reply sender gen (.openFailed localId code) (some request)]
  | opens {sender gen localId toPeer toDevice request hub target y msg} (label : Label)
      (h : s.hub.Opened hub sender gen localId toPeer target y msg)
      (hlabel : label = ⟨s.ledger.offeredTo.length, request, s.now⟩) :
      Entered s (.open sender gen localId toPeer toDevice request)
        { s with hub, ledger := s.ledger.enter ⟨gen, localId⟩ ⟨target, y⟩ label }
        [.put (.offer ⟨sender, gen, localId, label⟩) target
          { msg := .text msg, tunnel := some label.tunnel }]
  | failsNothing {opening code} (h : ¬ (s.hub.connMatches opening.sender opening.gen ∧
      (s.hub.tunnels.entry .pendingOut opening.gen opening.localId).isSome)) :
      Entered s (.failOpen opening code) s []
  | fails {opening code hub e} (hm : s.hub.connMatches opening.sender opening.gen)
      (h : s.hub.Removed hub .pendingOut opening.gen opening.localId e) :
      Entered s (.failOpen opening code) { s with hub, ledger := s.noteFail opening code }
        [.put .push opening.gen (s.ledger.item opening.gen (.openFailed opening.localId code)),
          .put .push e.remoteGen (s.ledger.item e.remoteGen (.closed e.remoteId "remote"))]
  | acceptFails {peerId gen localId} : Entered s (.accept peerId gen localId) s
      [reply peerId gen (.error "invalid")]
  | accepts {peerId gen localId e} (hm : s.hub.connMatches peerId gen)
      (h : s.hub.tunnels.entry .pendingIn gen localId = some e) :
      Entered s (.accept peerId gen localId)
        { s with hub := { s.hub with tunnels := (s.hub.tunnels.accept gen localId).2 } }
        [.put .push e.remoteGen (s.ledger.item e.remoteGen (.opened e.remoteId))]
  | rejectFails {peerId gen localId} : Entered s (.reject peerId gen localId) s
      [reply peerId gen (.error "invalid")]
  | rejects {peerId gen localId hub e} (hm : s.hub.connMatches peerId gen)
      (h : s.hub.Removed hub .pendingIn gen localId e) :
      Entered s (.reject peerId gen localId) { s with hub }
        [.put .push e.remoteGen (s.ledger.item e.remoteGen (.openFailed e.remoteId "rejected"))]
  | closesNothing {peerId gen localId code sentFor}
      (h : ¬ (s.hub.connMatches peerId gen ∧ ∃ k, s.hub.tunnels.entry k gen localId ≠ none)) :
      Entered s (.close peerId gen localId code sentFor) s []
  | closes {peerId gen localId code sentFor hub k e} (hm : s.hub.connMatches peerId gen)
      (h : s.hub.Removed hub k gen localId e) : Entered s (.close peerId gen localId code sentFor)
        { s with hub, ledger := s.noteClose peerId gen localId sentFor }
        [.put .push e.remoteGen (s.ledger.item e.remoteGen (.closed e.remoteId code))]
  | tells {gen item} (h : gen ∈ s.hub.conns) : Entered s (.tell gen item) s [.put .push gen item]
  | tellsNobody {gen item} : Entered s (.tell gen item) s []
  | forwards {peerId gen localId payload e} (hm : s.hub.connMatches peerId gen)
      (h : s.hub.tunnels.entry .established gen localId = some e) :
      Entered s (.forward peerId gen localId payload) s
        [.frame peerId gen localId e.remoteGen
          ⟨e.remoteId, payload, (s.labelOf gen localId).tunnel⟩]
  | forwardsNothing {peerId gen localId payload} :
      Entered s (.forward peerId gen localId payload) s []
  | delivers {post toPeer row} : Entered s (.deliver post toPeer row) s
      [deliverTo post row.item false (s.hub.controlTargets toPeer)]
  | unregisters {peerId gen} : Entered s (.unregister peerId gen)
      { s with hub := (s.hub.unregister peerId gen).1 }
      (s.ledger.pushes (s.hub.unregister peerId gen).2)

theorem noteFail_eq {opening : Opening} {code : String}
    (h : ¬ (s.hub.connMatches opening.sender opening.gen ∧
      (s.hub.tunnels.entry .pendingOut opening.gen opening.localId).isSome)) :
    s.noteFail opening code = s.ledger := by
  rw [noteFail, if_neg]
  simp only [Bool.and_eq_true, not_and]
  exact fun hc hp => h ⟨hc.2, hp⟩

theorem noteClose_eq {gen : Nat} {localId : UInt32} {sentFor : Option Nat}
    (h : ¬ (s.hub.connMatches peerId gen ∧ ∃ k, s.hub.tunnels.entry k gen localId ≠ none)) :
    s.noteClose peerId gen localId sentFor = s.ledger := by
  rw [noteClose, if_neg]
  rw [Bool.and_eq_true, ConnTunnels.used_iff]
  exact h

theorem entered (H : s.hub.Wf) (c : Call) : s.Entered c (s.enter c).1 (s.enter c).2 := by
  cases c with
  | watch peerId gen peers => exact .watch
  | «open» sender gen localId toPeer toDevice request =>
    rw [enter]
    rcases H.openTunnel_cases (p := sender) (g := gen) (x := localId) (q := toPeer) with
      ⟨code, herr, hsame⟩ | ⟨target, y, msg, hok, hopened⟩
    · rcases hopen : s.hub.openTunnel sender gen localId toPeer toDevice with ⟨_ | _, hub⟩
      · rw [hopen] at hsame
        exact .openFails hsame
      · rw [hopen] at herr
        cases herr
    rcases hopen : s.hub.openTunnel sender gen localId toPeer toDevice with ⟨_ | _, hub⟩
    · rw [hopen] at hok
      cases hok
    rw [hopen] at hok hopened
    cases hok
    have hentry : hub.tunnels.entry .pendingOut gen localId = some ⟨target, y⟩ :=
      hopened.entry.mpr (.inr (.inl ⟨rfl, rfl, rfl⟩))
    obtain ⟨device, name, rfl⟩ := hopened.incoming
    have hitem : ∀ l : Ledger, l.item target (.incoming y sender device name) =
        { msg := .text (.incoming y sender device name),
          tunnel := some (l.label ⟨target, y⟩).tunnel } := fun _ => rfl
    simp only [hentry, Option.getD_some, hitem, Ledger.enter, update_self]
    exact .opens _ hopened rfl
  | failOpen opening code =>
    rw [enter]
    rcases H.failOpen_cases (p := opening.sender) (g := opening.gen) (x := opening.localId) with
      ⟨hnone, heq⟩ | ⟨e, hm, hremoved, hpushes⟩
    · rw [heq, noteFail_eq hnone]
      exact .failsNothing hnone
    · simp only [hpushes]
      exact .fails hm hremoved
  | accept peerId gen localId =>
    rw [enter]
    rcases H.acceptTunnel_cases (p := peerId) (g := gen) (x := localId) with
      heq | ⟨e, hm, he, heq⟩
    · rw [heq]
      exact .acceptFails
    · rw [heq]
      exact .accepts hm he
  | reject peerId gen localId =>
    rw [enter]
    rcases H.rejectTunnel_cases (p := peerId) (g := gen) (x := localId) with
      heq | ⟨e, hm, hremoved, hok⟩
    · rw [heq]
      exact .rejectFails
    rcases hreject : s.hub.rejectTunnel peerId gen localId with ⟨_ | pushes, hub⟩
    · rw [hreject] at hok
      cases hok
    · rw [hreject] at hok hremoved
      cases hok
      exact .rejects hm hremoved
  | close peerId gen localId code sentFor =>
    rw [enter]
    rcases H.closeTunnel_cases (p := peerId) (g := gen) (x := localId) with
      ⟨hnone, heq⟩ | ⟨k, e, hm, hremoved, hpushes⟩
    · rw [heq, noteClose_eq hnone]
      exact .closesNothing hnone
    · simp only [hpushes]
      exact .closes hm hremoved
  | tell gen item =>
    rw [enter]
    split
    next hgen => exact .tells hgen
    next => exact .tellsNobody
  | forward peerId gen localId payload =>
    rw [enter]
    cases hf : s.hub.forwardBinary peerId gen localId with
    | none => exact .forwardsNothing
    | some e =>
      rw [Hub.forwardBinary] at hf
      split at hf
      next hm => exact .forwards hm (Option.filter_eq_some_iff.mp hf).1
      next => cases hf
  | deliver post toPeer row => exact .delivers
  | unregister peerId gen => exact .unregisters

@[elab_as_elim] theorem enter_cases {motive : Server → List Effect → Prop} (H : s.hub.Wf) (c : Call)
    (h : ∀ s₁ es, s.Entered c s₁ es → motive s₁ es) : motive (s.enter c).1 (s.enter c).2 :=
  h _ _ (entered H c)

theorem wf_enter (H : s.hub.Wf) (c : Call) : (s.enter c).1.hub.Wf := by
  cases c with
  | watch peerId gen peers => exact H.setWatch
  | «open» sender gen localId toPeer toDevice request =>
    have : (s.hub.openTunnel sender gen localId toPeer toDevice).2.Wf := H.openTunnel
    simp only [enter]
    split
    all_goals
      next heq => rwa [heq] at this
  | failOpen opening code => exact H.failOpen
  | accept peerId gen localId =>
    have := H.acceptTunnel (p := peerId) (g := gen) (x := localId)
    simp only [enter]
    split
    all_goals
      next heq => rwa [heq] at this
  | reject peerId gen localId =>
    have := H.rejectTunnel (p := peerId) (g := gen) (x := localId)
    simp only [enter]
    split
    all_goals
      next heq => rwa [heq] at this
  | close peerId gen localId code sentFor => exact H.closeTunnel
  | tell gen item | deliver post toPeer row => exact H
  | forward peerId gen localId payload =>
    simp only [enter]
    split <;> exact H
  | unregister peerId gen => exact H.unregister

theorem Moved.wf (hm : s.Moved a s') (H : s.hub.Wf) : s'.hub.Wf := by
  cases hm with
  | connect => exact H.register _
  | call => exact wf_enter H _
  | _ => exact H

/-! ## What there is to do -/

theorem mem_sent (h : e ∈ how.sent item rest) : e ∈ how.sent item [] ∨ e ∈ rest := by
  cases how with
  | offer opening => simpa [How.sent, or_assoc] using h
  | deliver others any post => simpa [How.sent] using h
  | _ => exact .inr h

theorem mem_failed (h : e ∈ how.failed g item rest) :
    e ∈ how.failed g item [] ∨ e ∈ rest := by
  cases how with
  | push => exact .inr h
  | offer opening => simpa [How.failed, or_assoc] using h
  | deliver others any post => simpa [How.failed] using h
  | _ => exact .inl h

theorem mem_rest {e' : Effect} (ht : s.tasks[k]? = some ⟨o, e :: rest⟩) (h : e' ∈ e :: rest) :
    e' ∈ Task.allTodo s.tasks :=
  Task.mem_allTodo.mpr ⟨_, Task.mem_of_getElem? ht, h⟩

theorem performed_task (h : s.performed a = some e) :
    ∃ k o rest, a = .perform k ∧ s.tasks[k]? = some ⟨o, e :: rest⟩ := by
  cases a with
  | perform k =>
    obtain ⟨⟨o, e', rest⟩, hn, rfl⟩ := Option.map_eq_some_iff.mp h
    exact ⟨k, o, rest, rfl, next_eq_some hn⟩
  | _ => cases h

theorem mem_performed (h : s.performed a = some e) : e ∈ Task.allTodo s.tasks := by
  obtain ⟨k, o, rest, -, ht⟩ := performed_task h
  exact mem_rest ht mem_cons_self

theorem Moved.mem_todo (hm : s.Moved a s') (he : e ∈ Task.allTodo s'.tasks) :
    e ∈ Task.allTodo s.tasks ∨ s.Adds s' a e := by
  cases hm with
  | connect =>
    simp only [Server.connect, spawn, Task.allTodo_spawn, mem_append, mem_map] at he
    rcases he with he | he | ⟨item, hitem, rfl⟩
    · exact .inl he
    · obtain ⟨push, hpush, rfl⟩ := mem_map.mp he
      exact .inr (.joins hpush)
    rcases mem_cons.mp hitem with rfl | hitem
    · exact .inr .ready
    · obtain ⟨row, hrow, rfl⟩ := mem_map.mp hitem
      exact .inr (.mail hrow)
  | request hr hq =>
    rw [Task.allTodo_spawn, mem_append] at he
    exact he.imp_right fun he => .request hr hq he
  | leave hr =>
    simp only [Server.leave, spawn, Task.allTodo_spawn, mem_append, mem_singleton] at he
    rcases he with he | rfl
    · exact .inl he
    · exact .inr (.leave hr)
  | put ht =>
    rcases Task.mem_allTodo_advance he with he | he
    · rcases mem_sent he with he | he
      · exact .inr (.sent ht he)
      · exact .inl (mem_rest ht (mem_cons_of_mem _ he))
    · exact .inl he
  | putFails ht hl ha =>
    rcases Task.mem_allTodo_advance he with he | he
    · rcases mem_failed he with he | he
      · exact .inr (.failed ht ha he)
      · exact .inl (mem_rest ht (mem_cons_of_mem _ he))
    · exact .inl he
  | frame ht | wait ht =>
    rcases Task.mem_allTodo_advance he with he | he
    · exact .inl (mem_rest ht (mem_cons_of_mem _ he))
    · exact .inl he
  | frameFails ht hl ha =>
    rcases Task.mem_allTodo_advance he with he | he
    · rcases mem_cons.mp he with rfl | he
      · exact .inr (.close ht ha)
      rcases mem_cons.mp he with rfl | he
      · exact .inr (.tell ht ha)
      · exact .inl (mem_rest ht (mem_cons_of_mem _ he))
    · exact .inl he
  | sleep ht =>
    rcases Task.mem_allTodo_advance he with he | he
    · rcases mem_cons.mp he with rfl | he
      · exact .inr .wait
      · exact .inl (mem_rest ht (mem_cons_of_mem _ he))
    · exact .inl he
  | call ht =>
    rcases Task.mem_allTodo_requeue he with he | he
    · rcases mem_append.mp he with he | he
      · exact .inr (.call ht rfl he)
      · exact .inl (mem_rest ht (mem_cons_of_mem _ he))
    · exact .inl he
  | tick | write => exact .inl he

/-! ### Which messages go which way -/

/-- The messages that the hub has for other connections. -/
def isPush : Control → Bool
  | .closed .. | .openFailed .. | .opened _ | .presence .. | .devices _ => true
  | _ => false

theorem isPush_notice (h : Hub.isNotice msg) : isPush msg := by
  cases msg <;> first | rfl | cases h

@[simp] theorem item_msg (ledger : Ledger) (g : Nat) (msg : Control) :
    (ledger.item g msg).msg = .text msg := by
  cases msg <;> rfl

/-- What may be put into a queue in which way, and what connections are told of late. -/
def Proper : Effect → Prop
  | .put .push _ item => ∃ msg, item.msg = .text msg ∧ isPush msg
  | .put (.offer opening) _ item => ∃ x sender device name,
    item = { msg := .text (.incoming x sender device name), tunnel := some opening.label.tunnel }
  | .put (.enqueue _) _ item => item.msg = .pong ∨ ∃ msg, item.msg = .text msg ∧
    (msg.isReply ∨ ∃ q devices, msg = .presence q true devices)
  | .put (.send _) _ item => (∃ p device devices, item = { msg := .text (.ready p device devices) }) ∨
    ∃ row : MailRow, item = row.item
  | .put (.deliver ..) _ item => ∃ row : MailRow, item = row.item
  | .call (.tell _ item) => ∃ x code n, item = { msg := .text (.closed x code), tunnel := some n }
  | _ => True

theorem proper_pushes {ledger : Ledger} {ps : List Push} (h : ∀ p ∈ ps, isPush p.2) :
    ∀ e ∈ ledger.pushes ps, Proper e := by
  intro e he
  obtain ⟨p, hp, rfl⟩ := mem_map.mp he
  exact ⟨p.2, item_msg _ _ _, h p hp⟩

theorem proper_reply {answers : Option Nat} (h : msg.isReply) :
    Proper (reply peerId g msg answers) := .inr ⟨msg, rfl, .inl h⟩

theorem proper_deliverTo {post : Posting} {any : Bool} {targets : List Nat} {row : MailRow} :
    Proper (deliverTo post row.item any targets) := by
  cases targets with
  | nil => exact .inr ⟨_, rfl, .inl rfl⟩
  | cons => exact ⟨row, rfl⟩

theorem isPush_detached {t t' : Tunnels} {gone : Option Nat} {pushes : List Push}
    (H : Hub.Detached t t' gone pushes) : ∀ p ∈ pushes, isPush p.2 := by
  intro p hp
  rcases H.pushes p hp with hn | ⟨g, k, x, b, y, -, -, rfl⟩
  · exact isPush_notice hn
  · rfl

theorem proper_entered {c : Call} {es : List Effect} (H : s.hub.Wf) (hp : Proper (.call c))
    (h : s.Entered c s' es) : ∀ e ∈ es, Proper e := by
  have hone : ∀ {e : Effect}, Proper e → ∀ e' ∈ [e], Proper e' := fun he e' he' =>
    mem_singleton.mp he' ▸ he
  have hpush : ∀ {g msg}, isPush msg → Proper (.put .push g (s.ledger.item g msg)) := fun h =>
    ⟨_, item_msg _ _ _, h⟩
  cases h with
  | watch =>
    intro e he
    rcases mem_append.mp he with he | he
    · exact proper_pushes (fun p hp => isPush_notice (Hub.setWatch_notice p hp)) e he
    · obtain ⟨msg, hmsg, rfl⟩ := mem_map.mp he
      obtain ⟨q, devices, rfl⟩ := Hub.setWatch_snapshot msg hmsg
      exact .inr ⟨_, rfl, .inr ⟨q, devices, rfl⟩⟩
  | openFails | acceptFails | rejectFails => exact hone (proper_reply rfl)
  | opens label h hlabel =>
    obtain ⟨device, name, rfl⟩ := h.incoming
    exact hone ⟨_, _, _, _, rfl⟩
  | fails => exact forall_mem_cons.mpr ⟨hpush rfl, hone (hpush rfl)⟩
  | accepts | rejects | closes => exact hone (hpush rfl)
  | tells h =>
    obtain ⟨x, code, n, rfl⟩ := hp
    exact hone ⟨_, rfl, rfl⟩
  | forwards => exact hone trivial
  | delivers => exact hone proper_deliverTo
  | unregisters => exact proper_pushes (isPush_detached H.detached_unregister)
  | failsNothing | closesNothing | tellsNobody | forwardsNothing =>
    exact fun e he => absurd he not_mem_nil

theorem Adds.proper (hadd : s.Adds s' a e) (H : s.hub.Wf)
    (hp : ∀ e ∈ Task.allTodo s.tasks, Proper e) : Proper e := by
  have hhead : ∀ {k : Nat} {o e rest}, s.tasks[k]? = some ⟨o, e :: rest⟩ → Proper e :=
    fun ht => hp _ (mem_rest ht mem_cons_self)
  cases hadd with
  | joins h =>
    exact proper_pushes (isPush_detached (H.detached_register _)) _ (mem_map_of_mem h)
  | ready => exact .inl ⟨_, _, _, rfl⟩
  | mail => exact .inr ⟨_, rfl⟩
  | request hr hq he =>
    cases hq with
    | text =>
      have hreact := reaction_of_mem_onText he
      cases hreact with
      | reply hmsg => exact proper_reply hmsg
      | _ => trivial
    | binary => rw [mem_singleton.mp he]; trivial
    | noise => cases he
    | ping => rw [mem_singleton.mp he]; exact .inl rfl
  | leave | close | wait => trivial
  | @sent k o how g item rest e ht he =>
    have := hhead ht
    cases how with
    | offer opening =>
      rcases mem_cons.mp he with rfl | he
      · trivial
      · rw [mem_singleton.mp he]
        trivial
    | deliver others any post =>
      obtain ⟨row, rfl⟩ := this
      rw [mem_singleton.mp he]
      exact proper_deliverTo
    | _ => cases he
  | @failed a k o how g item rest e ht ha he =>
    have := hhead ht
    cases how with
    | push => cases he
    | offer opening =>
      rcases mem_cons.mp he with rfl | he
      · trivial
      · rw [mem_singleton.mp he]
        exact .inr ⟨_, rfl, .inl rfl⟩
    | deliver others any post =>
      obtain ⟨row, rfl⟩ := this
      rw [mem_singleton.mp he]
      exact proper_deliverTo
    | enqueue | send =>
      rw [mem_singleton.mp he]
      trivial
  | tell => exact ⟨_, _, _, rfl⟩
  | call ht hs he => exact proper_entered H (hhead ht) (entered H _) e he

/-- The hub is well formed and everything there is to do is proper. -/
structure Sane (s : Server) : Prop where
  wf : s.hub.Wf
  proper : ∀ e ∈ Task.allTodo s.tasks, Proper e

theorem Sane.start : ({} : Server).Sane := ⟨Hub.wf_empty, fun e he => by cases he⟩

theorem Sane.moved (H : s.Sane) (hm : s.Moved a s') : s'.Sane := by
  refine ⟨hm.wf H.wf, fun e he => ?_⟩
  rcases hm.mem_todo he with he | hadd
  · exact H.proper e he
  · exact hadd.proper H.wf H.proper

/-! ## Actions of runs on fixed inputs -/

/-- Two peers, for the runs on fixed inputs. -/
def peerA : String := "bt2_aaaaaaaaaaaaaaaaaaaaaaaaaaaaaaaaaaaaaaaaaaaaaaaaaaaaaaaaaaaaaaaa"
def peerB : String := "bt2_bbbbbbbbbbbbbbbbbbbbbbbbbbbbbbbbbbbbbbbbbbbbbbbbbbbbbbbbbbbbbbbb"

/-- Connections 1 of `peerA` and 2 of `peerB`, ready. -/
def meet : List Action :=
  [.connect ⟨peerA, "legacy", "", ""⟩ [], .connect ⟨peerB, "legacy", "", ""⟩ [], .perform 0,
    .perform 0]

def request (t : String) (fields : List (String × Json)) (gen : Nat) : Action :=
  .text gen true (some (.obj (("t", .str t) :: fields))) .stored none

end Server

end Bluetalk.Relay

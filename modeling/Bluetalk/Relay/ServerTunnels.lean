import Bluetalk.Relay.ServerSteps

/-!
# Tunnels in the course of a run

Where an entry of the tunnel table comes from (`Moved.source`), which messages about tunnels a step
leaves to be sent (`Adds.tells`), where frames come from (`Adds.carries`), and what is known of the
numbers that the ledger gives to tunnels (`Numbered`).
-/

open List Option Function

namespace Bluetalk.Relay

/-- The effects by which a frame goes on, or fails to. -/
def Effect.carries : Effect → Bool
  | .frame .. | .call (.tell ..) => true
  | _ => false

namespace Server

/-- What stands under an end of a tunnel. -/
def entry (s : Server) (k : Kind) (a : Endpoint) : Option Endpoint :=
  s.hub.tunnels.entry k a.remoteGen a.remoteId

/-- `a` and `b` are the ends of a tunnel, pending or not. -/
def Pair (s : Server) (a b : Endpoint) : Prop := ∃ k, s.entry k a = some b

/-- An open is entered: its tunnel is the next one, between two free ends, and is to be offered. -/
structure Begins (s s' : Server) (act : Action) (opening : Opening) (callee : Endpoint) : Prop where
  performed : ∃ q dev, s.performed act = some (.call
    (.open opening.sender opening.gen opening.localId q dev opening.label.request))
  label : opening.label = ⟨s.ledger.offeredTo.length, opening.label.request, s.now⟩
  free : ∀ k, s.entry k ⟨opening.gen, opening.localId⟩ = none
  callee_free : ∀ k, s.entry k callee = none
  ne : callee.remoteGen ≠ opening.gen
  ledger : s'.ledger = s.ledger.enter ⟨opening.gen, opening.localId⟩ callee opening.label
  entry : s'.entry .pendingOut ⟨opening.gen, opening.localId⟩ = some callee
  offer : ∃ device name, .put (.offer opening) callee.remoteGen
    { msg := .text (.incoming callee.remoteId opening.sender device name),
      tunnel := some opening.label.tunnel } ∈ Task.allTodo s'.tasks

/-- Where an entry of the table comes from. -/
inductive Source (s s' : Server) (act : Action) : Kind → Endpoint → Endpoint → Prop
  | kept {k a b} (he : s.entry k a = some b) (hl : s'.ledger.label a = s.ledger.label a) :
      Source s s' act k a b
  | accepted {a b p} (hp : s.performed act = some (.call (.accept p a.remoteGen a.remoteId)))
      (hm : s.hub.connMatches p a.remoteGen) (he : s.entry .pendingIn a = some b)
      (hl : s'.ledger.label a = s.ledger.label a) :
      Source s s' act .established a b
  | accepting {a b p o rest}
      (hp : s.performed act = some (.call (.accept p b.remoteGen b.remoteId)))
      (hm : s.hub.connMatches p b.remoteGen)
      (ht : ⟨o, .call (.accept p b.remoteGen b.remoteId) :: rest⟩ ∈ s.tasks)
      (ht' : ⟨o, .put .push a.remoteGen (s.ledger.item a.remoteGen (.opened a.remoteId)) :: rest⟩ ∈
        s'.tasks)
      (he : s.entry .pendingOut a = some b) (hl : s'.ledger.label a = s.ledger.label a) :
      Source s s' act .established a b
  | opener {opening callee} (h : Begins s s' act opening callee) :
      Source s s' act .pendingOut ⟨opening.gen, opening.localId⟩ callee
  | callee {opening callee} (h : Begins s s' act opening callee) :
      Source s s' act .pendingIn callee ⟨opening.gen, opening.localId⟩

/-- The connection that an action takes out of the hub. -/
def leaves (s : Server) (act : Action) : Option Nat :=
  match act with
  | .connect spec _ => s.hub.displaced spec.peerId spec.device
  | _ =>
    match s.performed act with
    | some (.call (.unregister peerId gen)) => if s.hub.connMatches peerId gen then some gen else none
    | _ => none

/-- The messages about tunnels that an action leaves to be sent: who is told, and what the table
held before. -/
inductive Tells (s s' : Server) (act : Action) : How → Nat → Item → Prop
  | incoming {opening callee device name} (h : Begins s s' act opening callee) :
      Tells s s' act (.offer opening) callee.remoteGen
        { msg := .text (.incoming callee.remoteId opening.sender device name),
          tunnel := some opening.label.tunnel }
  | opened {p a b} (hp : s.performed act = some (.call (.accept p a.remoteGen a.remoteId)))
      (hm : s.hub.connMatches p a.remoteGen) (he : s.entry .pendingIn a = some b)
      (he' : s'.entry .established b = some a) :
      Tells s s' act .push b.remoteGen (s.ledger.item b.remoteGen (.opened b.remoteId))
  | rejected {p a b} (hp : s.performed act = some (.call (.reject p a.remoteGen a.remoteId)))
      (hm : s.hub.connMatches p a.remoteGen) (he : s.entry .pendingIn a = some b) :
      Tells s s' act .push b.remoteGen
        (s.ledger.item b.remoteGen (.openFailed b.remoteId "rejected"))
  | failed {opening code b} (hp : s.performed act = some (.call (.failOpen opening code)))
      (hm : s.hub.connMatches opening.sender opening.gen)
      (he : s.entry .pendingOut ⟨opening.gen, opening.localId⟩ = some b) :
      Tells s s' act .push opening.gen
        (s.ledger.item opening.gen (.openFailed opening.localId code))
  | withdrawn {opening code b} (hp : s.performed act = some (.call (.failOpen opening code)))
      (hm : s.hub.connMatches opening.sender opening.gen)
      (he : s.entry .pendingOut ⟨opening.gen, opening.localId⟩ = some b) :
      Tells s s' act .push b.remoteGen (s.ledger.item b.remoteGen (.closed b.remoteId "remote"))
  | closed {p a b k code sentFor}
      (hp : s.performed act = some (.call (.close p a.remoteGen a.remoteId code sentFor)))
      (hm : s.hub.connMatches p a.remoteGen) (he : s.entry k a = some b) :
      Tells s s' act .push b.remoteGen (s.ledger.item b.remoteGen (.closed b.remoteId code))
  | left {a b k} (hl : s.leaves act = some a.remoteGen) (he : s.entry k a = some b) :
      Tells s s' act .push b.remoteGen
        (s.ledger.item b.remoteGen (.closed b.remoteId "disconnect"))
  | told {g item} (hp : s.performed act = some (.call (.tell g item))) :
      Tells s s' act .push g item

/-- Where frames on their way come from, and whom they leave to be told when they are not taken. -/
inductive Carries (s : Server) (act : Action) : Effect → Prop
  | forward {p g x payload e} (hp : s.performed act = some (.call (.forward p g x payload)))
      (he : s.entry .established ⟨g, x⟩ = some e) : Carries s act
      (.frame p g x e.remoteGen ⟨e.remoteId, payload, (s.ledger.label ⟨g, x⟩).tunnel⟩)
  | tell {p g x toGen f} (h : .frame p g x toGen f ∈ Task.allTodo s.tasks) : Carries s act
      (.call (.tell g { msg := .text (.closed x "overflow"), tunnel := some f.tunnel }))

variable {s s' : Server} {act : Action} {g k : Nat} {o : Option Nat} {kind : Kind}
  {a b c : Endpoint} {call : Call} {e : Effect} {rest es : List Effect} {opening : Opening} {n : Nat}
  {hub : Hub} {x : UInt32} {msg : Control} {how : How} {item : Item}

theorem Source.of_same (ht : ∀ k a, s'.entry k a = s.entry k a) (hl : s'.ledger.label = s.ledger.label)
    (he : s'.entry kind a = some b) : Source s s' act kind a b :=
  .kept (ht kind a ▸ he) (by rw [hl])

theorem Source.of_removed {k : Kind} {e : Endpoint} (H : s.hub.Wf)
    (hub' : s'.hub = hub) (h : s.hub.Removed hub k g x e) (hl : s'.ledger.label = s.ledger.label)
    (he : s'.entry kind a = some b) : Source s s' act kind a b := by
  obtain ⟨hold, rfl⟩ := h
  rw [entry, hub'] at he
  exact .kept ((H.tunnels.entry_without hold).mp he).1 (by rw [hl])

theorem noteFail_label {code : String} :
    (s.noteFail opening code).label = s.ledger.label ∧
      (s.noteFail opening code).offeredTo = s.ledger.offeredTo := by
  rw [noteFail]
  split <;> exact ⟨rfl, rfl⟩

theorem noteClose_label {p : String} {sentFor : Option Nat} :
    (s.noteClose p g x sentFor).label = s.ledger.label ∧
      (s.noteClose p g x sentFor).offeredTo = s.ledger.offeredTo := by
  rw [noteClose]
  split <;> exact ⟨rfl, rfl⟩

theorem entry_unchanged (h : s.hub.Unchanged hub) (hub' : s'.hub = hub) (k : Kind)
    (a : Endpoint) : s'.entry k a = s.entry k a := by
  obtain ⟨t, rfl, ht⟩ := h
  rw [entry, hub']
  exact ht k _ _

theorem begins_of_opened {sender toPeer : String} {gen target request : Nat} {localId y : UInt32}
    {dev : Option String} {label : Label}
    (ht : s.tasks[k]? = some ⟨o, .call (.open sender gen localId toPeer dev request) :: rest⟩)
    (h : s.hub.Opened hub sender gen localId toPeer target y msg)
    (hlabel : label = ⟨s.ledger.offeredTo.length, request, s.now⟩) :
    Begins s (s.afterCall
        { s with hub, ledger := s.ledger.enter ⟨gen, localId⟩ ⟨target, y⟩ label } k o
        ([.put (.offer ⟨sender, gen, localId, label⟩) target
          { msg := .text msg, tunnel := some label.tunnel }] ++ rest))
      (.perform k) ⟨sender, gen, localId, label⟩ ⟨target, y⟩ := by
  obtain ⟨device, name, rfl⟩ := h.incoming
  constructor
  case performed => exact ⟨toPeer, dev, by rw [performed_eq ht, hlabel]⟩
  case label => rw [hlabel]
  case free => exact h.free
  case callee_free => exact h.target_free
  case ne => exact h.ne
  case ledger => rfl
  case entry => exact h.entry.mpr (.inr (.inl ⟨rfl, rfl, rfl⟩))
  case offer =>
    exact ⟨device, name, Task.mem_allTodo.mpr ⟨_, mem_append_right _
      (Task.mem_ofTodo.mpr ⟨cons_ne_nil _ _, rfl⟩), mem_cons_self⟩⟩

theorem Moved.source_call (H : s.hub.Wf) (ht : s.tasks[k]? = some ⟨o, .call call :: rest⟩)
    (hentered : s.Entered call s' es) :
    (s.afterCall s' k o (es ++ rest)).entry kind a = some b →
      Source s (s.afterCall s' k o (es ++ rest)) (.perform k) kind a b := by
  intro he
  set s'' := s.afterCall s' k o (es ++ rest) with hs''
  have hperformed : s.performed (.perform k) = some (.call call) := performed_eq ht
  have hgone : ∀ {t' gone pushes}, Hub.Detached s.hub.tunnels t' gone pushes →
      s''.hub.tunnels = t' → s''.ledger = s.ledger → Source s s'' (.perform k) kind a b := by
    intro t' gone pushes hd hhub hledger
    rw [entry, hhub] at he
    exact .kept (hd.entry.mp he).1 (by rw [hledger])
  cases hentered with
  | watch =>
    have hsame : ∀ k a, s''.entry k a = s.entry k a := by
      intro k a
      simp only [entry, hs'', afterCall]
      rw [Hub.setWatch]
      split
      · rfl
      · split <;> rfl
    exact .of_same hsame rfl he
  | openFails h => exact .of_same (entry_unchanged h rfl) rfl he
  | @opens sender gen localId toPeer toDevice request hub target y msg label h hlabel =>
    have hbegins := begins_of_opened ht h hlabel
    rcases h.entry.mp he with hold | ⟨rfl, ha, rfl⟩ | ⟨rfl, ha, rfl⟩
    · refine .kept hold ?_
      have hne : ∀ {c}, (∀ k, s.entry k c = none) → a ≠ c := by
        rintro c hc rfl
        have := hc kind
        rw [entry, hold] at this
        cases this
      simp only [hs'', afterCall, Ledger.enter]
      rw [update_of_ne (hne (c := ⟨target, y⟩) h.target_free),
        update_of_ne (hne (c := ⟨gen, localId⟩) h.free)]
    · obtain rfl : a = ⟨gen, localId⟩ := ha
      exact .opener hbegins
    · obtain rfl : a = ⟨target, y⟩ := ha
      exact .callee hbegins
  | failsNothing | acceptFails | rejectFails | closesNothing
  | tells | tellsNobody | forwards | forwardsNothing | delivers =>
    exact .of_same (fun _ _ => rfl) rfl he
  | fails hm h => exact .of_removed H rfl h noteFail_label.1 he
  | @accepts peerId gen localId e hm h =>
    rcases (H.tunnels.entry_accept h).mp he with ⟨hold, -⟩ | ⟨rfl, ⟨ha, rfl⟩ | ⟨ha, rfl⟩⟩
    · exact .kept hold rfl
    · obtain rfl : a = ⟨gen, localId⟩ := ha
      exact .accepted hperformed hm h rfl
    · obtain rfl : a = e := ha
      exact .accepting hperformed hm (Task.mem_of_getElem? ht) (mem_append_right _
        (Task.mem_ofTodo.mpr ⟨cons_ne_nil _ _, rfl⟩)) (H.tunnels.symm h) rfl
  | rejects hm h => exact .of_removed H rfl h rfl he
  | closes hm h => exact .of_removed H rfl h noteClose_label.1 he
  | unregisters => exact hgone H.detached_unregister rfl rfl

theorem Moved.source (hm : s.Moved act s') (H : s.hub.Wf) (he : s'.entry kind a = some b) :
    Source s s' act kind a b := by
  cases hm with
  | connect => exact .kept ((H.detached_register _).entry.mp he).1 rfl
  | call ht => exact source_call H ht (entered H _) he
  | _ => exact .of_same (fun _ _ => rfl) rfl he

theorem Begins.label_ends (h : Begins s s' act opening c) :
    s'.ledger.label ⟨opening.gen, opening.localId⟩ = opening.label ∧
      s'.ledger.label c = opening.label := by
  have hne : (⟨opening.gen, opening.localId⟩ : Endpoint) ≠ c := fun hc => h.ne (hc ▸ rfl)
  rw [h.ledger]
  exact ⟨(update_of_ne hne _ _).trans (update_self _ _ _),
    update_self _ _ _⟩

theorem Begins.number (h : Begins s s' act opening c) :
    opening.label.tunnel = s.ledger.offeredTo.length := by
  rw [h.label]

theorem Begins.offeredTo (h : Begins s s' act opening c) :
    s'.ledger.offeredTo = s.ledger.offeredTo ++ [c.remoteGen] := by
  rw [h.ledger]
  rfl

theorem Source.pair (h : Source s s' act kind a b) :
    (s.Pair a b ∧ s'.ledger.label a = s.ledger.label a) ∨
      ∃ opening callee, Begins s s' act opening callee ∧
        ((a = ⟨opening.gen, opening.localId⟩ ∧ b = callee) ∨
          (a = callee ∧ b = ⟨opening.gen, opening.localId⟩)) := by
  cases h with
  | kept he hl | accepted hp hm he hl | accepting hp hm ht ht' he hl => exact .inl ⟨⟨_, he⟩, hl⟩
  | opener h => exact .inr ⟨_, _, h, .inl ⟨rfl, rfl⟩⟩
  | callee h => exact .inr ⟨_, _, h, .inr ⟨rfl, rfl⟩⟩

theorem Pair.symm (H : s.hub.Wf) (h : s.Pair a b) : s.Pair b a := by
  obtain ⟨k, hk⟩ := h
  exact ⟨k.mirror, H.tunnels.symm hk⟩

theorem Pair.unique (H : s.hub.Wf) (h : s.Pair a b) (h' : s.Pair a c) : b = c := by
  obtain ⟨k, hk⟩ := h
  obtain ⟨k', hk'⟩ := h'
  obtain rfl := H.tunnels.single hk hk'
  exact some.inj (hk.symm.trans hk')

/-! ## Messages about tunnels -/

theorem item_notice {ledger : Ledger} (h : Hub.isNotice msg) :
    (ledger.item g msg).tunnel = none := by
  cases msg <;> first | rfl | cases h

theorem tells_detached {t' : Tunnels} {gone : Option Nat} {pushes : List Push} (H : Hub.Detached s.hub.tunnels t' gone pushes) (hl : s.leaves act = gone)
    (h : .put how g item ∈ s.ledger.pushes pushes) :
    item.tunnel = none ∨ Tells s s' act how g item := by
  obtain ⟨push, hpush, heq⟩ := mem_map.mp h
  cases heq
  rcases H.pushes push hpush with hn | ⟨g, k, x, b, y, rfl, he, rfl⟩
  · exact .inl (item_notice hn)
  · exact .inr (.left (a := ⟨g, x⟩) (b := ⟨b, y⟩) hl he)

theorem tells_entered (H : s.hub.Wf) (ht : s.tasks[k]? = some ⟨o, .call call :: rest⟩) (hentered : s.Entered call s' es) (h : .put how g item ∈ es) :
    item.tunnel = none ∨
      Tells s (s.afterCall s' k o (es ++ rest)) (.perform k) how g item := by
  have hp : s.performed (.perform k) = some (.call call) := performed_eq ht
  have hone : ∀ {how' g' item'}, Effect.put how g item ∈ [Effect.put how' g' item'] →
      how = how' ∧ g = g' ∧ item = item' := by
    intro how' g' item' hmem
    cases mem_singleton.mp hmem
    exact ⟨rfl, rfl, rfl⟩
  cases hentered with
  | watch =>
    rcases mem_append.mp h with h | h
    · obtain ⟨push, hpush, heq⟩ := mem_map.mp h
      cases heq
      exact .inl (item_notice (Hub.setWatch_notice push hpush))
    · obtain ⟨msg, -, heq⟩ := mem_map.mp h
      cases heq
      exact .inl rfl
  | openFails | acceptFails | rejectFails =>
    obtain ⟨-, -, rfl⟩ := hone h
    exact .inl rfl
  | opens label hopened hlabel =>
    obtain ⟨rfl, rfl, rfl⟩ := hone h
    obtain ⟨device, name, rfl⟩ := hopened.incoming
    exact .inr (.incoming (begins_of_opened ht hopened hlabel))
  | fails hm he =>
    rcases mem_cons.mp h with h | h
    · cases h
      exact .inr (.failed hp hm he.1)
    · obtain ⟨rfl, rfl, rfl⟩ := hone h
      exact .inr (.withdrawn hp hm he.1)
  | @accepts p gen localId e hm he =>
    obtain ⟨rfl, rfl, rfl⟩ := hone h
    exact .inr (.opened (a := ⟨gen, localId⟩) hp hm he
      ((H.tunnels.entry_accept he).mpr (.inr ⟨rfl, .inr ⟨rfl, rfl⟩⟩)))
  | @rejects p gen localId hub e hm he =>
    obtain ⟨rfl, rfl, rfl⟩ := hone h
    exact .inr (.rejected (a := ⟨gen, localId⟩) hp hm he.1)
  | @closes p gen localId code sentFor hub k e hm he =>
    obtain ⟨rfl, rfl, rfl⟩ := hone h
    exact .inr (.closed (a := ⟨gen, localId⟩) hp hm he.1)
  | tells =>
    obtain ⟨rfl, rfl, rfl⟩ := hone h
    exact .inr (.told hp)
  | forwards => cases mem_singleton.mp h
  | @delivers post toPeer row =>
    rw [mem_singleton] at h
    revert h
    cases s.hub.controlTargets toPeer with
    | nil | cons => exact fun h => .inl (by cases h; rfl)
  | unregisters =>
    refine tells_detached H.detached_unregister ?_ h
    simp only [leaves, hp]
  | failsNothing | closesNothing | tellsNobody | forwardsNothing => cases h

theorem Adds.tells (hadd : s.Adds s' act (.put how g item)) (H : s.Sane) :
    item.tunnel = none ∨ Tells s s' act how g item := by
  have hdeliver : ∀ {post row any targets},
      Effect.put how g item ∈ [deliverTo post (MailRow.item row) any targets] →
      item.tunnel = none := by
    intro post row any targets hmem
    rw [mem_singleton] at hmem
    revert hmem
    cases targets <;> exact fun h => by cases h; rfl
  cases hadd with
  | @joins spec mails push h =>
    exact tells_detached (H.wf.detached_register spec) rfl
      (mem_map_of_mem h)
  | ready | mail => exact .inl rfl
  | request hr hq he =>
    cases hq with
    | text =>
      have hreact := reaction_of_mem_onText he
      cases hreact
      exact .inl rfl
    | binary => cases mem_singleton.mp he
    | noise => cases he
    | ping =>
      cases mem_singleton.mp he
      exact .inl rfl
  | @sent k o how' g' item' rest e ht he =>
    have hproper := H.proper _ (mem_rest ht mem_cons_self)
    cases how' with
    | offer opening => simp [How.sent] at he
    | deliver others any post =>
      obtain ⟨row, rfl⟩ := hproper
      exact .inl (hdeliver he)
    | _ => cases he
  | @failed a k o how' g' item' rest e ht ha he =>
    have hproper := H.proper _ (mem_rest ht mem_cons_self)
    cases how' with
    | push => cases he
    | offer opening =>
      simp only [How.failed, mem_cons, reduceCtorEq, false_or, not_mem_nil, or_false] at he
      cases he
      exact .inl rfl
    | deliver others any post =>
      obtain ⟨row, rfl⟩ := hproper
      exact .inl (hdeliver he)
    | enqueue | send => cases mem_singleton.mp he
  | call ht hs he =>
    rw [hs]
    exact tells_entered H.wf ht (entered H.wf _) he

theorem Moved.tells (hm : s.Moved act s') (H : s.Sane)
    (h : .put how g item ∈ Task.allTodo s'.tasks) (hn : item.tunnel ≠ none) :
    .put how g item ∈ Task.allTodo s.tasks ∨ Tells s s' act how g item :=
  (hm.mem_todo h).imp_right fun hadd => (hadd.tells H).resolve_left hn

theorem Moved.offer (hm : s.Moved act s') (H : s.Sane)
    (h : .put (.offer opening) g item ∈ Task.allTodo s'.tasks) :
    .put (.offer opening) g item ∈ Task.allTodo s.tasks ∨
      ∃ callee device name, Begins s s' act opening callee ∧ g = callee.remoteGen ∧ item =
        { msg := .text (.incoming callee.remoteId opening.sender device name),
          tunnel := some opening.label.tunnel } := by
  obtain ⟨x, sender, device, name, hitem⟩ := (H.moved hm).proper _ h
  have hn : item.tunnel ≠ none := by
    rw [hitem]
    exact some_ne_none _
  rcases hm.tells H h hn with hold | htells
  · exact .inl hold
  · cases htells with
    | incoming hb => exact .inr ⟨_, _, _, hb, rfl, rfl⟩

/-! ## Frames -/

theorem Adds.carries (hadd : s.Adds s' act e) (H : s.hub.Wf) (he : e.carries) :
    s.Carries act e := by
  have hdeliver : ∀ {post item any targets}, e ∈ [deliverTo post item any targets] →
      s.Carries act e := by
    intro post item any targets hmem
    rw [mem_singleton.mp hmem] at he
    revert he
    cases targets <;> exact fun h => by cases h
  have hpushes : ∀ {ps}, e ∈ s.ledger.pushes ps → s.Carries act e := by
    intro ps hmem
    obtain ⟨p, -, rfl⟩ := mem_map.mp hmem
    cases he
  cases hadd with
  | joins | ready | mail | leave | close | wait => cases he
  | request hr hq hmem =>
    cases hq with
    | text =>
      have hreact := reaction_of_mem_onText hmem
      cases hreact <;> cases he
    | noise => cases hmem
    | binary | ping =>
      rw [mem_singleton.mp hmem] at he
      cases he
  | @sent k o how g item rest e ht hmem =>
    cases how with
    | offer opening =>
      simp only [How.sent, mem_cons, not_mem_nil, or_false] at hmem
      rcases hmem with rfl | rfl <;> cases he
    | deliver others any post => exact hdeliver hmem
    | _ => cases hmem
  | @failed a k o how g item rest e ht ha hmem =>
    cases how with
    | push => cases hmem
    | offer opening =>
      simp only [How.failed, mem_cons, not_mem_nil, or_false] at hmem
      rcases hmem with rfl | rfl <;> cases he
    | deliver others any post => exact hdeliver hmem
    | enqueue | send =>
      rw [mem_singleton.mp hmem] at he
      cases he
  | tell ht ha => exact .tell (mem_rest ht mem_cons_self)
  | @call k o c rest e ht hs hmem =>
    revert hmem
    refine enter_cases H c fun _ _ hentered hmem => ?_
    cases hentered with
    | watch =>
      rcases mem_append.mp hmem with hmem | hmem
      · exact hpushes hmem
      · obtain ⟨msg, -, rfl⟩ := mem_map.mp hmem
        cases he
    | fails =>
      simp only [mem_cons, not_mem_nil, or_false] at hmem
      rcases hmem with rfl | rfl <;> cases he
    | forwards hm he' =>
      cases mem_singleton.mp hmem
      exact .forward (performed_eq ht) he'
    | delivers => exact hdeliver hmem
    | unregisters => exact hpushes hmem
    | failsNothing | closesNothing | tellsNobody | forwardsNothing => cases hmem
    | _ =>
      rw [mem_singleton.mp hmem] at he
      cases he

theorem Moved.carries (hm : s.Moved act s') (H : s.hub.Wf) (h : e ∈ Task.allTodo s'.tasks)
    (he : e.carries) : e ∈ Task.allTodo s.tasks ∨ s.Carries act e :=
  (hm.mem_todo h).imp_right fun hadd => hadd.carries H he

/-! ## The numbers of the tunnels -/

theorem Moved.ledger (hm : s.Moved act s') (H : s.hub.Wf) :
    (s'.ledger.offeredTo = s.ledger.offeredTo ∧ s'.ledger.label = s.ledger.label) ∨
      ∃ opening callee, Begins s s' act opening callee := by
  cases hm with
  | @call k o c rest ht =>
    have hentered := entered H c
    revert hentered
    generalize hs₁ : (s.enter c).1 = s₁
    generalize hes : (s.enter c).2 = es
    intro hentered
    cases hentered with
    | opens label h hlabel => exact .inr ⟨_, _, begins_of_opened ht h hlabel⟩
    | fails => exact .inl noteFail_label.symm
    | closes => exact .inl noteClose_label.symm
    | _ => exact .inl ⟨rfl, rfl⟩
  | _ => exact .inl ⟨rfl, rfl⟩

theorem Moved.offeredTo (hm : s.Moved act s') (H : s.hub.Wf) :
    ∃ more, s'.ledger.offeredTo = s.ledger.offeredTo ++ more := by
  rcases hm.ledger H with ⟨h, -⟩ | ⟨opening, callee, h⟩
  · exact ⟨[], by rw [h, append_nil]⟩
  · exact ⟨_, h.offeredTo⟩

/-- The ends of a tunnel carry its number, and no other tunnel has it. -/
structure Numbered (s : Server) : Prop where
  sane : s.Sane
  paired : ∀ {a b}, s.Pair a b → s.ledger.label a = s.ledger.label b
  fresh : ∀ {a b}, s.Pair a b → (s.ledger.label a).tunnel < s.ledger.offeredTo.length
  unique : ∀ {a b c d}, s.Pair a b → s.Pair c d →
    (s.ledger.label a).tunnel = (s.ledger.label c).tunnel → c = a ∨ c = b

theorem Numbered.start : ({} : Server).Numbered := by
  have hnone : ∀ {a b}, ¬ ({} : Server).Pair a b := by
    rintro a b ⟨k, hk⟩
    cases k <;> cases hk
  exact ⟨Sane.start, fun h => absurd h hnone, fun h => absurd h hnone, fun h => absurd h hnone⟩

theorem Numbered.moved (H : s.Numbered) (hm : s.Moved act s') : s'.Numbered := by
  have hwf := H.sane.wf
  have hpair : ∀ {a b}, s'.Pair a b → (s.Pair a b ∧ s'.ledger.label a = s.ledger.label a) ∨
      ∃ opening callee, Begins s s' act opening callee ∧
        ((a = ⟨opening.gen, opening.localId⟩ ∧ b = callee) ∨
          (a = callee ∧ b = ⟨opening.gen, opening.localId⟩)) := by
    rintro a b ⟨k, hk⟩
    exact (hm.source hwf hk).pair
  have hnumber : ∀ {a b opening callee}, Begins s s' act opening callee →
      ((a = ⟨opening.gen, opening.localId⟩ ∧ b = callee) ∨
        (a = callee ∧ b = ⟨opening.gen, opening.localId⟩)) →
      s'.ledger.label a = opening.label ∧ s'.ledger.label b = opening.label := by
    rintro a b opening callee hb (⟨rfl, rfl⟩ | ⟨rfl, rfl⟩)
    · exact hb.label_ends
    · exact hb.label_ends.symm
  have hsame : ∀ {opening callee opening' callee'}, Begins s s' act opening callee →
      Begins s s' act opening' callee' → opening = opening' ∧ callee = callee' := by
    intro opening callee opening' callee' hb hb'
    obtain ⟨q, dev, hp⟩ := hb.performed
    obtain ⟨q', dev', hp'⟩ := hb'.performed
    have hcall := hp.symm.trans hp'
    simp only [Option.some.injEq, Effect.call.injEq, Call.open.injEq] at hcall
    obtain ⟨hsender, hgen, hlocal, -, -, hrequest⟩ := hcall
    have hlabel : opening.label = opening'.label := by rw [hb.label, hb'.label, hrequest]
    obtain rfl : opening = opening' := by
      cases opening
      cases opening'
      simp_all
    exact ⟨rfl, some.inj (hb.entry.symm.trans hb'.entry)⟩
  constructor
  case sane => exact H.sane.moved hm
  case paired =>
    intro a b h
    rcases hpair h with ⟨hold, hl⟩ | ⟨opening, callee, hb, hends⟩
    · rcases hpair (h.symm (hm.wf hwf)) with ⟨-, hl'⟩ | ⟨opening, callee, hb, hends⟩
      · rw [hl, hl', H.paired hold]
      · rw [(hnumber hb hends).1, (hnumber hb hends).2]
    · rw [(hnumber hb hends).1, (hnumber hb hends).2]
  case fresh =>
    intro a b h
    rcases hpair h with ⟨hold, hl⟩ | ⟨opening, callee, hb, hends⟩
    · obtain ⟨more, hmore⟩ := hm.offeredTo hwf
      have hlt := H.fresh hold
      rw [hl, hmore, length_append]
      exact Nat.lt_add_right _ hlt
    · rw [(hnumber hb hends).1, hb.number, hb.offeredTo, length_append]
      exact Nat.lt_succ_self _
  case unique =>
    intro a b c d h h' heq
    have hold_new : ∀ {a b c d opening callee}, s.Pair a b → s'.ledger.label a = s.ledger.label a →
        Begins s s' act opening callee → ((c = ⟨opening.gen, opening.localId⟩ ∧ d = callee) ∨
          (c = callee ∧ d = ⟨opening.gen, opening.localId⟩)) →
        (s'.ledger.label a).tunnel ≠ (s'.ledger.label c).tunnel := by
      intro a b c d opening callee hold hl hb hends
      rw [hl, (hnumber hb hends).1, hb.number]
      exact (H.fresh hold).ne
    rcases hpair h with ⟨hold, hl⟩ | ⟨opening, callee, hb, hends⟩
    · rcases hpair h' with ⟨hold', hl'⟩ | ⟨opening, callee, hb, hends⟩
      · rw [hl, hl'] at heq
        exact H.unique hold hold' heq
      · exact absurd heq (hold_new hold hl hb hends)
    rcases hpair h' with ⟨hold', hl'⟩ | ⟨opening', callee', hb', hends'⟩
    · exact absurd heq.symm (hold_new hold' hl' hb hends)
    obtain ⟨rfl, rfl⟩ := hsame hb hb'
    rcases hends with ⟨rfl, rfl⟩ | ⟨rfl, rfl⟩
    · exact hends'.imp And.left And.left
    · exact (hends'.imp And.left And.left).symm

/-- In every run the two ends of a tunnel carry its number, and those of no other do. -/
theorem tunnels_numbered {acts : List Action} : Always step Numbered {} acts :=
  Run.always (fun H h => H.moved (step_moved h)) .start

end Server

end Bluetalk.Relay

import Bluetalk.Relay.Mailbox

/-!
# Every mail is sent to every device

A mail is stored before the connections are looked up that it is sent to, and a connection is
registered before it lists what waits. So a mail that waits has been sent to a device that is ready,
or is on its way into its queue, or the queue no longer takes anything and the device has to come
back.
-/

open List Option Function

namespace Bluetalk.Relay

/-- The message that brings the mail. -/
def Mail.is (m : Mail) (item : Item) : Bool :=
  match item.msg with
  | .text (.mail id sender _ body) => id = m.id ∧ sender = m.sender ∧ body = m.body
  | _ => false

theorem Mail.is_row (m : Mail) : m.is m.row.item := by simp [Mail.is, Mail.row, MailRow.item]

/-- The effect is going to send the mail to the connection, if its peer is the recipient. -/
def Effect.brings (m : Mail) (g : Nat) : Effect → Bool
  | .put (.send _) gen item => gen = g && m.is item
  | .put (.deliver others _ _) gen item => (gen = g || g ∈ others) && m.is item
  | .call (.deliver _ toPeer row) => toPeer = m.recipient && m.is row.item
  | _ => false

namespace Server

variable {s s' : Server} {a : Action} {g k : Nat} {p : String} {m : Mail} {o : Option Nat}
  {e : Effect} {rest : List Effect} {item : Item}

theorem brings_deliverTo {post : Posting} {any : Bool} {targets : List Nat} (hg : g ∈ targets)
    (hi : m.is item) : (deliverTo post item any targets).brings m g := by
  cases targets with
  | nil => cases hg
  | cons gen others =>
    rw [deliverTo, Effect.brings, hi, Bool.and_true]
    rcases mem_cons.mp hg with rfl | hg
    · simp
    · simp [hg]

theorem mem_controlTargets (H : s.hub.Wf) :
    g ∈ s.hub.controlTargets p ↔ ∃ c, s.hub.conns.lookup g = some c ∧ c.peerId = p := by
  simp only [Hub.controlTargets, List.mem_map, Prod.exists, exists_and_right, exists_eq_right,
    H.mem_connsOf]

theorem Moved.brings (hm : s.Moved a s') (H : s.Sane) (T : s.Tidy) (hs : s.serves g m.recipient)
    (hs' : s'.serves g m.recipient) (he : e ∈ Task.allTodo s.tasks) (hb : e.brings m g) :
    (∃ e' ∈ Task.allTodo s'.tasks, e'.brings m g) ∨
      ∃ item, m.is item ∧ (s'.lines g).sent = (s.lines g).sent ++ [item] := by
  obtain ⟨-, hrunning, hcancelled, hwriter⟩ := hs'
  have hstopped : ¬(s'.lines g).running = false := fun h =>
    Bool.false_ne_true (h.symm.trans hrunning)
  have hsent : ∀ {l item}, (s.lines g).trySend item = some l → m.is item →
      ∀ lines, lines = update s.lines g l →
        ∃ item, m.is item ∧ (lines g).sent = (s.lines g).sent ++ [item] := by
    rintro l item hl hi _ rfl
    exact ⟨item, hi, by rw [update_self, Line.sent_trySend hl]⟩
  cases e with
  | put how gen item =>
    cases how with
    | send peer =>
      rw [Effect.brings, Bool.and_eq_true, decide_eq_true_eq] at hb
      obtain ⟨rfl, hi⟩ := hb
      rcases hm.keeps_own T (g := gen) rfl he with hkept | ⟨k, o, rest, ht, ha⟩ | hover
      · exact .inl ⟨_, hkept, by simp [Effect.brings, hi]⟩
      · rcases hm.put_turn ht ha with ⟨l, hl, rfl⟩ | ⟨-, rfl, -⟩
        · exact .inr (hsent hl hi _ rfl)
        · refine absurd ?_ hstopped
          change (update s.lines _ _ _).running = false
          rw [update_self]
          rfl
      · exact absurd hover hstopped
    | deliver others any post =>
      rw [Effect.brings, Bool.and_eq_true, Bool.or_eq_true, decide_eq_true_eq,
        decide_eq_true_eq] at hb
      obtain ⟨hto, hi⟩ := hb
      rcases hm.keeps T rfl he with hkept | ⟨k, o, rest, ht, ha⟩
      · exact .inl ⟨_, hkept, by simp [Effect.brings, hi, hto]⟩
      -- the loop goes on with the others
      have hothers : ∀ any' todo, g ∈ others → deliverTo post item any' others ∈ todo →
          ∃ e' ∈ Task.allTodo (Task.advance s.tasks k o todo), e'.brings m g := by
        intro any' todo hmem htodo
        refine ⟨deliverTo post item any' others, ?_, brings_deliverTo hmem hi⟩
        rw [Task.allTodo_advance]
        exact mem_append_left _ (mem_append_right _ htodo)
      rcases hm.put_turn ht ha with ⟨l, hl, rfl⟩ | ⟨-, rfl, -⟩
      · rcases hto with rfl | hmem
        · exact .inr (hsent hl hi _ rfl)
        · exact .inl (hothers _ _ hmem mem_cons_self)
      rcases hto with rfl | hmem
      · -- the queue is closed, or its owner is cancelled
        have hline : ((s.putFails k o rest (.deliver others any post) gen item).lines gen) =
            (How.deliver others any post).fail (s.lines gen) := update_self ..
        rw [hline, How.fail] at hcancelled hwriter
        split at hcancelled
        next hgone => simp [hgone] at hwriter
        next => cases hcancelled
      · exact .inl (hothers _ _ hmem mem_cons_self)
    | push | offer | enqueue => cases hb
  | call c =>
    cases c with
    | deliver post toPeer row =>
      rw [Effect.brings, Bool.and_eq_true, decide_eq_true_eq] at hb
      obtain ⟨rfl, hi⟩ := hb
      rcases hm.keeps T rfl he with hkept | ⟨k, o, rest, ht, ha⟩
      · exact .inl ⟨_, hkept, by simp [Effect.brings, hi]⟩
      obtain ⟨-, rfl⟩ := hm.call_turn ht ha
      refine .inl ⟨deliverTo post row.item false _, ?_,
        brings_deliverTo ((mem_controlTargets H.wf).mpr hs.1) hi⟩
      rw [afterCall, Task.allTodo_requeue]
      exact mem_append_right _ mem_cons_self
    | _ => cases hb
  | frame | sleep | wait => cases hb

/-- The mail has been sent to the connection after the first `n` messages, or is on its way. -/
def out (s : Server) (n : Nat) (m : Mail) (g : Nat) : Prop :=
  (∃ item ∈ (s.lines g).sent.drop n, m.is item) ∨ ∃ e ∈ Task.allTodo s.tasks, e.brings m g

theorem Moved.out {n : Nat} (hm : s.Moved a s') (H : s.Sane) (T : s.Tidy)
    (hs : s.serves g m.recipient) (hs' : s'.serves g m.recipient) (hn : n ≤ (s.lines g).sent.length)
    (h : s.out n m g) : s'.out n m g := by
  obtain ⟨added, hadded⟩ := (hm.lines H.wf g).sent
  rcases h with ⟨item, hitem, hi⟩ | ⟨e, he, hb⟩
  · refine .inl ⟨item, ?_, hi⟩
    rw [hadded, drop_append_of_le_length hn]
    exact mem_append_left _ hitem
  rcases hm.brings H T hs hs' he hb with hway | ⟨item, hi, hsent⟩
  · exact .inr hway
  · refine .inl ⟨item, ?_, hi⟩
    rw [hsent, drop_append_of_le_length hn]
    exact mem_append_right _ mem_cons_self

end Server

namespace MailServer

variable {s s' : MailServer} {g : Nat} {m : Mail} {act : Action} {server : Server}

/-- The connection was registered when the mail was fanned out, or it is ready. -/
def due (s : MailServer) (m : Mail) (g : Nat) : Prop :=
  g ∈ (s.notes m.key).targets ∨ g ∉ s.listing

/-- A mail that waits has been sent, since it was stored, to every connection of the recipient that
was registered at its fan-out or is ready, as long as that takes on messages, or it is on its way.
When no task has anything left to do it has been sent. -/
structure Delivers (s : MailServer) : Prop where
  out : ∀ m ∈ s.box.mail, ∀ g, s.server.serves g m.recipient → s.due m g →
    s.server.out ((s.notes m.key).since g) m g
  sent : s.server.tasks = [] → ∀ m ∈ s.box.mail, ∀ g, s.server.serves g m.recipient → s.due m g →
    ∃ item ∈ (s.server.lines g).sent.drop ((s.notes m.key).since g), m.is item

structure Inv (s : MailServer) : Prop where
  sane : s.server.Sane
  tidy : s.server.Tidy
  peers : ∀ g c, s.server.hub.conns.lookup g = some c → (s.server.lines g).peerId = c.peerId
  box : s.box.Wf
  since : ∀ key g, (s.notes key).since g ≤ (s.server.lines g).sent.length
  targets : ∀ key, ∀ g ∈ (s.notes key).targets, g < s.server.hub.nextGen
  out : ∀ m ∈ s.box.mail, ∀ g, s.server.serves g m.recipient → s.due m g →
    s.server.out ((s.notes m.key).since g) m g

theorem Inv.delivers (H : s.Inv) : s.Delivers where
  out := H.out
  sent hnone m hmem g hserves hdue := by
    rcases H.out m hmem g hserves hdue with hsent | ⟨e, he, -⟩
    · exact hsent
    · rw [hnone] at he
      cases he

theorem Inv.start : ({} : MailServer).Inv where
  sane := .start
  tidy := .start
  peers _ _ h := by cases h
  box := .empty
  since _ _ := Nat.zero_le _
  targets _ _ h := absurd h not_mem_nil
  out _ h := absurd h not_mem_nil

theorem Inv.moved (H : s.Inv) (hm : s.server.Moved act server) :
    server.Sane ∧ server.Tidy ∧
      (∀ g c, server.hub.conns.lookup g = some c → (server.lines g).peerId = c.peerId) ∧
      (∀ key g, (s.notes key).since g ≤ (server.lines g).sent.length) ∧
      ∀ key, ∀ g ∈ (s.notes key).targets, g < server.hub.nextGen := by
  refine ⟨H.sane.moved hm, H.tidy.moved H.sane hm, hm.peers H.sane H.peers, fun key g => ?_,
    fun key g hg => (H.targets key g hg).trans_le (hm.nextGen_le H.sane.wf)⟩
  obtain ⟨added, hadded⟩ := (hm.lines H.sane.wf g).sent
  rw [hadded, length_append]
  exact (H.since key g).trans (Nat.le_add_right _ _)

theorem Inv.out_moved (H : s.Inv) (hm : s.server.Moved act server) (hmem : m ∈ s.box.mail)
    (hserves : server.serves g m.recipient) (hg : g ≠ s.server.hub.nextGen) (hdue : s.due m g) :
    server.out ((s.notes m.key).since g) m g := by
  have hold := (hm.serves H.sane hserves).resolve_right hg
  exact hm.out H.sane H.tidy hold hserves (H.since _ _) (H.out m hmem g hold hdue)

theorem Inv.connect {spec : RegisterSpec} (H : s.Inv)
    (h : s.step (.connect spec) = some s') : s'.Inv := by
  cases h
  have hm : s.server.Moved (.connect spec []) (s.server.connect spec []) := .connect
  obtain ⟨hsane, htidy, hpeers, hsince, htargets⟩ := H.moved hm
  refine ⟨hsane, htidy, hpeers, H.box, hsince, htargets, fun m hmem g hserves hdue => ?_⟩
  have hg : g ≠ s.server.hub.nextGen := by
    rintro rfl
    rcases hdue with hdue | hdue
    · exact absurd (H.targets _ _ hdue) (Nat.lt_irrefl _)
    · exact hdue mem_cons_self
  exact H.out_moved hm hmem hserves hg (hdue.imp_right fun h hg => h (mem_cons_of_mem _ hg))

theorem Inv.list (H : s.Inv) (h : s.step (.list g) = some s') : s'.Inv := by
  rw [step] at h
  split at h
  next hr =>
    cases h
    obtain ⟨hlisting, hreads⟩ := hr
    have hrunning : (s.server.lines g).running := by
      rw [Server.reads, Bool.and_eq_true] at hreads
      exact hreads.1
    have hsends : ∀ e ∈ (s.box.list (s.server.lines g).peerId).map fun m =>
        Effect.put (.send (s.server.lines g).peerId) g m.row.item, e.follows ∧ e.own ∧ Server.Proper e ∧
          ∀ g', e.by? = some g' → some g = some g' := by
      intro e he
      obtain ⟨m, -, rfl⟩ := mem_map.mp he
      exact ⟨rfl, rfl, .inr ⟨m.row, rfl⟩, fun g' hg' => hg'⟩
    obtain ⟨hshaped, hranked, howned, hunique, hknown⟩ := H.tidy.spawn le_rfl
      (H.tidy.running g hrunning) (Server.not_owner_of_reads hreads)
      (.of_follows fun e he => (hsends e he).1) (.of_all fun e he => (hsends e he).2.1)
      fun e he => (hsends e he).2.2.2
    refine ⟨⟨H.sane.wf, fun e he => ?_⟩, ⟨hshaped, hranked, howned, hunique, hknown, H.tidy.running⟩,
      H.peers, H.box, H.since, H.targets, fun m hmem g' hserves hdue => ?_⟩
    · simp only [listed, Server.spawn, Task.allTodo_spawn, mem_append] at he
      exact he.elim (H.sane.proper e) fun he => (hsends e he).2.2.1
    by_cases hg : g' = g
    · -- it waits, so it is listed
      subst hg
      obtain ⟨⟨c, hc, hp⟩, -⟩ := hserves
      have hpeer : (s.server.lines g').peerId = m.recipient := (H.peers g' c hc).trans hp
      refine .inr ⟨.put (.send m.recipient) g' m.row.item, ?_, by simp [Effect.brings, m.is_row]⟩
      simp only [listed, Server.spawn, Task.allTodo_spawn, mem_append, hpeer]
      refine .inr (mem_map_of_mem ?_)
      rw [Mailbox.list, mem_insertionSort, Mailbox.mailsFor, mem_filter]
      exact ⟨hmem, decide_eq_true rfl⟩
    · have hdue : s.due m g' := hdue.imp_right fun h hmem =>
        h (mem_filter.mpr ⟨hmem, decide_eq_true hg⟩)
      rcases H.out m hmem g' hserves hdue with hsent | ⟨e, he, hb⟩
      · exact .inl hsent
      · refine .inr ⟨e, ?_, hb⟩
        simp only [listed, Server.spawn, Task.allTodo_spawn]
        exact mem_append_left _ he
  next => cases h

theorem Inv.ofBox {box : Mailbox} (H : s.Inv) (hbox : box.Wf)
    (hold : ∀ m ∈ box.mail, ∃ m₀ ∈ s.box.mail, m = m₀ ∨ m = m₀.marked) :
    Inv { s with box } := by
  refine ⟨H.sane, H.tidy, H.peers, hbox, H.since, H.targets, fun m hmem g hserves hdue => ?_⟩
  obtain ⟨m₀, hm₀, rfl | rfl⟩ := hold m hmem
  · exact H.out m hm₀ g hserves hdue
  · exact H.out m₀ hm₀ g hserves hdue

theorem step_relay (h : s.step (.relay act) = some s') :
    (∀ spec mails, act ≠ .connect spec mails) ∧ ∃ server, s.server.step act = some server ∧
      s' = { s with server, notes := s.noteTargets act } := by
  cases act with
  | connect | text => cases h
  | _ =>
    simp only [step] at h
    split at h
    next => cases h
    next =>
    obtain ⟨server, hstep, hs'⟩ := map_eq_some_iff.mp h
    exact ⟨(fun _ _ hact => by cases hact), server, hstep, hs'.symm⟩

theorem fannedOut_eq_some (h : s.fannedOut act = some m) : m ∈ s.box.mail ∧ ∃ post row,
    s.server.performed act = some (.call (.deliver post m.recipient row)) ∧ m.is row.item := by
  rw [fannedOut] at h
  split at h
  next post toPeer row hperformed =>
    obtain ⟨hfind, hm⟩ := filter_eq_some_iff.mp h
    obtain ⟨rfl, hbody⟩ := of_decide_eq_true hm
    have hkey := find?_some hfind
    rw [decide_eq_true_eq] at hkey
    obtain ⟨hsender, hid⟩ := hkey
    refine ⟨mem_of_find?_eq_some hfind, post, row, hperformed, ?_⟩
    simp [Mail.is, MailRow.item, hsender, hid, hbody]
  next => cases h

theorem noteTargets_cases (s : MailServer) (act : Action) (key : String × String) :
    s.noteTargets act key = s.notes key ∨ ∃ m, s.fannedOut act = some m ∧ m.key = key ∧
      s.noteTargets act key = { s.notes key with
        targets := (s.notes key).targets ++ s.server.hub.controlTargets m.recipient } := by
  rw [noteTargets]
  cases h : s.fannedOut act with
  | none => exact .inl rfl
  | some m =>
    by_cases hk : key = m.key
    · subst hk
      exact .inr ⟨m, rfl, rfl, update_self ..⟩
    · exact .inl (update_of_ne hk ..)

theorem Inv.relay (H : s.Inv) (h : s.step (.relay act) = some s') : s'.Inv := by
  obtain ⟨hconnect, server, hstep, rfl⟩ := step_relay h
  have hm := Server.step_moved hstep
  obtain ⟨hsane, htidy, hpeers, hsince, htargets⟩ := H.moved hm
  have hnext := hm.nextGen_eq H.sane hconnect
  have hnotes : ∀ key, (s.noteTargets act key).since = (s.notes key).since := by
    intro key
    rcases s.noteTargets_cases act key with h | ⟨_, -, -, h⟩ <;> rw [h]
  have hregistered : ∀ p, ∀ g ∈ s.server.hub.controlTargets p, g < server.hub.nextGen := by
    intro p g hg
    obtain ⟨c, hc, -⟩ := (Server.mem_controlTargets H.sane.wf).mp hg
    exact hnext ▸ H.sane.wf.fresh (AList.lookup_isSome.mp (by rw [hc]; rfl))
  refine ⟨hsane, htidy, hpeers, H.box, fun key g => hnotes key ▸ hsince key g, fun key g hg => ?_,
    fun m hmem g hserves hdue => ?_⟩
  · rcases s.noteTargets_cases act key with h | ⟨_, -, -, h⟩
    · exact htargets key g (h ▸ hg)
    · have hg : g ∈ (s.noteTargets act key).targets := hg
      rw [h] at hg
      exact (mem_append.mp hg).elim (htargets key g) (hregistered _ g)
  have hlt : g < s.server.hub.nextGen := by
    obtain ⟨⟨c, hc, -⟩, -⟩ := hserves
    exact hnext ▸ hsane.wf.fresh (AList.lookup_isSome.mp (by rw [hc]; rfl))
  have hold := (hm.serves H.sane hserves).resolve_right (Nat.ne_of_lt hlt)
  have hout : s.server.out ((s.notes m.key).since g) m g := by
    rcases hdue with hdue | hdue
    · have hdue : g ∈ (s.noteTargets act m.key).targets := hdue
      rcases s.noteTargets_cases act m.key with h | ⟨m₀, hfanned, hkey, h⟩
      · exact H.out m hmem g hold (.inl (h ▸ hdue))
      rw [h] at hdue
      rcases mem_append.mp hdue with hdue | -
      · exact H.out m hmem g hold (.inl hdue)
      -- its fan-out begins
      obtain ⟨hmem₀, post, row, hperformed, hrow⟩ := fannedOut_eq_some hfanned
      obtain rfl : m₀ = m := inj_on_of_nodup_map H.box.mailKeys hmem₀ hmem hkey
      exact .inr ⟨_, Server.mem_performed hperformed, by simp [Effect.brings, hrow]⟩
    · exact H.out m hmem g hold (.inr hdue)
  rw [hnotes]
  exact hm.out H.sane H.tidy hold hserves (H.since _ _) hout

theorem onText_of_postOf {peerId : String} {gen request now : Nat} {granted : Bool}
    {text : Option Json} {sentFor : Option Nat} {p : MailPost}
    (h : postOf peerId granted text = some p) :
    onText peerId gen request now granted text .stored sentFor =
      [.call (.deliver ⟨peerId, gen, p.id, request⟩ p.toPeer ⟨p.id, peerId, now, p.body⟩)] := by
  obtain ⟨v, rfl, hv⟩ := bind_eq_some_iff.mp h
  split at hv
  next ht =>
    obtain ⟨hgranted, ht⟩ := ht
    obtain ⟨id, hid, hv⟩ := bind_eq_some_iff.mp hv
    split at hv
    · cases hv
    next hvalid =>
    obtain ⟨toPeer, hto, hv⟩ := bind_eq_some_iff.mp hv
    split at hv
    · cases hv
    next hself =>
    obtain ⟨body, hbody, rfl⟩ := map_eq_some_iff.mp hv
    simp only [onText, ht, hgranted]
    simp only [handlePost, hid, hvalid, hto, hself, hbody]
    simp
  next => cases hv

theorem Inv.text {granted : Bool} {text : Option Json} {faults : PostFaults} {size : Nat}
    {stamp : Int} {sentFor : Option Nat} (H : s.Inv)
    (h : s.step (.text g granted text faults size stamp sentFor) = some s') : s'.Inv := by
  simp only [step] at h
  split at h
  · cases h
  obtain ⟨server, hstep, rfl⟩ := map_eq_some_iff.mp h
  have hm := Server.step_moved hstep
  obtain ⟨hsane, htidy, hpeers, hsince, htargets⟩ := H.moved hm
  have hnext := hm.nextGen_eq H.sane fun _ _ h => by cases h
  have hlt : ∀ {g' p}, server.serves g' p → g' ≠ s.server.hub.nextGen := by
    rintro g' p ⟨⟨c, hc, -⟩, -⟩
    exact Nat.ne_of_lt (hnext ▸ hsane.wf.fresh (AList.lookup_isSome.mp (by rw [hc]; rfl)))
  -- nothing is stored
  have hsame : ∀ box : Mailbox, box.Wf → (∀ m ∈ box.mail, m ∈ s.box.mail) →
      Inv { s with server, box } := fun box hbox hold =>
    ⟨hsane, htidy, hpeers, hbox, hsince, htargets, fun m hmem g' hserves hdue =>
      H.out_moved hm (hold m hmem) hserves (hlt hserves) hdue⟩
  cases hpost : postOf (s.server.lines g).peerId granted text with
  | none =>
    simp only [jobs, noteStored, hpost]
    exact hsame _ H.box.ack fun m hmem => mem_of_mem_filter hmem
  | some p =>
    have hwf : (s.box.post faults (s.server.lines g).peerId p.id p.toPeer p.body size stamp).2.Wf :=
      H.box.post
    have hposted := Mailbox.post_posted s.box faults (s.server.lines g).peerId p.id p.toPeer p.body
      size stamp
    simp only [jobs, noteStored, hpost] at hstep ⊢
    revert hposted hwf hstep
    generalize s.box.post faults (s.server.lines g).peerId p.id p.toPeer p.body size stamp = result
    obtain ⟨outcome, box⟩ := result
    intro hwf hposted hstep
    cases hposted with
    | failed | duplicate | half => exact hsame _ hwf fun m => id
    | stored hsize hquota hid hfault hnew =>
      set key : String × String := ((s.server.lines g).peerId, p.id) with hkey
      set note : MailNote := { since := fun g => (s.server.lines g).sent.length } with hnote
      have hnotes : ∀ {k}, k ≠ key → update s.notes key note k = s.notes k := fun h =>
        update_of_ne h ..
      refine ⟨hsane, htidy, hpeers, hwf, fun k g' => ?_, fun k g' hg' => ?_,
        fun m hmem g' hserves hdue => ?_⟩
      · change (update s.notes key note k).since g' ≤ _
        by_cases hk : k = key
        · obtain ⟨added, hadded⟩ := (hm.lines H.sane.wf g').sent
          rw [hk, update_self, hadded, length_append]
          exact Nat.le_add_right _ _
        · rw [hnotes hk]
          exact hsince k g'
      · have hg' : g' ∈ (update s.notes key note k).targets := hg'
        by_cases hk : k = key
        · rw [hk, update_self] at hg'
          cases hg'
        · rw [hnotes hk] at hg'
          exact htargets k g' hg'
      rcases mem_append.mp hmem with hmem | hmem
      · -- it waited before, under another key
        have hk : m.key ≠ key := by
          intro h
          refine find?_eq_none.mp hnew m hmem ?_
          simpa [Mail.key, hkey] using h
        have hdue : g' ∈ (update s.notes key note m.key).targets ∨ g' ∉ s.listing := hdue
        rw [hnotes hk] at hdue
        change server.out ((update s.notes key note m.key).since g') m g'
        rw [hnotes hk]
        exact H.out_moved hm hmem hserves (hlt hserves) hdue
      · rw [mem_singleton] at hmem
        subst hmem
        refine .inr ⟨.call (.deliver ⟨(s.server.lines g).peerId, g, p.id,
          s.server.ledger.asked.length⟩ p.toPeer ⟨p.id, (s.server.lines g).peerId, s.server.now,
            p.body⟩), ?_, by simp [Effect.brings, Mail.is, MailRow.item]⟩
        rw [Server.step] at hstep
        split at hstep
        next =>
          rw [← some.inj hstep]
          simp only [Server.text, Server.spawn, onText_of_postOf hpost, Task.allTodo_spawn]
          exact mem_append_right _ mem_cons_self
        next => cases hstep

theorem Inv.step {act : MailAction} (H : s.Inv) (h : s.step act = some s') : s'.Inv := by
  cases act with
  | connect => exact H.connect h
  | list => exact H.list h
  | text => exact H.text h
  | markPushed sender id =>
    cases h
    refine H.ofBox H.box.markPushed fun m hmem => ?_
    obtain ⟨m₀, hm₀, rfl⟩ := mem_map.mp hmem
    refine ⟨m₀, hm₀, ?_⟩
    split
    · exact .inr rfl
    · exact .inl rfl
  | cleanup =>
    cases h
    exact H.ofBox H.box.cleanup fun m hmem => ⟨m, mem_of_mem_filter hmem, .inl rfl⟩
  | relay => exact H.relay h

/-- In every run. -/
theorem mail_delivered {acts : List MailAction} (h : FreeRun step {} acts s) : s.Delivers :=
  (h.invariant (I := Inv) (fun _ H hstep => H.step hstep) .start).delivers

def postFrame (toPeer id : String) : Json :=
  .obj [("t", .str "post"), ("id", .str id), ("to", .str toPeer), ("body", .null)]

/-- A mail is posted to a peer that is registered and has yet to list what waits for it: it is sent
twice. -/
theorem mail_delivered_listing : ∃ acts s, FreeRun step {} acts s ∧ s.server.tasks = [] ∧
    s.box.mail.length = 1 ∧ (s.server.lines 2).control.length = 3 ∧ s.Delivers := by
  let acts : List MailAction := [.connect ⟨Server.peerA, "legacy", "", ""⟩, .relay (.perform 0),
    .list 1, .connect ⟨Server.peerB, "legacy", "", ""⟩, .relay (.perform 0),
    .text 1 true (some (postFrame Server.peerB "m1")) {} 4 0 none, .list 2, .relay (.perform 0),
    .relay (.perform 0), .relay (.perform 0), .relay (.perform 0)]
  have hrun : (exec step {} acts).map (fun s =>
      (s.server.tasks, s.box.mail.length, (s.server.lines 2).control.length)) =
        some ([], 1, 3) := by
    decide +kernel
  obtain ⟨s, hs, hend⟩ := map_eq_some_iff.mp hrun
  rw [Prod.mk.injEq, Prod.mk.injEq] at hend
  exact ⟨acts, s, .of_exec hs, hend.1, hend.2.1, hend.2.2, mail_delivered (.of_exec hs)⟩

end MailServer

end Bluetalk.Relay

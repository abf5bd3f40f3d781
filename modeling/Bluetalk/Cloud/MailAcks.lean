import Bluetalk.Cloud.MailQueue
import Bluetalk.Relay.MailDelivery

/-!
# Acknowledgements meet the mails they are for

A mail is named to the relay by its id alone, and a queue knows its mails by their ids. As long as
no two mails around for a peer have one id, both mean the mail that the device received.
-/

open List Function

namespace Bluetalk.Relay

variable {peerId toPeer : String} {gen request now : Nat} {granted : Bool} {text : Option Json}
  {outcome : PostOutcome} {sentFor : Option Nat} {post : Posting} {row : MailRow}

theorem handlePost_deliver {v : Json}
    (h : .call (.deliver post toPeer row) = handlePost peerId gen request now outcome v) :
    outcome = .stored ∧ ∃ id, (v.field? "id").bind Json.asStr = some id ∧ validMailId id ∧
      ((v.field? "to").bind Json.asStr).bind parsePeerId = some toPeer ∧ toPeer ≠ peerId ∧
      v.field? "body" = some row.body ∧ row.id = id ∧ row.sender = peerId := by
  rw [handlePost] at h
  split at h
  · cases h
  next id hid =>
  split at h
  · cases h
  next hvalid =>
  split at h
  · cases h
  next toPeer' hto =>
  split at h
  · cases h
  next hself =>
  split at h
  · cases h
  next body hbody =>
  split at h
  · cases h
  · cases h
  · cases h
    exact ⟨rfl, id, hid, by simpa using hvalid, hto, hself, hbody, rfl, rfl⟩

theorem onText_deliver
    (h : .call (.deliver post toPeer row) ∈ onText peerId gen request now granted text outcome
      sentFor) :
    outcome = .stored ∧ postOf peerId granted text = some ⟨row.id, toPeer, row.body⟩ ∧
      validMailId row.id ∧ row.sender = peerId := by
  cases text with
  | none => cases mem_singleton.mp h
  | some v =>
    rw [onText] at h
    cases ht : (v.field? "t").bind Json.asStr with
    | none =>
      rw [ht] at h
      cases mem_singleton.mp h
    | some t =>
      simp only [ht] at h
      split at h
      · cases mem_singleton.mp h
      next hrate =>
      split at h
      · cases mem_singleton.mp h
      split at h
      · cases mem_singleton.mp h
      next hauth =>
      split at h
      · rw [mem_singleton, handleWatch] at h
        split at h <;> cases h
      split at h
      · rw [mem_singleton, handleOpen] at h
        split at h
        · cases h
        split at h
        · cases h
        split at h <;> cases h
      split at h
      · split at h <;> cases mem_singleton.mp h
      split at h
      · split at h <;> cases mem_singleton.mp h
      split at h
      · split at h
        · cases h
        · cases mem_singleton.mp h
      split at h
      next hpost =>
        obtain ⟨hstored, id, hid, hvalid, hto, hself, hbody, rfl, hsender⟩ :=
          handlePost_deliver (mem_singleton.mp h)
        have hgranted : granted = true := by simpa [hauth] using hrate
        refine ⟨hstored, ?_, hvalid, hsender⟩
        simp [postOf, ht, hpost, hgranted, hid, hvalid, hto, hself, hbody]
      split at h
      · cases h
      · cases mem_singleton.mp h

end Bluetalk.Relay

namespace Bluetalk.Cloud

open Relay

/-! ## Ids -/

theorem isHexDigit_isIdChar {c : Char} (h : isHexDigit c) : isIdChar c := by
  simp only [isHexDigit, isIdChar, Char.isDigit, Bool.or_eq_true, Bool.and_eq_true,
    decide_eq_true_eq, Char.le_def] at h ⊢
  grind

theorem jsTrim_of_validMailId {id : String} (h : validMailId id) : jsTrim id = id := by
  refine trimBy_of_all fun c hc => isJsSpace_of_isIdChar ?_
  rw [validMailId] at h
  split at h
  · cases h
  split at h
  · rw [Bool.and_eq_true, all_eq_true] at h
    obtain ⟨i, hi, rfl⟩ := mem_iff_getElem.mp hc
    have := h.2 (id.toList[i], i) (by simp [mk_mem_zipIdx_iff_getElem?, hi])
    dsimp only at this
    split at this
    · rw [of_decide_eq_true this]
      decide
    · exact isHexDigit_isIdChar this
  · exact all_eq_true.mp h c hc

/-! ## Mails on their way -/

section

variable {s s' : Server} {a : Action} {e : Effect} {reach reach' : Nat → Bool} {R : String}
  {L : Letter} {item : Item} {row : MailRow}

theorem mailOf_eq_none (h : ∀ id sender ts body, item.msg ≠ .text (.mail id sender ts body)) :
    mailOf item = none := by
  rw [mailOf]
  split
  next heq => exact absurd heq (h _ _ _ _)
  next => rfl

theorem mailOf_farewell (h : Line.Farewell item) : mailOf item = none := by
  rcases h with rfl | rfl <;> rfl

/-- Only these bring mails. -/
def Carrier : Effect → Prop
  | .put (.send _) .. | .put (.deliver ..) .. | .call (.deliver ..) => True
  | _ => False

theorem carrier_of_mail (hp : Server.Proper (.put how g item)) (hmail : mailOf item ≠ none) :
    Carrier (.put how g item) := by
  cases how with
  | push =>
    obtain ⟨msg, hmsg, hpush⟩ := hp
    refine absurd (mailOf_eq_none fun id sender ts body h => ?_) hmail
    cases hmsg.symm.trans h
    cases hpush
  | offer =>
    obtain ⟨x, sender, device, name, rfl⟩ := hp
    exact hmail rfl
  | enqueue =>
    refine absurd (mailOf_eq_none fun id sender ts body h => ?_) hmail
    rcases hp with hpong | ⟨msg, hmsg, hreply | ⟨q, devices, rfl⟩⟩
    · cases hpong.symm.trans h
    · cases hmsg.symm.trans h
      cases hreply
    · cases hmsg.symm.trans h
  | send | deliver => trivial

theorem carrier_of_carried (hp : Server.Proper e) (h : carried reach R e = some L) : Carrier e := by
  cases e with
  | put how g item =>
    refine carrier_of_mail hp fun hnone => ?_
    rw [carried, hnone] at h
    split at h <;> cases h
  | call c =>
    cases c with
    | deliver => trivial
    | _ => cases h
  | _ => cases h

theorem carried_mono (hr : ∀ g, reach' g → reach g) (h : carried reach' R e = some L) :
    carried reach R e = some L := by
  cases e with
  | put how g item =>
    rw [carried] at h ⊢
    split at h
    next hany =>
      obtain ⟨g, hg, hreach⟩ := any_eq_true.mp hany
      rwa [if_pos (any_eq_true.mpr ⟨g, hg, hr g hreach⟩)]
    next => cases h
  | call c =>
    cases c with
    | deliver => exact h
    | _ => cases h
  | _ => cases h

theorem carried_deliverTo {post : Posting} {any : Bool} {targets : List Nat}
    (h : carried reach R (deliverTo post item any targets) = some L) :
    (∃ g ∈ targets, reach g) ∧ (mailOf item).map letterOf = some L := by
  cases targets with
  | nil =>
    simp only [deliverTo, posted, carried] at h
    split at h <;> cases h
  | cons g others =>
    rw [deliverTo, carried] at h
    split at h
    next hany => exact ⟨any_eq_true.mp hany, h⟩
    next => cases h

theorem entered_carrier {c : Call} {es : List Effect} (h : s.Entered c s' es) (he : e ∈ es)
    (hc : Carrier e) : ∃ post toPeer row, c = .deliver post toPeer row ∧
      e = deliverTo post row.item false (s.hub.controlTargets toPeer) := by
  have hpush : ∀ {ps}, e ∉ s.ledger.pushes ps := by
    intro ps he
    obtain ⟨push, -, rfl⟩ := mem_map.mp he
    exact hc
  cases h with
  | watch =>
    rcases mem_append.mp he with he | he
    · exact absurd he hpush
    · obtain ⟨msg, -, rfl⟩ := mem_map.mp he
      cases hc
  | unregisters => exact absurd he hpush
  | @delivers post toPeer row => exact ⟨post, toPeer, row, rfl, mem_singleton.mp he⟩
  | fails =>
    rcases mem_cons.mp he with rfl | he
    · cases hc
    · rw [mem_singleton.mp he] at hc
      cases hc
  | failsNothing | closesNothing | tellsNobody | forwardsNothing => cases he
  | _ =>
    rw [mem_singleton.mp he] at hc
    cases hc

/-- A mail newly on its way: listed when a connection joins, or posted. -/
theorem carried_adds (hadd : s.Adds s' a e) (H : s.Sane)
    (hreach : ∀ g c, s.hub.conns.lookup g = some c → reach g → c.peerId = R)
    (h : carried reach R e = some L) :
    (∃ e₀ ∈ Task.allTodo s.tasks, carried reach R e₀ = some L) ∨
      (∃ spec mails, a = .connect spec mails ∧ mails ≠ []) ∨
      ∃ g granted text sentFor row, a = .text g granted text .stored sentFor ∧
        postOf (s.lines g).peerId granted text = some ⟨row.id, R, row.body⟩ ∧
        validMailId row.id ∧ row.sender = (s.lines g).peerId ∧ letterOf row = L := by
  have hcarrier := carrier_of_carried (hadd.proper H.wf H.proper) h
  have hdeliver : ∀ {k : Nat} {o any any' g item rest others post},
      s.tasks[k]? = some ⟨o, .put (.deliver others any post) g item :: rest⟩ →
      carried reach R (deliverTo post item any' others) = some L →
      ∃ e₀ ∈ Task.allTodo s.tasks, carried reach R e₀ = some L := by
    intro k o any any' g item rest others post ht h
    obtain ⟨⟨g', hg', hr⟩, hL⟩ := carried_deliverTo h
    refine ⟨_, Server.mem_rest ht mem_cons_self, ?_⟩
    rw [carried, if_pos, hL]
    exact any_eq_true.mpr ⟨g', mem_cons_of_mem _ hg', hr⟩
  cases hadd with
  | joins | leave | close | tell | wait => cases hcarrier
  | ready =>
    rw [carried] at h
    split at h <;> cases h
  | @mail spec mails row hrow => exact .inr (.inl ⟨_, _, rfl, ne_nil_of_mem hrow⟩)
  | request hr hq he =>
    cases hq with
    | @text g granted v outcome sentFor =>
      have hreact := reaction_of_mem_onText he
      cases hreact with
      | @deliver _ toPeer row =>
        obtain ⟨rfl, hpost, hvalid, hsender⟩ := onText_deliver he
        rw [carried] at h
        split at h
        next hto =>
          subst hto
          exact .inr (.inr ⟨_, _, _, _, row, rfl, hpost, hvalid, hsender, Option.some.inj h⟩)
        next => cases h
      | _ => cases hcarrier
    | binary | ping =>
      rw [mem_singleton.mp he] at hcarrier
      cases hcarrier
    | noise => cases he
  | @sent k o how g item rest e ht he =>
    cases how with
    | deliver others any post =>
      rw [How.sent, mem_singleton] at he
      subst he
      exact .inl (hdeliver ht h)
    | offer =>
      rcases mem_cons.mp he with rfl | he
      · cases hcarrier
      · rw [mem_singleton.mp he] at hcarrier
        cases hcarrier
    | _ => cases he
  | @failed a k o how g item rest e ht ha he =>
    cases how with
    | deliver others any post =>
      rw [How.failed, mem_singleton] at he
      subst he
      exact .inl (hdeliver ht h)
    | offer =>
      rcases mem_cons.mp he with rfl | he
      · cases hcarrier
      · rw [mem_singleton.mp he] at hcarrier
        cases hcarrier
    | push => cases he
    | enqueue | send =>
      rw [mem_singleton.mp he] at hcarrier
      cases hcarrier
  | call ht hs he =>
    obtain ⟨post, toPeer, row, rfl, rfl⟩ := entered_carrier (Server.entered H.wf _) he hcarrier
    obtain ⟨⟨g, hg, hr⟩, hL⟩ := carried_deliverTo h
    obtain ⟨c, hc, hp⟩ := (Server.mem_controlTargets H.wf).mp hg
    refine .inl ⟨_, Server.mem_rest ht mem_cons_self, ?_⟩
    rw [carried, if_pos (hp.symm.trans (hreach g c hc hr)), ← hL]
    rfl

/-- Mails only go to connections that have been given their number. -/
structure Aimed (s : Server) : Prop where
  todo : ∀ how g item, .put how g item ∈ Task.allTodo s.tasks → mailOf item ≠ none →
    ∀ g' ∈ receivers how g, g' < s.hub.nextGen
  sent : ∀ g, s.hub.nextGen ≤ g → ∀ item ∈ (s.lines g).sent, mailOf item = none

theorem Aimed.start : Aimed {} where
  todo _ _ _ he := by cases he
  sent _ _ _ hi := by cases hi

theorem aimed_deliverTo {post : Posting} {any : Bool} {targets : List Nat} {how : How} {g n : Nat}
    {item' : Item} (ht : ∀ g ∈ targets, g < n)
    (he : .put how g item' = deliverTo post item any targets) (hmail : mailOf item' ≠ none) :
    ∀ g' ∈ receivers how g, g' < n := by
  cases targets with
  | nil =>
    cases he
    exact absurd rfl hmail
  | cons => cases he; exact ht

theorem Aimed.adds {how : How} {g : Nat} (H : Aimed s) (hsane : s.Sane) (hm : s.Moved a s')
    (hadd : s.Adds s' a (.put how g item)) (hmail : mailOf item ≠ none) :
    ∀ g' ∈ receivers how g, g' < s'.hub.nextGen := by
  have hle := hm.nextGen_le hsane.wf
  have hcarrier := carrier_of_mail (hadd.proper hsane.wf hsane.proper) hmail
  have hnew : ∀ spec mails, a = .connect spec mails →
      (s.hub.register spec).1.generation < s'.hub.nextGen := by
    rintro spec mails rfl
    obtain rfl := hm.connect_eq
    have hnext : (s.connect spec mails).hub.nextGen = s.hub.nextGen + 1 :=
      hsane.wf.nextGen.nextGen_makeRoom
    rw [hnext]
    exact Nat.lt_succ_self _
  -- the loop goes on with the connections that are left
  have hothers : ∀ {k : Nat} {o : Option Nat} {others : List Nat} {rest : List Effect}
      {any any' post post' g₀ item₀}, s.tasks[k]? = some ⟨o, .put (.deliver others any post) g₀ item₀ :: rest⟩ →
      .put how g item = deliverTo post' item₀ any' others →
      ∀ g' ∈ receivers how g, g' < s'.hub.nextGen := by
    intro k o others rest any any' post post' g₀ item₀ ht he
    refine aimed_deliverTo (fun g' hg' => ?_) he hmail
    have hmail₀ : mailOf item₀ ≠ none := by
      cases others with
      | nil =>
        cases he
        exact absurd rfl hmail
      | cons => cases he; exact hmail
    exact (H.todo _ _ _ (Server.mem_rest ht mem_cons_self) hmail₀ g'
      (mem_cons_of_mem _ hg')).trans_le hle
  cases hadd with
  | joins => cases hcarrier
  | ready => exact absurd rfl hmail
  | @mail spec mails =>
    intro g' hg'
    rw [mem_singleton.mp hg']
    exact hnew spec mails rfl
  | request hr hq he =>
    cases hq with
    | text =>
      have hreact := reaction_of_mem_onText he
      cases hreact
      cases hcarrier
    | binary => cases mem_singleton.mp he
    | ping =>
      rw [mem_singleton.mp he] at hcarrier
      cases hcarrier
    | noise => cases he
  | @sent k o how' g₀ item₀ rest _ ht he =>
    cases how' with
    | deliver others any post =>
      exact hothers ht (mem_singleton.mp he)
    | offer =>
      rcases mem_cons.mp he with he | he
      · cases he
      · cases mem_singleton.mp he
    | _ => cases he
  | @failed a k o how' g₀ item₀ rest _ ht ha he =>
    cases how' with
    | deliver others any post => exact hothers ht (mem_singleton.mp he)
    | offer =>
      rcases mem_cons.mp he with he | he
      · cases he
      · rw [mem_singleton.mp he] at hcarrier
        cases hcarrier
    | push => cases he
    | enqueue | send => cases mem_singleton.mp he
  | call ht hs he =>
    obtain ⟨post, toPeer, row, rfl, heq⟩ := entered_carrier (Server.entered hsane.wf _) he hcarrier
    refine aimed_deliverTo (fun g' hg' => ?_) heq hmail
    obtain ⟨c, hc, -⟩ := (Server.mem_controlTargets hsane.wf).mp hg'
    exact (hsane.wf.fresh (AList.lookup_isSome.mp (by rw [hc]; rfl))).trans_le hle

theorem Aimed.moved (H : Aimed s) (hsane : s.Sane) (hm : s.Moved a s') : Aimed s' where
  todo how g item he hmail g' hg' := by
    rcases hm.mem_todo he with he | hadd
    · exact (H.todo how g item he hmail g' hg').trans_le (hm.nextGen_le hsane.wf)
    · exact H.adds hsane hm hadd hmail g' hg'
  sent g hg item hi := by
    have hle := hm.nextGen_le hsane.wf
    have hold := H.sent g (hle.trans hg)
    rcases hm.sent hsane.wf g with hsame | ⟨how, item', hperformed, hsent⟩ | ⟨added, hsent, hfar⟩
    · exact hold item (hsame ▸ hi)
    · rw [hsent, mem_append, mem_singleton] at hi
      rcases hi with hi | rfl
      · exact hold item hi
      by_contra hmail
      have hlt := H.todo how g item (Server.mem_performed hperformed) hmail g
        (by cases how <;> exact mem_cons_self)
      omega
    · rw [hsent, mem_append] at hi
      rcases hi with hi | hi
      · exact hold item hi
      · exact mailOf_farewell (hfar item hi)

theorem mem_sent_of_readable {l : Line} (h : item ∈ readable l) : item ∈ l.sent := by
  rw [readable] at h
  split at h
  · exact mem_append_left _ h
  · exact h

theorem mem_readable_of_received {l : Line} {n : Nat}
    (h : (l.received.filterMap Event.item?)[n]? = some item) : item ∈ (readable l).drop n := by
  have hdrop : item ∈ (l.received.filterMap Event.item?).drop n := by
    obtain ⟨hn, rfl⟩ := List.getElem?_eq_some_iff.mp h
    exact List.mem_drop_iff_getElem.mpr ⟨0, by omega, by simp⟩
  rw [readable]
  split
  · exact hdrop
  · rw [Line.sent, drop_append]
    exact mem_append_left _ hdrop

/-- What a connection reads: what it had, the message whose turn it is, or a farewell. -/
theorem mem_readable {n g : Nat} (hm : s.Moved a s') (H : s.hub.Wf)
    (hi : item ∈ (readable (s'.lines g)).drop n) :
    item ∈ (readable (s.lines g)).drop n ∨
      (∃ how, s.performed a = some (.put how g item) ∧ (s.lines g).writer ≠ .gone) ∨
      Line.Farewell item := by
  by_cases hgone : (s.lines g).writer = .gone
  · -- nothing is read from the queue any more
    refine .inl ?_
    have hgone' := (hm.lines H g).gone hgone
    rw [readable, if_pos hgone] at *
    rw [if_pos hgone'] at hi
    rcases hm.queues H g with ⟨move, -, hw⟩ | ⟨_, _, _, _, -, hl⟩ | hfed
    · cases move <;> simp [Line.write, hgone] at hw
    · rwa [hl] at hi
    · rwa [hfed.received] at hi
  have hsub : item ∈ ((s'.lines g).sent).drop n := by
    rw [readable] at hi
    split at hi
    · rw [Line.sent, drop_append]
      exact mem_append_left _ hi
    · exact hi
  have hold : readable (s.lines g) = (s.lines g).sent := if_neg hgone
  rw [hold]
  rcases hm.sent H g with hsame | ⟨how, item', hperformed, hsent⟩ | ⟨added, hsent, hfar⟩
  · exact .inl (hsame ▸ hsub)
  · rw [hsent, drop_append, mem_append] at hsub
    refine hsub.imp_right fun h => .inl ?_
    obtain rfl := mem_singleton.mp (mem_of_mem_drop h)
    exact ⟨how, hperformed, hgone⟩
  · rw [hsent, drop_append, mem_append] at hsub
    exact hsub.imp_right fun h => .inr (hfar item (mem_of_mem_drop h))

end

/-! ## What the relay does -/

namespace MailNet

variable {s : MailNet} {relay : MailServer} {act : MailAction} {R : String} {L : Letter}
  {c client client' : MailClient} {m : Mail}

/-- The mail is not in the mailbox, but on its way or with a device. -/
def out (s : MailNet) (R : String) (L : Letter) : Prop :=
  (∃ e ∈ Task.allTodo s.relay.server.tasks, carried (s.reachable R) R e = some L) ∨
    ∃ c ∈ s.clients, c.peerId = R ∧
      ∃ row, (row ∈ (s.incoming c).filterMap mailOf ∨ row ∈ c.kept) ∧ letterOf row = L

theorem mem_letters : L ∈ s.letters R ↔
    (∃ m ∈ s.relay.box.mail, m.recipient = R ∧ mail m = L) ∨ s.out R L := by
  simp only [letters, clientsOf, Mailbox.mailsFor, out, mem_append, mem_map,
    mem_filter, mem_filterMap, mem_flatMap, decide_eq_true_eq, or_assoc, and_assoc]

theorem mem_clientsOf : c ∈ s.clientsOf R ↔ c ∈ s.clients ∧ c.peerId = R := by
  simp [clientsOf]

/-- A device may acknowledge the id. -/
def Knows (s : MailNet) (R : String) (id : String) : Prop :=
  ∃ c ∈ s.clients, c.peerId = R ∧ id ∈ c.known

theorem Knows.cases {id : String} (h : s.Knows R id) :
    (∃ L ∈ s.letters R, L.id = id) ∨ id ∈ s.acked R := by
  obtain ⟨c, hc, hp, hid⟩ := h
  rcases mem_append.mp hid with hid | hid
  · obtain ⟨row, hrow, rfl⟩ := mem_map.mp hid
    exact .inl ⟨letterOf row, mem_letters.mpr (.inr (.inr ⟨c, hc, hp, row, .inr hrow, rfl⟩)), rfl⟩
  · exact .inr (mem_flatMap.mpr ⟨c, mem_clientsOf.mpr ⟨hc, hp⟩, hid⟩)

structure Inv (s : MailNet) : Prop where
  relay : s.relay.Inv
  aimed : Aimed s.relay.server
  conns : ∀ c ∈ s.clients, ∀ g ∈ c.conns,
    g < s.relay.server.hub.nextGen ∧ (s.relay.server.lines g).peerId = c.peerId
  conn : ∀ c ∈ s.clients, ∀ g, c.conn = some g → g ∈ c.conns
  valid : ∀ R, ∀ L ∈ s.letters R, validMailId L.id
  same : ∀ R, ∀ L ∈ s.letters R, ∀ L' ∈ s.letters R, L.id = L'.id → L = L'
  heard : ∀ m ∈ s.relay.box.mail, s.Knows m.recipient m.id →
    (m.recipient, mail m) ∈ s.got.drop (s.mark m.key)
  marks : ∀ key, s.mark key ≤ s.got.length
  safe : s.Safe

theorem Inv.start : ({} : MailNet).Inv where
  relay := .start
  aimed := .start
  conns _ h := by cases h
  conn _ h := by cases h
  valid _ _ h := by cases h
  same _ _ h := by cases h
  heard _ h := by cases h
  marks _ := Nat.zero_le _
  safe := ⟨rfl, rfl⟩

theorem reachable_iff {g : Nat} : s.reachable R g ↔
    (∃ c ∈ s.clients, c.peerId = R ∧ c.conn = some g) ∧
      (s.relay.server.lines g).writer ≠ .gone := by
  simp [reachable]

theorem Inv.reachable (H : s.Inv) (g : Nat) (slot : ConnSlot)
    (hslot : s.relay.server.hub.conns.lookup g = some slot) (hr : s.reachable R g) :
    slot.peerId = R := by
  obtain ⟨⟨c, hc, hp, hconn⟩, -⟩ := reachable_iff.mp hr
  rw [← H.relay.peers g slot hslot, (H.conns c hc g (H.conn c hc g hconn)).2, hp]

theorem mem_incoming {item : Item} : item ∈ s.incoming c ↔
    ∃ g, c.conn = some g ∧ item ∈ (readable (s.relay.server.lines g)).drop c.read := by
  rw [incoming]
  cases c.conn with
  | none | some g => simp

/-- What a request stores. -/
def Posted (s : MailNet) (a : Action) (R : String) (L : Letter) : Prop :=
  ∃ g granted text sentFor row, a = .text g granted text .stored sentFor ∧
    postOf (s.relay.server.lines g).peerId granted text = some ⟨row.id, R, row.body⟩ ∧
    validMailId row.id ∧ row.sender = (s.relay.server.lines g).peerId ∧ letterOf row = L

theorem Inv.out_moved {a : Action} {server : Server} {box : Mailbox} {listing : List Nat}
    {notes : String × String → MailNote} (H : s.Inv) (hm : s.relay.server.Moved a server)
    (hmails : ∀ spec mails, a = .connect spec mails → mails = [])
    (h : ({ s with relay := ⟨server, box, listing, notes⟩ } : MailNet).out R L) :
    s.out R L ∨ s.Posted a R L := by
  have hsane := H.relay.sane
  have hreach : ∀ g, ({ s with relay := ⟨server, box, listing, notes⟩ } : MailNet).reachable R g →
      s.reachable R g := by
    intro g hr
    obtain ⟨hread, hwriter⟩ := reachable_iff.mp hr
    exact reachable_iff.mpr ⟨hread, fun hgone => hwriter ((hm.lines hsane.wf g).gone hgone)⟩
  rcases h with ⟨e, he, hL⟩ | ⟨c, hc, hp, row, hrow, hL⟩
  · have hL := carried_mono hreach hL
    rcases hm.mem_todo he with he | hadd
    · exact .inl (.inl ⟨e, he, hL⟩)
    rcases carried_adds hadd hsane H.reachable hL with hold | ⟨spec, mails, ha, hne⟩ | hposted
    · exact .inl (.inl hold)
    · exact absurd (hmails spec mails ha) hne
    · exact .inr hposted
  · refine .inl ?_
    rcases hrow with hrow | hrow
    · obtain ⟨item, hitem, hmail⟩ := mem_filterMap.mp hrow
      obtain ⟨g, hconn, hitem⟩ := mem_incoming.mp hitem
      rcases mem_readable hm hsane.wf hitem with hold | ⟨how, hperformed, hwriter⟩ | hfar
      · exact .inr ⟨c, hc, hp, row, .inl (mem_filterMap.mpr
          ⟨item, mem_incoming.mpr ⟨g, hconn, hold⟩, hmail⟩), hL⟩
      · refine .inl ⟨_, Server.mem_performed hperformed, ?_⟩
        rw [carried, if_pos, hmail]
        · exact congrArg some hL
        · refine any_eq_true.mpr ⟨g, by cases how <;> exact mem_cons_self, ?_⟩
          exact reachable_iff.mpr ⟨⟨c, hc, hp, hconn⟩, hwriter⟩
      · cases (mailOf_farewell hfar).symm.trans hmail
    · exact .inr ⟨c, hc, hp, row, .inr hrow, hL⟩

theorem box_step {s s' : MailServer} (h : s.step act = some s') (hm : m ∈ s'.box.mail) :
    (∃ m₀ ∈ s.box.mail, mail m = mail m₀ ∧ m.key = m₀.key ∧ m.recipient = m₀.recipient) ∨
      ∃ p, storing s act = some (m.sender, p) ∧ m.recipient = p.toPeer ∧ m.id = p.id ∧
        m.body = p.body := by
  have hold : m ∈ s.box.mail →
      ∃ m₀ ∈ s.box.mail, mail m = mail m₀ ∧ m.key = m₀.key ∧ m.recipient = m₀.recipient :=
    fun hm => ⟨m, hm, rfl, rfl, rfl⟩
  cases act with
  | connect =>
    cases h
    exact .inl (hold hm)
  | list gen =>
    rw [MailServer.step] at h
    split at h
    · cases h
      exact .inl (hold hm)
    · cases h
  | text gen granted text faults size stamp sentFor =>
    simp only [MailServer.step] at h
    split at h
    · cases h
    obtain ⟨server, -, rfl⟩ := Option.map_eq_some_iff.mp h
    cases hpost : postOf (s.server.lines gen).peerId granted text with
    | none =>
      simp only [MailServer.jobs, hpost] at hm
      exact .inl (hold (mem_of_mem_filter hm))
    | some p =>
      simp only [MailServer.jobs, hpost] at hm
      simp only [storing, MailServer.jobs, hpost]
      have hposted := Mailbox.post_posted s.box faults (s.server.lines gen).peerId p.id p.toPeer
        p.body size stamp
      revert hposted hm
      generalize s.box.post faults (s.server.lines gen).peerId p.id p.toPeer p.body size stamp =
        result
      obtain ⟨outcome, box⟩ := result
      intro hm hposted
      cases hposted with
      | failed | duplicate | half => exact .inl (hold hm)
      | stored =>
        rcases mem_append.mp hm with hm | hm
        · exact .inl (hold hm)
        · rw [mem_singleton] at hm
          subst hm
          exact .inr ⟨p, rfl, rfl, rfl, rfl⟩
  | markPushed sender id =>
    cases h
    obtain ⟨m₀, hm₀, rfl⟩ := mem_map.mp hm
    refine .inl ⟨m₀, hm₀, ?_⟩
    split <;> exact ⟨rfl, rfl, rfl⟩
  | cleanup =>
    cases h
    exact .inl (hold (mem_of_mem_filter hm))
  | relay act =>
    obtain ⟨-, server, -, rfl⟩ := MailServer.step_relay h
    exact .inl (hold hm)

theorem storing_new {s : MailServer} {sender : String} {p : MailPost}
    (h : storing s act = some (sender, p)) (hm : m ∈ s.box.mail) : m.key ≠ (sender, p.id) := by
  cases act with
  | text gen granted text faults size stamp sentFor =>
    cases hpost : postOf (s.server.lines gen).peerId granted text with
    | none =>
      simp only [storing, hpost] at h
      cases h
    | some p' =>
      simp only [storing, MailServer.jobs, hpost] at h
      have hposted := Mailbox.post_posted s.box faults (s.server.lines gen).peerId p'.id p'.toPeer
        p'.body size stamp
      revert hposted h
      generalize s.box.post faults (s.server.lines gen).peerId p'.id p'.toPeer p'.body size stamp =
        result
      obtain ⟨outcome, box⟩ := result
      intro h hposted
      cases hposted with
      | failed | duplicate | half => cases h
      | stored _ _ _ _ hnew =>
        cases h
        intro hkey
        refine find?_eq_none.mp hnew m hm ?_
        simpa [Mail.key] using hkey
  | _ => cases h

/-- What the relay does next with its connections and its mailbox. -/
inductive Turn (s s' : MailServer) (act : MailAction) : Prop
  | moved {a} (hm : s.server.Moved a s'.server)
      (hmails : ∀ spec mails, a = .connect spec mails → mails = [])
      (hstored : ∀ g granted text sentFor, a = .text g granted text .stored sentFor →
        ∀ p, postOf (s.server.lines g).peerId granted text = some p →
          storing s act = some ((s.server.lines g).peerId, p))
  | listed {gen} (h : act = .list gen) (hr : s.server.reads gen) (hs : s'.server = s.listed gen)
  | idle (h : s'.server = s.server)

theorem turn {s s' : MailServer} (h : s.step act = some s') : Turn s s' act := by
  cases act with
  | connect spec =>
    cases h
    refine .moved (a := .connect spec []) .connect (fun _ _ h => ?_) fun _ _ _ _ h => by cases h
    cases h
    rfl
  | list gen =>
    rw [MailServer.step] at h
    split at h
    next hr => cases h; exact .listed rfl hr.2 rfl
    next => cases h
  | text gen granted text faults size stamp sentFor =>
    simp only [MailServer.step] at h
    split at h
    · cases h
    obtain ⟨server, hstep, rfl⟩ := Option.map_eq_some_iff.mp h
    refine .moved (Server.step_moved hstep) (fun _ _ h => by cases h) fun g granted' text' sf h p hp => ?_
    simp only [Action.text.injEq] at h
    obtain ⟨rfl, rfl, rfl, hstored, rfl⟩ := h
    simp only [storing, hp, hstored]
  | markPushed | cleanup =>
    cases h
    exact .idle rfl
  | relay act =>
    obtain ⟨hconnect, server, hstep, rfl⟩ := MailServer.step_relay h
    refine .moved (Server.step_moved hstep) (fun spec mails ha => absurd ha (hconnect spec mails)) ?_
    rintro g granted text sentFor rfl
    cases h

theorem storing_valid {s : MailServer} {sender : String} {p : MailPost}
    (h : storing s act = some (sender, p)) : validMailId p.id := by
  cases act with
  | text gen granted text faults size stamp sentFor =>
    simp only [storing] at h
    split at h
    next p' _ hpost _ =>
      cases h
      obtain ⟨v, -, hv⟩ := Option.bind_eq_some_iff.mp hpost
      split at hv
      · obtain ⟨id, -, hv⟩ := Option.bind_eq_some_iff.mp hv
        split at hv
        · cases hv
        next hvalid =>
        obtain ⟨toPeer, -, hv⟩ := Option.bind_eq_some_iff.mp hv
        split at hv
        · cases hv
        · obtain ⟨body, -, rfl⟩ := Option.map_eq_some_iff.mp hv
          simpa using hvalid
      · cases hv
    next => cases h
  | _ => cases h

theorem Inv.letters_relayed (H : s.Inv) (h : s.relay.step act = some relay)
    (hL : L ∈ ({ s with relay } : MailNet).letters R) : L ∈ s.letters R ∨
      ∃ sender p, storing s.relay act = some (sender, p) ∧ p.toPeer = R ∧
        L = ⟨p.id, sender, p.body⟩ := by
  rcases mem_letters.mp hL with ⟨m, hm, rfl, rfl⟩ | hout
  · rcases box_step h hm with ⟨m₀, hm₀, hmail, -, hrecipient⟩ | ⟨p, hstored, hto, hid, hbody⟩
    · exact .inl (mem_letters.mpr (.inl ⟨m₀, hm₀, hrecipient.symm, hmail.symm⟩))
    · exact .inr ⟨m.sender, p, hstored, hto.symm, by rw [mail, hid, hbody]⟩
  rcases turn h with ⟨hm, hmails, hstored⟩ | ⟨rfl, hr, hs⟩ | hs
  · rcases H.out_moved hm hmails hout with hout | ⟨g, granted, text, sentFor, row, rfl, hpost, -, hsender,
      rfl⟩
    · exact .inl (mem_letters.mpr (.inr hout))
    · refine .inr ⟨_, _, hstored _ _ _ _ rfl _ hpost, rfl, ?_⟩
      rw [← hsender]
      rfl
  · refine .inl (mem_letters.mpr ?_)
    rename_i gen
    have hlines : relay.server.lines = s.relay.server.lines := by rw [hs]; rfl
    have hreach : ({ s with relay } : MailNet).reachable R = s.reachable R := by
      funext g
      simp only [MailNet.reachable, hlines]
    have hincoming : ∀ c, ({ s with relay } : MailNet).incoming c = s.incoming c := by
      intro c
      simp only [incoming, hlines]
    rcases hout with ⟨e, he, hL⟩ | ⟨c, hc, hp, row, hrow, hL⟩
    · rw [hreach] at hL
      simp only [hs, MailServer.listed, Server.spawn, Task.allTodo_spawn, mem_append, mem_map] at he
      rcases he with he | ⟨m, hm, rfl⟩
      · exact .inr (.inl ⟨e, he, hL⟩)
      -- one of those that wait for the connection
      rw [carried] at hL
      split at hL
      next hany =>
        obtain ⟨g, hg, hg'⟩ := any_eq_true.mp hany
        obtain rfl := mem_singleton.mp hg
        obtain ⟨⟨c, hc, hp, hconn⟩, -⟩ := reachable_iff.mp hg'
        rw [Mailbox.list, mem_insertionSort, Mailbox.mailsFor, mem_filter,
          decide_eq_true_eq, (H.conns c hc g (H.conn c hc g hconn)).2, hp] at hm
        exact .inl ⟨m, hm.1, hm.2, Option.some.inj hL⟩
      next => cases hL
    · exact .inr (.inr ⟨c, hc, hp, row, hincoming c ▸ hrow, hL⟩)
  · refine .inl (mem_letters.mpr (.inr ?_))
    simp only [out, incoming, hs] at hout ⊢
    have hreach : ({ s with relay } : MailNet).reachable R = s.reachable R := by
      funext g
      simp only [MailNet.reachable, hs]
    rwa [hreach] at hout

theorem Inv.relayed (H : s.Inv) (h : s.relay.step act = some relay)
    (hunused : ∀ sender p, storing s.relay act = some (sender, p) →
      (∀ L ∈ s.letters p.toPeer, L.id ≠ p.id) ∧ p.id ∉ s.acked p.toPeer) :
    Inv { s with relay, mark := s.markStored act } := by
  have hletters : ∀ {R L}, L ∈ ({ s with relay, mark := s.markStored act } : MailNet).letters R →
      L ∈ s.letters R ∨ ∃ sender p, storing s.relay act = some (sender, p) ∧ p.toPeer = R ∧
        L = ⟨p.id, sender, p.body⟩ := fun hL => H.letters_relayed h hL
  have hmark : ∀ key, s.markStored act key = s.mark key ∨
      ∃ sender p, storing s.relay act = some (sender, p) ∧ key = (sender, p.id) ∧
        s.markStored act key = s.got.length := by
    intro key
    rw [markStored]
    cases hstored : storing s.relay act with
    | none => exact .inl rfl
    | some stored =>
      obtain ⟨sender, p⟩ := stored
      by_cases hkey : key = (sender, p.id)
      · subst hkey
        exact .inr ⟨sender, p, rfl, rfl, update_self ..⟩
      · exact .inl (update_of_ne hkey ..)
  refine ⟨H.relay.step h, ?_, ?_, H.conn, fun R L hL => ?_, fun R L hL L' hL' hid => ?_,
    fun m hm hknows => ?_, fun key => ?_, ⟨H.safe.lost, H.safe.suppressed⟩⟩
  · rcases turn h with ⟨hm, -, -⟩ | ⟨-, hr, hs⟩ | hs
    · exact H.aimed.moved H.relay.sane hm
    · rename_i gen
      rw [Server.reads, Bool.and_eq_true] at hr
      have hgen := H.relay.tidy.running gen hr.1
      rw [hs]
      refine ⟨fun how g item he hmail => ?_, H.aimed.sent⟩
      simp only [MailServer.listed, Server.spawn, Task.allTodo_spawn, mem_append, mem_map] at he
      rcases he with he | ⟨m, -, he⟩
      · exact H.aimed.todo how g item he hmail
      cases he
      intro g' hg'
      rw [mem_singleton.mp hg']
      exact hgen
    · rw [hs]
      exact H.aimed
  · intro c hc g hg
    obtain ⟨hlt, hp⟩ := H.conns c hc g hg
    rcases turn h with ⟨hm, -, -⟩ | ⟨-, -, hs⟩ | hs
    · refine ⟨hlt.trans_le (hm.nextGen_le H.relay.sane.wf), ?_⟩
      rcases hm.line_peerId H.relay.sane (g := g) with hsame | ⟨-, -, -, hnew, -⟩
      · rw [hsame, hp]
      · exact absurd hnew (Nat.ne_of_lt hlt)
    · rw [hs]
      exact ⟨hlt, hp⟩
    · rw [hs]
      exact ⟨hlt, hp⟩
  · rcases hletters hL with hL | ⟨sender, p, hstored, -, rfl⟩
    · exact H.valid R L hL
    · exact storing_valid hstored
  · rcases hletters hL with hL | ⟨sender, p, hstored, rfl, rfl⟩
    · rcases hletters hL' with hL' | ⟨sender, p, hstored, rfl, rfl⟩
      · exact H.same R L hL L' hL' hid
      · exact absurd hid ((hunused sender p hstored).1 L hL)
    · rcases hletters hL' with hL' | ⟨sender', p', hstored', -, rfl⟩
      · exact absurd hid.symm ((hunused sender p hstored).1 L' hL')
      · cases hstored.symm.trans hstored'
        rfl
  · change (m.recipient, mail m) ∈ s.got.drop (s.markStored act m.key)
    rcases box_step h hm with ⟨m₀, hm₀, hmail, hkey, hrecipient⟩ | ⟨p, hstored, hto, hid, hbody⟩
    · rcases hmark m.key with hsame | ⟨sender, p, hstored, hnew, -⟩
      · rw [hsame, hkey, hrecipient, hmail]
        refine H.heard m₀ hm₀ ?_
        have hid : m.id = m₀.id := congrArg Letter.id hmail
        rw [← hrecipient, ← hid]
        exact hknows
      · exact absurd (hkey.symm.trans hnew) (storing_new hstored hm₀)
    · -- nobody knows the id of what is stored now
      obtain ⟨hnone, hacked⟩ := hunused m.sender p hstored
      have hknows : s.Knows m.recipient m.id := hknows
      rw [hto, hid] at hknows
      rcases hknows.cases with ⟨L, hL, hid'⟩ | hid'
      · exact absurd hid' (hnone L hL)
      · exact absurd hid' hacked
  · change s.markStored act key ≤ s.got.length
    rcases hmark key with hsame | ⟨-, -, -, -, hlength⟩
    · rw [hsame]
      exact H.marks key
    · rw [hlength]

/-! ## What a device does -/

theorem Inv.set {n : Nat} (H : s.Inv) (hc : client ∈ s.clients)
    (hp : client'.peerId = client.peerId)
    (hconns : ∀ g ∈ client'.conns,
      g < s.relay.server.hub.nextGen ∧ (s.relay.server.lines g).peerId = client.peerId)
    (hconn : ∀ g, client'.conn = some g → g ∈ client'.conns ∧ (client.conn = some g ∨
      ∀ how g' item, .put how g' item ∈ Task.allTodo s.relay.server.tasks → mailOf item ≠ none →
        g ∉ receivers how g'))
    (hincoming : ∀ row ∈ (s.incoming client').filterMap mailOf,
      row ∈ (s.incoming client).filterMap mailOf)
    (hkept : ∀ row ∈ client'.kept, letterOf row ∈ s.letters client.peerId)
    (hknown : ∀ id ∈ client'.known, id ∈ client.known ∨
      ∀ m ∈ s.relay.box.mail, m.recipient = client.peerId → m.id = id →
        (m.recipient, mail m) ∈ s.got.drop (s.mark m.key)) :
    (s.set n client').Inv := by
  have hmem : ∀ {c}, c ∈ (s.set n client').clients → c = client' ∨ c ∈ s.clients :=
    fun h => (mem_or_eq_of_mem_set h).symm
  have hletters : ∀ {R L}, L ∈ (s.set n client').letters R → L ∈ s.letters R := by
    intro R L hL
    rcases mem_letters.mp hL with hbox | ⟨e, he, hcarried⟩ | ⟨c, hc', hR, row, hrow, hrowL⟩
    · exact mem_letters.mpr (.inl hbox)
    · refine mem_letters.mpr (.inr (.inl ⟨e, he, ?_⟩))
      cases e with
      | put how g item =>
        rw [carried] at hcarried ⊢
        split at hcarried
        next hany =>
          obtain ⟨g', hg', hr⟩ := any_eq_true.mp hany
          obtain ⟨⟨c, hc', hR, hg⟩, hwriter⟩ := reachable_iff.mp hr
          rw [if_pos (any_eq_true.mpr ⟨g', hg', ?_⟩), hcarried]
          rcases hmem hc' with rfl | hc'
          · rcases (hconn g' hg).2 with hold | hnone
            · exact reachable_iff.mpr ⟨⟨client, hc, hp.symm.trans hR, hold⟩, hwriter⟩
            · refine absurd hg' (hnone how g item he fun hmail => ?_)
              rw [hmail] at hcarried
              cases hcarried
          · exact reachable_iff.mpr ⟨⟨c, hc', hR, hg⟩, hwriter⟩
        next => cases hcarried
      | call call =>
        cases call with
        | deliver => exact hcarried
        | _ => cases hcarried
      | _ => cases hcarried
    · rcases hmem hc' with rfl | hc'
      · rw [hp] at hR
        subst hR
        rcases hrow with hrow | hrow
        · exact mem_letters.mpr (.inr (.inr ⟨client, hc, rfl, row, .inl (hincoming row hrow), hrowL⟩))
        · exact hrowL ▸ hkept row hrow
      · exact mem_letters.mpr (.inr (.inr ⟨c, hc', hR, row, hrow, hrowL⟩))
  refine ⟨H.relay, H.aimed, fun c hc' g hg => ?_, fun c hc' g hg => ?_, fun R L hL =>
    H.valid R L (hletters hL), fun R L hL L' hL' => H.same R L (hletters hL) L' (hletters hL'),
    fun m hm hknows => ?_, H.marks, ⟨H.safe.lost, H.safe.suppressed⟩⟩
  · rcases hmem hc' with rfl | hc'
    · rw [hp]
      exact hconns g hg
    · exact H.conns c hc' g hg
  · rcases hmem hc' with rfl | hc'
    · exact (hconn g hg).1
    · exact H.conn c hc' g hg
  · obtain ⟨c, hc', hR, hid⟩ := hknows
    rcases hmem hc' with rfl | hc'
    · rw [hp] at hR
      rcases hknown _ hid with hold | hheard
      · exact H.heard m hm ⟨client, hc, hR, hold⟩
      · exact hheard m hm hR.symm rfl
    · exact H.heard m hm ⟨c, hc', hR, hid⟩

theorem mem_letters_of_kept (hc : client ∈ s.clients) {row : MailItem} (hrow : row ∈ client.kept) :
    letterOf row ∈ s.letters client.peerId :=
  mem_letters.mpr (.inr (.inr ⟨client, hc, rfl, row, .inr hrow, rfl⟩))

theorem Inv.set_less {n : Nat} (H : s.Inv) (hc : client ∈ s.clients)
    (hp : client'.peerId = client.peerId) (hconns : client'.conns = client.conns)
    (hconn : client'.conn = none ∨ client'.conn = client.conn ∧ client'.read = client.read)
    (hkept : ∀ row ∈ client'.kept, row ∈ client.kept)
    (hknown : ∀ id ∈ client'.known, id ∈ client.known) : (s.set n client').Inv := by
  refine H.set hc hp (fun g hg => H.conns client hc g (hconns ▸ hg)) (fun g hg => ?_)
    (fun row hrow => ?_) (fun row hrow => mem_letters_of_kept hc (hkept row hrow))
    fun id hid => .inl (hknown id hid)
  · rcases hconn with hnone | ⟨hsame, -⟩
    · cases hnone.symm.trans hg
    · rw [hsame] at hg
      exact ⟨hconns ▸ H.conn client hc g hg, .inl hg⟩
  rcases hconn with hnone | ⟨hsame, hread⟩
  · rw [incoming, hnone] at hrow
    cases hrow
  · rwa [incoming, hsame, hread] at hrow

theorem mem_of_get {n : Nat} (h : s.clients[n]? = some client) : client ∈ s.clients :=
  mem_of_getElem? h

theorem Inv.drain {n : Nat} (H : s.Inv) (hc : client ∈ s.clients) :
    (s.set n client.drain).Inv := by
  have hkept : ∀ row ∈ client.drain.kept, row ∈ client.kept := by
    intro row hrow
    simp only [MailClient.kept, MailClient.drain, MailQueue.drain, nil_append,
      flatten_append, flatten_cons, flatten_nil, append_nil,
      mem_append] at hrow ⊢
    rcases hrow with hrow | hrow | hrow
    · exact .inl (mem_of_mem_putAll hrow)
    · exact .inr hrow
    · exact .inl (.inl hrow)
  refine H.set_less hc rfl rfl (.inr ⟨rfl, rfl⟩) hkept fun id hid => ?_
  rcases mem_append.mp hid with hid | hid
  · obtain ⟨row, hrow, rfl⟩ := mem_map.mp hid
    exact mem_append_left _ (mem_map_of_mem (hkept row hrow))
  · exact mem_append_right _ hid

theorem Inv.handled {n k : Nat} {batch : List MailItem} {ids : List String} (H : s.Inv)
    (hc : client ∈ s.clients) (hbatch : client.batches[k]? = some batch)
    (hids : ∀ id ∈ ids, id ∈ batch.map (·.id)) : (s.set n (client.handled k ids)).Inv := by
  have hbatch : ∀ row ∈ batch, row ∈ client.kept := fun row hrow =>
    mem_append_right _ (mem_flatten.mpr ⟨batch, mem_of_getElem? hbatch, hrow⟩)
  have hrest : ∀ row ∈ (client.batches.eraseIdx k).flatten, row ∈ client.batches.flatten := by
    intro row hrow
    obtain ⟨b, hb, hrow⟩ := mem_flatten.mp hrow
    exact mem_flatten.mpr ⟨b, mem_of_mem_eraseIdx hb, hrow⟩
  have hack : ∀ id ∈ ackIds ids, id ∈ client.kept.map (·.id) := by
    intro id hid
    obtain ⟨raw, hraw, rfl⟩ :=
      mem_map.mp (mem_of_mem_filter (mem_of_mem_take hid))
    obtain ⟨row, hrow, rfl⟩ := mem_map.mp (hids raw hraw)
    have hvalid := H.valid _ _ (mem_letters_of_kept hc (hbatch row hrow))
    rw [letterOf] at hvalid
    rw [jsTrim_of_validMailId hvalid]
    exact mem_map_of_mem (hbatch row hrow)
  have hkept : ∀ row ∈ (client.handled k ids).kept, row ∈ client.kept := by
    intro row hrow
    rw [MailClient.handled] at hrow
    split at hrow
    · exact mem_append.mpr ((mem_append.mp hrow).imp_right (hrest row))
    simp only [MailClient.kept, MailQueue.ack, mem_append, mem_filter] at hrow ⊢
    rcases hrow with (hrow | hrow) | hrow
    · exact .inl (.inl hrow.1)
    · exact .inl (.inr hrow.1)
    · exact .inr (hrest row hrow)
  have hsame : (client.handled k ids).peerId = client.peerId ∧
      (client.handled k ids).conns = client.conns ∧ (client.handled k ids).conn = client.conn ∧
      (client.handled k ids).read = client.read ∧
      ∀ id ∈ (client.handled k ids).acks.flatten, id ∈ client.known := by
    have hacks : ∀ id ∈ client.acks.flatten, id ∈ client.known := fun id =>
      mem_append_right _
    rw [MailClient.handled]
    split
    · exact ⟨rfl, rfl, rfl, rfl, hacks⟩
    refine ⟨rfl, rfl, rfl, rfl, fun id hid => ?_⟩
    rw [flatten_append, mem_append, flatten_cons, flatten_nil, append_nil] at hid
    exact hid.elim (hacks id) fun hid => mem_append_left _ (hack id hid)
  obtain ⟨hp, hconns, hconn, hread, hacks⟩ := hsame
  refine H.set_less hc hp hconns (.inr ⟨hconn, hread⟩) hkept fun id hid => ?_
  rcases mem_append.mp hid with hid | hid
  · obtain ⟨row, hrow, rfl⟩ := mem_map.mp hid
    exact mem_append_left _ (mem_map_of_mem (hkept row hrow))
  · exact hacks id hid

theorem Inv.receives (H : s.Inv) (more : List (String × Letter)) :
    Inv { s with got := s.got ++ more } :=
  ⟨H.relay, H.aimed, H.conns, H.conn, H.valid, H.same, fun m hm hknows => by
    have hheard := H.heard m hm hknows
    change _ ∈ (s.got ++ more).drop _
    rw [drop_append]
    exact mem_append_left _ hheard, fun key => by
    change _ ≤ (s.got ++ more).length
    rw [length_append]
    exact (H.marks key).trans (Nat.le_add_right _ _), ⟨H.safe.lost, H.safe.suppressed⟩⟩

theorem mem_push {q : MailQueue} {row row' : MailItem}
    (h : row' ∈ (q.push row).items ++ (q.push row).inFlight) :
    row' = row ∨ row' ∈ q.items ++ q.inFlight := by
  rw [MailQueue.push] at h
  split at h
  · exact .inr h
  split at h
  · exact .inr h
  · simp only [mem_append, mem_singleton] at h ⊢
    grind

theorem receive_eq (client : MailClient) (item : Item) : ∃ q,
    client.receive item = { client with read := client.read + 1, queue := q } ∧
      ∀ row ∈ q.items ++ q.inFlight,
        row ∈ client.queue.items ++ client.queue.inFlight ∨ mailOf item = some row := by
  rw [MailClient.receive]
  split
  · refine ⟨_, rfl, fun row hrow => .inl ?_⟩
    rw [MailQueue.clearInFlight, append_nil] at hrow
    exact mem_append_left _ hrow
  next id sender ts body hmsg =>
    refine ⟨_, rfl, fun row hrow => ?_⟩
    rcases mem_push hrow with rfl | hrow
    · refine .inr ?_
      rw [mailOf, hmsg]
    · exact .inl hrow
  · exact ⟨_, rfl, fun row hrow => .inl hrow⟩

theorem Inv.readBy {n : Nat} {item : Item} (H : s.Inv) (hc : client ∈ s.clients)
    (hitem : item ∈ s.incoming client)
    (hnext : ∀ i ∈ s.incoming { client with read := client.read + 1 }, i ∈ s.incoming client) :
    (s.readBy n client item).Inv := by
  obtain ⟨q, hreceive, hq⟩ := receive_eq client item
  have hincoming : ∀ row ∈ (s.incoming (client.receive item)).filterMap mailOf,
      row ∈ (s.incoming client).filterMap mailOf := by
    intro row hrow
    obtain ⟨i, hi, hmail⟩ := mem_filterMap.mp hrow
    rw [hreceive] at hi
    exact mem_filterMap.mpr ⟨i, hnext i hi, hmail⟩
  have hkept : ∀ row ∈ (client.receive item).kept, row ∈ client.kept ∨ mailOf item = some row := by
    intro row hrow
    rw [hreceive] at hrow
    rcases mem_append.mp hrow with hrow | hrow
    · exact (hq row hrow).imp_left (mem_append_left _)
    · exact .inl (mem_append_right _ hrow)
  have hknown : ∀ id ∈ (client.receive item).known, id ∈ client.known ∨
      ∃ row, mailOf item = some row ∧ row.id = id := by
    intro id hid
    rcases mem_append.mp hid with hid | hid
    · obtain ⟨row, hrow, rfl⟩ := mem_map.mp hid
      rcases hkept row hrow with hold | hnew
      · exact .inl (mem_append_left _ (mem_map_of_mem hold))
      · exact .inr ⟨row, hnew, rfl⟩
    · rw [hreceive] at hid
      exact .inl (mem_append_right _ hid)
  have hletter : ∀ row, mailOf item = some row → letterOf row ∈ s.letters client.peerId :=
    fun row hmail => mem_letters.mpr (.inr (.inr ⟨client, hc, rfl, row,
      .inl (mem_filterMap.mpr ⟨item, hitem, hmail⟩), rfl⟩))
  have hset : ∀ {s' : MailNet}, s'.Inv → s'.relay = s.relay → s'.clients = s.clients →
      (∀ row, mailOf item = some row → ∀ m ∈ s.relay.box.mail, m.recipient = client.peerId →
        m.id = row.id → (m.recipient, mail m) ∈ s'.got.drop (s'.mark m.key)) →
      (s'.set n (client.receive item)).Inv := by
    intro s' H' hrelay hclients hheard
    have hreach : s'.reachable = s.reachable := by
      funext R g
      simp only [MailNet.reachable, hrelay, hclients]
    have hsame : s'.letters = s.letters := by
      funext R
      simp only [letters, clientsOf, incoming, hreach, hrelay, hclients]
    have hin : s'.incoming = s.incoming := by
      funext c
      simp only [incoming, hrelay]
    have hc' : client ∈ s'.clients := hclients ▸ hc
    refine H'.set hc' (by rw [hreceive]) (fun g hg => ?_)
      (fun g hg => ?_) (by rwa [hin]) (fun row hrow => ?_) fun id hid => ?_
    · rw [hreceive] at hg
      rw [hrelay]
      exact H.conns client hc g hg
    · rw [hreceive] at hg ⊢
      exact ⟨H.conn client hc g hg, .inl hg⟩
    · rw [hsame]
      exact (hkept row hrow).elim (mem_letters_of_kept hc) (hletter row)
    · rcases hknown id hid with hold | ⟨row, hmail, rfl⟩
      · exact .inl hold
      · rw [hrelay]
        exact .inr (hheard row hmail)
  rw [MailNet.readBy]
  cases hmail : mailOf item with
  | none => exact hset H rfl rfl fun row h => by cases hmail.symm.trans h
  | some row =>
    have hheld : ∀ x ∈ client.queue.items ++ client.queue.inFlight, x.id = row.id →
        letterOf x = letterOf row := fun x hx hid =>
      H.same _ _ (mem_letters_of_kept hc (mem_append_left _ hx)) _ (hletter row hmail) hid
    have hnone : ((client.queue.items ++ client.queue.inFlight).any (·.id = row.id) &&
        !(client.queue.items ++ client.queue.inFlight).any (letterOf · = letterOf row)) = false := by
      rw [← Bool.not_eq_true]
      intro h
      simp only [Bool.and_eq_true, Bool.not_eq_true', any_eq_true, any_eq_false,
        decide_eq_true_eq] at h
      obtain ⟨⟨x, hx, hid⟩, hno⟩ := h
      exact hno x hx (hheld x hx hid)
    simp only [hnone]
    refine hset (H.receives [(client.peerId, letterOf row)]) rfl rfl fun row' hrow' m hm hR hid => ?_
    cases hmail.symm.trans hrow'
    have hsame := H.same _ _ (mem_letters.mpr (.inl ⟨m, hm, hR, rfl⟩)) _ (hletter row hmail) hid
    rw [drop_append_of_le_length (H.marks m.key), hR, hsame]
    exact mem_append_right _ mem_cons_self

theorem postOf_ackFrame {peerId : String} {granted : Bool} {ids : List String} :
    postOf peerId granted (some (ackFrame ids)) = none := by
  simp [postOf, ackFrame, Json.field?, Json.asStr]

theorem mem_of_ackOf {granted : Bool} {ids : List String} {id : String}
    (h : id ∈ ackOf granted (some (ackFrame ids))) : id ∈ ids := by
  rw [ackOf] at h
  split at h
  · simpa [ackFrame, Json.field?, Json.asArray, Json.asStr, lookup_cons, filterMap_map,
      Function.comp_def] using h
  · cases h

theorem Inv.set_loseAck {n k : Nat} (H : s.Inv) (hc : client ∈ s.clients) :
    (s.set n (client.loseAck k)).Inv := by
  refine H.set_less hc rfl rfl (.inr ⟨rfl, rfl⟩) (fun _ => id) fun id hid => ?_
  rcases mem_append.mp hid with hid | hid
  · exact mem_append_left _ hid
  · obtain ⟨ids, hids, hid⟩ := mem_flatten.mp hid
    exact mem_append_right _
      (mem_flatten.mpr ⟨ids, mem_of_mem_eraseIdx hids, hid⟩)

theorem removed_ack {gen : Nat} {granted : Bool} {ids : List String}
    (h : s.relay.step (.text gen granted (some (ackFrame ids)) {} 0 0 none) = some relay)
    (hm : m ∈ s.relay.box.mail) (hgone : m ∉ relay.box.mail) :
    m.recipient = (s.relay.server.lines gen).peerId ∧ m.id ∈ ids := by
  simp only [MailServer.step] at h
  split at h
  · cases h
  obtain ⟨server, -, rfl⟩ := Option.map_eq_some_iff.mp h
  simp only [MailServer.jobs, postOf_ackFrame, Mailbox.ack, mem_filter, hm, true_and, decide_eq_true_eq,
    Classical.not_not] at hgone
  exact ⟨hgone.1, mem_of_ackOf hgone.2⟩

theorem Inv.ack {n k gen : Nat} {granted : Bool} {ids : List String} (H : s.Inv)
    (hc : client ∈ s.clients) (hids : client.acks[k]? = some ids) (hgen : gen ∈ client.conns)
    (h : s.relay.step (.text gen granted (some (ackFrame ids)) {} 0 0 none) = some relay) :
    (({ s with relay, lost := s.lost ++ s.unreceived relay.box } : MailNet).set n
      (client.loseAck k)).Inv := by
  have hnone : storing s.relay (.text gen granted (some (ackFrame ids)) {} 0 0 none) = none := by
    simp only [storing, postOf_ackFrame]
  have hlost : s.unreceived relay.box = [] := by
    refine filter_eq_nil_iff.mpr fun m hm hgone => ?_
    obtain ⟨hgone, hunheard⟩ := of_decide_eq_true hgone
    obtain ⟨hrecipient, hid⟩ := removed_ack h hm hgone
    refine hunheard (H.heard m hm ⟨client, hc, ?_, ?_⟩)
    · rw [hrecipient, (H.conns client hc gen hgen).2]
    · exact mem_append_right _ (mem_flatten.mpr ⟨ids, mem_of_getElem? hids, hid⟩)
  have H' := H.relayed h fun sender p hstored => by cases hnone.symm.trans hstored
  have hmark : s.markStored (.text gen granted (some (ackFrame ids)) {} 0 0 none) = s.mark := by
    simp only [markStored, hnone]
  rw [hmark] at H'
  rw [hlost, append_nil]
  exact H'.set_loseAck hc

theorem Inv.connect {n : Nat} {spec : RegisterSpec} (H : s.Inv) (hc : client ∈ s.clients)
    (hp : spec.peerId = client.peerId) (h : s.relay.step (.connect spec) = some relay) :
    (({ s with relay } : MailNet).set n { client with
      conns := (s.relay.server.hub.register spec).1.generation :: client.conns
      conn := some (s.relay.server.hub.register spec).1.generation
      read := 0 }).Inv := by
  have H' := H.relayed h fun sender p hstored => by cases hstored
  have hnext : relay.server.hub.nextGen = s.relay.server.hub.nextGen + 1 := by
    cases h
    exact H.relay.sane.wf.nextGen.nextGen_makeRoom
  have hline : relay.server.lines s.relay.server.hub.nextGen =
      { s.relay.server.lines s.relay.server.hub.nextGen with
        peerId := spec.peerId, running := true } := by
    cases h
    exact update_self ..
  refine H'.set hc rfl (fun g hg => ?_) (fun g hg => ?_) (fun row hrow => ?_)
    (fun row hrow => mem_letters_of_kept (s := { s with relay }) hc hrow) fun id hid => .inl hid
  · rcases mem_cons.mp hg with rfl | hg
    · exact ⟨hnext ▸ Nat.lt_succ_self _, (congrArg Line.peerId hline).trans hp⟩
    · exact H'.conns client hc g hg
  · cases hg
    refine ⟨mem_cons_self, .inr fun how g' item he hmail hg => ?_⟩
    cases h
    simp only [Server.connect, Server.spawn, Task.allTodo_spawn, mem_append, map_nil,
      map_cons, mem_singleton] at he
    rcases he with he | he | he
    · exact absurd (H.aimed.todo how g' item he hmail _ hg) (Nat.lt_irrefl _)
    · have hproper := Server.proper_pushes
        (Server.isPush_detached (H.relay.sane.wf.detached_register spec)) _ he
      obtain ⟨push, hpush, he⟩ := mem_map.mp he
      cases he
      exact carrier_of_mail hproper hmail
    · cases he
      exact hmail rfl
  · -- nothing was sent to it
    obtain ⟨item, hitem, hmail⟩ := mem_filterMap.mp hrow
    obtain ⟨g, hg, hitem⟩ := mem_incoming.mp hitem
    cases hg
    have hsent : item ∈ (s.relay.server.lines s.relay.server.hub.nextGen).sent := by
      have hitem : item ∈ (readable (relay.server.lines s.relay.server.hub.nextGen)).drop 0 := hitem
      rw [hline] at hitem
      exact mem_sent_of_readable hitem
    cases (H.aimed.sent _ le_rfl item hsent).symm.trans hmail

theorem Inv.start_device (H : s.Inv) (peerId : String) :
    Inv { s with clients := s.clients ++ [{ peerId }] } := by
  have hmem : ∀ {c : MailClient}, c ∈ s.clients ++ [({ peerId } : MailClient)] →
      c ∈ s.clients ∨ c = ({ peerId } : MailClient) := fun h =>
    (mem_append.mp h).imp_right mem_singleton.mp
  have hletters : ∀ {R L}, L ∈ ({ s with clients := s.clients ++ [{ peerId }] } : MailNet).letters R →
      L ∈ s.letters R := by
    intro R L hL
    rcases mem_letters.mp hL with hbox | ⟨e, he, hcarried⟩ | ⟨c, hc, hp, row, hrow, hrowL⟩
    · exact mem_letters.mpr (.inl hbox)
    · refine mem_letters.mpr (.inr (.inl ⟨e, he, carried_mono (fun g hr => ?_) hcarried⟩))
      obtain ⟨⟨c, hc, hp, hconn⟩, hwriter⟩ := reachable_iff.mp hr
      rcases hmem hc with hc | rfl
      · exact reachable_iff.mpr ⟨⟨c, hc, hp, hconn⟩, hwriter⟩
      · cases hconn
    · rcases hmem hc with hc | rfl
      · exact mem_letters.mpr (.inr (.inr ⟨c, hc, hp, row, hrow, hrowL⟩))
      · rcases hrow with hrow | hrow <;> cases hrow
  refine ⟨H.relay, H.aimed, fun c hc g hg => ?_, fun c hc g hg => ?_, fun R L hL =>
    H.valid R L (hletters hL), fun R L hL L' hL' => H.same R L (hletters hL) L' (hletters hL'),
    fun m hm hknows => ?_, H.marks, ⟨H.safe.lost, H.safe.suppressed⟩⟩
  · rcases hmem hc with hc | rfl
    · exact H.conns c hc g hg
    · cases hg
  · rcases hmem hc with hc | rfl
    · exact H.conn c hc g hg
    · cases hg
  · obtain ⟨c, hc, hp, hid⟩ := hknows
    rcases hmem hc with hc | rfl
    · exact H.heard m hm ⟨c, hc, hp, hid⟩
    · cases hid

theorem Inv.step {act : MailNetAction} {s' : MailNet} (H : s.Inv) (hok : s.unused act = true)
    (h : s.step act = some s') : s'.Inv := by
  cases act with
  | start peerId =>
    cases h
    exact H.start_device peerId
  | connect n spec =>
    obtain ⟨client, hc, h⟩ := Option.bind_eq_some_iff.mp h
    split at h
    next hp =>
      obtain ⟨relay, hstep, rfl⟩ := Option.map_eq_some_iff.mp h
      exact H.connect (mem_of_get hc) hp hstep
    next => cases h
  | disconnect n =>
    obtain ⟨client, hc, rfl⟩ := Option.map_eq_some_iff.mp h
    exact H.set_less (mem_of_get hc) rfl rfl (.inl rfl) (fun _ => id) fun _ => id
  | relay act =>
    simp only [MailNet.step] at h
    split at h
    · obtain ⟨relay, hstep, rfl⟩ := Option.map_eq_some_iff.mp h
      refine H.relayed hstep fun sender p hstored => ?_
      rw [unused, hstored, Option.all_some, Bool.and_eq_true, all_eq_true, decide_eq_true_eq] at hok
      exact ⟨fun L hL => of_decide_eq_true (hok.1 L hL), hok.2⟩
    · cases h
  | ack n k gen granted =>
    obtain ⟨client, hc, h⟩ := Option.bind_eq_some_iff.mp h
    obtain ⟨ids, hids, h⟩ := Option.bind_eq_some_iff.mp h
    split at h
    next hgen =>
      obtain ⟨relay, hstep, rfl⟩ := Option.map_eq_some_iff.mp h
      exact H.ack (mem_of_get hc) hids hgen hstep
    next => cases h
  | loseAck n k =>
    obtain ⟨client, hc, rfl⟩ := Option.map_eq_some_iff.mp h
    exact H.set_loseAck (mem_of_get hc)
  | read n =>
    obtain ⟨client, hc, h⟩ := Option.bind_eq_some_iff.mp h
    obtain ⟨gen, hconn, h⟩ := Option.bind_eq_some_iff.mp h
    obtain ⟨item, hitem, rfl⟩ := Option.map_eq_some_iff.mp h
    refine H.readBy (mem_of_get hc) (mem_incoming.mpr ⟨gen, hconn, ?_⟩) fun i hi => ?_
    · exact mem_readable_of_received hitem
    · obtain ⟨g, hg, hi⟩ := mem_incoming.mp hi
      exact mem_incoming.mpr ⟨g, hg, (drop_sublist_drop_left _ (Nat.le_succ _)).subset hi⟩
  | drain n =>
    obtain ⟨client, hc, rfl⟩ := Option.map_eq_some_iff.mp h
    exact H.drain (mem_of_get hc)
  | handled n k ids =>
    obtain ⟨client, hc, h⟩ := Option.bind_eq_some_iff.mp h
    obtain ⟨batch, hbatch, h⟩ := Option.bind_eq_some_iff.mp h
    split at h
    next hids =>
      cases h
      exact H.handled (mem_of_get hc) hbatch fun id hid =>
        of_decide_eq_true (all_eq_true.mp hids id hid)
    next => cases h

/-- Where no mail is stored under an id that another mail for the recipient has that is around, every
`ack` removes mails that were received, and no mail is taken for another. -/
theorem acks_safe {acts : List MailNetAction}
    (h : Run step (fun s act => s.unused act = true) {} acts s) : s.Safe :=
  (h.invariant (I := Inv) (fun hok H hstep => H.step hok hstep) .start).safe

def peerC : String := "bt2_cccccccccccccccccccccccccccccccccccccccccccccccccccccccccccccccc"

/-- One device of each of three peers, connected and ready. -/
def devices : List MailNetAction :=
  [.start Server.peerB, .start Server.peerA, .start peerC,
    .connect 0 ⟨Server.peerB, "legacy", "", ""⟩, .connect 1 ⟨Server.peerA, "legacy", "", ""⟩,
    .connect 2 ⟨peerC, "legacy", "", ""⟩] ++
    List.replicate 3 (.relay (.relay (.perform 0))) ++ [1, 2, 3].map fun g => .relay (.list g)

/-- The connection posts a mail to `peerB`. -/
def post (g : Nat) (id : String) : MailNetAction :=
  .relay (.text g true (some (MailServer.postFrame Server.peerB id)) {} 4 0 none)

/-- A mail from `peerA` is delivered, read and handled. -/
def handledMail : List MailNetAction :=
  post 2 "m1" :: (List.replicate 3 (.relay (.relay (.perform 0))) ++
    List.replicate 2 (.relay (.relay (.write 1 .takeControl))) ++
      [.read 0, .read 0, .drain 0, .handled 0 0 ["m1"]])

/-- After the `ack` another sender may use the id. -/
theorem acks_safe_reused : ∃ acts s, Run step (fun s act => s.unused act = true) {} acts s ∧
    s.relay.box.mail.map mail = [⟨"m1", peerC, .null⟩] ∧
      s.got = [(Server.peerB, ⟨"m1", Server.peerA, .null⟩)] ∧ s.Safe := by
  let acts := devices ++ handledMail ++ [.ack 0 0 1 true, post 3 "m1"]
  have hallowed : allowed step unused {} acts = true := by decide +kernel
  have hrun : (exec step {} acts).map (fun s => (s.relay.box.mail.map mail, s.got)) =
      some ([⟨"m1", peerC, .null⟩], [(Server.peerB, ⟨"m1", Server.peerA, .null⟩)]) := by
    decide +kernel
  obtain ⟨s, hs, hend⟩ := Option.map_eq_some_iff.mp hrun
  rw [Prod.mk.injEq] at hend
  have hrun := Run.of_allowed hallowed hs
  exact ⟨acts, s, hrun, hend.1, hend.2, acks_safe hrun⟩

/-- Another sender uses the id before the `ack` is there, which removes both mails. -/
theorem unrelated_ack : ¬ ∀ acts s, FreeRun step {} acts s → s.Safe := by
  intro h
  let acts := devices ++ handledMail ++ [post 3 "m1", .ack 0 0 1 true]
  have hrun : (exec step {} acts).map (fun s => s.lost.map mail) =
      some [⟨"m1", peerC, .null⟩] := by
    decide +kernel
  obtain ⟨s, hs, hend⟩ := Option.map_eq_some_iff.mp hrun
  rw [(h acts s (.of_exec hs)).lost] at hend
  cases hend

end MailNet

end Bluetalk.Cloud

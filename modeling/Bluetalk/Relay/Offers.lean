import Bluetalk.Relay.ServerTasks
import Bluetalk.Relay.ServerTunnels

/-!
# The order of offers and closes

`open_tunnel` enters the pending open under the lock and puts the `incoming` into the queue of the
callee after it. Where nothing ends the open in between, the callee is told of a tunnel before it is
told that the tunnel is closed.
-/

open List Option Function

namespace Bluetalk.Relay

/-- The tunnel that an `incoming` announces. -/
def Item.incoming? (item : Item) : Option Nat :=
  match item.msg with
  | .text (.incoming ..) => item.tunnel
  | _ => none

/-- The tunnel that a `closed` ends. -/
def Item.closed? (item : Item) : Option Nat :=
  match item.msg with
  | .text (.closed ..) => item.tunnel
  | _ => none

variable {item : Item}

theorem Item.not_incoming {n : Nat} (h : item.closed? = some n) :
    item.incoming? = none := by
  rw [closed?] at h
  split at h
  next hmsg => rw [incoming?, hmsg]
  next => cases h

/-- The ends of the tunnel whose `incoming` is still to be sent. -/
def Effect.offer? : Effect → Option (Endpoint × Endpoint)
  | .put (.offer opening) gen item =>
    match item.msg with
    | .text (.incoming x ..) => some (⟨opening.gen, opening.localId⟩, ⟨gen, x⟩)
    | _ => none
  | _ => none

/-- The tunnel that an effect presumes to have been announced: it tells that the tunnel is closed,
or it carries a frame of it. -/
def Effect.presumes? : Effect → Option Nat
  | .put _ _ item | .call (.tell _ item) => item.closed?
  | .frame _ _ _ _ f => some f.tunnel
  | _ => none

theorem Line.Farewell.not_closed (h : Line.Farewell item) : item.closed? = none := by
  rcases h with rfl | rfl <;> rfl

theorem Line.Farewell.not_incoming (h : Line.Farewell item) :
    item.incoming? = none := by
  rcases h with rfl | rfl <;> rfl

namespace Server

variable {s s' : Server} {act : Action} {g n : Nat} {kind : Kind} {a b c o : Endpoint}
  {e : Effect} {item : Item} {opening : Opening} {how : How}

/-- The action ends the pending open between these two, or takes it out of the table as accepted. -/
def ends (s : Server) (act : Action) (opener callee : Endpoint) : Bool :=
  s.leaves act = some opener.remoteGen || s.leaves act = some callee.remoteGen ||
    match s.performed act with
    | some (.call (.failOpen opening _)) => s.hub.connMatches opening.sender opening.gen &&
      opener = ⟨opening.gen, opening.localId⟩
    | some (.call (.accept p g x)) => s.hub.connMatches p g && callee = ⟨g, x⟩
    | some (.call (.reject p g x)) => s.hub.connMatches p g && callee = ⟨g, x⟩
    | some (.call (.close p g x _ _)) => s.hub.connMatches p g &&
      (opener = ⟨g, x⟩ || callee = ⟨g, x⟩)
    | _ => false

/-- No pending open ends while its `incoming` is still to be sent. -/
def sparesOffers (s : Server) (act : Action) : Bool :=
  (Task.allTodo s.tasks).all fun e => e.offer?.all fun p => !s.ends act p.1 p.2

theorem Moved.spared (hm : s.Moved act s') (H : s.hub.Wf) (he : s.entry .pendingIn c = some o)
    (hends : ¬ s.ends act o c) :
    s'.entry .pendingIn c = some o ∧ s'.ledger.label c = s.ledger.label c := by
  obtain ⟨g, y⟩ := c
  simp only [ends, Bool.or_eq_true, decide_eq_true_eq, not_or] at hends
  obtain ⟨⟨hopener, hcallee⟩, hcall⟩ := hends
  have hmirror : s.entry .pendingOut o = some ⟨g, y⟩ := H.tunnels.symm he
  have hne : ∀ {k x b}, s.entry k x = some b → k ≠ .pendingIn → (⟨g, y⟩ : Endpoint) ≠ x := by
    rintro k x b hk hne rfl
    exact hne (H.tunnels.single hk he)
  have hremoved : ∀ {hub k g' x b}, s.hub.Removed hub k g' x b → (⟨g, y⟩ : Endpoint) ≠ ⟨g', x⟩ →
      o ≠ ⟨g', x⟩ → hub.tunnels.entry .pendingIn g y = some o := by
    rintro hub k g' x b ⟨hk, rfl⟩ hne hne'
    refine (H.tunnels.entry_without hk).mpr ⟨he, hne, ?_⟩
    rintro rfl
    exact hne' (Pair.unique H ⟨_, he⟩ ⟨_, H.tunnels.symm hk⟩)
  have hdetached : ∀ {t' gone pushes}, Hub.Detached s.hub.tunnels t' gone pushes →
      s.leaves act = gone → t'.entry .pendingIn g y = some o := by
    intro t' gone pushes hd hl
    refine hd.entry.mpr ⟨he, ?_⟩
    rintro g' rfl
    exact ⟨fun h => hcallee (by rw [hl, h]), fun h => hopener (by rw [hl, h])⟩
  cases hm with
  | @connect spec mails => exact ⟨hdetached (H.detached_register spec) rfl, rfl⟩
  | @call k o' call rest ht =>
    have hp := performed_eq ht
    rw [hp] at hcall
    refine enter_cases H call fun _ _ hentered => ?_
    cases hentered with
    | watch =>
      refine ⟨?_, rfl⟩
      simp only [entry, afterCall, Hub.setWatch]
      split
      · exact he
      · split <;> exact he
    | openFails h =>
      obtain ⟨t, rfl, ht⟩ := h
      exact ⟨(ht _ _ _).trans he, rfl⟩
    | @opens sender gen localId q dev request hub target z msg label h =>
      refine ⟨h.entry.mpr (.inl he), ?_⟩
      have hfree : ∀ {c}, (∀ k, s.entry k c = none) → (⟨g, y⟩ : Endpoint) ≠ c := by
        rintro c hc rfl
        rw [hc] at he
        cases he
      simp only [afterCall, Ledger.enter]
      rw [update_of_ne (hfree (c := ⟨target, z⟩) h.target_free),
        update_of_ne (hfree (c := ⟨gen, localId⟩) h.free)]
    | @fails opening code hub b hm h =>
      have hout : s.entry .pendingOut ⟨opening.gen, opening.localId⟩ = some b := h.1
      refine ⟨hremoved h (hne hout (by decide)) fun ho => ?_, by rw [afterCall_ledger, noteFail_label.1]⟩
      simp [hm, ho] at hcall
    | @accepts p g' x b hm h =>
      have hout : s.entry .pendingOut b = some ⟨g', x⟩ := H.tunnels.symm h
      refine ⟨(H.tunnels.entry_accept h).mpr (.inl ⟨he, fun hc => ?_, hne hout (by decide)⟩), rfl⟩
      simp [hm, hc] at hcall
    | @rejects p g' x hub b hm h =>
      have hc : (⟨g, y⟩ : Endpoint) ≠ ⟨g', x⟩ := by simpa [hm] using hcall
      refine ⟨hremoved h hc fun ho => ?_, rfl⟩
      rw [ho] at hmirror
      exact absurd (H.tunnels.single hmirror h.1) (by decide)
    | @closes p g' x code sentFor hub k b hm h =>
      have hc : o ≠ ⟨g', x⟩ ∧ (⟨g, y⟩ : Endpoint) ≠ ⟨g', x⟩ := by simpa [hm] using hcall
      exact ⟨hremoved h hc.2 hc.1, by rw [afterCall_ledger, noteClose_label.1]⟩
    | unregisters =>
      refine ⟨hdetached H.detached_unregister ?_, rfl⟩
      simp only [leaves, hp]
    | _ => exact ⟨he, rfl⟩
  | _ => exact ⟨he, rfl⟩

/-- The tunnel was entered, and its `incoming` is not to be sent any more. -/
def Settled (s : Server) (n : Nat) : Prop :=
  n < s.ledger.offeredTo.length ∧
    ∀ opening g item, .put (.offer opening) g item ∈ Task.allTodo s.tasks → opening.label.tunnel ≠ n

/-- Where every tunnel stands: offered, announced, or with a callee that is being dropped. -/
structure InOrder (s : Server) : Prop where
  numbered : s.Numbered
  tidy : s.Tidy
  offered : ∀ {opening g item}, .put (.offer opening) g item ∈ Task.allTodo s.tasks →
    ∃ x sender device name,
      item = { msg := .text (.incoming x sender device name), tunnel := some opening.label.tunnel } ∧
      s.entry .pendingIn ⟨g, x⟩ = some ⟨opening.gen, opening.localId⟩ ∧
      s.ledger.label ⟨g, x⟩ = opening.label
  established : ∀ {a b}, s.entry .established a = some b → s.Settled (s.ledger.label a).tunnel
  presumed : ∀ {e n}, e ∈ Task.allTodo s.tasks → e.presumes? = some n → s.Settled n
  closed : ∀ {g item n}, item ∈ (s.lines g).sent → item.closed? = some n → s.Settled n
  order : ∀ g, (s.lines g).sent.Pairwise fun i j => ∀ n, i.closed? = some n → j.incoming? ≠ some n
  reached : ∀ {n g}, s.ledger.offeredTo[n]? = some g →
    (∃ opening item, .put (.offer opening) g item ∈ Task.allTodo s.tasks ∧ opening.label.tunnel = n) ∨
      (∃ item ∈ (s.lines g).sent, item.incoming? = some n) ∨ (s.lines g).cancelled

theorem InOrder.start : ({} : Server).InOrder where
  numbered := Numbered.start
  tidy := Tidy.start
  offered he := absurd he not_mem_nil
  established {a b} he := by cases he
  presumed he := absurd he not_mem_nil
  closed he := absurd he not_mem_nil
  order g := .nil
  reached he := by cases he

theorem Settled.moved (h : s.Settled n) (hm : s.Moved act s') (H : s.Sane) : s'.Settled n := by
  obtain ⟨hlt, hnone⟩ := h
  obtain ⟨more, hmore⟩ := hm.offeredTo H.wf
  refine ⟨?_, fun opening g item hmem => ?_⟩
  · rw [hmore, length_append]
    exact Nat.lt_add_right _ hlt
  rcases hm.offer H hmem with hmem | ⟨callee, device, name, hb, -, -⟩
  · exact hnone opening g item hmem
  · rw [hb.number]
    exact hlt.ne'

/-- A tunnel that the action ends or accepts is settled, or its offer would be on its way. -/
theorem InOrder.settled (H : s.InOrder) (hok : s.sparesOffers act) (hm : s.Moved act s')
    (he : s.entry kind a = some b)
    (hends : ∀ {o c}, s.entry .pendingIn c = some o → c = a ∨ c = b → s.ends act o c) :
    s'.Settled (s.ledger.label a).tunnel := by
  have hpair : s.Pair a b := ⟨kind, he⟩
  refine Settled.moved ⟨H.numbered.fresh hpair, fun opening g item hmem heq => ?_⟩ hm
    H.numbered.sane
  obtain ⟨x, sender, device, name, rfl, hin, hlabel⟩ := H.offered hmem
  have hspared := all_eq_true.mp hok _ hmem
  simp only [Effect.offer?, all_some, Bool.not_eq_true'] at hspared
  rw [← hlabel] at heq
  rw [hends hin (H.numbered.unique hpair ⟨_, hin⟩ heq.symm)] at hspared
  cases hspared

theorem proper_incoming (h : Proper (.put how g item)) (hn : item.incoming? = some n) :
    ∃ opening, how = .offer opening ∧ opening.label.tunnel = n := by
  cases how with
  | offer opening =>
    obtain ⟨x, sender, device, name, rfl⟩ := h
    exact ⟨opening, rfl, some.inj hn⟩
  | push =>
    obtain ⟨msg, hmsg, hpush⟩ := h
    rw [Item.incoming?, hmsg] at hn
    cases msg <;> first | cases hn | cases hpush
  | enqueue =>
    rcases h with hmsg | ⟨msg, hmsg, hreply | ⟨q, devices, rfl⟩⟩
    · rw [Item.incoming?, hmsg] at hn
      cases hn
    · rw [Item.incoming?, hmsg] at hn
      cases msg <;> first | cases hn | cases hreply
    · rw [Item.incoming?, hmsg] at hn
      cases hn
  | send =>
    rcases h with ⟨p, device, devices, rfl⟩ | ⟨row, rfl⟩ <;> cases hn
  | deliver =>
    obtain ⟨row, rfl⟩ := h
    cases hn

theorem InOrder.presumed_put (H : s.InOrder) (hok : s.sparesOffers act)
    (hm : s.Moved act s') (hmem : .put how g item ∈ Task.allTodo s'.tasks)
    (hn : item.closed? = some n) : s'.Settled n := by
  have hsane := H.numbered.sane
  have hwf := hsane.wf
  have htunnel : item.tunnel = some n := by
    rw [Item.closed?] at hn
    split at hn
    · exact hn
    · cases hn
  rcases hm.tells hsane hmem (by rw [htunnel]; exact some_ne_none _) with hold | htells
  · exact (H.presumed hold hn).moved hm hsane
  cases htells with
  | incoming | opened | rejected | failed => cases hn
  | @withdrawn opening code b hp hmatch he =>
    cases hn
    refine H.settled hok hm (hwf.tunnels.symm he) fun {o c} hin hc => ?_
    rcases hc with rfl | rfl
    · obtain rfl := Pair.unique hwf ⟨_, hin⟩ ⟨_, hwf.tunnels.symm he⟩
      simp [ends, hp, hmatch]
    · exact absurd (hwf.tunnels.single hin he) (by decide)
  | @closed p a b k code sentFor hp hmatch he =>
    cases hn
    refine H.settled hok hm (hwf.tunnels.symm he) fun {o c} hin hc => ?_
    rcases hc with rfl | rfl
    · obtain rfl := Pair.unique hwf ⟨_, hin⟩ ⟨_, hwf.tunnels.symm he⟩
      simp [ends, hp, hmatch]
    · simp [ends, hp, hmatch]
  | @left a b k hl he =>
    cases hn
    refine H.settled hok hm (hwf.tunnels.symm he) fun {o c} hin hc => ?_
    rcases hc with rfl | rfl
    · obtain rfl := Pair.unique hwf ⟨_, hin⟩ ⟨_, hwf.tunnels.symm he⟩
      simp [ends, hl]
    · simp [ends, hl]
  | told hp => exact (H.presumed (mem_performed hp) hn).moved hm hsane

theorem InOrder.moved (H : s.InOrder) (hok : s.sparesOffers act) (hm : s.Moved act s') :
    s'.InOrder := by
  have hsane := H.numbered.sane
  have hwf := hsane.wf
  have hmono : ∀ {n}, s.Settled n → s'.Settled n := fun h => h.moved hm hsane
  have hoffered : ∀ {opening g item}, .put (.offer opening) g item ∈ Task.allTodo s'.tasks →
      ∃ x sender device name, item =
          { msg := .text (.incoming x sender device name),
            tunnel := some opening.label.tunnel } ∧
        s'.entry .pendingIn ⟨g, x⟩ = some ⟨opening.gen, opening.localId⟩ ∧
        s'.ledger.label ⟨g, x⟩ = opening.label := by
    intro opening g item hmem
    rcases hm.offer hsane hmem with hmem | ⟨callee, device, name, hb, rfl, rfl⟩
    · obtain ⟨x, sender, device, name, rfl, hin, hlabel⟩ := H.offered hmem
      have hspared := all_eq_true.mp hok _ hmem
      simp only [Effect.offer?, all_some, Bool.not_eq_true'] at hspared
      obtain ⟨hin', hlabel'⟩ := hm.spared hwf hin (by simp [hspared])
      exact ⟨x, sender, device, name, rfl, hin', hlabel'.trans hlabel⟩
    · exact ⟨_, _, _, _, rfl, (hm.wf hwf).tunnels.symm hb.entry, hb.label_ends.2⟩
  constructor
  case numbered => exact H.numbered.moved hm
  case tidy => exact H.tidy.moved hsane hm
  case offered => exact hoffered
  case established =>
    intro a b he
    cases hm.source hwf he with
    | kept he hl =>
      rw [hl]
      exact hmono (H.established he)
    | accepted hp hmatch he hl =>
      rw [hl]
      refine H.settled hok hm he fun {o c} hin hc => ?_
      rcases hc with rfl | rfl
      · simp [ends, hp, hmatch]
      · exact absurd (hwf.tunnels.single hin (hwf.tunnels.symm he)) (by decide)
    | accepting hp hmatch ht ht' he hl =>
      rw [hl]
      refine H.settled hok hm he fun {o c} hin hc => ?_
      rcases hc with rfl | rfl
      · exact absurd (hwf.tunnels.single hin he) (by decide)
      · simp [ends, hp, hmatch]
  case presumed =>
    intro e n he hn
    cases e with
    | put how g item => exact H.presumed_put hok hm he hn
    | frame sender g x toGen f =>
      rcases hm.carries hwf he rfl with hold | hcarries
      · exact hmono (H.presumed hold hn)
      cases hcarries with
      | forward hp he' =>
        cases hn
        exact hmono (H.established he')
    | call c =>
      cases c with
      | tell g item =>
        rcases hm.carries hwf he rfl with hold | hcarries
        · exact hmono (H.presumed hold hn)
        cases hcarries with
        | tell hframe =>
          cases hn
          exact hmono (H.presumed hframe rfl)
      | _ => cases hn
    | _ => cases hn
  case closed =>
    intro g item n hmem hn
    rcases hm.sent hwf g with hsent | ⟨how, i, hp, hsent⟩ | ⟨added, hsent, hfar⟩
    · rw [hsent] at hmem
      exact hmono (H.closed hmem hn)
    · rw [hsent, mem_append, mem_singleton] at hmem
      rcases hmem with hmem | rfl
      · exact hmono (H.closed hmem hn)
      · exact hmono (H.presumed (mem_performed hp) hn)
    rw [hsent, mem_append] at hmem
    rcases hmem with hmem | hmem
    · exact hmono (H.closed hmem hn)
    · rw [(hfar item hmem).not_closed] at hn
      cases hn
  case order =>
    intro g
    rcases hm.sent hwf g with hsent | ⟨how, i, hp, hsent⟩ | ⟨added, hsent, hfar⟩
    · rw [hsent]
      exact H.order g
    · rw [hsent, pairwise_append]
      refine ⟨H.order g, pairwise_singleton _ _, fun i' hi' j hj n hclosed hin => ?_⟩
      rw [mem_singleton] at hj
      subst hj
      have hmem := mem_performed hp
      obtain ⟨opening, rfl, rfl⟩ := proper_incoming (hsane.proper _ hmem) hin
      exact (H.closed hi' hclosed).2 opening g j hmem rfl
    · rw [hsent, pairwise_append]
      have hnone : ∀ {i : Item} {j}, j ∈ added → ∀ n, i.closed? = some n → j.incoming? ≠ some n := by
        intro i j hj n _ hin
        rw [(hfar j hj).not_incoming] at hin
        cases hin
      exact ⟨H.order g, pairwise_of_forall_mem_list fun i _ j hj => hnone hj,
        fun i _ j hj => hnone hj⟩
  case reached =>
    intro n g hn
    have hold : s.ledger.offeredTo[n]? = some g →
        (∃ opening item, .put (.offer opening) g item ∈ Task.allTodo s'.tasks ∧
          opening.label.tunnel = n) ∨
        (∃ item ∈ (s'.lines g).sent, item.incoming? = some n) ∨ (s'.lines g).cancelled := by
      intro hn
      have hle := hm.lines hwf g
      rcases H.reached hn with ⟨opening, item, hmem, rfl⟩ | ⟨item, hmem, hin⟩ | hcancel
      · rcases hm.keeps H.tidy rfl hmem with hmem | ⟨k, o, rest, ht, ha⟩
        · exact .inl ⟨opening, item, hmem, rfl⟩
        · obtain ⟨x, sender, device, name, hitem, -, -⟩ := H.offered hmem
          rcases hm.put_turn ht ha with ⟨l, hl, rfl⟩ | ⟨-, rfl, -⟩
          · refine .inr (.inl ⟨item, ?_, by rw [hitem]; rfl⟩)
            simp only [update_self]
            rw [Line.sent_trySend hl]
            exact mem_append_right _ (mem_singleton_self _)
          · refine .inr (.inr ?_)
            simp only [putFails, update_self]
            rfl
      · exact .inr (.inl ⟨item, hle.mem hmem, hin⟩)
      · exact .inr (.inr (hle.cancelled hcancel))
    rcases hm.ledger hwf with ⟨hsame, -⟩ | ⟨opening, callee, hb⟩
    · exact hold (hsame ▸ hn)
    rw [hb.offeredTo, getElem?_append] at hn
    split at hn
    next => exact hold hn
    next hlt =>
    obtain ⟨device, name, hmem⟩ := hb.offer
    have hzero : n - s.ledger.offeredTo.length = 0 := by
      by_contra hne
      rw [getElem?_eq_none (by simp only [length_singleton]; omega)] at hn
      cases hn
    rw [hzero] at hn
    cases hn
    exact .inl ⟨opening, _, hmem, by rw [hb.number]; omega⟩

/-- Nobody is sent an `incoming` for a tunnel after a `closed` for it; the callee of a tunnel is sent
the `closed` after the `incoming`, unless it is being dropped for not taking that; and the pending
open that an `incoming` is sent for is in the table. -/
def TellsInOrder (s : Server) : Prop :=
  (∀ g before item after n, (s.lines g).sent = before ++ item :: after → item.closed? = some n →
    (∀ later ∈ after, later.incoming? ≠ some n) ∧
    (s.ledger.offeredTo[n]? = some g →
      (∃ earlier ∈ before, earlier.incoming? = some n) ∨ (s.lines g).cancelled)) ∧
  ∀ act opening g item, s.performed act = some (.put (.offer opening) g item) →
    ∃ x sender device name, item.msg = .text (.incoming x sender device name) ∧
      s.hub.tunnels.entry .pendingIn g x = some ⟨opening.gen, opening.localId⟩ ∧
      s.labelOf g x = opening.label

theorem InOrder.tellsInOrder (H : s.InOrder) : s.TellsInOrder := by
  constructor
  · intro g before item after n hsent hclosed
    have horder := H.order g
    rw [hsent, pairwise_append, pairwise_cons] at horder
    have hafter : ∀ later ∈ after, later.incoming? ≠ some n := fun later hmem =>
      horder.2.1.1 later hmem n hclosed
    refine ⟨hafter, fun hn => ?_⟩
    have hsettled := H.closed (hsent ▸ mem_append_right _ mem_cons_self) hclosed
    rcases H.reached hn with ⟨opening, i, hmem, heq⟩ | ⟨i, hmem, hin⟩ | hcancel
    · exact absurd heq (hsettled.2 opening g i hmem)
    · refine .inl ⟨i, ?_, hin⟩
      rw [hsent, mem_append, mem_cons] at hmem
      rcases hmem with hmem | rfl | hmem
      · exact hmem
      · rw [Item.not_incoming hclosed] at hin
        cases hin
      · exact absurd hin (hafter i hmem)
    · exact .inr hcancel
  · intro act opening g item hp
    obtain ⟨x, sender, device, name, rfl, hin, hlabel⟩ := H.offered (mem_performed hp)
    exact ⟨x, sender, device, name, rfl, hin, hlabel⟩

/-- The order is kept in every run in which no pending open ends before its `incoming` was sent. -/
theorem offers_in_order {as : List Action}
    (h : Run step (fun s a => s.sparesOffers a = true) {} as s) : s.TellsInOrder := by
  have hstep : ∀ {s : Server} {a s'}, s.sparesOffers a = true → InOrder s → step s a = some s' →
      InOrder s' := fun hok H hs => H.moved hok (step_moved hs)
  exact (Run.invariant hstep h InOrder.start).tellsInOrder

/-- An open that is closed by the opener: `incoming`, then `closed`. -/
theorem offers_in_order_closed : ∃ (as : List Action) (s : Server), exec step {} as = some s ∧
    (s.lines 2).sent.map (fun i => (i.incoming?, i.closed?)) =
      [(none, none), (some 0, none), (none, some 0)] ∧ s.TellsInOrder := by
  let acts := meet ++ [request "open" [("tunnel", .num 7), ("to", .str peerB)] 1, .perform 0,
    .perform 0, request "close" [("tunnel", .num 7)] 1, .perform 1, .perform 1]
  have hrun : (exec step {} acts).map (fun s => (s.lines 2).sent.map
      (fun i => (i.incoming?, i.closed?))) = some [(none, none), (some 0, none), (none, some 0)] := by
    decide +kernel
  have hok : allowed step sparesOffers {} acts = true := by decide +kernel
  obtain ⟨s, hs, hsent⟩ := map_eq_some_iff.mp hrun
  exact ⟨acts, s, hs, hsent, offers_in_order (Run.of_allowed hok hs)⟩

/-- The device of the opener comes back on another connection after its open was entered and before
the `incoming` was sent: the callee is sent the `closed` first. -/
theorem offers_out_of_order :
    ¬ ∀ (as : List Action) (s : Server), FreeRun step {} as s → s.TellsInOrder := by
  intro h
  let acts := meet ++ [request "open" [("tunnel", .num 7), ("to", .str peerB)] 1, .perform 0,
    .connect ⟨peerA, "legacy", "", ""⟩ [], .perform 1, .perform 0]
  have hrun : (exec step {} acts).map (fun s => (s.lines 2).sent) =
      some [{ msg := .text (.ready peerB "legacy" []) },
        { msg := .text (.closed 1 "disconnect"), tunnel := some 0 },
        { msg := .text (.incoming 1 peerA "legacy" ""), tunnel := some 0 }] := by decide +kernel
  obtain ⟨s, hs, hsent⟩ := map_eq_some_iff.mp hrun
  have horder := ((h acts s (.of_exec hs)).1 2 [_] _ [_] 0 hsent rfl).1
  exact horder _ (mem_singleton_self _) rfl

end Server

end Bluetalk.Relay

import Bluetalk.Relay.ServerTasks
import Bluetalk.Relay.ServerTunnels
import Bluetalk.Theory.Last

/-!
# Frames of one tunnel and of another

Control messages and frames go through two queues, and tunnel ids are given again. A client takes a
frame for one of the tunnel that it was last told of under the id.
-/

open List Option

namespace Bluetalk.Relay

/-- The tunnel that a message announces under the id `x`: an offer, or an open that was accepted. -/
def Item.announces (x : UInt32) (item : Item) : Option Nat :=
  match item.msg with
  | .text (.incoming y ..) | .text (.opened y) => if y = x then item.tunnel else none
  | _ => none

theorem Line.Farewell.not_announces {item : Item} {x : UInt32} (h : Line.Farewell item) : item.announces x = none := by
  rcases h with rfl | rfl <;> rfl

/-- The id under which a message announces a tunnel. -/
def Item.announcedId? (item : Item) : Option UInt32 :=
  match item.msg with
  | .text (.incoming y ..) | .text (.opened y) => some y
  | _ => none

/-- The frame that an effect brings to a connection. -/
def Effect.frameTo? (gen : Nat) : Effect → Option Frame
  | .frame _ _ _ toGen f => if toGen = gen then some f else none
  | _ => none

namespace Server

/-- The frames that are on their way to a connection, or in its queue. -/
def frames (s : Server) (g : Nat) : List Frame :=
  (s.lines g).data ++ (Task.allTodo s.tasks).filterMap (·.frameTo? g)

/-- The tunnel was announced to the connection under the id. -/
def announced (items : List Item) (x : UInt32) (n : Nat) : Bool :=
  items.any fun item => item.announces x = some n

/-- A connection accepts what was offered to it. -/
def acceptsOffered (s : Server) (p : String) (g : Nat) (x : UInt32) : Bool :=
  !s.hub.connMatches p g || (s.hub.tunnels.entry .pendingIn g x).isNone ||
    announced (s.lines g).sent x (s.labelOf g x).tunnel

/-- A tunnel is announced while no other one stands under its id, and the one who opened it is told
so unless nothing reaches it any more. -/
def announcesInTime (s : Server) (how : How) (g : Nat) (item : Item) : Bool :=
  match item.announcedId? with
  | none => true
  | some x =>
    ((s.hub.tunnels.entry .established g x).isNone && (s.hub.tunnels.entry .pendingIn g x).isNone ||
      item.announces x = some (s.labelOf g x).tunnel) &&
    (how ≠ .push || ((s.lines g).trySend item).isSome || (s.lines g).writer = .gone)

/-- The frames of other tunnels under the id of the next announcement have theirs still behind it. -/
def announcesAfterFrames (s : Server) (g : Nat) : Bool :=
  match (s.lines g).control with
  | [] => true
  | item :: rest => (s.frames g).all fun f =>
    (item.announces f.tunnelId).all fun n => n = f.tunnel || announced rest f.tunnelId f.tunnel

/-- The next frame is not overtaking the announcement of its tunnel. -/
def announcesBeforeFrame (s : Server) (g : Nat) : Bool :=
  match (s.lines g).data with
  | [] => true
  | f :: _ => !announced (s.lines g).control f.tunnelId f.tunnel

def keepsApart (s : Server) (act : Action) : Bool :=
  match act with
  | .write g .takeControl => s.announcesAfterFrames g
  | .write g .takeFrame => s.announcesBeforeFrame g
  | _ =>
    match s.performed act with
    | some (.call (.accept p g x)) => s.acceptsOffered p g x
    | some (.put how g item) => s.announcesInTime how g item
    | _ => true

/-- The tunnel that a client was last told of under an id, after these messages. -/
def lastAnnounced (x : UInt32) (items : List Item) : Option Nat := lastSome (·.announces x) items

variable {s s' : Server} {act : Action} {g n : Nat} {x : UInt32} {kind : Kind} {a b : Endpoint}
  {item : Item} {items : List Item} {how : How} {f : Frame}

theorem announced_iff : announced items x n ↔ ∃ item ∈ items, item.announces x = some n := by
  simp [announced]

theorem announces_tunnel (h : item.announces x = some n) :
    item.tunnel = some n ∧ item.announcedId? = some x := by
  rw [Item.announces] at h
  rw [Item.announcedId?]
  split at h
  next hmsg =>
    split at h
    next hx => exact ⟨h, congrArg some hx⟩
    next => cases h
  next hmsg =>
    split at h
    next hx => exact ⟨h, congrArg some hx⟩
    next => cases h
  next => cases h

/-- A number that was given, and not to an open that still waits at this end. -/
def Heard (s : Server) (g : Nat) (x : UInt32) (n : Nat) : Prop :=
  n < s.ledger.offeredTo.length ∧
    ∀ b, s.entry .pendingOut ⟨g, x⟩ = some b → (s.ledger.label ⟨g, x⟩).tunnel ≠ n

/-- An end of an established tunnel was told of it, or is going to be before anything comes through
it, or nothing reaches it any more. -/
def Told (s : Server) (a b : Endpoint) : Prop :=
  announced (s.lines a.remoteGen).sent a.remoteId (s.ledger.label a).tunnel ∨
    (∃ t ∈ s.tasks, t.owner = some b.remoteGen ∧ ∃ answers, .put .push a.remoteGen
      { msg := .text (.opened a.remoteId), tunnel := some (s.ledger.label a).tunnel, answers } ∈
        t.todo) ∨
    (s.lines a.remoteGen).writer = .gone

/-- A frame reaches the connection after its announcement and before that of another tunnel. -/
def Follows (l : Line) (f : Frame) : Prop :=
  l.writer = .gone ∨ announced l.control f.tunnelId f.tunnel ∨
    lastAnnounced f.tunnelId (l.received.filterMap Event.item?) = some f.tunnel

/-- Every frame that a client received comes from the tunnel that it was last told of under the id. -/
def FramesApart (s : Server) : Prop :=
  ∀ g before f after, (s.lines g).received = before ++ .frame f :: after →
    lastAnnounced f.tunnelId (before.filterMap Event.item?) = some f.tunnel

/-- What keeps the frames of a run apart. -/
structure Apart (s : Server) : Prop where
  numbered : s.Numbered
  tidy : s.Tidy
  heard : ∀ {g item x n}, item ∈ (s.lines g).sent → item.announces x = some n → s.Heard g x n
  coming : ∀ {how g item x n}, .put how g item ∈ Task.allTodo s.tasks →
    item.announces x = some n → s.Heard g x n
  last : ∀ {k a b}, s.entry k a = some b →
    announced (s.lines a.remoteGen).sent a.remoteId (s.ledger.label a).tunnel →
    lastAnnounced a.remoteId (s.lines a.remoteGen).sent = some (s.ledger.label a).tunnel
  told : ∀ {a b}, s.entry .established a = some b → s.Told a b
  follows : ∀ g, ∀ f ∈ s.frames g, Follows (s.lines g) f
  received : s.FramesApart

theorem Apart.start : ({} : Server).Apart where
  numbered := Numbered.start
  tidy := Tidy.start
  heard h := absurd h not_mem_nil
  coming h := absurd h not_mem_nil
  last {k a b} he := by cases k <;> cases he
  told he := by cases he
  follows g f h := absurd h not_mem_nil
  received g before f after h := by cases before <;> cases h

theorem Heard.moved (h : s.Heard g x n) (hm : s.Moved act s') (H : s.hub.Wf) : s'.Heard g x n := by
  obtain ⟨hlt, hne⟩ := h
  obtain ⟨more, hmore⟩ := hm.offeredTo H
  refine ⟨?_, fun b hb => ?_⟩
  · rw [hmore, length_append]
    exact Nat.lt_add_right _ hlt
  generalize ha : (⟨g, x⟩ : Endpoint) = a at *
  cases hm.source H hb with
  | kept he hl =>
    rw [hl]
    exact hne b he
  | opener hbegins =>
    rw [hbegins.label_ends.1, hbegins.number]
    exact hlt.ne'

theorem Apart.heard_moved (H : s.Apart) (hm : s.Moved act s') (hmem : item ∈ (s'.lines g).sent)
    (hn : item.announces x = some n) : s'.Heard g x n := by
  have hwf := H.numbered.sane.wf
  rcases hm.sent hwf g with hsent | ⟨how, i, hp, hsent⟩ | ⟨added, hsent, hfar⟩
  · rw [hsent] at hmem
    exact (H.heard hmem hn).moved hm hwf
  · rw [hsent, mem_append, mem_singleton] at hmem
    rcases hmem with hmem | rfl
    · exact (H.heard hmem hn).moved hm hwf
    · exact (H.coming (mem_performed hp) hn).moved hm hwf
  rw [hsent, mem_append] at hmem
  rcases hmem with hmem | hmem
  · exact (H.heard hmem hn).moved hm hwf
  · rcases hfar item hmem with rfl | rfl <;> cases hn

theorem Apart.coming_moved (H : s.Apart) (hm : s.Moved act s')
    (hmem : .put how g item ∈ Task.allTodo s'.tasks) (hn : item.announces x = some n) :
    s'.Heard g x n := by
  have hsane := H.numbered.sane
  have hwf' := hm.wf hsane.wf
  have htunnel : item.tunnel ≠ none := by
    rw [(announces_tunnel hn).1]
    exact some_ne_none _
  rcases hm.tells hsane hmem htunnel with hmem | htells
  · exact (H.coming hmem hn).moved hm hsane.wf
  cases htells with
  | @incoming opening callee device name hb =>
    simp only [Item.announces] at hn
    split at hn
    next hx =>
      cases hn
      subst hx
      refine ⟨by rw [hb.offeredTo, hb.number]; simp, fun b hb' => ?_⟩
      exact absurd (hwf'.tunnels.single hb' (hwf'.tunnels.symm hb.entry)) (by decide)
    next => cases hn
  | @opened p a b hp hmatch he he' =>
    simp only [Ledger.item, Item.announces] at hn
    split at hn
    next hx =>
      cases hn
      subst hx
      obtain ⟨more, hmore⟩ := hm.offeredTo hsane.wf
      refine ⟨?_, fun c hc => absurd (hwf'.tunnels.single hc he') (by decide)⟩
      rw [hmore, length_append]
      exact Nat.lt_add_right _ (H.numbered.fresh (Pair.symm hsane.wf ⟨_, he⟩))
    next => cases hn
  | rejected | failed | withdrawn | closed | left => cases hn
  | told hp =>
    obtain ⟨y, code, m, rfl⟩ := hsane.proper _ (mem_performed hp)
    cases hn

theorem announced_append {more : List Item} :
    announced (items ++ more) x n ↔ announced items x n ∨ announced more x n := by
  simp [announced]

theorem not_announced_of_none (h : ∀ item ∈ items, item.announces x = none) :
    ¬ announced items x n := by
  rw [announced_iff]
  rintro ⟨item, hmem, hn⟩
  rw [h item hmem] at hn
  cases hn

theorem Moved.silent (hm : s.Moved act s') (H : s.hub.Wf)
    (hput : ∀ how item, s.performed act ≠ some (.put how g item)) :
    (announced (s'.lines g).sent x n ↔ announced (s.lines g).sent x n) ∧
      lastAnnounced x (s'.lines g).sent = lastAnnounced x (s.lines g).sent := by
  rcases hm.sent H g with hsent | ⟨how, i, hp, -⟩ | ⟨added, hsent, hfar⟩
  · rw [hsent]
    exact ⟨Iff.rfl, rfl⟩
  · exact absurd hp (hput how i)
  have hnone : ∀ item ∈ added, item.announces x = none := fun item hmem =>
    Line.Farewell.not_announces (hfar item hmem)
  rw [hsent, announced_append, or_iff_left (not_announced_of_none hnone)]
  exact ⟨Iff.rfl, lastSome_append_of_none hnone⟩

theorem performed_call_ne_put {c : Call} (hp : s.performed act = some (.call c)) (how : How)
    (item : Item) : s.performed act ≠ some (.put how g item) := by
  rw [hp]
  exact fun h => by cases h

theorem announces_performed (hok : s.keepsApart act)
    (hp : s.performed act = some (.put how g item)) (he : s.entry kind ⟨g, x⟩ = some b)
    (hk : kind ≠ .pendingOut) (hn : item.announces x = some n) :
    n = (s.ledger.label ⟨g, x⟩).tunnel := by
  obtain ⟨-, hx⟩ := announces_tunnel hn
  have hstands : ((s.hub.tunnels.entry .established g x).isNone &&
      (s.hub.tunnels.entry .pendingIn g x).isNone) = false := by
    rw [Bool.and_eq_false_iff]
    cases kind with
    | established => exact .inl (by rw [show s.hub.tunnels.entry .established g x = some b from he]; rfl)
    | pendingIn => exact .inr (by rw [show s.hub.tunnels.entry .pendingIn g x = some b from he]; rfl)
    | pendingOut => exact absurd rfl hk
  have hin : s.announcesInTime how g item := by
    cases act with
    | perform k => simpa only [keepsApart, hp] using hok
    | _ => cases hp
  rw [announcesInTime, hx] at hin
  simp only [hstands, Bool.false_or, Bool.and_eq_true, decide_eq_true_eq] at hin
  exact some.inj (hn.symm.trans hin.1)

theorem Apart.last_moved (H : s.Apart) (hok : s.keepsApart act) (hm : s.Moved act s')
    (he : s'.entry kind a = some b)
    (hann : announced (s'.lines a.remoteGen).sent a.remoteId (s'.ledger.label a).tunnel) :
    lastAnnounced a.remoteId (s'.lines a.remoteGen).sent = some (s'.ledger.label a).tunnel := by
  have hwf := H.numbered.sane.wf
  -- a tunnel that begins was not announced before
  have hbegins : ∀ {opening callee}, Begins s s' act opening callee →
      (s'.ledger.label a).tunnel = s.ledger.offeredTo.length → False := by
    intro opening callee hb heq
    obtain ⟨q, dev, hp⟩ := hb.performed
    rw [(hm.silent hwf (performed_call_ne_put hp)).1, announced_iff] at hann
    obtain ⟨item, hmem, hn⟩ := hann
    exact (heq ▸ (H.heard hmem hn).1).false
  have hcall : ∀ {c k'}, s.performed act = some (.call c) → s.entry k' a = some b →
      s'.ledger.label a = s.ledger.label a →
      lastAnnounced a.remoteId (s'.lines a.remoteGen).sent = some (s'.ledger.label a).tunnel := by
    intro c k' hp he hl
    rw [(hm.silent hwf (performed_call_ne_put hp)).1] at hann
    rw [(hm.silent (x := a.remoteId) (n := 0) hwf (performed_call_ne_put hp)).2]
    rw [hl] at hann ⊢
    exact H.last he hann
  cases hm.source hwf he with
  | opener hb => exact (hbegins hb (by rw [hb.label_ends.1, hb.number])).elim
  | callee hb => exact (hbegins hb (by rw [hb.label_ends.2, hb.number])).elim
  | accepted hp _ he hl | accepting hp _ _ _ he hl => exact hcall hp he hl
  | kept he hl =>
    rw [hl] at hann ⊢
    rcases hm.sent hwf a.remoteGen with hsent | ⟨how, item, hp, hsent⟩ | ⟨added, hsent, hfar⟩
    · rw [hsent] at hann ⊢
      exact H.last he hann
    · rw [hsent] at hann ⊢
      rw [lastAnnounced, lastSome_append, lastSome_singleton]
      -- an end that waits for its answer was not told, and is not going to be
      have hk : kind ≠ .pendingOut := by
        rintro rfl
        rw [announced_append, announced_iff, announced_iff] at hann
        rcases hann with ⟨i, hmem, hn⟩ | ⟨i, hmem, hn⟩
        · exact (H.heard hmem hn).2 b he rfl
        · rw [mem_singleton.mp hmem] at hn
          exact (H.coming (mem_performed hp) hn).2 b he rfl
      cases hn : item.announces a.remoteId with
      | some n => rw [announces_performed hok hp he hk hn, some_or]
      | none =>
        refine H.last he ((announced_append.mp hann).resolve_right (not_announced_of_none ?_))
        exact fun i hmem => mem_singleton.mp hmem ▸ hn
    · have hnone : ∀ item ∈ added, item.announces a.remoteId = none := fun item hmem =>
        (hfar item hmem).not_announces
      rw [hsent] at hann ⊢
      rw [lastAnnounced, lastSome_append_of_none hnone]
      exact H.last he ((announced_append.mp hann).resolve_right (not_announced_of_none hnone))

theorem Apart.told_moved (H : s.Apart) (hok : s.keepsApart act) (hm : s.Moved act s')
    (he : s'.entry .established a = some b) : s'.Told a b := by
  have hwf := H.numbered.sane.wf
  have hle := hm.lines hwf a.remoteGen
  have hsent : ∀ {x n}, announced (s.lines a.remoteGen).sent x n →
      announced (s'.lines a.remoteGen).sent x n := by
    intro x n h
    obtain ⟨item, hmem, hn⟩ := announced_iff.mp h
    exact announced_iff.mpr ⟨item, hle.mem hmem, hn⟩
  cases hm.source hwf he with
  | kept he hl =>
    rw [Told, hl]
    rcases H.told he with hann | ⟨t, ht, ho, answers, hmem⟩ | hgone
    · exact .inl (hsent hann)
    · rcases hm.task_kept ht with ht' | ⟨k, hk, ha⟩
      · exact .inr (.inl ⟨t, ht', ho, answers, hmem⟩)
      · obtain ⟨o, todo⟩ := t
        cases todo with
        | nil => cases hmem
        | cons e rest =>
          rcases mem_cons.mp hmem with rfl | hmem
          · -- its turn has come
            rcases hm.put_turn hk ha with ⟨l, hsome, rfl⟩ | ⟨hfull, rfl, ⟨rfl, -⟩ | ⟨_, _, _, h⟩⟩
            · refine .inl ?_
              simp only [Function.update_self]
              rw [Line.sent_trySend hsome, announced_append]
              exact .inr (by simp [announced, Item.announces])
            · have hin := hok
              simp only [keepsApart, performed_eq hk] at hin
              simp only [announcesInTime, Item.announcedId?, hfull, isSome_none] at hin
              refine .inr (.inr (hle.gone ?_))
              simpa using (Bool.and_eq_true_iff.mp hin).2
            · cases h
          · exact absurd ((H.tidy.shaped _ ht).follows _ hmem) Bool.false_ne_true
    · exact .inr (.inr (hle.gone hgone))
  | @accepted _ _ p hp hmatch he hl =>
    rw [Told, hl]
    refine .inl (hsent ?_)
    cases act with
    | perform k =>
      have haccept : s.acceptsOffered p a.remoteGen a.remoteId := by
        simpa only [keepsApart, hp] using hok
      have hin : s.hub.tunnels.entry .pendingIn a.remoteGen a.remoteId = some b := he
      simpa [acceptsOffered, hmatch, hin, labelOf] using haccept
    | _ => cases hp
  | accepting hp hmatch ht ht' he hl =>
    rw [Told, hl]
    have ho := H.tidy.owned _ ht _ mem_cons_self b.remoteGen rfl
    exact .inr (.inl ⟨_, ht', ho, _, mem_cons_self⟩)

theorem mem_frames : f ∈ s.frames g ↔ f ∈ (s.lines g).data ∨
    ∃ sender gen x, .frame sender gen x g f ∈ Task.allTodo s.tasks := by
  rw [frames, mem_append, mem_filterMap]
  refine or_congr_right ⟨?_, ?_⟩
  · rintro ⟨e, he, hf⟩
    cases e with
    | frame sender gen x toGen f' =>
      simp only [Effect.frameTo?, ite_none_right_eq_some, Option.some.injEq] at hf
      obtain ⟨rfl, rfl⟩ := hf
      exact ⟨sender, gen, x, he⟩
    | _ => cases hf
  · rintro ⟨sender, gen, x, he⟩
    exact ⟨_, he, by simp [Effect.frameTo?]⟩

theorem Apart.follows_forward {p : String} {gen : Nat} {payload : List UInt8}
    {e : Endpoint} (H : s.Apart)
    (hp : s.performed act = some (.call (.forward p gen x payload)))
    (he : s.entry .established ⟨gen, x⟩ = some e) :
    Follows (s.lines e.remoteGen) ⟨e.remoteId, payload, (s.ledger.label ⟨gen, x⟩).tunnel⟩ := by
  have hwf := H.numbered.sane.wf
  have he' : s.entry .established e = some ⟨gen, x⟩ := hwf.tunnels.symm he
  have hlabel : s.ledger.label ⟨gen, x⟩ = s.ledger.label e := H.numbered.paired ⟨_, he⟩
  rw [hlabel]
  rcases H.told he' with hann | ⟨t, ht, ho, answers, hmem⟩ | hgone
  · refine .inr ?_
    have hlast := H.last he' hann
    rcases lastSome_append_cases hlast with hcontrol | ⟨-, hreceived⟩
    · obtain ⟨item, hmem, hn⟩ := exists_mem_of_lastSome hcontrol
      exact .inl (announced_iff.mpr ⟨item, hmem, hn⟩)
    · exact .inr hreceived
  · -- while a connection has this to do it does not read the next frame
    obtain ⟨k, o, rest, -, hk⟩ := performed_task hp
    have hmem' := Task.mem_of_getElem? hk
    have ho' : o = some gen := H.tidy.owned _ hmem' _ mem_cons_self gen rfl
    obtain rfl := Task.eq_of_owner H.tidy.unique ht hmem' ho ho'
    rw [(H.tidy.shaped _ hmem').rest_nil rfl] at hmem
    cases mem_singleton.mp hmem
  · exact .inl hgone

theorem Follows.moved (h : Follows (s.lines g) f) (hok : s.keepsApart act)
    (hm : s.Moved act s') (H : s.hub.Wf) (hf : act = .write g .takeControl → f ∈ s.frames g) :
    Follows (s'.lines g) f := by
  rcases hm.queues H g with ⟨move, rfl, hw⟩ | ⟨sender, gen, x, f', -, hl⟩ | hfed
  · have hgone : (s.lines g).writer = .gone → (s'.lines g).writer = .gone := (Line.Le.write hw).gone
    rcases h with h | h
    · exact .inl (hgone h)
    rcases Line.write_cases hw with ⟨item, rest, rfl, hc, hc', hr, -⟩ | ⟨f', rest, -, -, -, hr, hc⟩ |
      ⟨hc, hr, -⟩
    · rw [hc, announced_iff, exists_mem_cons_iff, ← announced_iff] at h
      rw [Follows, hc', hr, filterMap_append, lastAnnounced, lastSome_append]
      have hfirst : s.announcesAfterFrames g := hok
      rw [announcesAfterFrames, hc] at hfirst
      have hother := all_eq_true.mp hfirst f (hf rfl)
      simp only [filterMap_cons, Event.item?, filterMap_nil, lastSome_singleton]
      cases hn : item.announces f.tunnelId with
      | none =>
        rw [hn] at h
        exact .inr (h.imp_left fun h => h.resolve_left (some_ne_none _).symm)
      | some n =>
        simp only [hn, all_some, Bool.or_eq_true, decide_eq_true_eq] at hother
        rcases hother with rfl | hother
        · exact .inr (.inr rfl)
        · exact .inr (.inl hother)
    · rw [Follows, hc, hr, filterMap_append]
      refine .inr (h.imp_right fun h => ?_)
      rwa [lastAnnounced, lastSome_append_of_none fun i hmem => by cases hmem]
    · rw [Follows, hc, hr]
      exact .inr h
  · rw [hl]
    exact h
  · rw [Follows, hfed.writer, hfed.received]
    obtain ⟨added, hadded⟩ := hfed.control
    rw [hadded, announced_append]
    exact h.imp_right (Or.imp_left .inl)

theorem Apart.follows_moved (H : s.Apart) (hok : s.keepsApart act) (hm : s.Moved act s') :
    ∀ g, ∀ f ∈ s'.frames g, Follows (s'.lines g) f := by
  have hwf := H.numbered.sane.wf
  intro g f hmem
  have hold : f ∈ s.frames g → Follows (s'.lines g) f := fun hmem =>
    (H.follows g f hmem).moved hok hm hwf fun _ => hmem
  rcases mem_frames.mp hmem with hdata | ⟨sender, gen, x, hway⟩
  · refine hold (mem_frames.mpr ?_)
    rcases hm.queues hwf g with ⟨move, -, hw⟩ | ⟨sender, gen, x, f', hp, hl⟩ | hfed
    · left
      rcases Line.write_cases hw with ⟨_, _, -, -, -, -, hd⟩ | ⟨_, _, -, hd, hd', -, -⟩ | ⟨-, -, hd⟩
      · rwa [hd] at hdata
      · rw [hd]
        exact mem_cons_of_mem _ (hd' ▸ hdata)
      · rwa [hd] at hdata
    · rw [hl, mem_append, mem_singleton] at hdata
      rcases hdata with hdata | rfl
      · exact .inl hdata
      · exact .inr ⟨sender, gen, x, mem_performed hp⟩
    · rw [hfed.data] at hdata
      exact .inl hdata
  · rcases hm.carries hwf hway rfl with hway | hcarries
    · exact hold (mem_frames.mpr (.inr ⟨sender, gen, x, hway⟩))
    · cases hcarries with
      | forward hp he =>
        refine (H.follows_forward hp he).moved hok hm hwf fun hact => ?_
        rw [hact] at hp
        cases hp

theorem Apart.received_moved (H : s.Apart) (hok : s.keepsApart act) (hm : s.Moved act s') :
    s'.FramesApart := by
  intro g before f after hr
  rcases hm.queues H.numbered.sane.wf g with ⟨move, rfl, hw⟩ | ⟨sender, gen, x, f', -, hl⟩ | hfed
  · rcases Line.write_cases hw with ⟨item, rest, -, -, -, hr', -⟩ | ⟨f', rest, rfl, hd, -, hr', -⟩ |
      ⟨-, hr', -⟩
    · rw [hr'] at hr
      rcases snoc_eq_append_cons hr with ⟨after', hr⟩ | ⟨-, hf⟩
      · exact H.received g before f after' hr
      · cases hf
    · rw [hr'] at hr
      rcases snoc_eq_append_cons hr with ⟨after', hr⟩ | ⟨rfl, hf⟩
      · exact H.received g before f after' hr
      cases hf
      have hnext : s.announcesBeforeFrame g := hok
      rw [announcesBeforeFrame, hd] at hnext
      simp only [Bool.not_eq_true'] at hnext
      have hmem : f ∈ s.frames g := mem_frames.mpr (.inl (hd ▸ mem_cons_self))
      rcases H.follows g f hmem with hgone | hann | hlast
      · simp [Line.write, hgone] at hw
      · rw [hann] at hnext
        cases hnext
      · exact hlast
    · rw [hr'] at hr
      exact H.received g before f after hr
  · rw [hl] at hr
    exact H.received g before f after hr
  · rw [hfed.received] at hr
    exact H.received g before f after hr

theorem Apart.moved (H : s.Apart) (hok : s.keepsApart act) (hm : s.Moved act s') : s'.Apart where
  numbered := H.numbered.moved hm
  tidy := H.tidy.moved H.numbered.sane hm
  heard := H.heard_moved hm
  coming := H.coming_moved hm
  last := H.last_moved hok hm
  told := H.told_moved hok hm
  follows := H.follows_moved hok hm
  received := H.received_moved hok hm

/-- The frames are kept apart in every run in which: connections accept what was offered to them;
announcements go out while no other tunnel stands under the id, and reach the one who opened the
tunnel; and the writer takes no announcement before the frames of the tunnels that had the id, and no
frame before its announcement. -/
theorem frames_apart {as : List Action}
    (h : Run step (fun s a => s.keepsApart a = true) {} as s) : s.FramesApart := by
  have hstep : ∀ {s : Server} {a s'}, s.keepsApart a = true → Apart s → step s a = some s' →
      Apart s' := fun hok H hs => H.moved hok (step_moved hs)
  exact (Run.invariant hstep h Apart.start).received

/-- Two devices, a tunnel, and one frame through it. -/
theorem frames_apart_one : ∃ (as : List Action) (s : Server), exec step {} as = some s ∧
    (s.lines 2).received.getLast? = some (.frame ⟨1, [5], 0⟩) ∧ s.FramesApart := by
  let acts := meet ++ [request "open" [("tunnel", .num 7), ("to", .str peerB)] 1, .perform 0,
    .perform 0, .perform 0, request "accept" [("tunnel", .num 1)] 2, .perform 1, .perform 1,
    .write 2 .takeControl, .write 2 .takeControl, .binary 1 (encodeFrame 7 [5]), .perform 1,
    .perform 1, .write 2 .seeNoControl, .write 2 .takeFrame]
  have hrun : (exec step {} acts).map (fun s => (s.lines 2).received.getLast?) =
      some (some (.frame ⟨1, [5], 0⟩)) := by decide +kernel
  have hok : allowed step keepsApart {} acts = true := by decide +kernel
  obtain ⟨s, hs, hlast⟩ := map_eq_some_iff.mp hrun
  exact ⟨acts, s, hs, hlast, frames_apart (Run.of_allowed hok hs)⟩

/-- The opener closes tunnel 7 and opens another one under the same id while a frame of the first is
still in its queue: the second `opened` overtakes the frame. -/
theorem frames_mixed : ¬ ∀ (as : List Action) (s : Server), FreeRun step {} as s →
    s.FramesApart := by
  intro h
  let acts := meet ++ [request "open" [("tunnel", .num 7), ("to", .str peerB)] 1, .perform 0,
    .perform 0, .perform 0, request "accept" [("tunnel", .num 1)] 2, .perform 1, .perform 1,
    .write 1 .takeControl, .write 1 .takeControl, .binary 2 (encodeFrame 1 [5]), .perform 1,
    .perform 1, request "close" [("tunnel", .num 7)] 1, .perform 1, .perform 1,
    request "open" [("tunnel", .num 7), ("to", .str peerB)] 1, .perform 1, .perform 1, .perform 1,
    request "accept" [("tunnel", .num 2)] 2, .perform 2, .perform 2, .write 1 .takeControl,
    .write 1 .seeNoControl, .write 1 .takeFrame]
  have hrun : (exec step {} acts).map (fun s => (s.lines 1).received) =
      some ([.control { msg := .text (.ready peerA "legacy" []) },
          .control { msg := .text (.opened 7), tunnel := some 0, answers := some 0 },
          .control { msg := .text (.opened 7), tunnel := some 1, answers := some 1 }] ++
        [.frame ⟨7, [5], 0⟩]) := by decide +kernel
  obtain ⟨s, hs, hreceived⟩ := map_eq_some_iff.mp hrun
  have hlast := h acts s (.of_exec hs) 1 _ _ [] hreceived
  exact absurd hlast (by decide)

end Server

end Bluetalk.Relay

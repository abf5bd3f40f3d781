import Bluetalk.Relay.ServerTunnels
import Bluetalk.Relay.ServerTasks

/-!
# The answers to requests

An `open` is answered by `opened` or `open_failed`, a `post` by `posted` or `post_failed`. At every
time a request stands in one place: in a task that is going to answer it, in the table of pending
opens, or in what the connection was sent. The relay loses or doubles it where the condition of
`answersAll` says.
-/

open List Option Function

namespace Bluetalk.Relay

/-! ## Requests and what bears them -/

/-- The connection that asked. -/
def Ask.gen : Ask → Nat
  | .open gen _ | .post gen _ => gen

/-- The messages that answer a request. -/
def Ask.answeredBy (ask : Ask) (msg : Outbound) : Bool :=
  match ask, msg with
  | .open _ x, .text (.opened y) | .open _ x, .text (.openFailed y _) => x = y
  | .post _ id, .text (.posted id' _) | .post _ id, .text (.postFailed id' _) => id = id'
  | _, _ => false

/-- Whether the request `r` is answered by an effect, or goes on to be. -/
def Effect.bears (r : Nat) : Effect → Bool
  | .put (.deliver _ _ post) _ _ => post.request = r
  | .put _ _ item => item.answers = some r
  | .call (.open _ _ _ _ _ request) => request = r
  | .call (.deliver post _ _) => post.request = r
  | _ => false

/-- The open that an effect is going to fail when nobody answers it. -/
def Effect.opening? : Effect → Option Opening
  | .put (.offer opening) _ _ | .call (.failOpen opening _) => some opening
  | _ => none

/-- The end at which the relay is going to close a tunnel on its own, as a frame does not get
through. -/
def Effect.cuts? : Effect → Option Endpoint
  | .frame _ gen x _ _ => some ⟨gen, x⟩
  | .call (.close _ gen x code _) => if code = "remote" then none else some ⟨gen, x⟩
  | _ => none

/-- The effect that bears a request is in line with it. -/
def Effect.suits (ask : Ask) : Effect → Prop
  | .put (.deliver _ _ post) _ _ => ask = .post post.gen post.id
  | .put _ gen item => gen = ask.gen ∧ ask.answeredBy item.msg
  | .call (.open _ gen x _ _ _) => ask = .open gen x
  | .call (.deliver post _ _) => ask = .post post.gen post.id
  | _ => True

/-- Effects that bear no request. -/
def Plain (todo : List Effect) : Prop := ∀ e ∈ todo, ∀ r, e.bears r = false

/-- What a connection has to do for a frame that it read, and what was asked with it. -/
inductive Asks (gen request : Nat) : Option Ask → List Effect → Prop
  | nothing {todo} (h : Plain todo) : Asks gen request none todo
  | one {ask e} (hb : ∀ r, Effect.bears r e = true ↔ r = request) (hs : Effect.suits ask e)
      (hg : ask.gen = gen) : Asks gen request (some ask) [e]

section

variable {peerId : String} {gen request now : Nat} {v : Json} {outcome : PostOutcome}
  {todo : List Effect} {granted : Bool} {text : Option Json} {sentFor : Option Nat}

theorem Plain.nil : Plain [] := fun _ he => absurd he not_mem_nil

theorem Plain.reply {msg : Control} : Plain [reply peerId gen msg] := by
  intro e he r
  rw [mem_singleton.mp he]
  rfl

theorem Plain.call {c : Call} (h : ∀ r, Effect.bears r (.call c) = false) : Plain [.call c] :=
  fun _ he => mem_singleton.mp he ▸ h

theorem Plain.ite {c : Prop} [Decidable c] {todo' : List Effect} (h : Plain todo) (h' : Plain todo') :
    Plain (if c then todo else todo') := by
  split
  · exact h
  · exact h'

theorem Plain.tunnelId {f : UInt32 → List Effect} (hf : ∀ x, Plain (f x)) (hnone : Plain todo) :
    Plain (match tunnelId v with | none => todo | some tid => f tid) := by
  split
  · exact hnone
  · exact hf _

theorem plain_handleWatch : Plain [handleWatch peerId gen v] := by
  rw [handleWatch]
  split
  · exact Plain.reply
  · exact .call fun r => rfl

theorem asks_reply {msg : Control} {ask : Ask} (hg : ask.gen = gen) (hmsg : ask.answeredBy (.text msg)) :
    Asks gen request (some ask) [reply peerId gen msg (some request)] :=
  .one (fun r => by simp [reply, Effect.bears, eq_comm]) ⟨hg.symm, hmsg⟩ hg

theorem asks_handleOpen (ht : (v.field? "t").bind Json.asStr = some "open") :
    Asks gen request (askOf gen (some v)) [handleOpen peerId gen request v] := by
  simp only [askOf, bind_some, ht, if_true]
  rw [handleOpen]
  cases tunnelId v with
  | none => exact .nothing Plain.reply
  | some tid =>
    simp only [map_some]
    split
    · exact asks_reply rfl (decide_eq_true rfl)
    split
    · exact asks_reply rfl (decide_eq_true rfl)
    · exact .one (fun r => by simp [Effect.bears, eq_comm]) rfl rfl

theorem asks_handlePost (ht : (v.field? "t").bind Json.asStr = some "post") :
    Asks gen request (askOf gen (some v)) [handlePost peerId gen request now outcome v] := by
  simp only [askOf, bind_some, ht, if_true, String.reduceEq, if_false]
  rw [handlePost]
  cases (v.field? "id").bind Json.asStr with
  | none => exact .nothing Plain.reply
  | some id =>
    simp only [map_some]
    split
    · exact asks_reply rfl (decide_eq_true rfl)
    split
    · exact asks_reply rfl (decide_eq_true rfl)
    split
    · exact asks_reply rfl (decide_eq_true rfl)
    split
    · exact asks_reply rfl (decide_eq_true rfl)
    split
    · exact asks_reply rfl (decide_eq_true rfl)
    · exact asks_reply rfl (decide_eq_true rfl)
    · exact .one (fun r => by simp [Effect.bears, eq_comm]) rfl rfl

theorem plain_onText : Plain (onText peerId gen request now false text outcome sentFor) := by
  have hinvalid : ∀ {code}, Plain [reply peerId gen (.error code)] := Plain.reply
  cases text with
  | none => exact hinvalid
  | some v =>
    rw [onText]
    cases (v.field? "t").bind Json.asStr with
    | none => exact hinvalid
    | some t =>
      by_cases ht : t = "auth"
      · subst ht
        exact hinvalid
      · simp only [ht, ne_eq, not_false_eq_true, decide_true, Bool.not_false, Bool.and_self, if_true]
        exact hinvalid

theorem asks_onText (h : granted ∨ askOf gen text = none) : Asks gen request (askOf gen text)
    (onText peerId gen request now granted text outcome sentFor) := by
  have hinvalid : ∀ {code}, Plain [reply peerId gen (.error code)] := Plain.reply
  cases text with
  | none => exact .nothing hinvalid
  | some v =>
    cases ht : (v.field? "t").bind Json.asStr with
    | none =>
      simp only [askOf, bind_some, onText, ht]
      exact .nothing hinvalid
    | some t =>
      by_cases hask : t = "open" ∨ t = "post"
      · cases granted with
        | false =>
          rw [h.resolve_left Bool.false_ne_true]
          refine .nothing ?_
          rcases hask with rfl | rfl
          · simp only [onText, ht]
            exact hinvalid
          · simp only [onText, ht]
            exact hinvalid
        | true =>
          rcases hask with rfl | rfl
          · simpa [onText, ht] using asks_handleOpen ht
          · simpa [onText, ht] using asks_handlePost ht
      · rw [not_or] at hask
        have hnone : askOf gen (some v) = none := by
          simp only [askOf, bind_some, ht, hask.1, hask.2, if_false]
        rw [hnone]
        refine .nothing ?_
        simp only [onText, ht, if_neg hask.1, if_neg hask.2]
        refine .ite hinvalid (.ite Plain.reply (.ite hinvalid (.ite plain_handleWatch ?_)))
        refine .ite (.tunnelId (fun x => .call fun r => rfl) hinvalid)
          (.ite (.tunnelId (fun x => .call fun r => rfl) hinvalid)
            (.ite (.tunnelId (fun x => .call fun r => rfl) .nil) (.ite .nil hinvalid)))

end

namespace Server

variable {s s' : Server} {act : Action} {g r : Nat} {ask : Ask} {e : Effect} {item : Item}
  {how : How} {rest es : List Effect} {c : Call} {a b : Endpoint}

/-! ## What is owed -/

/-- The connection is there, reads on, and is not about to be closed. -/
def alive (s : Server) (g : Nat) : Bool :=
  g ∈ s.hub.conns && (s.lines g).running && !(s.lines g).cancelled

/-- The request is to be answered: the connection lives, and did not close what it asked for. -/
def owes (s : Server) (r : Nat) : Bool :=
  s.ledger.asked[r]?.any fun ask => s.alive ask.gen && r ∉ s.ledger.withdrawn

/-- An open that waits here owes nobody an answer. -/
def settled (s : Server) (opener : Endpoint) : Bool := !s.owes (s.ledger.label opener).request

/-- Frames that ask for something are let pass; who leaves, or closes what was offered to it, does
so when the offers are settled; and offers are taken by their queues. -/
def answersAll (s : Server) (act : Action) : Bool :=
  (s.leaves act).all (fun g => (s.hub.tunnels.conn g).pendingIn.entries.all (s.settled ·.2)) &&
  match act with
  | .text gen granted v _ _ => granted || (askOf gen v).isNone || !s.alive gen
  | _ =>
    match s.performed act with
    | some (.call (.close p g x _ _)) =>
      !s.hub.connMatches p g || (s.hub.tunnels.entry .pendingIn g x).all s.settled
    | some (.put (.offer opening) g item) =>
      ((s.lines g).trySend item).isSome || !s.owes opening.label.request
    | _ => true

/-- Every request that is owed an answer, and about which nothing is left to be done, was answered
once, and by a message that answers it. -/
def AnsweredOnce (s : Server) : Prop :=
  ∀ r ask, s.ledger.asked[r]? = some ask → s.owes r →
    (∀ e ∈ Task.allTodo s.tasks, e.bears r = false ∧ ∀ o ∈ e.opening?, o.label.request ≠ r) →
    ∃ item, (s.lines ask.gen).sent.filter (·.answers = some r) = [item] ∧ ask.answeredBy item.msg

/-- The request is that of an open that waits. -/
def pends (s : Server) (r : Nat) : Ask → Bool
  | .open g x => (s.entry .pendingOut ⟨g, x⟩).isSome && (s.ledger.label ⟨g, x⟩).request = r
  | .post .. => false

/-- The places where a request stands. -/
def places (s : Server) (r : Nat) (ask : Ask) : Nat :=
  (Task.allTodo s.tasks).countP (·.bears r) + (s.pends r ask).toNat +
    (s.lines ask.gen).sent.countP (·.answers = some r)

/-- Every request stands in one place. -/
structure Answered (s : Server) : Prop where
  sane : s.Sane
  tidy : s.Tidy
  known : ∀ {r : Nat} {ask : Ask}, s.ledger.asked[r]? = some ask → ask.gen < s.hub.nextGen
  bearing : ∀ {e} {r : Nat}, e ∈ Task.allTodo s.tasks → e.bears r →
    ∃ ask, s.ledger.asked[r]? = some ask ∧ e.suits ask
  told : ∀ {g item} {r : Nat}, item ∈ (s.lines g).sent → item.answers = some r →
    ∃ ask, s.ledger.asked[r]? = some ask ∧ ask.gen = g ∧ ask.answeredBy item.msg
  pending : ∀ {a b}, s.entry .pendingOut a = some b →
    s.ledger.asked[(s.ledger.label a).request]? = some (.open a.remoteGen a.remoteId)
  waiting : ∀ {a b}, s.entry .pendingOut a = some b → ∃ e ∈ Task.allTodo s.tasks, ∃ sender,
    e.opening? = some ⟨sender, a.remoteGen, a.remoteId, s.ledger.label a⟩
  timers : ∀ {e o}, e ∈ Task.allTodo s.tasks → e.opening? = some o →
    s.ledger.asked[o.label.request]? = some (.open o.gen o.localId) ∧
      ∀ d, s.hub.conns.lookup o.gen = some d → d.peerId = o.sender
  once : ∀ {r : Nat} {ask : Ask}, s.ledger.asked[r]? = some ask → s.owes r → s.places r ask = 1

theorem Answered.answeredOnce (H : s.Answered) : s.AnsweredOnce := by
  intro r ask hr howes hdone
  have hplaces := H.once hr howes
  have htodo : (Task.allTodo s.tasks).countP (·.bears r) = 0 :=
    countP_eq_zero.mpr fun e he => by rw [(hdone e he).1]; exact Bool.false_ne_true
  have hpends : s.pends r ask = false := by
    cases ask with
    | post => rfl
    | «open» g x =>
      rw [pends, Bool.and_eq_false_iff]
      cases he : s.entry .pendingOut ⟨g, x⟩ with
      | none => exact .inl rfl
      | some b =>
        obtain ⟨e, hmem, sender, ho⟩ := H.waiting he
        exact .inr (decide_eq_false ((hdone e hmem).2 _ ho))
  rw [places, htodo, hpends, Bool.toNat_false, Nat.zero_add,
    countP_eq_length_filter, length_eq_one_iff] at hplaces
  obtain ⟨item, hitem⟩ := hplaces
  have hmem : item ∈ (s.lines ask.gen).sent.filter (·.answers = some r) :=
    hitem ▸ mem_singleton_self item
  obtain ⟨hmem, hanswers⟩ := mem_filter.mp hmem
  obtain ⟨ask', hr', -, hby⟩ := H.told hmem (decide_eq_true_eq.mp hanswers)
  cases hr.symm.trans hr'
  exact ⟨item, hitem, hby⟩

theorem Answered.start : ({} : Server).Answered where
  sane := Sane.start
  tidy := Tidy.start
  known h := by cases h
  bearing h := absurd h not_mem_nil
  told h := absurd h not_mem_nil
  pending h := by cases h
  waiting h := by cases h
  timers h := absurd h not_mem_nil
  once h := by cases h

/-! ## What only grows -/

theorem asked_enter (h : s.Entered c s' es) : s'.ledger.asked = s.ledger.asked := by
  cases h with
  | fails =>
    simp only [noteFail]
    split <;> rfl
  | closes =>
    simp only [noteClose]
    split <;> rfl
  | _ => rfl

theorem Moved.asked (hm : s.Moved act s') (H : s.hub.Wf) :
    ∃ more, s'.ledger.asked = s.ledger.asked ++ more := by
  cases hm with
  | request => exact ⟨_, rfl⟩
  | call => exact ⟨[], (asked_enter (entered H _)).trans (append_nil _).symm⟩
  | _ => exact ⟨[], (append_nil _).symm⟩

theorem Moved.asked_get (hm : s.Moved act s') (H : s.hub.Wf) (h : s.ledger.asked[r]? = some ask) :
    s'.ledger.asked[r]? = some ask := by
  obtain ⟨more, hmore⟩ := hm.asked H
  rw [hmore, List.getElem?_append_left (List.getElem?_eq_some_iff.mp h).1]
  exact h

theorem Moved.withdrawn (hm : s.Moved act s') (H : s.hub.Wf) (h : r ∈ s.ledger.withdrawn) :
    r ∈ s'.ledger.withdrawn := by
  cases hm with
  | @call k o c rest ht =>
    refine enter_cases H c fun _ _ hentered => ?_
    cases hentered with
    | fails =>
      simp only [noteFail]
      split <;> exact h
    | closes =>
      simp only [noteClose]
      split
      · split
        · exact mem_append_left _ h
        · exact h
      · exact h
    | _ => exact h
  | _ => exact h

theorem Moved.alive (hm : s.Moved act s') (H : s.hub.Wf) (hg : g < s.hub.nextGen)
    (h : s'.alive g) : s.alive g := by
  simp only [Server.alive, Bool.and_eq_true, decide_eq_true_eq, Bool.not_eq_true'] at h ⊢
  obtain ⟨⟨hconns, hrunning⟩, hcancelled⟩ := h
  refine ⟨⟨?_, ?_⟩, ?_⟩
  · obtain ⟨d, hd⟩ := isSome_iff_exists.mp (AList.lookup_isSome.mpr hconns)
    rcases hm.lookup_conns H hd with rfl | ⟨d₀, hd₀, -⟩
    · exact absurd hg (lt_irrefl _)
    · exact AList.lookup_isSome.mp (isSome_of_eq_some hd₀)
  · rcases hm.running H hrunning with h | ⟨rfl, -⟩
    · exact h
    · exact absurd hg (lt_irrefl _)
  · by_contra hc
    rw [Bool.not_eq_false] at hc
    exact Bool.false_ne_true (hcancelled.symm.trans ((hm.lines H g).cancelled hc))

theorem owes_iff (h : s.ledger.asked[r]? = some ask) :
    s.owes r ↔ s.alive ask.gen ∧ r ∉ s.ledger.withdrawn := by
  simp [owes, h]

theorem Answered.owes_of_moved (H : s.Answered) (hm : s.Moved act s')
    (h : s.ledger.asked[r]? = some ask) (h' : s'.owes r) : s.owes r := by
  have hwf := H.sane.wf
  rw [owes_iff (hm.asked_get hwf h)] at h'
  rw [owes_iff h]
  exact ⟨hm.alive hwf (H.known h) h'.1, fun hw => h'.2 (hm.withdrawn hwf hw)⟩

/-! ## What bears a request -/

theorem answers_notice {ledger : Ledger} {msg : Control} (h : Hub.isNotice msg) :
    (ledger.item g msg).answers = none := by
  cases msg <;> first | rfl | cases h

theorem plain_detached {t t' : Tunnels} {gone : Option Nat} {pushes : List Push} {ledger : Ledger}
    (H : Hub.Detached t t' gone pushes) : Plain (ledger.pushes pushes) := by
  intro e he r
  obtain ⟨push, hpush, rfl⟩ := mem_map.mp he
  rcases H.pushes push hpush with hn | ⟨g, k, x, b, y, -, -, rfl⟩
  · simp [Effect.bears, answers_notice hn]
  · rfl

theorem bears_deliverTo {post : Posting} {row : MailRow} {any : Bool} {targets : List Nat} :
    Effect.bears r (deliverTo post row.item any targets) = decide (post.request = r) := by
  cases targets with
  | nil => simp [deliverTo, posted, Effect.bears]
  | cons => rfl

theorem suits_deliverTo {post : Posting} {row : MailRow} {any : Bool} {targets : List Nat}
    (h : ask = .post post.gen post.id) :
    Effect.suits ask (deliverTo post row.item any targets) := by
  subst h
  cases targets with
  | nil => exact ⟨rfl, decide_eq_true rfl⟩
  | cons => rfl

theorem Answered.bearing_entered (H : s.Answered) (hc : .call c ∈ Task.allTodo s.tasks)
    (h : s.Entered c s' es) (he : e ∈ es) (hb : e.bears r) :
    ∃ ask, s.ledger.asked[r]? = some ask ∧ e.suits ask := by
  have hwf := H.sane.wf
  have hone : ∀ {e' : Effect}, e ∈ [e'] → e = e' := mem_singleton.mp
  -- the answer to an open that waited at `b`
  have hanswer : ∀ {b a : Endpoint} {msg},
      e = .put .push b.remoteGen (s.ledger.item b.remoteGen msg) → s.entry .pendingOut b = some a →
      (Ask.open b.remoteGen b.remoteId).answeredBy (.text msg) →
      (s.ledger.item b.remoteGen msg).answers = some (s.ledger.label b).request →
      ∃ ask, s.ledger.asked[r]? = some ask ∧ e.suits ask := by
    rintro b a msg rfl hpending hby hanswers
    simp only [Effect.bears, hanswers, decide_eq_true_eq, Option.some.injEq] at hb
    subst hb
    exact ⟨_, H.pending hpending, rfl, by rw [item_msg]; exact hby⟩
  cases h with
  | watch =>
    rcases mem_append.mp he with he | he
    · obtain ⟨push, hpush, rfl⟩ := mem_map.mp he
      simp [Effect.bears, answers_notice (Hub.setWatch_notice push hpush)] at hb
    · obtain ⟨msg, -, rfl⟩ := mem_map.mp he
      cases hb
  | openFails h =>
    rw [hone he] at hb ⊢
    simp only [reply, Effect.bears, decide_eq_true_eq, Option.some.injEq] at hb
    subst hb
    obtain ⟨ask, hr, rfl⟩ := H.bearing hc (decide_eq_true rfl)
    exact ⟨_, hr, rfl, decide_eq_true rfl⟩
  | opens | acceptFails | rejectFails | closes | forwards =>
    rw [hone he] at hb
    cases hb
  | fails hm h =>
    rcases mem_cons.mp he with rfl | he
    · exact hanswer (b := ⟨_, _⟩) rfl h.1 (decide_eq_true rfl) rfl
    · rw [hone he] at hb
      cases hb
  | accepts hm h =>
    exact hanswer (hone he) (hwf.tunnels.symm h) (decide_eq_true rfl) rfl
  | rejects hm h =>
    exact hanswer (hone he) (hwf.tunnels.symm h.1) (decide_eq_true rfl) rfl
  | delivers =>
    rw [hone he] at hb ⊢
    rw [bears_deliverTo] at hb
    obtain ⟨ask, hr, hsuits⟩ := H.bearing hc hb
    exact ⟨ask, hr, suits_deliverTo hsuits⟩
  | tells =>
    obtain ⟨x, code, n, rfl⟩ := H.sane.proper _ hc
    rw [hone he] at hb
    cases hb
  | unregisters => rw [plain_detached hwf.detached_unregister e he r] at hb; cases hb
  | failsNothing | closesNothing | tellsNobody | forwardsNothing => cases he

theorem gen_of_askOf {v : Option Json} (h : askOf g v = some ask) : ask.gen = g := by
  obtain ⟨v, -, h⟩ := bind_eq_some_iff.mp h
  split at h
  · cases h
  split at h
  · obtain ⟨x, -, rfl⟩ := map_eq_some_iff.mp h
    rfl
  split at h
  · obtain ⟨id, -, rfl⟩ := map_eq_some_iff.mp h
    rfl
  · cases h

theorem Moved.asked_request {todo : List Effect} {asked : List Ask} (hm : s.Moved act s')
    (hq : s.Request act g todo asked) : s'.ledger.asked = s.ledger.asked ++ asked := by
  cases hq with
  | text | ping =>
    cases hm with
    | request hr hq =>
      cases hq
      rfl
    | putFails _ _ ha | frameFails _ _ ha => rcases ha with h | h <;> cases h
  | binary | noise =>
    cases hm with
    | request hr hq => cases hq <;> rfl
    | putFails _ _ ha | frameFails _ _ ha => rcases ha with h | h <;> cases h

/-- A connection asks for one thing and acts on it, or nothing is owed to it. -/
theorem Request.asks {todo : List Effect} {asked : List Ask} (hq : s.Request act g todo asked)
    (hok : s.answersAll act) :
    (Plain todo ∧ (asked = [] ∨ ¬ s.alive g ∧ ∃ ask, asked = [ask] ∧ ask.gen = g)) ∨
      ∃ ask e, asked = [ask] ∧ todo = [e] ∧ ask.gen = g ∧ Effect.suits ask e ∧
        ∀ r, Effect.bears r e = true ↔ r = s.ledger.asked.length := by
  cases hq with
  | binary => exact .inl ⟨.call fun _ => rfl, .inl rfl⟩
  | noise => exact .inl ⟨.nil, .inl rfl⟩
  | ping => exact .inl ⟨fun e he _ => mem_singleton.mp he ▸ rfl, .inl rfl⟩
  | @text g granted v outcome sentFor =>
    simp only [answersAll, Bool.and_eq_true, Bool.or_eq_true, Bool.not_eq_true',
      isNone_iff_eq_none] at hok
    have hcase : (granted ∨ askOf g v = none) ∨ granted = false ∧ s.alive g = false := by
      cases granted with
      | true => exact .inl (.inl rfl)
      | false => exact hok.2.imp (fun h => .inr (h.resolve_left Bool.false_ne_true)) fun h => ⟨rfl, h⟩
    rcases hcase with h | ⟨rfl, hdead⟩
    · have hasks : Asks g s.ledger.asked.length (askOf g v) (onText (s.lines g).peerId g
          s.ledger.asked.length s.now granted v outcome sentFor) := asks_onText h
      generalize askOf g v = asked at hasks
      generalize onText _ _ _ _ _ _ _ _ = todo at hasks
      cases hasks with
      | nothing hplain => exact .inl ⟨hplain, .inl rfl⟩
      | one hb hs hg => exact .inr ⟨_, _, rfl, rfl, hg, hs, hb⟩
    · refine .inl ⟨plain_onText, ?_⟩
      cases hask : askOf g v with
      | none => exact .inl rfl
      | some ask =>
        exact .inr ⟨by rw [hdead]; exact Bool.false_ne_true, ask, rfl, gen_of_askOf hask⟩

theorem Answered.bearing_moved (H : s.Answered) (hok : s.answersAll act) (hm : s.Moved act s')
    (he : e ∈ Task.allTodo s'.tasks) (hb : e.bears r) :
    ∃ ask, s'.ledger.asked[r]? = some ask ∧ e.suits ask := by
  have hwf := H.sane.wf
  have hkept : (∃ ask, s.ledger.asked[r]? = some ask ∧ e.suits ask) →
      ∃ ask, s'.ledger.asked[r]? = some ask ∧ e.suits ask := fun ⟨ask, hr, hs⟩ =>
    ⟨ask, hm.asked_get hwf hr, hs⟩
  have hhead : ∀ {k : Nat} {o e' rest}, s.tasks[k]? = some ⟨o, e' :: rest⟩ → e' ∈ Task.allTodo s.tasks :=
    fun ht => mem_rest ht mem_cons_self
  rcases hm.mem_todo he with he | hadd
  · exact hkept (H.bearing he hb)
  cases hadd with
  | joins h =>
    rw [plain_detached (hwf.detached_register _) _ (mem_map_of_mem h) r] at hb
    cases hb
  | ready | mail | leave | close | tell | wait => cases hb
  | request hr hq he =>
    rcases hq.asks hok with ⟨hplain, -⟩ | ⟨ask, e', rfl, rfl, -, hs, hbears⟩
    · rw [hplain e he r] at hb
      cases hb
    obtain rfl := mem_singleton.mp he
    rw [hbears] at hb
    subst hb
    rw [hm.asked_request hq]
    exact ⟨ask, getElem?_concat_length, hs⟩
  | @sent k o how g item rest e ht he =>
    have hproper := H.sane.proper _ (hhead ht)
    cases how with
    | offer opening =>
      simp only [How.sent, mem_cons, not_mem_nil, or_false] at he
      rcases he with rfl | rfl <;> cases hb
    | deliver others any post =>
      obtain ⟨row, rfl⟩ := hproper
      obtain rfl := mem_singleton.mp he
      rw [bears_deliverTo] at hb
      obtain ⟨ask, hr, hsuits⟩ := H.bearing (hhead ht) hb
      exact hkept ⟨ask, hr, suits_deliverTo hsuits⟩
    | _ => cases he
  | @failed a k o how g item rest e ht ha he =>
    have hproper := H.sane.proper _ (hhead ht)
    cases how with
    | push => cases he
    | offer opening =>
      simp only [How.failed, mem_cons, not_mem_nil, or_false] at he
      rcases he with rfl | rfl
      · cases hb
      · simp only [Effect.bears, decide_eq_true_eq, Option.some.injEq] at hb
        subst hb
        exact hkept ⟨_, (H.timers (hhead ht) rfl).1, rfl, decide_eq_true rfl⟩
    | deliver others any post =>
      obtain ⟨row, rfl⟩ := hproper
      obtain rfl := mem_singleton.mp he
      rw [bears_deliverTo] at hb
      obtain ⟨ask, hr, hsuits⟩ := H.bearing (hhead ht) hb
      exact hkept ⟨ask, hr, suits_deliverTo hsuits⟩
    | enqueue | send =>
      rw [mem_singleton.mp he] at hb
      cases hb
  | call ht hs he => exact hkept (H.bearing_entered (hhead ht) (entered hwf _) he hb)

theorem Answered.known_moved (H : s.Answered) (hok : s.answersAll act) (hm : s.Moved act s')
    (h : s'.ledger.asked[r]? = some ask) : ask.gen < s'.hub.nextGen := by
  have hle := hm.nextGen_le H.sane.wf
  have hkept : s'.ledger.asked = s.ledger.asked → ask.gen < s'.hub.nextGen := by
    intro heq
    rw [heq] at h
    exact (H.known h).trans_le hle
  cases hm with
  | @request a g todo asked hr hq =>
    have hg : (s.lines g).running := by
      rw [reads, Bool.and_eq_true] at hr
      exact hr.1
    have hasked : ∀ {ask}, ask ∈ asked → ask.gen = g := by
      intro ask hmem
      rcases hq.asks hok with ⟨-, rfl | ⟨-, ask', rfl, hgen⟩⟩ | ⟨ask', e, rfl, -, hgen, -⟩
      · cases hmem
      · exact mem_singleton.mp hmem ▸ hgen
      · exact mem_singleton.mp hmem ▸ hgen
    rcases mem_append.mp (mem_of_getElem? h) with hmem | hmem
    · obtain ⟨i, hi⟩ := mem_iff_getElem?.mp hmem
      exact H.known hi
    · rw [hasked hmem]
      exact H.tidy.running g hg
  | call ht =>
    refine hkept ?_
    rw [afterCall_ledger]
    exact asked_enter (entered H.sane.wf _)
  | _ => exact hkept rfl

theorem Answered.answers_put (H : s.Answered) (hput : .put how g item ∈ Task.allTodo s.tasks)
    (hr : item.answers = some r) :
    ∃ ask, s.ledger.asked[r]? = some ask ∧ ask.gen = g ∧ ask.answeredBy item.msg := by
  -- mails and offers answer nothing
  cases how with
  | deliver others any post =>
    obtain ⟨row, rfl⟩ := H.sane.proper _ hput
    cases hr
  | offer opening =>
    obtain ⟨x, sender, device, name, rfl⟩ := H.sane.proper _ hput
    cases hr
  | push | enqueue | send =>
    obtain ⟨ask, hask, hg, hby⟩ := H.bearing hput (decide_eq_true hr)
    exact ⟨ask, hask, hg.symm, hby⟩

theorem Answered.told_moved (H : s.Answered) (hm : s.Moved act s')
    (hmem : item ∈ (s'.lines g).sent) (hr : item.answers = some r) :
    ∃ ask, s'.ledger.asked[r]? = some ask ∧ ask.gen = g ∧ ask.answeredBy item.msg := by
  have hwf := H.sane.wf
  have hold : item ∈ (s.lines g).sent →
      ∃ ask, s'.ledger.asked[r]? = some ask ∧ ask.gen = g ∧ ask.answeredBy item.msg := by
    intro hmem
    obtain ⟨ask, hask, h⟩ := H.told hmem hr
    exact ⟨ask, hm.asked_get hwf hask, h⟩
  rcases hm.sent hwf g with hsent | ⟨how, i, hp, hsent⟩ | ⟨added, hsent, hfar⟩
  · exact hold (hsent ▸ hmem)
  · rw [hsent, mem_append, mem_singleton] at hmem
    rcases hmem with hmem | rfl
    · exact hold hmem
    obtain ⟨ask, hask, h⟩ := H.answers_put (mem_performed hp) hr
    exact ⟨ask, hm.asked_get hwf hask, h⟩
  rw [hsent, mem_append] at hmem
  rcases hmem with hmem | hmem
  · exact hold hmem
  · rcases hfar item hmem with rfl | rfl <;> cases hr

theorem Answered.pending_moved (H : s.Answered) (hm : s.Moved act s')
    (he : s'.entry .pendingOut a = some b) :
    s'.ledger.asked[(s'.ledger.label a).request]? = some (.open a.remoteGen a.remoteId) := by
  have hwf := H.sane.wf
  cases hm.source hwf he with
  | kept he hl =>
    rw [hl]
    exact hm.asked_get hwf (H.pending he)
  | opener hb =>
    obtain ⟨q, dev, hp⟩ := hb.performed
    obtain ⟨ask, hask, rfl⟩ := H.bearing (mem_performed hp) (decide_eq_true rfl)
    rw [hb.label_ends.1]
    exact hm.asked_get hwf hask

theorem Answered.timers_moved {o : Opening} (H : s.Answered) (hm : s.Moved act s')
    (he : e ∈ Task.allTodo s'.tasks) (ho : e.opening? = some o) :
    s'.ledger.asked[o.label.request]? = some (.open o.gen o.localId) ∧
      ∀ d, s'.hub.conns.lookup o.gen = some d → d.peerId = o.sender := by
  have hwf := H.sane.wf
  have hhead : ∀ {k : Nat} {w e' rest}, s.tasks[k]? = some ⟨w, e' :: rest⟩ →
      e' ∈ Task.allTodo s.tasks := fun ht => mem_rest ht mem_cons_self
  -- the connection is the one it was
  have hkept : ∀ {o : Opening}, s.ledger.asked[o.label.request]? = some (.open o.gen o.localId) →
      (∀ d, s.hub.conns.lookup o.gen = some d → d.peerId = o.sender) →
      s'.ledger.asked[o.label.request]? = some (.open o.gen o.localId) ∧
        ∀ d, s'.hub.conns.lookup o.gen = some d → d.peerId = o.sender := by
    intro o hask hpeer
    refine ⟨hm.asked_get hwf hask, fun d hd => ?_⟩
    rcases hm.lookup_conns hwf hd with hnext | ⟨d₀, hd₀, heq⟩
    · exact absurd (hnext ▸ H.known hask) (lt_irrefl _)
    · rw [← heq]
      exact hpeer d₀ hd₀
  have hold : ∀ {e' : Effect}, e' ∈ Task.allTodo s.tasks → e'.opening? = some o →
      s'.ledger.asked[o.label.request]? = some (.open o.gen o.localId) ∧
        ∀ d, s'.hub.conns.lookup o.gen = some d → d.peerId = o.sender := fun hmem ho =>
    hkept (H.timers hmem ho).1 (H.timers hmem ho).2
  have hpushes : ∀ {l : Ledger} {ps}, e ∉ l.pushes ps := by
    intro l ps hmem
    obtain ⟨push, -, rfl⟩ := mem_map.mp hmem
    cases ho
  have hdeliver : ∀ {post item any targets}, e ∉ [deliverTo post item any targets] := by
    intro post item any targets hmem
    rw [mem_singleton.mp hmem] at ho
    cases targets <;> cases ho
  rcases hm.mem_todo he with he | hadd
  · exact hold he ho
  cases hadd with
  | joins | ready | mail | leave | close | tell | wait => cases ho
  | request hr hq he =>
    cases hq with
    | text =>
      have hreact := reaction_of_mem_onText he
      cases hreact <;> cases ho
    | noise => cases he
    | binary | ping =>
      rw [mem_singleton.mp he] at ho
      cases ho
  | @sent k w how g item rest e ht he =>
    cases how with
    | offer opening =>
      simp only [How.sent, mem_cons, not_mem_nil, or_false] at he
      rcases he with rfl | rfl
      · cases ho
      · exact hold (hhead ht) ho
    | deliver others any post => exact absurd he hdeliver
    | _ => cases he
  | @failed a k w how g item rest e ht ha he =>
    cases how with
    | push => cases he
    | offer opening =>
      simp only [How.failed, mem_cons, not_mem_nil, or_false] at he
      rcases he with rfl | rfl
      · exact hold (hhead ht) ho
      · cases ho
    | deliver others any post => exact absurd he hdeliver
    | enqueue | send =>
      rw [mem_singleton.mp he] at ho
      cases ho
  | @call k w c rest e ht hs he =>
    revert he
    refine enter_cases hwf c fun _ _ hentered he => ?_
    cases hentered with
    | watch =>
      rcases mem_append.mp he with he | he
      · exact absurd he hpushes
      · obtain ⟨msg, -, rfl⟩ := mem_map.mp he
        cases ho
    | opens label h hlabel =>
      cases mem_singleton.mp he
      cases ho
      obtain ⟨ask, hask, rfl⟩ := H.bearing (hhead ht) (decide_eq_true rfl)
      obtain ⟨d, hd, hpeer⟩ := Hub.connMatches_iff.mp h.sender
      refine hkept (hlabel ▸ hask) fun d' hd' => ?_
      cases hd.symm.trans hd'
      exact hpeer
    | fails =>
      simp only [mem_cons, not_mem_nil, or_false] at he
      rcases he with rfl | rfl <;> cases ho
    | delivers => exact absurd he hdeliver
    | unregisters => exact absurd he hpushes
    | failsNothing | closesNothing | tellsNobody | forwardsNothing => cases he
    | _ =>
      rw [mem_singleton.mp he] at ho
      cases ho

theorem Answered.waiting_moved (H : s.Answered) (hm : s.Moved act s')
    (he : s'.entry .pendingOut a = some b) : ∃ e ∈ Task.allTodo s'.tasks, ∃ sender,
      e.opening? = some ⟨sender, a.remoteGen, a.remoteId, s'.ledger.label a⟩ := by
  have hwf := H.sane.wf
  cases hm.source hwf he with
  | opener hb =>
    obtain ⟨device, name, hoffer⟩ := hb.offer
    exact ⟨_, hoffer, _, by rw [hb.label_ends.1]; rfl⟩
  | kept hold hl =>
    rw [hl]
    obtain ⟨e, hmem, sender, ho⟩ := H.waiting hold
    have hown : e.own = false := by
      cases e with
      | put how => cases how <;> first | rfl | cases ho
      | _ => rfl
    rcases hm.keeps H.tidy hown hmem with hmem | ⟨k, o, rest, ht, ha⟩
    · exact ⟨e, hmem, sender, ho⟩
    have hnext : ∀ {o' todo e'}, e' ∈ todo → e' ∈ Task.allTodo (Task.advance s.tasks k o' todo) := by
      intro o' todo e' hmem
      rw [Task.allTodo_advance]
      exact mem_append_left _ (mem_append_right _ hmem)
    cases e with
    | put how g item =>
      cases how with
      | offer opening =>
        rcases hm.put_turn ht ha with ⟨l, -, rfl⟩ | ⟨-, rfl, -⟩
        · exact ⟨_, hnext (mem_cons_of_mem _ mem_cons_self), sender, ho⟩
        · exact ⟨_, hnext mem_cons_self, sender, ho⟩
      | _ => cases ho
    | call c =>
      cases c with
      | failOpen opening code =>
        -- the timer has fired: the open does not wait any more
        cases ho
        exfalso
        obtain ⟨-, rfl⟩ := hm.call_turn ht ha
        obtain ⟨d, hd⟩ := isSome_iff_exists.mp
          (AList.lookup_isSome.mpr (hwf.tunnels_live hold))
        have hmatch : s.hub.connMatches sender a.remoteGen :=
          Hub.connMatches_iff.mpr ⟨d, hd, (H.timers hmem rfl).2 d hd⟩
        revert he
        refine enter_cases hwf (.failOpen ⟨sender, a.remoteGen, a.remoteId, s.ledger.label a⟩ code)
          fun _ _ hentered he => ?_
        cases hentered with
        | failsNothing h => exact h ⟨hmatch, isSome_of_eq_some hold⟩
        | fails _ h =>
          obtain ⟨hout, rfl⟩ := h
          exact ((hwf.tunnels.entry_without hout).mp he).2.1 rfl
      | _ => cases ho
    | _ => cases ho

/-! ## One place -/

theorem pends_iff {x : UInt32} : s.pends r (.open g x) ↔
    ∃ b, s.entry .pendingOut ⟨g, x⟩ = some b ∧ (s.ledger.label ⟨g, x⟩).request = r := by
  simp [pends, isSome_iff_exists]

theorem pends_congr (ht : ∀ a, s'.entry .pendingOut a = s.entry .pendingOut a)
    (hl : s'.ledger.label = s.ledger.label) : s'.pends r ask = s.pends r ask := by
  cases ask with
  | post => rfl
  | «open» g x => rw [pends, pends, ht, hl]

theorem Answered.pends_ended (H : s.Answered) (ha : s.entry .pendingOut a = some b)
    (hent : ∀ {c d}, s'.entry .pendingOut c = some d ↔
      s.entry .pendingOut c = some d ∧ c ≠ a ∧ c ≠ b)
    (hl : s'.ledger.label = s.ledger.label) (hr : s.ledger.asked[r]? = some ask) :
    (s'.pends r ask).toNat + (decide ((s.ledger.label a).request = r)).toNat =
      (s.pends r ask).toNat := by
  have hwf := H.sane.wf
  have hpending := H.pending ha
  cases ask with
  | post g id =>
    have hne : (s.ledger.label a).request ≠ r := by
      rintro rfl
      cases hr.symm.trans hpending
    rw [decide_eq_false hne]
    rfl
  | «open» g x =>
    by_cases hreq : (s.ledger.label a).request = r
    · rw [hreq, hr] at hpending
      cases hpending
      have hbefore : s.pends r (.open a.remoteGen a.remoteId) = true := pends_iff.mpr ⟨b, ha, hreq⟩
      have hafter : s'.pends r (.open a.remoteGen a.remoteId) = false := by
        rw [← Bool.not_eq_true, pends_iff]
        rintro ⟨d, hd, -⟩
        exact (hent.mp hd).2.1 rfl
      rw [hbefore, hafter, decide_eq_true hreq]
      rfl
    · rw [decide_eq_false hreq, Bool.toNat_false, Nat.add_zero]
      congr 1
      rw [Bool.eq_iff_iff, pends_iff, pends_iff, hl]
      constructor
      · rintro ⟨d, hd, h⟩
        exact ⟨d, (hent.mp hd).1, h⟩
      rintro ⟨d, hd, h⟩
      refine ⟨d, hent.mpr ⟨hd, ?_, ?_⟩, h⟩
      · rintro rfl
        exact hreq h
      · rintro rfl
        exact absurd (hwf.tunnels.single hd (hwf.tunnels.symm ha)) (by decide)

/-- The opens that wait stay when one leaves that is not the opener and owes no answer. -/
theorem Answered.pends_detached {t' : Tunnels} {gone : Option Nat} {pushes : List Push}
    (H : s.Answered) (hd : Hub.Detached s.hub.tunnels t' gone pushes) (hhub : s'.hub.tunnels = t')
    (hl : s'.ledger.label = s.ledger.label) (hleaves : s.leaves act = gone)
    (hok : s.answersAll act) (howes : s.owes r) (hgone : gone ≠ some ask.gen) :
    s'.pends r ask = s.pends r ask := by
  cases ask with
  | post => rfl
  | «open» g x =>
    subst hhub
    rw [Bool.eq_iff_iff, pends_iff, pends_iff, hl]
    constructor
    · rintro ⟨d, h, hr⟩
      exact ⟨d, (hd.entry.mp h).1, hr⟩
    rintro ⟨d, h, rfl⟩
    refine ⟨d, hd.entry.mpr ⟨h, ?_⟩, rfl⟩
    rintro g' rfl
    refine ⟨fun hg => hgone (congrArg some hg.symm), fun hg => ?_⟩
    -- the callee leaves: the offer is settled
    unfold answersAll at hok
    rw [hleaves, Bool.and_eq_true, all_some] at hok
    have hin : s.entry .pendingIn d = some ⟨g, x⟩ := H.sane.wf.tunnels.symm h
    rw [entry, hg] at hin
    have hsettled := all_eq_true.mp hok.1 ⟨d.remoteId, ⟨g, x⟩⟩ (AList.mem_lookup_iff.mp hin)
    simp only [settled, howes] at hsettled
    cases hsettled

theorem pends_opened {sender toPeer : String} {gen target : Nat} {localId y : UInt32}
    {hub : Hub} {msg : Control} {label : Label}
    (h : s.hub.Opened hub sender gen localId toPeer target y msg)
    (hr : s.ledger.asked[r]? = some ask)
    (hr' : s.ledger.asked[label.request]? = some (.open gen localId)) :
    (({ s with hub, ledger := s.ledger.enter ⟨gen, localId⟩ ⟨target, y⟩ label } : Server).pends r
      ask).toNat = (decide (label.request = r)).toNat + (s.pends r ask).toNat := by
  set s' : Server := { s with hub, ledger := s.ledger.enter ⟨gen, localId⟩ ⟨target, y⟩ label }
    with hs'
  have hne : (⟨gen, localId⟩ : Endpoint) ≠ ⟨target, y⟩ := fun hc =>
    h.ne (congrArg Endpoint.remoteGen hc).symm
  have hfree : ∀ {b}, s.entry .pendingOut ⟨gen, localId⟩ ≠ some b := by
    intro b hb
    cases (h.free .pendingOut).symm.trans hb
  have hfree' : ∀ {b}, s.entry .pendingOut ⟨target, y⟩ ≠ some b := by
    intro b hb
    cases (h.target_free .pendingOut).symm.trans hb
  have hlabel : s'.ledger.label ⟨gen, localId⟩ = label := by
    exact (update_of_ne hne _ _).trans (update_self _ _ _)
  cases ask with
  | post g id =>
    have hreq : label.request ≠ r := by
      rintro rfl
      cases hr.symm.trans hr'
    rw [decide_eq_false hreq]
    rfl
  | «open» g x =>
    by_cases hreq : label.request = r
    · rw [hreq, hr] at hr'
      cases hr'
      have hbefore : s.pends r (.open gen localId) = false := by
        rw [← Bool.not_eq_true, pends_iff]
        rintro ⟨b, hb, -⟩
        exact hfree hb
      have hafter : s'.pends r (.open gen localId) = true :=
        pends_iff.mpr ⟨_, h.entry.mpr (.inr (.inl ⟨rfl, rfl, rfl⟩)), by rw [hlabel, hreq]⟩
      rw [hbefore, hafter, decide_eq_true hreq]
      rfl
    · rw [decide_eq_false hreq, Bool.toNat_false, Nat.zero_add]
      congr 1
      rw [Bool.eq_iff_iff, pends_iff, pends_iff]
      by_cases hg : (⟨g, x⟩ : Endpoint) = ⟨gen, localId⟩
      · rw [hg, hlabel]
        exact iff_of_false (fun ⟨_, _, hb⟩ => hreq hb) fun ⟨_, hb, _⟩ => hfree hb
      have hout : ∀ {b}, s'.entry .pendingOut ⟨g, x⟩ = some b ↔
          s.entry .pendingOut ⟨g, x⟩ = some b := fun {b} =>
        h.entry.trans (or_iff_left (by simp [hg]))
      have hkept : ∀ {b}, s.entry .pendingOut ⟨g, x⟩ = some b →
          s'.ledger.label ⟨g, x⟩ = s.ledger.label ⟨g, x⟩ := by
        intro b hb
        refine (update_of_ne ?_ _ _).trans (update_of_ne hg _ _)
        intro hc
        exact hfree' (hc ▸ hb)
      constructor
      · rintro ⟨b, hb, hreq⟩
        have hb := hout.mp hb
        exact ⟨b, hb, hkept hb ▸ hreq⟩
      · rintro ⟨b, hb, hreq⟩
        exact ⟨b, hout.mpr hb, (hkept hb).symm ▸ hreq⟩

theorem mem_withdrawn {peerId : String} {x : UInt32} {sentFor : Option Nat}
    (hm : s.hub.connMatches peerId g) (he : s.hub.tunnels.entry .pendingOut g x = some b) :
    (s.ledger.label ⟨g, x⟩).request ∈ (s.noteClose peerId g x sentFor).withdrawn := by
  have hused : (s.hub.tunnels.conn g).used x :=
    ConnTunnels.used_iff.mpr ⟨.pendingOut, by
      change s.hub.tunnels.entry .pendingOut g x ≠ none
      rw [he]
      exact some_ne_none _⟩
  rw [noteClose, if_pos (by rw [hm, hused]; rfl)]
  simp only [he, isSome_some, if_true]
  exact mem_append_right _ (mem_singleton_self _)

theorem Answered.places_entered {k : Nat} {o : Option Nat} (H : s.Answered)
    (hok : s.answersAll (.perform k)) (ht : s.tasks[k]? = some ⟨o, .call c :: rest⟩)
    (h : s.Entered c s' es) (hr : s.ledger.asked[r]? = some ask) (howes : s.owes r)
    (hconns : ask.gen ∈ s'.hub.conns) (hw : r ∉ s'.ledger.withdrawn) :
    es.countP (·.bears r) + (s'.pends r ask).toNat =
      (Effect.bears r (.call c)).toNat + (s.pends r ask).toNat := by
  have hwf := H.sane.wf
  have hmem : .call c ∈ Task.allTodo s.tasks := mem_rest ht mem_cons_self
  have hcall : s.performed (.perform k) = some (.call c) := performed_eq ht
  have hone : ∀ {e : Effect}, [e].countP (·.bears r) = (e.bears r).toNat := by
    intro e
    rw [countP_singleton]
    cases e.bears r <;> rfl
  have hplain : ∀ {es : List Effect}, Plain es → es.countP (·.bears r) = 0 := fun hes =>
    countP_eq_zero.mpr fun e he => by rw [hes e he r]; exact Bool.false_ne_true
  have hanswer : ∀ {g msg} {n : Nat}, (s.ledger.item g msg).answers = some n →
      Effect.bears r (.put .push g (s.ledger.item g msg)) = decide (n = r) := by
    intro g msg n hn
    simp [Effect.bears, hn]
  have hended : ∀ {s₁ : Server} {a b : Endpoint}, s.entry .pendingOut a = some b →
      (∀ {c d}, s₁.entry .pendingOut c = some d ↔
        s.entry .pendingOut c = some d ∧ c ≠ a ∧ c ≠ b) → s₁.ledger.label = s.ledger.label →
      (decide ((s.ledger.label a).request = r)).toNat + (s₁.pends r ask).toNat =
        0 + (s.pends r ask).toNat := by
    intro s₁ a b ha hent hl
    rw [Nat.zero_add, Nat.add_comm]
    exact H.pends_ended ha hent hl hr
  have hspared : ∀ {s₁ : Server} {a b : Endpoint}, s.entry .pendingOut a = some b →
      (∀ {c d}, s₁.entry .pendingOut c = some d ↔
        s.entry .pendingOut c = some d ∧ c ≠ a ∧ c ≠ b) → s₁.ledger.label = s.ledger.label →
      (s.ledger.label a).request ≠ r → (s₁.pends r ask).toNat = (s.pends r ask).toNat := by
    intro s₁ a b ha hent hl hne
    have h := hended ha hent hl
    rwa [decide_eq_false hne, Bool.toNat_false, Nat.zero_add, Nat.zero_add] at h
  cases h with
  | @watch peerId gen peers =>
    have hsame : ({ s with hub := (s.hub.setWatch peerId gen peers).2.1 } : Server).pends r ask =
        s.pends r ask := by
      refine pends_congr (fun a => ?_) rfl
      simp only [entry, Hub.setWatch]
      split
      · rfl
      · split <;> rfl
    refine congrArg₂ (· + ·) (hplain fun e he r => ?_) (congrArg Bool.toNat hsame)
    rcases mem_append.mp he with he | he
    · obtain ⟨push, hpush, rfl⟩ := mem_map.mp he
      simp [Effect.bears, answers_notice (Hub.setWatch_notice push hpush)]
    · obtain ⟨msg, -, rfl⟩ := mem_map.mp he
      rfl
  | openFails h =>
    obtain ⟨t, rfl, ht⟩ := h
    refine congrArg₂ (· + ·) (congrArg Bool.toNat ?_) (congrArg Bool.toNat ?_)
    · simp [reply, Effect.bears]
    · exact pends_congr (fun a => ht _ _ _) rfl
  | @opens sender gen localId toPeer toDevice request hub target y msg label h hlabel =>
    refine (Nat.zero_add _).trans ?_
    have hrequest : label.request = request := by rw [hlabel]
    obtain ⟨ask', hr', hsuits⟩ := H.bearing hmem (decide_eq_true rfl)
    rw [← hrequest] at hr'
    exact (pends_opened h hr (hsuits ▸ hr')).trans (by rw [hrequest]; rfl)
  | failsNothing | closesNothing | tellsNobody | forwardsNothing => rfl
  | @fails opening code hub e hm h =>
    obtain ⟨hout, rfl⟩ := h
    rw [← singleton_append, countP_append, hone, hone, hanswer rfl]
    exact hended hout (hwf.tunnels.entry_without hout) noteFail_label.1
  | @accepts peerId gen localId e hm h =>
    rw [hone, hanswer rfl]
    exact hended (hwf.tunnels.symm h) ((hwf.tunnels.entry_accept h).trans
      ((or_iff_left fun h => by cases h.1).trans (and_congr_right fun _ => And.comm))) rfl
  | @rejects peerId gen localId hub e hm h =>
    obtain ⟨hin, rfl⟩ := h
    rw [hone, hanswer rfl]
    exact hended (hwf.tunnels.symm hin) ((hwf.tunnels.entry_without hin).trans
      (and_congr_right fun _ => And.comm)) rfl
  | @closes peerId gen localId code sentFor hub k e hm h =>
    obtain ⟨hk, rfl⟩ := h
    refine congrArg (0 + ·) ?_
    cases k with
    | established =>
      refine congrArg Bool.toNat (pends_congr (fun a => Option.ext fun d => ?_)
        noteClose_label.1)
      refine (hwf.tunnels.entry_without hk).trans (and_iff_left_of_imp fun h => ?_)
      constructor
      · intro hc
        cases hc
        cases hwf.tunnels.single h hk
      · intro hc
        cases hc
        cases hwf.tunnels.single h (hwf.tunnels.symm hk)
    | pendingOut =>
      -- the opener closes: the request is withdrawn
      have hne : (s.ledger.label ⟨gen, localId⟩).request ≠ r := by
        rintro rfl
        exact hw (mem_withdrawn hm hk)
      exact hspared (a := ⟨gen, localId⟩) hk (hwf.tunnels.entry_without hk) noteClose_label.1 hne
    | pendingIn =>
      have hne : (s.ledger.label e).request ≠ r := by
        rintro rfl
        simp [answersAll, hcall, hm, hk, settled, howes] at hok
      exact hspared (hwf.tunnels.symm hk) ((hwf.tunnels.entry_without hk).trans
        (and_congr_right fun _ => And.comm)) noteClose_label.1 hne
  | @unregisters peerId gen =>
    rw [hplain (plain_detached hwf.detached_unregister)]
    refine congrArg (0 + Bool.toNat ·) ?_
    refine H.pends_detached hwf.detached_unregister rfl rfl (by simp only [leaves, hcall]) hok howes ?_
    split
    next hm =>
      rintro hg
      cases hg
      exact Hub.unregister_gone hm hconns
    next => exact fun hg => by cases hg
  | @delivers post toPeer row =>
    rw [hone, bears_deliverTo]
    rfl
  | tells =>
    obtain ⟨x, code, n, rfl⟩ := H.sane.proper _ hmem
    rfl
  | acceptFails | rejectFails | forwards => rw [hone]; rfl

/-- A message for a control queue answers the request it bears; the task goes on with the rest. -/
theorem bears_sent {item : Item} (hproper : Proper (.put how g item)) :
    (how.sent item rest).countP (·.bears r) + (decide (item.answers = some r)).toNat =
      (Effect.put how g item :: rest).countP (·.bears r) := by
  have hhead : (Effect.put how g item :: rest).countP (·.bears r) =
      rest.countP (·.bears r) + (Effect.bears r (.put how g item)).toNat := by
    rw [countP_cons]
    cases Effect.bears r (.put how g item) <;> rfl
  rw [hhead]
  cases how with
  | push | enqueue | send => rfl
  | offer opening =>
    rfl
  | deliver others any post =>
    obtain ⟨row, rfl⟩ := hproper
    have hnext : (How.sent row.item rest (.deliver others any post)).countP (·.bears r) =
        rest.countP (·.bears r) + (Effect.bears r (deliverTo post row.item true others)).toNat := by
      rw [How.sent, countP_cons]
      cases Effect.bears r (deliverTo post row.item true others) <;> rfl
    rw [hnext, bears_deliverTo]
    rfl

theorem Moved.answers (hm : s.Moved act s') (H : s.hub.Wf)
    (hput : ∀ how item, s.performed act ≠ some (.put how g item)) :
    (s'.lines g).sent.countP (·.answers = some r) =
      (s.lines g).sent.countP (·.answers = some r) := by
  rcases hm.sent H g with hsent | ⟨how, item, hp, -⟩ | ⟨added, hsent, hfar⟩
  · rw [hsent]
  · exact absurd hp (hput how item)
  · rw [hsent, countP_append, Nat.add_eq_left, countP_eq_zero]
    intro item hmem
    rcases hfar item hmem with rfl | rfl <;> exact Bool.false_ne_true

theorem Answered.bears_failed {k : Nat} {o : Option Nat} (H : s.Answered)
    (ht : s.tasks[k]? = some ⟨o, .put how g item :: rest⟩)
    (hoffer : ∀ opening, how = .offer opening → opening.label.request ≠ r)
    (hr : s.ledger.asked[r]? = some ask)
    (hdead : g = ask.gen → (how.fail (s.lines g)).running ∧ (how.fail (s.lines g)).cancelled = false) :
    (how.failed g item rest).countP (·.bears r) =
      (Effect.put how g item :: rest).countP (·.bears r) := by
  have hmem : ∀ {e}, e ∈ Effect.put how g item :: rest → e ∈ Task.allTodo s.tasks := fun h =>
    mem_rest ht h
  have htask := Task.mem_of_getElem? ht
  -- an answer is for the connection that it is put into the queue of
  have hanswer : ∀ {e : Effect}, e ∈ Effect.put how g item :: rest → e.bears r → e.suits ask := by
    intro e he hb
    obtain ⟨ask', hr', hs⟩ := H.bearing (hmem he) hb
    cases hr.symm.trans hr'
    exact hs
  have hby : ∀ {how g item}, Effect.own (.put how g item) → Effect.by? (.put how g item) = some g := by
    intro how g item hown
    cases how <;> first | rfl | cases hown
  -- what a connection has to be told itself is all that follows
  have hnone : Effect.own (.put how g item) → g ≠ ask.gen →
      ∀ e ∈ Effect.put how g item :: rest, ¬ e.bears r := by
    intro hown hg e he hb
    have howned := H.tidy.owned _ htask
    have hown' : e.own := by
      rcases mem_cons.mp he with rfl | he
      · exact hown
      · exact (H.tidy.ranked _ htask).rest_own hown e he
    have hs := hanswer he hb
    cases e with
    | put how' g' item' =>
      have hg' : g' = g :=
        some.inj ((howned _ he g' (hby hown')).symm.trans (howned.head g (hby hown)))
      cases how' with
      | enqueue | send => exact hg (hg' ▸ hs.1)
      | _ => cases hown'
    | _ => cases hown'
  have hhead := hanswer mem_cons_self
  cases how with
  | push =>
    have hnot : Effect.bears r (.put .push g item) = false := by
      rw [← Bool.not_eq_true]
      intro hb
      cases (hdead (hhead hb).1).2
    rw [countP_cons, hnot]
    rfl
  | offer opening =>
    obtain ⟨x, sender, device, name, rfl⟩ := H.sane.proper _ (hmem mem_cons_self)
    simp [How.failed, Effect.bears, hoffer opening rfl]
  | enqueue | send =>
    have hg : g ≠ ask.gen := fun h => Bool.false_ne_true (hdead h).1
    rw [countP_eq_zero.mpr (hnone rfl hg)]
    rfl
  | deliver others any post =>
    obtain ⟨row, rfl⟩ := H.sane.proper _ (hmem mem_cons_self)
    rw [How.failed, countP_cons, countP_cons, bears_deliverTo]
    rfl

theorem Answered.places_moved (H : s.Answered) (hok : s.answersAll act) (hm : s.Moved act s')
    (hr : s.ledger.asked[r]? = some ask) (howes' : s'.owes r) :
    s'.places r ask = s.places r ask := by
  have hwf := H.sane.wf
  have howes := H.owes_of_moved hm hr howes'
  obtain ⟨halive, hw⟩ := (owes_iff (hm.asked_get hwf hr)).mp howes'
  simp only [alive, Bool.and_eq_true, decide_eq_true_eq, Bool.not_eq_true'] at halive
  obtain ⟨⟨hconns, hrunning⟩, hcancelled⟩ := halive
  -- a task went on, and the table is as it was
  have hadv : ∀ {k : Nat} {o e rest o' todo}, s.tasks[k]? = some ⟨o, e :: rest⟩ →
      s'.tasks = Task.advance s.tasks k o' todo → s'.hub = s.hub → s'.ledger = s.ledger →
      todo.countP (·.bears r) + (s'.lines ask.gen).sent.countP (·.answers = some r) =
        (e :: rest).countP (·.bears r) + (s.lines ask.gen).sent.countP (·.answers = some r) →
      s'.places r ask = s.places r ask := by
    intro k o e rest o' todo ht htasks hhub hledger hcount
    have hpends : s'.pends r ask = s.pends r ask :=
      pends_congr (fun a => by rw [entry, entry, hhub]) (by rw [hledger])
    have htodo := Task.countP_advance (p := fun e => e.bears r) ht o' todo
    rw [places, places, htasks, hpends]
    omega
  have hspawn : ∀ {g todo}, s'.tasks = Task.spawn s.tasks (some g) todo → (∀ e ∈ todo, ¬ e.bears r) →
      (∀ how item, s.performed act ≠ some (.put how ask.gen item)) →
      s'.pends r ask = s.pends r ask → s'.places r ask = s.places r ask := by
    intro g todo htasks htodo hput hpends
    rw [places, places, htasks, Task.countP_spawn, hpends, hm.answers hwf hput,
      countP_eq_zero.mpr htodo, Nat.add_zero]
  have hlabels : ∀ {t : Server}, t.hub = s.hub → t.ledger.label = s.ledger.label →
      t.pends r ask = s.pends r ask := fun hhub hl =>
    pends_congr (fun a => by rw [entry, entry, hhub]) hl
  have hlt : r < s.ledger.asked.length := (List.getElem?_eq_some_iff.mp hr).1
  have hanswers := @Moved.answers s s' act ask.gen r hm hwf
  cases hm with
  | @connect spec mails =>
    refine hspawn rfl (fun e he hb => ?_) (fun _ _ h => by cases h) ?_
    · rcases mem_append.mp he with he | he
      · rw [plain_detached (hwf.detached_register spec) e he r] at hb
        cases hb
      · obtain ⟨item, hmem, rfl⟩ := mem_map.mp he
        rcases mem_cons.mp hmem with rfl | hmem
        · cases hb
        · obtain ⟨row, -, rfl⟩ := mem_map.mp hmem
          cases hb
    · refine H.pends_detached (hwf.detached_register spec) rfl rfl rfl
        hok howes fun hgone => ?_
      exact hwf.displaced_gone hgone hconns
  | @request a g todo asked hrd hq =>
    refine hspawn rfl (fun e he hb => ?_) (fun _ _ h => by cases hq <;> cases h) (hlabels rfl rfl)
    rcases hq.asks hok with ⟨hplain, -⟩ | ⟨ask', e', -, rfl, -, -, hbears⟩
    · rw [hplain e he r] at hb
      cases hb
    · rw [mem_singleton.mp he, hbears] at hb
      exact hlt.ne hb
  | @leave g idle hrd =>
    refine hspawn rfl (fun e he hb => ?_) (fun _ _ h => by cases h) (hlabels rfl rfl)
    rw [mem_singleton.mp he] at hb
    cases hb
  | @put k o how g item rest l ht hl =>
    have hmem := mem_rest ht mem_cons_self
    refine hadv ht rfl rfl rfl ?_
    rw [← bears_sent (H.sane.proper _ hmem), Nat.add_assoc]
    congr 1
    dsimp only
    by_cases hg : ask.gen = g
    · subst hg
      rw [update_self, Line.sent_trySend hl, countP_append, countP_singleton, Nat.add_comm]
      cases decide (item.answers = some r) <;> rfl
    have hne : item.answers ≠ some r := by
      intro h
      obtain ⟨ask', hr', hg', -⟩ := H.answers_put hmem h
      cases hr.symm.trans hr'
      exact hg hg'
    rw [update_of_ne hg, decide_eq_false hne, Bool.toNat_false, Nat.zero_add]
  | @putFails a k o how g item rest ht hl ha hw hx =>
    refine hadv ht rfl rfl rfl ?_
    have hfailed := H.bears_failed (r := r) ht ?_ hr ?_
    · rw [hfailed, putFails]
      rw [sent_update (Line.fail_sent how)]
    · rintro opening rfl rfl
      rcases ha with rfl | rfl
      · simp [answersAll, performed_eq ht, hl, howes] at hok
      · obtain ⟨others, any, post, h⟩ := hx _ rfl
        cases h
    · rintro rfl
      simp only [putFails, update_self] at hrunning hcancelled
      exact ⟨hrunning, hcancelled⟩
  | @frame k o sender gen localId g f rest l ht hl =>
    refine hadv ht rfl rfl rfl ?_
    rw [hanswers fun _ _ h => by cases (performed_eq ht).symm.trans h]
    rfl
  | frameFails ht | sleep ht | wait ht => exact hadv ht rfl rfl rfl rfl
  | @call k o c rest ht =>
    have hentered := H.places_entered hok ht (entered hwf c) hr howes hconns hw
    have htodo := Task.countP_requeue (p := fun e => e.bears r) ht o ((s.enter c).2 ++ rest)
    have hsent := hanswers fun _ _ h => by cases (performed_eq ht).symm.trans h
    have hpends : (s.afterCall (s.enter c).1 k o ((s.enter c).2 ++ rest)).pends r ask =
        (s.enter c).1.pends r ask := pends_congr (fun _ => rfl) rfl
    rw [countP_append] at htodo
    rw [countP_cons] at htodo
    rw [places, places, hpends, hsent, afterCall]
    dsimp only
    have hhead : (if Effect.bears r (.call c) = true then 1 else 0) =
        (Effect.bears r (.call c)).toNat := by
      cases Effect.bears r (.call c) <;> rfl
    omega
  | tick => rfl
  | @write g move l hwrite =>
    rw [places, places]
    rw [sent_update (Line.sent_write hwrite)]
    rfl

theorem Answered.places_asked (H : s.Answered) {todo : List Effect} {asked : List Ask}
    (hok : s.answersAll act) (hq : s.Request act g todo asked) (hr : s'.ledger.asked[r]? = some ask)
    (hasked : s'.ledger.asked = s.ledger.asked ++ asked) (hnew : s.ledger.asked.length ≤ r)
    (htasks : s'.tasks = Task.spawn s.tasks (some g) todo)
    (hpends : s'.pends r ask = s.pends r ask) (hsent : (s'.lines ask.gen).sent = (s.lines ask.gen).sent)
    (halive : s'.alive g → s.alive g) (howes : s'.owes r) : s'.places r ask = 1 := by
  have hnone : s.ledger.asked[r]? = none := getElem?_eq_none hnew
  rw [owes_iff hr] at howes
  rw [hasked, getElem?_append_right hnew] at hr
  have hbefore : (Task.allTodo s.tasks).countP (·.bears r) = 0 := by
    refine countP_eq_zero.mpr fun e he hb => ?_
    obtain ⟨ask', hr', -⟩ := H.bearing he hb
    cases hnone.symm.trans hr'
  have hanswers : (s.lines ask.gen).sent.countP (·.answers = some r) = 0 := by
    refine countP_eq_zero.mpr fun item hmem h => ?_
    obtain ⟨ask', hr', -⟩ := H.told hmem (decide_eq_true_eq.mp h)
    cases hnone.symm.trans hr'
  have hwaits : s.pends r ask = false := by
    rw [← Bool.not_eq_true]
    intro h
    cases ask with
    | post => cases h
    | «open» g x =>
      obtain ⟨b, hb, rfl⟩ := pends_iff.mp h
      cases hnone.symm.trans (H.pending hb)
  rw [places, htasks, Task.countP_spawn, hpends, hsent, hbefore, hanswers, hwaits]
  have hone : ∀ {ask'}, [ask'][r - s.ledger.asked.length]? = some ask →
      ask' = ask ∧ r = s.ledger.asked.length := by
    intro ask' h
    obtain ⟨hlt, h⟩ := List.getElem?_eq_some_iff.mp h
    rw [List.length_singleton, Nat.lt_one_iff] at hlt
    exact ⟨by simpa [hlt] using h, by omega⟩
  rcases hq.asks hok with ⟨-, rfl | ⟨hdead, ask', rfl, hg⟩⟩ | ⟨ask', e, rfl, rfl, -, -, hbears⟩
  · cases hr
  · obtain ⟨rfl, -⟩ := hone hr
    rw [hg] at howes
    exact absurd (halive howes.1) hdead
  · obtain ⟨-, hlen⟩ := hone hr
    rw [countP_singleton, if_pos ((hbears r).mpr hlen)]
    rfl

theorem Answered.once_moved (H : s.Answered) (hok : s.answersAll act) (hm : s.Moved act s')
    (hr : s'.ledger.asked[r]? = some ask) (howes : s'.owes r) : s'.places r ask = 1 := by
  have hold : r < s.ledger.asked.length → s'.places r ask = 1 := by
    intro hlt
    obtain ⟨ask', hr'⟩ : ∃ ask', s.ledger.asked[r]? = some ask' := ⟨_, getElem?_eq_getElem hlt⟩
    obtain rfl : ask' = ask := some.inj ((hm.asked_get H.sane.wf hr').symm.trans hr)
    rw [H.places_moved hok hm hr' howes]
    exact H.once hr' (H.owes_of_moved hm hr' howes)
  rcases Nat.lt_or_ge r s.ledger.asked.length with hlt | hnew
  · exact hold hlt
  have hsame : s'.ledger.asked ≠ s.ledger.asked := by
    intro heq
    rw [heq, getElem?_eq_none hnew] at hr
    cases hr
  cases hm with
  | request hrd hq =>
    exact H.places_asked hok hq hr rfl hnew rfl (pends_congr (fun _ => rfl) rfl) rfl id howes
  | call ht =>
    rw [afterCall_ledger, asked_enter (entered H.sane.wf _)] at hsame
    exact absurd rfl hsame
  | _ => exact absurd rfl hsame

theorem Answered.moved (H : s.Answered) (hok : s.answersAll act) (hm : s.Moved act s') :
    s'.Answered where
  sane := H.sane.moved hm
  tidy := H.tidy.moved H.sane hm
  known := H.known_moved hok hm
  bearing := H.bearing_moved hok hm
  told := H.told_moved hm
  pending := H.pending_moved hm
  waiting := H.waiting_moved hm
  timers := H.timers_moved hm
  once := H.once_moved hok hm

/-- Every request is answered once, in every run in which the requests are let pass by the limiter,
no callee leaves or closes an offer while its answer is owed, and the offers are taken by the queues
of the callees. -/
theorem requests_answered_once {as : List Action}
    (h : Run step (fun s a => s.answersAll a = true) {} as s) : s.AnsweredOnce := by
  have hstep : ∀ {s : Server} {a s'}, s.answersAll a = true → Answered s → step s a = some s' →
      Answered s' := fun hok H hs => H.moved hok (step_moved hs)
  exact (Run.invariant hstep h Answered.start).answeredOnce

/-- An open that is accepted, and one that nobody answers. -/
theorem requests_answered_once_twice : ∃ (as : List Action) (s : Server), exec step {} as = some s ∧
    (s.owes 0 = true ∧ s.owes 1 = true ∧ s.tasks = []) ∧ s.AnsweredOnce := by
  let acts := meet ++ [request "open" [("tunnel", .num 7), ("to", .str peerB)] 1, .perform 0,
    .perform 0, .perform 0, request "accept" [("tunnel", .num 1)] 2, .perform 1, .perform 1,
    request "open" [("tunnel", .num 8), ("to", .str peerB)] 1, .perform 1, .perform 1, .perform 1,
    .tick 15000, .perform 0, .perform 0, .perform 0, .perform 0, .perform 0, .perform 0]
  have hrun : (exec step {} acts).map (fun s => (s.owes 0, s.owes 1, s.tasks)) =
      some (true, true, []) := by decide +kernel
  have hok : allowed step answersAll {} acts = true := by decide +kernel
  obtain ⟨s, hs, hstate⟩ := map_eq_some_iff.mp hrun
  simp only [Prod.mk.injEq] at hstate
  exact ⟨acts, s, hs, hstate, requests_answered_once (Run.of_allowed hok hs)⟩

/-- The `incoming` is not taken by the queue of the callee: the open is failed twice. -/
theorem request_answered_twice : ¬ ∀ (as : List Action) (s : Server), FreeRun step {} as s →
    s.AnsweredOnce := by
  intro h
  let acts := meet ++ [.write 2 .ends, request "open" [("tunnel", .num 7), ("to", .str peerB)] 1,
    .perform 0, .perform 0, .perform 0, .perform 0, .perform 0, .perform 0]
  have hrun : (exec step {} acts).map (fun s => (s.ledger.asked[0]?, s.owes 0, s.tasks,
      ((s.lines 1).sent.filter (·.answers = some 0)).length)) =
      some (some (.open 1 7), true, [], 2) := by decide +kernel
  obtain ⟨s, hs, hstate⟩ := map_eq_some_iff.mp hrun
  simp only [Prod.mk.injEq] at hstate
  obtain ⟨hasked, howes, htasks, hlength⟩ := hstate
  obtain ⟨item, hitem, -⟩ := h acts s (.of_exec hs) 0 _ hasked howes fun e he => by
    rw [htasks] at he
    cases he
  cases hlength.symm.trans (congrArg List.length hitem)

end Server
end Bluetalk.Relay

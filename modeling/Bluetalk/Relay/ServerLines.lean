import Bluetalk.Relay.ServerSteps

/-!
# Connections in the course of a run

Queues only grow, but for what the writer takes, and what is over stays so (`Moved.lines`). What is
put into a control queue is the message whose turn it is, or a farewell (`Moved.sent`).
-/

open List Function

namespace Bluetalk.Relay

/-- A later state of a connection: more was sent, and what is over stays so. -/
structure Line.Le (l l' : Line) : Prop where
  sent : ∃ added, l'.sent = l.sent ++ added
  cancelled : l.cancelled → l'.cancelled
  gone : l.writer = .gone → l'.writer = .gone

namespace Line.Le

variable {l l' l'' : Line} {item : Item}

theorem refl (l : Line) : l.Le l := ⟨⟨[], (append_nil _).symm⟩, id, id⟩

theorem trans (h : l.Le l') (h' : l'.Le l'') : l.Le l'' := by
  obtain ⟨added, hadded⟩ := h.sent
  obtain ⟨more, hmore⟩ := h'.sent
  exact ⟨⟨added ++ more, by rw [hmore, hadded, append_assoc]⟩,
    fun hc => h'.cancelled (h.cancelled hc), fun hg => h'.gone (h.gone hg)⟩

theorem mem (h : l.Le l') (hi : item ∈ l.sent) : item ∈ l'.sent := by
  obtain ⟨added, hadded⟩ := h.sent
  rw [hadded]
  exact mem_append_left _ hi

theorem trySend (h : l.trySend item = some l') : l.Le l' := by
  refine ⟨⟨_, sent_trySend h⟩, ?_, ?_⟩
  all_goals
    obtain ⟨-, -, rfl⟩ := trySend_eq_some.mp h
    exact id

theorem trySend_getD (item : Item) : l.Le ((l.trySend item).getD l) := by
  cases h : l.trySend item with
  | none => exact refl l
  | some l' => exact trySend h

theorem replaced : l.Le l.replaced := by
  have hctl : l.Le (l.trySendCtl { msg := .text (.error "replaced") }) := by
    rw [trySendCtl]
    cases h : l.trySend { msg := .text (.error "replaced") } with
    | none => exact ⟨(refl l).sent, fun _ => rfl, id⟩
    | some l' => exact trySend h
  have hclose := hctl.trans (trySend_getD { msg := .close })
  exact ⟨hclose.sent, fun _ => rfl, hclose.gone⟩

theorem fail (how : How) : l.Le (how.fail l) := by
  cases how with
  | push | offer => exact ⟨(refl l).sent, fun _ => rfl, id⟩
  | enqueue | send => exact ⟨(refl l).sent, id, id⟩
  | deliver =>
    simp only [How.fail]
    split
    · exact refl l
    · exact ⟨(refl l).sent, fun _ => rfl, id⟩

theorem write {move : WriterMove} (h : l.write move = some l') : l.Le l' := by
  refine ⟨⟨[], by rw [sent_write h, append_nil]⟩, ?_, ?_⟩
  · rw [(write_same h).2.2.1]
    exact id
  intro hg
  cases move with
  | takeControl | takeFrame | seeNoControl | wake | ends => simp [Line.write, hg] at h

theorem update {lines : Nat → Line} {g : Nat} (h : (lines g).Le l) (g' : Nat) :
    (lines g').Le (update lines g l g') := by
  by_cases hg : g' = g
  · subst hg
    rwa [update_self]
  · rw [update_of_ne hg]
    exact refl _

end Line.Le

theorem Line.write_cases {l l' : Line} {move : WriterMove} (h : l.write move = some l') :
    (∃ item rest, move = .takeControl ∧ l.control = item :: rest ∧ l'.control = rest ∧
      l'.received = l.received ++ [.control item] ∧ l'.data = l.data) ∨
    (∃ f rest, move = .takeFrame ∧ l.data = f :: rest ∧ l'.data = rest ∧
      l'.received = l.received ++ [.frame f] ∧ l'.control = l.control) ∨
    (l'.control = l.control ∧ l'.received = l.received ∧ l'.data = l.data) := by
  cases move with
  | takeControl =>
    simp only [Line.write] at h
    split at h
    next hc => cases h; exact .inl ⟨_, _, rfl, hc, rfl, rfl, rfl⟩
    next => cases h
  | takeFrame =>
    simp only [Line.write] at h
    split at h
    next hd => cases h; exact .inr (.inl ⟨_, _, rfl, hd, rfl, rfl, rfl⟩)
    next => cases h
  | seeNoControl | wake | ends =>
    simp only [Line.write] at h
    split at h <;> cases h
    exact .inr (.inr ⟨rfl, rfl, rfl⟩)

/-- Only the control queue grew, and flags changed. -/
structure Line.Fed (l l' : Line) : Prop where
  received : l'.received = l.received
  control : ∃ added, l'.control = l.control ++ added
  data : l'.data = l.data
  writer : l'.writer = l.writer

namespace Line.Fed

variable {l l' l'' : Line} {item : Item}

theorem refl (l : Line) : l.Fed l := ⟨rfl, ⟨[], (append_nil _).symm⟩, rfl, rfl⟩

theorem trans (h : l.Fed l') (h' : l'.Fed l'') : l.Fed l'' := by
  obtain ⟨added, hadded⟩ := h.control
  obtain ⟨more, hmore⟩ := h'.control
  exact ⟨h'.received.trans h.received, ⟨added ++ more, by rw [hmore, hadded, append_assoc]⟩,
    h'.data.trans h.data, h'.writer.trans h.writer⟩

theorem trySend (h : l.trySend item = some l') : l.Fed l' := by
  obtain ⟨-, -, rfl⟩ := trySend_eq_some.mp h
  exact ⟨rfl, ⟨_, rfl⟩, rfl, rfl⟩

theorem trySend_getD (item : Item) : l.Fed ((l.trySend item).getD l) := by
  cases h : l.trySend item with
  | none => exact refl l
  | some l' => exact trySend h

theorem replaced : l.Fed l.replaced := by
  have hctl : l.Fed (l.trySendCtl { msg := .text (.error "replaced") }) := by
    rw [trySendCtl]
    cases h : l.trySend { msg := .text (.error "replaced") } with
    | none => exact ⟨rfl, (refl l).control, rfl, rfl⟩
    | some l' => exact trySend h
  have hclose := hctl.trans (trySend_getD { msg := .close })
  exact ⟨hclose.received, hclose.control, hclose.data, hclose.writer⟩

theorem fail (how : How) : l.Fed (how.fail l) := by
  cases how with
  | deliver =>
    simp only [How.fail]
    split <;> exact ⟨rfl, (refl l).control, rfl, rfl⟩
  | _ => exact ⟨rfl, (refl l).control, rfl, rfl⟩

end Line.Fed

namespace Server

variable {s s' : Server} {a : Action} {g : Nat} {c : Call} {es : List Effect}

theorem lines_connect (spec : RegisterSpec) (mails : List MailRow) :
    (g = s.hub.nextGen ∧ (s.connect spec mails).lines g =
        { s.lines g with peerId := spec.peerId, running := true }) ∨
      (g ≠ s.hub.nextGen ∧ (s.hub.register spec).1.replaced = some g ∧
        (s.connect spec mails).lines g = (s.lines g).replaced) ∨
      (g ≠ s.hub.nextGen ∧ (s.hub.register spec).1.replaced ≠ some g ∧
        (s.connect spec mails).lines g = s.lines g) := by
  simp only [Server.connect, spawn]
  change _ ∧ update _ s.hub.nextGen _ g = _ ∨ _ ∧ _ ∧ update _ s.hub.nextGen _ g = _ ∨
    _ ∧ _ ∧ update _ s.hub.nextGen _ g = _
  by_cases hg : g = s.hub.nextGen
  · subst hg
    rw [update_self]
    exact .inl ⟨rfl, rfl⟩
  rw [update_of_ne hg]
  cases (s.hub.register spec).1.replaced with
  | none => exact .inr (.inr ⟨hg, by simp, rfl⟩)
  | some old =>
    by_cases ho : g = old
    · subst ho
      exact .inr (.inl ⟨hg, rfl, update_self _ _ _⟩)
    · refine .inr (.inr ⟨hg, fun h => ho (Option.some.inj h).symm, update_of_ne ho _ _⟩)

theorem lines_enter (H : s.hub.Wf) (c : Call) (g : Nat) :
    (s.lines g).Le ((s.enter c).1.lines g) := by
  refine enter_cases H c fun _ _ hentered => ?_
  cases hentered with
  | @watch peerId gen peers =>
    have hle : (s.lines gen).Le
        { s.lines gen with watchedAt := (s.lines gen).sent.length } :=
      ⟨(Line.Le.refl (s.lines gen)).sent, id, id⟩
    exact hle.update g
  | _ => exact .refl _

theorem Moved.lines (hm : s.Moved a s') (H : s.hub.Wf) (g : Nat) :
    (s.lines g).Le (s'.lines g) := by
  cases hm with
  | @connect spec mails =>
    rcases lines_connect (s := s) (g := g) spec mails with
      ⟨-, h⟩ | ⟨-, -, h⟩ | ⟨-, -, h⟩
    · rw [h]
      exact ⟨(Line.Le.refl (s.lines g)).sent, id, id⟩
    · rw [h]
      exact .replaced
    · rw [h]
      exact .refl _
  | @leave g' idle hr =>
    have hle : (s.lines g').Le { (if idle then ((s.lines g').trySend { msg := .close }).getD
        (s.lines g') else s.lines g') with running := false } := by
      split
      · have hsend := Line.Le.trySend_getD (l := s.lines g') { msg := .close }
        exact ⟨hsend.sent, hsend.cancelled, hsend.gone⟩
      · exact ⟨(Line.Le.refl (s.lines g')).sent, id, id⟩
    exact hle.update g
  | put ht hl => exact (Line.Le.trySend hl).update g
  | putFails => exact (Line.Le.fail _).update g
  | @frame k o sender gen localId g' f rest l ht hl =>
    obtain ⟨-, -, rfl⟩ := Line.sendFrame_eq_some.mp hl
    have hle : (s.lines g').Le { s.lines g' with data := (s.lines g').data ++ [f] } :=
      ⟨(Line.Le.refl (s.lines g')).sent, id, id⟩
    exact hle.update g
  | call => exact lines_enter H _ g
  | write hw => exact (Line.Le.write hw).update g
  | _ => exact .refl _

theorem sent_update {g' : Nat} {l : Line} (hl : l.sent = (s.lines g').sent) :
    (update s.lines g' l g).sent = (s.lines g).sent := by
  by_cases hg : g = g'
  · subst hg
    rw [update_self, hl]
  · rw [update_of_ne hg]

theorem Moved.sent (hm : s.Moved a s') (H : s.hub.Wf) (g : Nat) :
    (s'.lines g).sent = (s.lines g).sent ∨
      (∃ how item, s.performed a = some (.put how g item) ∧
        (s'.lines g).sent = (s.lines g).sent ++ [item]) ∨
      ∃ added, (s'.lines g).sent = (s.lines g).sent ++ added ∧ ∀ i ∈ added, Line.Farewell i := by
  cases hm with
  | @connect spec mails =>
    rcases lines_connect (s := s) (g := g) spec mails with
      ⟨-, h⟩ | ⟨-, -, h⟩ | ⟨-, -, h⟩
    · rw [h]
      exact .inl rfl
    · rw [h]
      exact .inr (.inr Line.sent_replaced)
    · rw [h]
      exact .inl rfl
  | @leave g' idle hr =>
    simp only [Server.leave, spawn]
    by_cases hg : g = g'
    · subst hg
      rw [update_self]
      split
      · obtain ⟨added, hadded, hclose⟩ := Line.sent_trySend_getD (l := s.lines g) { msg := .close }
        exact .inr (.inr ⟨added, hadded, fun i hi => .inr (hclose i hi)⟩)
      · exact .inl rfl
    · rw [update_of_ne hg]
      exact .inl rfl
  | @put k o how g' item rest l ht hl =>
    dsimp only
    by_cases hg : g = g'
    · subst hg
      rw [update_self, Line.sent_trySend hl]
      exact .inr (.inl ⟨how, item, performed_eq ht, rfl⟩)
    · rw [update_of_ne hg]
      exact .inl rfl
  | putFails => exact .inl (sent_update (Line.fail_sent _))
  | frame ht hl =>
    obtain ⟨-, -, rfl⟩ := Line.sendFrame_eq_some.mp hl
    exact .inl (sent_update rfl)
  | @call k o c rest ht =>
    refine enter_cases H c fun _ _ hentered => ?_
    cases hentered with
    | watch => exact .inl (sent_update rfl)
    | _ => exact .inl rfl
  | write hw => exact .inl (sent_update (Line.sent_write hw))
  | _ => exact .inl rfl

/-- How queues change: their writer works, a frame comes in, or there is more to tell. -/
theorem Moved.queues (hm : s.Moved a s') (H : s.hub.Wf) (g : Nat) :
    (∃ move, a = .write g move ∧ (s.lines g).write move = some (s'.lines g)) ∨
      (∃ sender gen x f, s.performed a = some (.frame sender gen x g f) ∧
        s'.lines g = { s.lines g with data := (s.lines g).data ++ [f] }) ∨
      (s.lines g).Fed (s'.lines g) := by
  -- one line is changed, and only fed
  have hupdate : ∀ {g' l}, (s.lines g').Fed l → (s.lines g).Fed (update s.lines g' l g) := by
    intro g' l hl
    by_cases hg : g = g'
    · subst hg
      rwa [update_self]
    · rw [update_of_ne hg]
      exact .refl _
  cases hm with
  | @connect spec mails =>
    rcases lines_connect (s := s) (g := g) spec mails with
      ⟨-, h⟩ | ⟨-, -, h⟩ | ⟨-, -, h⟩
    · rw [h]
      exact .inr (.inr ⟨rfl, (Line.Fed.refl _).control, rfl, rfl⟩)
    · rw [h]
      exact .inr (.inr .replaced)
    · rw [h]
      exact .inr (.inr (.refl _))
  | @leave g' idle hr =>
    refine .inr (.inr (hupdate ?_))
    split
    · have hsend := Line.Fed.trySend_getD (l := s.lines g') { msg := .close }
      exact ⟨hsend.received, hsend.control, hsend.data, hsend.writer⟩
    · exact ⟨rfl, (Line.Fed.refl _).control, rfl, rfl⟩
  | put ht hl => exact .inr (.inr (hupdate (.trySend hl)))
  | putFails => exact .inr (.inr (hupdate (.fail _)))
  | @frame k o sender gen localId g' f rest l ht hl =>
    obtain ⟨-, -, rfl⟩ := Line.sendFrame_eq_some.mp hl
    dsimp only
    by_cases hg : g = g'
    · subst hg
      rw [update_self]
      exact .inr (.inl ⟨sender, gen, localId, f, performed_eq ht, rfl⟩)
    · rw [update_of_ne hg]
      exact .inr (.inr (.refl _))
  | @call k o c rest ht =>
    refine enter_cases H c fun _ _ hentered => ?_
    cases hentered with
    | watch => exact .inr (.inr (hupdate ⟨rfl, (Line.Fed.refl _).control, rfl, rfl⟩))
    | _ => exact .inr (.inr (.refl _))
  | @write g' move l hw =>
    dsimp only
    by_cases hg : g = g'
    · subst hg
      rw [update_self]
      exact .inl ⟨move, rfl, hw⟩
    · rw [update_of_ne hg]
      exact .inr (.inr (.refl _))
  | _ => exact .inr (.inr (.refl _))

/-- What queues and flags have no part in changes by joining or by a granted `watch`. -/
theorem Moved.line_field {α : Type} (F : Line → α) (hqueue : ∀ l items, F { l with control := items } = F l)
    (hdata : ∀ l frames, F { l with data := frames } = F l)
    (hcancelled : ∀ l b, F { l with cancelled := b } = F l)
    (hrunning : ∀ l b, F { l with running := b } = F l)
    (hwrite : ∀ {l l' move}, Line.write l move = some l' → F l' = F l)
    (hm : s.Moved a s') (H : s.hub.Wf) : F (s'.lines g) = F (s.lines g) ∨
      (∃ spec mails, a = .connect spec mails ∧ g = s.hub.nextGen ∧
        s'.lines g = { s.lines g with peerId := spec.peerId, running := true }) ∨
      ∃ p peers, s.performed a = some (.call (.watch p g peers)) ∧
        s'.lines g = { s.lines g with watchedAt := (s.lines g).sent.length } := by
  have hupdate : ∀ {g' l}, F l = F (s.lines g') → F (update s.lines g' l g) = F (s.lines g) := by
    intro g' l hl
    by_cases hg : g = g'
    · subst hg
      rwa [update_self]
    · rw [update_of_ne hg]
  have hsend : ∀ {l l' : Line} {item : Item}, l.trySend item = some l' → F l' = F l := by
    intro l l' item hl
    obtain ⟨-, -, rfl⟩ := Line.trySend_eq_some.mp hl
    exact hqueue _ _
  have hsendD : ∀ {l : Line} {item : Item}, F ((l.trySend item).getD l) = F l := by
    intro l item
    cases hl : l.trySend item with
    | none => rfl
    | some l' => exact hsend hl
  cases hm with
  | @connect spec mails =>
    rcases lines_connect (s := s) (g := g) spec mails with ⟨hg, hl⟩ | ⟨-, -, hl⟩ | ⟨-, -, hl⟩
    · exact .inr (.inl ⟨spec, mails, rfl, hg, hl⟩)
    · refine .inl ?_
      rw [hl, Line.replaced, hcancelled, hsendD, Line.trySendCtl]
      cases hl : (s.lines g).trySend { msg := .text (.error "replaced") } with
      | none => exact hcancelled _ _
      | some l' => exact hsend hl
    · rw [hl]
      exact .inl rfl
  | @leave g' idle hr =>
    refine .inl (hupdate ((hrunning _ _).trans ?_))
    split
    · exact hsendD
    · rfl
  | put ht hl => exact .inl (hupdate (hsend hl))
  | @putFails a k o how g' item rest ht hl ha hw hx =>
    refine .inl (hupdate ?_)
    cases how with
    | deliver =>
      simp only [How.fail]
      split
      · rfl
      · exact hcancelled _ _
    | push | offer => exact hcancelled _ _
    | enqueue | send => exact hrunning _ _
  | frame ht hl =>
    obtain ⟨-, -, rfl⟩ := Line.sendFrame_eq_some.mp hl
    exact .inl (hupdate (hdata _ _))
  | @call k o c rest ht =>
    rw [afterCall_lines]
    refine enter_cases H c fun _ _ hentered => ?_
    cases hentered with
    | @watch p gen peers =>
      dsimp only
      by_cases hg : g = gen
      · subst hg
        rw [update_self]
        exact .inr (.inr ⟨p, peers, performed_eq ht, rfl⟩)
      · rw [update_of_ne hg]
        exact .inl rfl
    | _ => exact .inl rfl
  | write hw => exact .inl (hupdate (hwrite hw))
  | _ => exact .inl rfl

end Server

end Bluetalk.Relay

import Bluetalk.Calls.CallTurns

/-!
# The agreement of two peers about a call

Every step of two managers is a move of the protocol between them. So the peers agree once
everything has arrived, and calls that cross end in the one with the smaller id.
-/

open List Function

namespace Bluetalk.Calls.PeerCalls

open CallState CallProtocol CallSpeaker

def toSystem (s : PeerCalls) : System String String where
  stage p := stageOf (s.speaker p).state
  sent p := (s.sent p).map messageOf
  used c := c ∈ s.used

variable {peerId : String} {device : Option String} {s : CallState} {m : CallSpeaker} {now : Int}
  {c key : String} {popped : List (Message String String)}
  {pair : CallPair} {t t' : PeerCalls} {p : Bool} {r : CallSpeaker × List SentMessage}
  {mine theirs : List CallMessage} {act : PeerAction} {acts : List PeerAction}
  {caps : Bool → Capabilities} {l : List CallMessage}

@[simp] theorem put_speaker_self : (t.put pair p r mine theirs).speaker p = r.1 :=
  update_self ..

@[simp] theorem put_speaker_other : (t.put pair p r mine theirs).speaker (!p) = t.speaker (!p) :=
  update_of_ne (Bool.not_ne_self p) ..

@[simp] theorem put_sent_self : (t.put pair p r mine theirs).sent p =
    mine ++ delivered (pair.name !p) (pair.device !p) r.2 :=
  (update_of_ne (Bool.self_ne_not p) ..).trans (update_self ..)

@[simp] theorem put_sent_other : (t.put pair p r mine theirs).sent (!p) = theirs :=
  update_self ..

theorem toSystem_ext {x y : System String String} (p : Bool) (hused : x.used = y.used)
    (hstage : x.stage p = y.stage p) (hstage' : x.stage (!p) = y.stage (!p))
    (hsent : x.sent p = y.sent p) (hsent' : x.sent (!p) = y.sent (!p)) : x = y := by
  obtain ⟨stage, sent, used⟩ := x
  obtain ⟨stage', sent', used'⟩ := y
  obtain rfl : stage = stage' := funext (forall_peers p hstage hstage')
  obtain rfl : sent = sent' := funext (forall_peers p hsent hsent')
  obtain rfl : used = used' := hused
  rfl

theorem toSystem_put : toSystem (t.put pair p r mine theirs) =
    (toSystem t).put p (stageOf r.1.state)
      (mine.map messageOf ++ (delivered (pair.name !p) (pair.device !p) r.2).map messageOf)
      (theirs.map messageOf) := by
  refine toSystem_ext p rfl ?_ ?_ ?_ ?_
  · simp [toSystem]
  · simp [toSystem]
  · simp [toSystem]
  · simp [toSystem]

theorem known (pair : CallPair) (p : Bool) : Known (pair.name p) (pair.device p) :=
  ⟨pair.named p, pair.text p⟩

/-- What holds of the two managers, whatever has happened. -/
structure Shape (pair : CallPair) (t : PeerCalls) : Prop where
  shaped : ∀ p, Shaped (pair.name !p) (pair.device !p) (t.speaker p).state
  named : ∀ p, ∀ x ∈ t.sent p, x.callId ≠ ""

theorem shape_start : Shape pair (start caps) :=
  ⟨fun _ => shaped_idle, fun _ _ hx => absurd hx not_mem_nil⟩

theorem Shape.put (H : Shape pair t) (hr : Shaped (pair.name !p) (pair.device !p) r.1.state)
    (hsent : ∀ x ∈ delivered (pair.name !p) (pair.device !p) r.2, x.callId ≠ "")
    (hmine : ∀ x ∈ mine, x.callId ≠ "") (htheirs : ∀ x ∈ theirs, x.callId ≠ "") :
    Shape pair (t.put pair p r mine theirs) := by
  refine ⟨forall_peers p ?_ ?_, forall_peers p ?_ ?_⟩
  · rwa [put_speaker_self]
  · rw [put_speaker_other]
    exact H.shaped _
  · rw [put_sent_self, forall_mem_append]
    exact ⟨hmine, hsent⟩
  · rwa [put_sent_other]

theorem Acts.shape_put {why : Cause}
    (A : Acts (pair.name !p) (pair.device !p) (t.speaker p) why popped r) (H : Shape pair t)
    (hmine : ∀ x ∈ mine, x.callId ≠ "") (htheirs : ∀ x ∈ theirs, x.callId ≠ "") :
    Shape pair (t.put pair p r mine theirs) := H.put A.shaped A.named hmine htheirs

theorem Acts.move {why : Cause}
    (A : Acts (pair.name !p) (pair.device !p) (t.speaker p) why popped r)
    (hpop : (t.sent !p).map messageOf = popped ++ theirs.map messageOf) :
    Move Before (toSystem t) why (toSystem (t.put pair p r (t.sent p) theirs)) := by
  rw [toSystem_put]
  exact .turn p hpop A.turn

/-- A message arrives that is not refused: an offer that is neither blocked nor stale. -/
def prompt (t : PeerCalls) : PeerAction → Bool
  | .deliver p blocked now => !blocked && (t.sent !p).head?.all fun
      | .offer o => !isStaleCallOffer o.timestamp now
      | .signal _ => true
  | _ => false

theorem start_move (key : String) (codecs : List String) (video : Bool) (now : Int)
    (H : Shape pair t) (hc : c ≠ "") (hfresh : c ∉ t.used) (hidle : (t.speaker p).state.phase = .idle) :
    let event := startEvent c key codecs video (t.speaker p).localCapabilities (pair.name !p) now
    let t' := { t.put pair p ((t.speaker p).dispatch event now) (t.sent p) (t.sent !p) with
      used := c :: t.used }
    Move Before (toSystem t) .acts (toSystem t') ∧ Shape pair t' := by
  intro event t'
  have hchange : (t.speaker p).state.change event = .started := if_pos hidle
  obtain ⟨-, b, key', codecs', video', caps, heq, hnamed, -, hspeech⟩ := reduceCall_started hchange
  simp only [event, startEvent, Event.localStart.injEq] at heq
  obtain ⟨rfl, rfl, rfl, rfl, rfl⟩ := heq
  have hknown := known pair !p
  have hshaped : Shaped (pair.name !p) (pair.device !p) ((t.speaker p).dispatch event now).1.state :=
    shaped_named hnamed rfl hc rfl (.inl rfl) (.inl ⟨rfl, rfl⟩)
  obtain ⟨y, hy, hyc, hym⟩ := delivered_sendOffer (m := ((t.speaker p).dispatch event now).1)
    now hknown hnamed.peerId hnamed.callId hc
  have hsent : delivered (pair.name !p) (pair.device !p) ((t.speaker p).dispatch event now).2 = [y] := by
    rw [delivered_dispatch, hspeech, flatMap_singleton]
    exact hy
  have hkey : ((t.speaker p).dispatch event now).1.state.callKeyB64 = key := hnamed.callKeyB64
  have hstage : stageOf ((t.speaker p).dispatch event now).1.state = .outgoing c key :=
    hkey ▸ stageOf_outgoing hnamed.phase hnamed.callId
  refine ⟨?_, ?_⟩
  · have hmove : Move Before (toSystem t) .acts _ := .start p c key (stageOf_idle hidle) hfresh
    refine cast (congrArg _ (toSystem_ext p ?_ ?_ ?_ ?_ ?_)) hmove
    · exact funext fun c' => propext mem_cons.symm
    · simp [toSystem, t', hstage]
    · simp [toSystem, t']
    · simp [toSystem, t', hsent, hym, hkey]
    · simp [toSystem, t']
  · have hput := H.put (r := (t.speaker p).dispatch event now) hshaped
      (by rw [hsent, forall_mem_singleton, hyc]; exact hc) (H.named p) (H.named !p)
    exact ⟨hput.shaped, hput.named⟩

theorem filter_isOffer :
    (l.filter fun x => !isOffer c x).map messageOf =
      (l.map messageOf).filter fun x => x.offered ≠ some c := by
  rw [filter_map]
  congr 1
  refine filter_congr fun x _ => ?_
  cases x with
  | offer o => simp [isOffer, messageOf, Message.offered]
  | signal x =>
    have hnone : (messageOf (.signal x)).offered = none := by
      rw [messageOf]
      split
      · rfl
      · cases x.op <;> rfl
    simp [isOffer, hnone]

theorem offerFailed_move (now : Int) (H : Shape pair t) (hoffer : (t.sent p).any (isOffer c) = true)
    (hcall : (t.speaker p).state.callId = some c) (hout : (t.speaker p).state.phase = .outgoing) :
    let event := .offerFailed { peerId := (t.speaker p).state.peerId, callId := some c, now := now }
    let t' := t.put pair p ((t.speaker p).dispatch event now)
      ((t.sent p).filter fun x => !isOffer c x) (t.sent !p)
    Move Before (toSystem t) .acts (toSystem t') ∧ Shape pair t' := by
  intro event t'
  have hsame : (t.speaker p).state.sameCall
      { peerId := (t.speaker p).state.peerId, callId := some c, now := now } = true := by
    simp [sameCall, hout, hcall]
  have hchange : (t.speaker p).state.change event = .ended := by
    rw [change, if_pos]
    rw [hsame, hout]
    rfl
  have hended := reduceCall_ended hchange
  have hsent : delivered (pair.name !p) (pair.device !p) ((t.speaker p).dispatch event now).2 = [] := by
    rw [delivered_dispatch, hended.speech]
    rfl
  have hidle : ((t.speaker p).dispatch event now).1.state = createIdleCallState := hended.idle
  refine ⟨?_, H.put ?_ ?_ (fun x hx => H.named p x (mem_filter.mp hx).1) (H.named !p)⟩
  · obtain ⟨x, hx, hxc⟩ := any_eq_true.mp hoffer
    obtain ⟨o, rfl⟩ : ∃ o, x = .offer o := by
      cases x with
      | offer o => exact ⟨o, rfl⟩
      | signal x => cases hxc
    obtain rfl : o.callId = c := by simpa [isOffer] using hxc
    have hmove : Move Before (toSystem t) .acts _ := .withdraw p _ _ _
      (stageOf_outgoing hout hcall) (mem_map_of_mem (f := messageOf) hx)
    rw [toSystem_put, hsent, hidle, filter_isOffer, map_nil, append_nil]
    exact hmove
  · rw [hidle]
    exact shaped_idle
  · rw [hsent]
    exact fun x hx => absurd hx not_mem_nil

theorem lost_move (H : Shape pair t) :
    let t' := t.put pair p (t.speaker p, []) ((t.sent p).filter fun x => !isOffer c x) (t.sent !p)
    Move Before (toSystem t) .acts (toSystem t') ∧ Shape pair t' := by
  intro t'
  refine ⟨?_, H.put (H.shaped p) (fun x hx => absurd hx not_mem_nil)
    (fun x hx => H.named p x (mem_filter.mp hx).1) (H.named !p)⟩
  have hmove : Move Before (toSystem t) .acts _ := .lose p c
  rw [toSystem_put, filter_isOffer]
  exact (append_nil _).symm ▸ hmove

theorem step_move (h : step pair t act = some t') (H : Shape pair t) :
    ∃ why, Move Before (toSystem t) why (toSystem t') ∧ Shape pair t' ∧
      (t.prompt act = true → why = .hears) := by
  have hsame : ∀ p, (t.sent p).map messageOf = [] ++ (t.sent p).map messageOf := fun _ => rfl
  cases act with
  | start p c key codecs video now =>
    rw [step] at h
    split at h
    · cases h
    next hnew =>
    rw [not_or] at hnew
    cases h
    split
    next hidle =>
      have hmove := start_move key codecs video now H hnew.1 hnew.2 hidle
      exact ⟨.acts, hmove.1, hmove.2, nofun⟩
    next hbusy =>
    have hkept : (t.speaker p).state.change (startEvent c key codecs video
        (t.speaker p).localCapabilities (pair.name !p) now) = .kept := if_neg hbusy
    have A : Acts (pair.name !p) (pair.device !p) (t.speaker p) .acts []
        ((t.speaker p).dispatch _ now) :=
      acts_kept (known pair !p) (H.shaped p) (reduceCall_kept hkept) .talks
    exact ⟨.acts, A.move (hsame _), A.shape_put H (H.named _) (H.named _), nofun⟩
  | own p event now =>
    rw [step] at h
    split at h
    next hown =>
      cases h
      have A := acts_own now (known pair !p) (H.shaped p) hown
      exact ⟨.acts, A.move (hsame _), A.shape_put H (H.named _) (H.named _), nofun⟩
    · cases h
  | signal p op stream x =>
    rw [step] at h
    split at h
    next hop =>
      cases h
      have A := acts_says stream x (known pair !p) (H.shaped p) hop
      exact ⟨.acts, A.move (hsame _), A.shape_put H (H.named _) (H.named _), nofun⟩
    · cases h
  | offerFailed p c now =>
    rw [step] at h
    split at h
    next hoffer =>
      dsimp only at h
      split at h
      next hcall =>
        cases h
        have hmove := offerFailed_move now H hoffer hcall.1 hcall.2
        exact ⟨.acts, hmove.1, hmove.2, nofun⟩
      · cases h
        have hmove := lost_move (c := c) (p := p) H
        exact ⟨.acts, hmove.1, hmove.2, nofun⟩
    · cases h
  | deliver p blocked now =>
    rw [step] at h
    split at h
    · cases h
    next x rest hsent =>
    cases h
    have hnamed := H.named (!p)
    rw [hsent, forall_mem_cons] at hnamed
    obtain ⟨why, A, hwhy⟩ := acts_receive blocked now (known pair !p) (H.shaped p) hnamed.1
    refine ⟨why, A.move (by rw [hsent]; rfl), A.shape_put H (H.named _) hnamed.2, fun hprompt => ?_⟩
    rw [prompt, hsent, Bool.and_eq_true] at hprompt
    refine hwhy (by simpa using hprompt.1) ?_
    rintro o rfl
    simpa using hprompt.2

theorem inv_start : Inv (toSystem (start caps)) := by
  intro p
  have hnone : ∀ (q : Bool) (x : Message String String), x ∉ (toSystem (start caps)).sent q :=
    fun _ _ => not_mem_nil
  exact ⟨nofun, fun x hx => absurd hx (hnone _ _), List.Pairwise.nil,
    fun c k hx => absurd hx (hnone _ _),
    fun c hx => (hx.elim (hnone _ _) (hnone _ _)).elim, fun c hx => absurd hx (hnone _ _),
    fun c hx => absurd hx (hnone _ _), fun c k hx => absurd hx (hnone _ _), nofun, nofun, nofun, nofun⟩

/-- The invariant of the two managers. -/
structure Sound (pair : CallPair) (t : PeerCalls) : Prop where
  shape : Shape pair t
  inv : Inv (toSystem t)

theorem Sound.step (H : Sound pair t) (h : PeerCalls.step pair t act = some t') : Sound pair t' := by
  obtain ⟨why, hmove, hshape, -⟩ := step_move h H.shape
  exact ⟨hshape, H.inv.move hmove⟩

theorem sound_of_run (h : FreeRun (step pair) (start caps) acts t) :
    Sound pair t :=
  h.invariant (I := Sound pair) (fun _ H hstep => H.step hstep) ⟨shape_start, inv_start⟩

/-- No offer or signal is on the way, and neither side rings or is rung. -/
structure Quiescent (t : PeerCalls) : Prop where
  arrived : ∀ p, t.sent p = []
  settled : ∀ p, (t.speaker p).state.phase ≠ .outgoing ∧ (t.speaker p).state.phase ≠ .incoming

/-- Peer `p` is in the active call `c`, in this role and with this key. -/
structure ActiveIn (t : PeerCalls) (p : Bool) (c key : String) (role : Role) : Prop where
  phase : (t.speaker p).state.phase = .active
  callId : (t.speaker p).state.callId = some c
  callKeyB64 : (t.speaker p).state.callKeyB64 = key
  role : (t.speaker p).state.role = some role

/-- Both sides are idle, or active in one call, as caller and callee and with one key. -/
def InAgreement (t : PeerCalls) : Prop :=
  (∀ p, (t.speaker p).state.phase = .idle) ∨
    ∃ p c key, ActiveIn t p c key .caller ∧ ActiveIn t (!p) c key .callee

/-- Both peers call each other: `p` with `c`, the other one with `c'`, and only the two offers are
on the way. -/
structure CallAtOnce (t : PeerCalls) (p : Bool) (c c' : String) : Prop where
  mine : (t.speaker p).state.phase = .outgoing ∧ (t.speaker p).state.callId = some c
  theirs : (t.speaker !p).state.phase = .outgoing ∧ (t.speaker !p).state.callId = some c'
  offer : (t.sent p).any (isOffer c) = true
  offer' : (t.sent !p).any (isOffer c') = true
  only : ∀ o, .offer o ∈ t.sent p → o.callId = c
  only' : ∀ o, .offer o ∈ t.sent (!p) → o.callId = c'

/-- Call `c` of peer `p` goes on, and rings at the other peer. -/
structure Survives (t : PeerCalls) (p : Bool) (c : String) : Prop where
  caller : (t.speaker p).state.phase = .outgoing ∧ (t.speaker p).state.callId = some c
  callee : (t.speaker !p).state.phase = .incoming ∧ (t.speaker !p).state.callId = some c
  key : (t.speaker !p).state.callKeyB64 = (t.speaker p).state.callKeyB64

theorem idle_of_stage (H : Shaped peerId device s) (h : stageOf s = .idle) : s.phase = .idle := by
  by_contra hphase
  have hcall := call_stageOf H
  obtain ⟨c, hc, -⟩ := H.call hphase
  rw [h, if_neg hphase, hc] at hcall
  cases hcall

theorem of_stage_incoming (h : stageOf s = .incoming c key) :
    s.phase = .incoming ∧ s.callId = some c ∧ s.callKeyB64 = key := by
  rw [stageOf] at h
  split at h
  next hphase hcall =>
    cases h
  next hphase hcall =>
    cases h
    exact ⟨hphase, hcall, rfl⟩
  all_goals cases h

theorem of_stage_active {r : Bool} (h : stageOf s = .active c key r) :
    s.phase = .active ∧ s.callId = some c ∧ s.callKeyB64 = key ∧ s.isCaller = r := by
  rw [stageOf] at h
  split at h
  · cases h
  · cases h
  next hphase hcall =>
    cases h
    exact ⟨hphase, hcall, rfl, rfl⟩
  · cases h

theorem Sound.activeIn (H : Sound pair t) {r : Bool}
    (h : stageOf (t.speaker p).state = .active c key r) :
    ActiveIn t p c key (if r then .caller else .callee) := by
  obtain ⟨hphase, hcall, hkey, hrole⟩ := of_stage_active h
  refine ⟨hphase, hcall, hkey, ?_⟩
  have hsome := (H.shape.shaped p).role (by rw [hphase]; exact nofun)
  rcases hsome with hcaller | hcallee
  · rw [isCaller, hcaller] at hrole
    rw [hcaller, ← hrole]
    rfl
  · rw [isCaller, hcallee] at hrole
    rw [hcallee, ← hrole]
    rfl

theorem Sound.quiet (hquiet : Quiescent t) : Quiet (toSystem t) where
  delivered p := by
    change (t.sent p).map messageOf = []
    rw [hquiet.arrived p]
    rfl
  outgoing p c k h := (hquiet.settled p).1 (phase_of_outgoing h)
  incoming p c k h := (hquiet.settled p).2 (of_stage_incoming h).1

theorem Sound.inAgreement (H : Sound pair t) (hquiet : Quiescent t) : InAgreement t := by
  rcases H.inv.agreed (Sound.quiet hquiet) with hidle | ⟨c, k, p, hcaller, hcallee⟩
  · exact .inl fun p => idle_of_stage (H.shape.shaped p) (hidle p)
  · exact .inr ⟨p, c, k, H.activeIn hcaller, H.activeIn hcallee⟩

theorem offer_of_any (h : (t.sent p).any (isOffer c) = true) :
    ∃ k, .offer c k ∈ (toSystem t).sent p := by
  obtain ⟨x, hx, hxc⟩ := any_eq_true.mp h
  cases x with
  | offer o =>
    obtain rfl : o.callId = c := by simpa [isOffer] using hxc
    exact ⟨o.callKeyB64, mem_map_of_mem (f := messageOf) hx⟩
  | signal x => cases hxc

theorem offer_of_mem {k : String} (h : .offer c k ∈ (toSystem t).sent p) :
    ∃ o, .offer o ∈ t.sent p ∧ o.callId = c ∧ o.callKeyB64 = k := by
  obtain ⟨x, hx, hxc⟩ := mem_map.mp h
  cases x with
  | offer o =>
    cases hxc
    exact ⟨o, hx, rfl, rfl⟩
  | signal x =>
    rw [messageOf] at hxc
    split at hxc
    · cases hxc
    · cases hop : x.op <;> rw [hop] at hxc <;> cases hxc

variable {c' : String}

theorem Sound.crossing (H : Sound pair t) (h : CallAtOnce t p c c') :
    ∃ k k', Crossing (toSystem t) p c k c' k' := by
  have hmine : (toSystem t).stage p = _ := stageOf_outgoing h.mine.1 h.mine.2
  have htheirs : (toSystem t).stage (!p) = _ := stageOf_outgoing h.theirs.1 h.theirs.2
  have hhalf := H.inv p
  rw [hmine] at hhalf
  obtain ⟨k, hk⟩ := offer_of_any h.offer
  obtain ⟨k', hk'⟩ := offer_of_any h.offer'
  obtain rfl := hhalf.offer_key hk
  refine ⟨_, _, H.inv.crossing hmine htheirs hk hk' (fun c₁ k₁ hoffer => ?_) fun c₁ k₁ hoffer => ?_⟩
  · obtain ⟨o, ho, rfl, rfl⟩ := offer_of_mem hoffer
    obtain rfl := h.only o ho
    exact ⟨rfl, hhalf.offer_key hoffer⟩
  · obtain ⟨o, ho, rfl, rfl⟩ := offer_of_mem hoffer
    exact h.only' o ho

theorem before_asymm (c c' : String) (h : Before c c') : ¬ Before c' c := by
  intro h'
  rw [Before, jsLt_asymm h] at h'
  cases h'

theorem Sound.survives (H : Sound pair t) (h : CallAtOnce t p c c') (hlt : jsLt c c' = true)
    (hrun : Run (PeerCalls.step pair) (fun t a => t.prompt a = true) t acts t')
    (harrived : ∀ q, t'.sent q = []) : Survives t' p c := by
  obtain ⟨k, k', X⟩ := H.crossing h
  have hstep : ∀ {t a t'}, t.prompt a = true → (Sound pair t ∧ Crossing (toSystem t) p c k c' k') →
      PeerCalls.step pair t a = some t' → Sound pair t' ∧ Crossing (toSystem t') p c k c' k' := by
    rintro t a t' hprompt ⟨H, X⟩ hstep
    obtain ⟨why, hmove, hshape, hwhy⟩ := step_move hstep H.shape
    obtain rfl := hwhy hprompt
    exact ⟨⟨hshape, H.inv.move hmove⟩, X.move H.inv hlt before_asymm hmove⟩
  obtain ⟨-, X'⟩ := hrun.invariant hstep ⟨H, X⟩
  have hnone : (toSystem t').sent p = [] := by
    change (t'.sent p).map messageOf = []
    rw [harrived p]
    rfl
  obtain ⟨hmine, htheirs⟩ := X'.survives hnone
  obtain ⟨hout, hcall, hkey⟩ := of_stage_outgoing hmine
  obtain ⟨hin, hcall', hkey'⟩ := of_stage_incoming htheirs
  exact ⟨⟨hout, hcall⟩, ⟨hin, hcall'⟩, hkey'.trans hkey.symm⟩

/-- What two peers that call each other agree on, in whatever order things happen. -/
structure CallsAgree (pair : CallPair) (t : PeerCalls) : Prop where
  agreement : Quiescent t → InAgreement t
  glare : ∀ p c c', CallAtOnce t p c c' → jsLt c c' = true → ∀ acts t',
    Run (step pair) (fun t a => t.prompt a = true) t acts t' → (∀ q, t'.sent q = []) →
    Survives t' p c

def samplePair : CallPair where
  name p := if p then "p1" else "p2"
  device _ := some "desktop"
  named p := by cases p <;> decide
  text _ := rfl

/-- A call is offered, rings, is accepted, and everything arrives. -/
def sampleActs : List PeerAction :=
  [.start true "c1" "k1" ["pcm16"] false 1, .deliver false false 2, .deliver true false 3,
    .own false (.localAccept { now := 4 } (some "pcm16") false none none) 4, .deliver true false 5,
    .deliver false false 6]

end Bluetalk.Calls.PeerCalls

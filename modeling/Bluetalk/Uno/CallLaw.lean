import Bluetalk.Uno.Departures
import Bluetalk.Uno.Obligation

/-!
# The law of calls

Who goes down to one card is under the obligation until it calls or another acts, and if it has not
called by then it draws the penalty once; nobody else ever does. A wild card is the one play that does
not put its player under the obligation, and the obligation is dropped where its player passes, goes
offline or leaves.
-/

open List

namespace Bluetalk.Uno

/-- The action that an event makes for a player. The turn timer draws for the player to act, but
where that has a colour to choose. -/
def HostEvent.acts (s : Game) : HostEvent → Option (String × Action)
  | .message fromId (.action gameId action) =>
    if gameId = s.gameId then some (fromId, action) else none
  | .ownAction action => some (s.selfId, action)
  | .turnTimer =>
    if s.phase = .playing then
      (s.player? s.toActIdx).bind fun current =>
        if s.pendingColorChoice = some current.peerId then none else some (current.peerId, .draw)
    else none
  | _ => none

namespace Game

variable {s s' : Game} {q : String} {a : Action} {owed : Option String} {e : HostEvent}

/-! ## The monitor -/

/-- Who is under the obligation after an action of `q` that is taken -/
def owedAfter (s : Game) (owed : Option String) (q : String) : Action → Option String
  | .play _ => if s.handSize q = 2 then some q else none
  | .draw | .pass => if owed = some q then owed else none
  | .callUno => forget q owed
  | .chooseColor _ | .unknown => owed

/-- Who is under the obligation after an event, as long as the round goes on -/
def owedNext (s : Game) (owed : Option String) (e : HostEvent) (s' : Game) : Option String :=
  if s'.phase = .playing then
    match e.acts s with
    | none => owed
    | some (q, a) => if (s.applyAction q a).isSome then s.owedAfter owed q a else owed
  else none

/-- Who has to draw the penalty at an event -/
def due (s : Game) (owed : Option String) (e : HostEvent) : Option String :=
  match e.acts s with
  | none => none
  | some (q, a) =>
    if (s.applyAction q a).isSome ∧ a.settles = true then s.duePenalty owed q else none

/-- The table, and beside it who is under the obligation -/
def watched (x : Game × Option String) (e : HostEvent) : Option (Game × Option String) :=
  (x.1.step e).map fun s' => (s', x.1.owedNext x.2 e s')

/-- The law of a step: who is under the obligation is pending, and the penalty is drawn by whom it is
due from, once, and by nobody else. -/
structure CallLaw (x : Game × Option String) (e : HostEvent) (x' : Game × Option String) : Prop where
  under : ∀ p, x'.2 = some p → x'.1.pendingUnoPeer = some p
  pays : Pays x.1 (x.1.due x.2 e) x'.1

/-- The condition of a step during a round -/
structure KeepsCallsOf (s : Game) (e : HostEvent) : Prop where
  wilds : ∀ q cardId, e.acts s = some (q, .play cardId) → s.handSize q = 2 →
    (s.heldCard q cardId).all (·.color ≠ .wild) = true
  passes : ∀ q, e.acts s = some (q, .pass) → s.drewCanPass = some q → s.pendingUnoPeer ≠ some q
  stays : ∀ p, s.pendingUnoPeer = some p → e.departs = some p → p ≠ s.selfId →
    e.removes = some p ∧ (s.others p).length < 2 ∨ e = .disconnected p ∧ (p, true) ∉ s.seats
  forces : ∀ q, e.acts s = some (q, .draw) → e = .turnTimer → 0 < s.pendingDrawStack →
    s.cfg.houseRules = .official → s.pendingUnoPeer = none ∨ s.pendingUnoPeer = some q

/-- The condition under which a step keeps the law of calls -/
def KeepsCalls (x : Game × Option String) (e : HostEvent) : Prop :=
  x.1.phase = .playing → KeepsCallsOf x.1 e

/-- The obligation is the one that the table has, and only the one that may pass has it. -/
structure CallInv (x : Game × Option String) : Prop where
  inv : Inv x.1
  owed : x.1.phase = .playing → x.2 = x.1.pendingUnoPeer
  idle : x.1.phase ≠ .playing → x.2 = none
  silent : Silent x.1
  free : Free x.1

/-! ## Events that are no actions -/

theorem forget_cases (q : String) (o : Option String) : forget q o = o ∨ forget q o = none := by
  rw [forget]
  split
  · exact .inr rfl
  · exact .inl rfl

/-- No penalty is told, and nobody has called that had not. -/
structure Calm (s s' : Game) : Prop where
  penalties : s'.penalties = s.penalties
  calls : ∀ x ∈ s'.calls, x ∈ s.calls ∨ x.2 = false
  uno : s'.pendingUnoPeer = s.pendingUnoPeer ∨ s'.pendingUnoPeer = none
  pass : s'.drewCanPass = s.drewCanPass ∨ s'.drewCanPass = none

theorem Grows.calm (h : Grows s s') : Calm s s' :=
  ⟨h.penalties, fun _ hx => .inl (h.calls ▸ hx), h.unoFree, h.pass⟩

namespace Calm

theorem silent (h : Calm s s') (hs : Silent s) : Silent s' := by
  intro x hx hwho
  obtain hsame | hnone := h.uno
  · obtain hmem | hfalse := h.calls x hx
    · exact hs x hmem (hsame.symm.trans hwho)
    · exact hfalse
  · cases hnone.symm.trans hwho

theorem free (h : Calm s s') (hs : Free s) : Free s' := by
  intro r hr
  obtain hsame | hnone := h.uno
  · obtain hpass | hpass := h.pass
    · rw [hsame]
      exact hs r (hpass.symm.trans hr)
    · cases hpass.symm.trans hr
  · exact .inl hnone

theorem trans {s'' : Game} (h : Calm s s') (h' : Calm s' s'') : Calm s s'' where
  penalties := h'.penalties.trans h.penalties
  calls x hx := by
    obtain hmem | hfalse := h'.calls x hx
    · exact h.calls x hmem
    · exact .inr hfalse
  uno := by
    obtain hsame | hnone := h'.uno
    · exact hsame ▸ h.uno
    · exact .inr hnone
  pass := by
    obtain hsame | hnone := h'.pass
    · exact hsame ▸ h.pass
    · exact .inr hnone

theorem forget (h : Calm s s') (q : String) : Calm s { s' with
    drewCanPass := forget q s'.drewCanPass, pendingUnoPeer := forget q s'.pendingUnoPeer } :=
  h.trans ⟨rfl, fun _ hx => .inl hx, forget_cases q _, forget_cases q _⟩

theorem pays (h : Calm s s') : Pays s none s' :=
  ⟨h.penalties.trans (append_nil _).symm, fun _ _ _ hdue => by cases hdue⟩

end Calm

theorem grows_setConnected (s : Game) (i : Nat) (connected : Bool) :
    Grows s (s.modifyPlayer i (·.setConnected connected)) :=
  .modifyPlayer (fun _ => rfl) (fun _ => rfl) fun _ => prefix_rfl

theorem grows_rejoin (s : Game) (i : Nat) : Grows s (s.rejoin i) := by
  have h := grows_setConnected s i true
  rw [rejoin]
  split
  · exact h.trans (.of_players id rfl rfl rfl (.inl rfl))
  · split
    · exact h.trans (grows_scheduleTurnTimer _)
    · exact h

theorem grows_reconnectPlayer (s : Game) (q : String) : Grows s (s.reconnectPlayer q) := by
  rw [reconnectPlayer]
  split
  · exact .refl s
  split
  · exact .refl s
  have h := grows_setConnected s
  dsimp only
  split
  · exact (h _ true).trans (grows_scheduleTurnTimer _)
  · exact h _ true

theorem calm_addPlayer (h : s.addPlayer q = some s') : Calm s s' := by
  rw [addPlayer] at h
  split at h
  · cases h
    exact (grows_setConnected s _ true).calm
  split at h
  · cases h
  obtain ⟨seat, -, rfl⟩ := Option.map_eq_some_iff.mp h
  have hcalls : ∀ x ∈ (bySeat (s.players ++ [⟨q, seat, [], false, 0, true⟩])).map
      fun p => (p.peerId, p.saidUno), x ∈ s.calls ∨ x.2 = false := by
    intro x hx
    have hperm := ((bySeat_perm (s.players ++ [⟨q, seat, [], false, 0, true⟩])).trans
      (perm_append_singleton _ _)).map fun p => (p.peerId, p.saidUno)
    obtain rfl | hmem := mem_cons.mp (hperm.mem_iff.mp hx)
    · exact .inr rfl
    · exact .inl hmem
  dsimp only
  split
  · exact ⟨rfl, hcalls, .inl rfl, .inl rfl⟩
  · exact ⟨rfl, hcalls, .inl rfl, .inl rfl⟩

theorem calm_handleJoin (s : Game) (q : String) : Calm s (s.handleJoin q) := by
  rw [handleJoin]
  split
  · exact (grows_rejoin s _).calm
  split
  · exact (Grows.refl s).calm
  split
  · exact (Grows.refl s).calm
  · cases hadd : s.addPlayer q with
    | none => exact (Grows.refl s).calm
    | some s' => exact calm_addPlayer hadd

theorem calm_takeOff (s : Game) (q : String) (idx : Nat) : Calm s (s.takeOff q idx) where
  penalties := rfl
  calls x hx := by
    rw [calls, takeOff, ← eraseIdx_map] at hx
    exact .inl (mem_of_mem_eraseIdx hx)
  uno := forget_cases q _
  pass := forget_cases q _

theorem calm_dropPlayer (s : Game) (q : String) : Calm s (s.dropPlayer q) := by
  rw [dropPlayer]
  split
  · exact (Grows.refl s).calm
  rename_i idx _
  have h := calm_takeOff s q idx
  dsimp only
  split
  · exact (Grows.refl s).calm
  split
  · exact ⟨h.penalties, h.calls, h.uno, h.pass⟩
  split
  · split
    · exact ⟨h.penalties, h.calls, h.uno, h.pass⟩
    · exact ⟨h.penalties, h.calls, h.uno, h.pass⟩
  · exact h

theorem grows_releaseTurn (s : Game) (q : String) (i : Nat) : Grows s (s.releaseTurn q i) := by
  rw [releaseTurn]
  split
  · have hcolor : Grows s { s with
        pendingColorChoice := none, activeColor := some (s.activeColor.getD .red) } :=
      .of_players id rfl rfl rfl (.inl rfl)
    dsimp only
    split
    · exact hcolor.trans (grows_resolveDraw _ 4 .draw4)
    · exact hcolor.trans (grows_passTo _ _)
  · split
    · dsimp only
      split
      · exact .of_players id rfl rfl rfl (.inl rfl)
      · exact .of_players id rfl rfl rfl (.inl rfl)
    · exact .refl s

theorem calm_handleDisconnect (s : Game) (q : String) : Calm s (s.handleDisconnect q) := by
  rw [handleDisconnect]
  split
  · exact (Grows.refl s).calm
  split
  · exact (Grows.refl s).calm
  rename_i idx _
  split
  · exact calm_dropPlayer s q
  split
  · exact (Grows.refl s).calm
  have h := ((grows_setConnected s idx false).trans (grows_releaseTurn _ q idx)).calm
  have hforget := h.forget q
  dsimp only
  split
  · exact ⟨hforget.penalties, hforget.calls, hforget.uno, hforget.pass⟩
  · exact ⟨hforget.penalties, hforget.calls, hforget.uno, hforget.pass⟩

theorem calm_dealTo (s : Game) (k : Nat) : Calm s (s.dealTo k) := by
  have hclear : Calm s (s.modifyPlayer k (·.clearHand)) := by
    refine ⟨rfl, fun x hx => ?_, .inl rfl, .inl rfl⟩
    obtain ⟨p, hp, rfl⟩ := mem_map.mp hx
    obtain ⟨j, hj⟩ := mem_iff_getElem?.mp hp
    change (s.players.modify k _)[j]? = some p at hj
    rw [getElem?_modify] at hj
    obtain ⟨p', hp', rfl⟩ := Option.map_eq_some_iff.mp hj
    split
    · exact .inr rfl
    · exact .inl (mem_calls hp')
  exact hclear.trans (grows_drawCardsFor _ k 7).calm

theorem grows_pickStarterFrom (s : Game) (skipped pile : List Card) :
    Grows s (s.pickStarterFrom skipped pile) := by
  induction pile generalizing skipped with
  | nil =>
    cases skipped with
    | nil | cons => exact .of_players id rfl rfl rfl (.inl rfl)
  | cons card cards ih =>
    rw [pickStarterFrom]
    split
    · exact ih _
    · split
      · exact .of_players id rfl rfl rfl (.inl rfl)
      · exact .of_players id rfl rfl rfl (.inl rfl)

theorem calm_deal (s : Game) : Calm s s.deal := by
  have hfold : ∀ (ks : List Nat) (t : Game), Calm t (ks.foldl dealTo t) := by
    intro ks
    induction ks with
    | nil => exact fun t => (Grows.refl t).calm
    | cons k ks ih => exact fun t => (calm_dealTo t k).trans (ih _)
  have hround : Calm s s.newRound := ⟨rfl, fun _ hx => .inl hx, .inr rfl, .inr rfl⟩
  exact hround.trans ((hfold _ _).trans (grows_pickStarterFrom _ _ _).calm)

theorem calm_startGame (s : Game) : Calm s s.startGame := by
  have h := calm_deal s
  rw [startGame]
  split
  · exact (Grows.refl s).calm
  split
  · exact (Grows.refl s).calm
  dsimp only
  split
  · exact ⟨h.penalties, h.calls, h.uno, h.pass⟩
  · exact ⟨(penalties_emitEvent (by decide)).trans h.penalties, h.calls, h.uno, h.pass⟩

/-- During a round such an event leaves the obligation, but where its player goes. -/
structure Quiet (s : Game) (e : HostEvent) (s' : Game) : Prop extends Calm s s' where
  kept : s.phase = .playing → KeepsCallsOf s e → s'.phase = .playing →
    s'.pendingUnoPeer = s.pendingUnoPeer

theorem Grows.quiet (h : Grows s s') : Quiet s e s' := ⟨h.calm, fun _ _ hphase => h.uno hphase⟩

theorem quiet_dropPlayer (hs : s.peerIds.Nodup) (hremoves : e.removes = some q) :
    Quiet s e (s.dropPlayer q) := by
  obtain ⟨hdeparts, -, hnot⟩ := HostEvent.spec_of_removes hremoves
  refine ⟨calm_dropPlayer s q, fun hphase hok hphase' => ?_⟩
  cases hidx : s.playerIndex q with
  | none => rw [dropPlayer, hidx]
  | some idx =>
    by_cases hself : q = s.selfId
    · rw [dropPlayer, hidx]
      dsimp only
      rw [if_pos hself]
    have hmany := many_of_dropPlayer hs hidx hself hphase hphase'
    obtain ⟨turn, hframe, -⟩ := frame_dropPlayer hs hidx hself hmany
    refine hframe.uno.trans (if_neg fun hwho => ?_)
    obtain ⟨-, hfew⟩ | ⟨he, -⟩ := hok.stays q hwho hdeparts hself
    · omega
    · exact hnot q he

theorem quiet_handleDisconnect (s : Game) (q : String) :
    Quiet s (.disconnected q) (s.handleDisconnect q) := by
  refine ⟨calm_handleDisconnect s q, fun hphase hok hphase' => ?_⟩
  by_cases hself : q = s.selfId
  · rw [handleDisconnect, if_pos hself]
  cases hidx : s.playerIndex q with
  | none => rw [handleDisconnect, if_neg hself, hidx]
  | some idx =>
    obtain ⟨connected, hseat⟩ := getElem?_seats_playerIndex hidx
    cases connected with
    | true =>
      obtain ⟨turnTimer, heq⟩ := handleDisconnect_eq hphase hidx hself hseat
      have hrelease := grows_releaseTurn (s.modifyPlayer idx (·.setConnected false)) q idx
      have huno := hrelease.uno ((phase_releaseTurn _ q idx).trans hphase)
      rw [heq]
      rw [huno]
      refine if_neg fun hwho => ?_
      obtain ⟨hremoves, -⟩ | ⟨-, hnot⟩ := hok.stays q hwho rfl hself
      · cases hremoves
      · exact hnot (mem_of_getElem? hseat)
    | false =>
      have hplayer : s.players[idx]?.any (!·.connected) = true := any_offline hseat
      rw [handleDisconnect, if_neg hself, hidx]
      dsimp only
      rw [if_neg (not_not.mpr hphase), if_pos hplayer]

theorem quiet_startGame (s : Game) : Quiet s e s.startGame := by
  refine ⟨calm_startGame s, fun hphase _ _ => ?_⟩
  have hgoing : s.phase ≠ .lobby ∧ s.phase ≠ .roundOver := by
    rw [hphase]
    exact ⟨by decide, by decide⟩
  rw [startGame, if_pos hgoing]

theorem quiet_handleJoin (s : Game) (q : String) : Quiet s e (s.handleJoin q) := by
  refine ⟨calm_handleJoin s q, fun hphase _ hphase' => ?_⟩
  rw [handleJoin] at hphase' ⊢
  split at hphase'
  · exact (grows_rejoin s _).uno hphase'
  have hgoing : s.phase ≠ .lobby ∧ s.phase ≠ .roundOver := by
    rw [hphase]
    exact ⟨by decide, by decide⟩
  rw [if_pos hgoing]

theorem grows_getD_chooseColor (s : Game) (q : String) (color : Option String) :
    Grows s ((s.applyAction q (.chooseColor color)).getD s) := by
  cases h : s.applyAction q (.chooseColor color) with
  | none => exact .refl s
  | some s' =>
    obtain ⟨-, color, rfl⟩ := chooseColor_some h
    exact grows_setColor s _ color

theorem grows_turnTimeout (hacts : HostEvent.turnTimer.acts s = none) : Grows s s.turnTimeout := by
  rw [turnTimeout]
  split
  · exact .refl s
  rename_i hphase
  rw [HostEvent.acts, if_pos (not_not.mp hphase)] at hacts
  split
  · exact .refl s
  rename_i current hcurrent
  rw [hcurrent, Option.bind_some] at hacts
  split
  · exact grows_getD_chooseColor s _ _
  · rename_i hchoice
    rw [if_neg hchoice] at hacts
    cases hacts

theorem quiet_step (hs : s.peerIds.Nodup) (hacts : e.acts s = none) (h : s.step e = some s') :
    Quiet s e s' := by
  cases e with
  | message fromId wire =>
    rw [step] at h
    split at h
    · cases h
    cases h
    cases wire with
    | join gameId =>
      rw [onWire]
      split
      · exact quiet_handleJoin s fromId
      · exact (Grows.refl s).quiet
    | leave => exact quiet_dropPlayer hs rfl
    | action gameId action =>
      rw [onWire]
      split
      · rename_i hgame
        rw [HostEvent.acts, if_pos hgame] at hacts
        cases hacts
      · exact (Grows.refl s).quiet
    | unknown => exact (Grows.refl s).quiet
  | connected peerId =>
    cases h
    exact (grows_reconnectPlayer s peerId).quiet
  | disconnected peerId =>
    cases h
    exact quiet_handleDisconnect s peerId
  | ownAction action => cases hacts
  | start =>
    cases h
    exact quiet_startGame s
  | settings patch =>
    cases h
    rw [updateSettings]
    refine Grows.quiet ?_
    split
    · exact .of_players id rfl rfl rfl (.inl rfl)
    · exact .of_players id rfl rfl rfl (.inl rfl)
  | invite peerId =>
    cases h
    rw [invitePeer]
    refine Grows.quiet ?_
    split
    · exact .refl s
    · exact .of_players id rfl rfl rfl (.inl rfl)
  | kick peerId =>
    cases h
    exact quiet_dropPlayer hs rfl
  | turnTimer =>
    rw [step] at h
    split at h
    · cases h
      have hclear : Grows s { s with turnTimer := false } := .of_players id rfl rfl rfl (.inl rfl)
      exact (hclear.trans (grows_turnTimeout hacts)).quiet
    · cases h
  | autoStartTimer =>
    rw [step] at h
    split at h
    · have hclear : Grows s { s with autoStartTimer := false } :=
        .of_players id rfl rfl rfl (.inl rfl)
      dsimp only at h
      split at h
      · rename_i hlobby
        cases h
        refine ⟨hclear.calm.trans (calm_startGame _), fun hphase => ?_⟩
        cases hphase.symm.trans hlobby
      · cases h
        exact hclear.quiet
    · cases h

/-! ## Steps -/

theorem law_quiet (hs : CallInv (s, owed)) (hok : KeepsCalls (s, owed) e)
    (hacts : e.acts s = none) (h : s.step e = some s') :
    CallInv (s', s.owedNext owed e s') ∧ Pays s (s.due owed e) s' := by
  have hquiet := quiet_step hs.inv.distinct hacts h
  rw [due, owedNext, hacts]
  refine ⟨⟨inv_step hs.inv h, fun hphase' => ?_, fun hphase' => if_neg hphase',
    hquiet.toCalm.silent hs.silent, hquiet.toCalm.free hs.free⟩, hquiet.toCalm.pays⟩
  rw [if_pos hphase']
  by_cases hphase : s.phase = .playing
  · exact (hs.owed hphase).trans (hquiet.kept hphase (hok hphase) hphase').symm
  · exact (hs.idle hphase).trans (started_of_step hphase h hphase').uno.symm

theorem isSome_applyAction (s : Game) (turnTimer : Bool) (q : String) (a : Action) :
    (Game.applyAction { s with turnTimer } q a).isSome = (s.applyAction q a).isSome := by
  cases a with
  | play cardId =>
    simp only [applyAction, playCard, bind, Option.isSome_bind]
    rfl
  | chooseColor color =>
    simp only [applyAction, chooseColor, bind, Option.isSome_bind]
    rfl
  | draw =>
    simp only [applyAction, drawCard, bind, Option.isSome_bind]
    rfl
  | pass =>
    simp only [applyAction, passTurn, bind, Option.isSome_bind]
    rfl
  | callUno =>
    simp only [applyAction, callUno, bind, Option.isSome_bind]
    rfl
  | unknown => rfl

theorem duePenalty_idle (hfree : Free s) (hphase : s.phase ≠ .playing)
    (ha : a.settles = true) (h : s.applyAction q a = some s') :
    s.duePenalty s.pendingUnoPeer q = none := by
  cases a with
  | play cardId =>
    obtain ⟨i, player, cardIdx, card, hmay, -⟩ := playCard_some h
    exact absurd hmay.phase hphase
  | draw =>
    obtain ⟨i, hturn, -⟩ := drawCard_some h
    exact absurd hturn.phase hphase
  | pass =>
    obtain ⟨hpass, -⟩ := passTurn_some h
    rw [duePenalty]
    obtain hnone | hsome := hfree q hpass
    · rw [hnone]
      rfl
    · rw [hsome, Option.filter_some, if_neg (by simp)]
  | _ => cases ha

theorem owedAfter_eq_unoAfter (hok : KeepsCallsOf s e) (hacts : e.acts s = some (q, a))
    (h : s.applyAction q a = some s') :
    s.owedAfter s.pendingUnoPeer q a = s.unoAfter q a := by
  cases a with
  | play cardId =>
    exact if_congr ⟨fun htwo => ⟨htwo, hok.wilds q cardId hacts htwo⟩, And.left⟩ rfl rfl
  | pass => exact if_neg (hok.passes q hacts (passTurn_some h).1)
  | _ => rfl

theorem law_action (turnTimer : Bool) (hs : CallInv (s, owed)) (hok : KeepsCalls (s, owed) e)
    (hacts : e.acts s = some (q, a)) (hinv : Inv s')
    (h : s' = (Game.applyAction { s with turnTimer } q a).getD { s with turnTimer }) :
    CallInv (s', s.owedNext owed e s') ∧ Pays s (s.due owed e) s' := by
  have hsome := isSome_applyAction s turnTimer q a
  have howed : s.phase = .playing → owed = s.pendingUnoPeer := hs.owed
  have hidle : s.phase ≠ .playing → owed = none := hs.idle
  rw [due, owedNext, hacts]
  dsimp only
  rw [← hsome]
  cases hact : Game.applyAction { s with turnTimer } q a with
  | none =>
    rw [hact, Option.getD_none] at h
    subst h
    have hclear : Grows s { s with turnTimer } := .of_players id rfl rfl rfl (.inl rfl)
    exact ⟨⟨hinv, fun hphase => (if_pos hphase).trans (howed hphase), fun hphase => if_neg hphase,
      hs.silent, hs.free⟩, hclear.pays⟩
  | some t =>
    rw [hact, Option.getD_some] at h
    subst h
    have hacted : Acted { s with turnTimer } q a s' :=
      acted_applyAction hs.inv.distinct hs.silent hs.free hact
    obtain ⟨s'', hact'⟩ : ∃ s'', s.applyAction q a = some s'' := by
      rw [← Option.isSome_iff_exists, ← hsome, hact]
      rfl
    rw [Option.isSome_some, if_pos rfl]
    refine ⟨⟨hinv, fun hphase' => (if_pos hphase').trans ?_, fun hphase' => if_neg hphase',
      hacted.silent, hacted.free⟩, ?_⟩
    · have hphase : s.phase = .playing := hacted.phase hphase'
      rw [howed hphase, owedAfter_eq_unoAfter (hok hphase) hacts hact']
      exact (hacted.uno hphase').symm
    have hdue : (if true = true ∧ a.settles = true then s.duePenalty owed q else none) =
        if a.settles = true then s.duePenalty s.pendingUnoPeer q else none := by
      refine if_ctx_congr (and_iff_right rfl) (fun ha => ?_) fun _ => rfl
      by_cases hphase : s.phase = .playing
      · rw [howed hphase]
      · rw [duePenalty_idle hs.free hphase ha hact', hidle hphase]
        rfl
    rw [hdue]
    exact ⟨hacted.pays.penalties, hacted.pays.draws⟩

theorem law_forced (hs : CallInv (s, owed)) (hok : KeepsCalls (s, owed) .turnTimer)
    (hacts : HostEvent.turnTimer.acts s = some (q, .draw)) (hphase : s.phase = .playing)
    (hinv : Inv s') (hstack : 0 < s.pendingDrawStack ∧ s.cfg.houseRules = .official)
    (h : s' = Game.forceDrawStack { s with turnTimer := false } q) :
    CallInv (s', s.owedNext owed .turnTimer s') ∧ Pays s (s.due owed .turnTimer) s' := by
  have hgrows : Grows s s' := by
    have hclear : Grows s { s with turnTimer := false } := .of_players id rfl rfl rfl (.inl rfl)
    rw [h]
    exact hclear.trans (grows_forceDrawStack _ q)
  have huno : owed = none ∨ owed = some q := by
    rw [show owed = s.pendingUnoPeer from hs.owed hphase]
    exact (hok hphase).forces q hacts rfl hstack.1 hstack.2
  have hafter : s.owedAfter owed q .draw = owed := by
    rw [owedAfter]
    split
    · rfl
    · rename_i hne
      exact (huno.resolve_right hne).symm
  have hdue : s.duePenalty owed q = none := by
    rw [duePenalty]
    obtain hnone | hown := huno
    · rw [hnone]
      rfl
    · rw [hown, Option.filter_some, if_neg (by simp)]
  rw [due, owedNext, hacts]
  dsimp only
  rw [hafter, hdue, ite_self, ite_self]
  refine ⟨⟨hinv, fun hphase' => (if_pos hphase').trans ?_, fun hphase' => if_neg hphase',
    hgrows.silent hs.silent, hgrows.free hs.free⟩, hgrows.pays⟩
  exact (hs.owed hphase).trans (hgrows.uno hphase').symm

theorem turnTimeout_eq (hacts : HostEvent.turnTimer.acts s = some (q, a)) :
    a = .draw ∧ s.phase = .playing ∧ s.turnTimeout =
      if 0 < s.pendingDrawStack ∧ s.cfg.houseRules = .official then s.forceDrawStack q
      else (s.applyAction q .draw).getD s := by
  rw [HostEvent.acts] at hacts
  split at hacts
  · rename_i hphase
    obtain ⟨current, hcurrent, hacts⟩ := Option.bind_eq_some_iff.mp hacts
    split at hacts
    · cases hacts
    rename_i hchoice
    cases hacts
    refine ⟨rfl, hphase, ?_⟩
    rw [turnTimeout, if_neg (not_not.mpr hphase), hcurrent]
    dsimp only
    rw [if_neg hchoice]
  · cases hacts

theorem law_step (hs : CallInv (s, owed)) (hok : KeepsCalls (s, owed) e)
    (h : s.step e = some s') : CallInv (s', s.owedNext owed e s') ∧ Pays s (s.due owed e) s' := by
  have hinv := inv_step hs.inv h
  cases hacts : e.acts s with
  | none => exact law_quiet hs hok hacts h
  | some action =>
    obtain ⟨q, a⟩ := action
    cases e with
    | message fromId wire =>
      cases wire with
      | action gameId action =>
        rw [HostEvent.acts] at hacts
        split at hacts
        · rename_i hgame
          cases hacts
          rw [step] at h
          split at h
          · cases h
          · cases h
            rw [onWire, if_pos hgame] at hinv ⊢
            exact law_action s.turnTimer hs hok (if_pos hgame) hinv rfl
        · cases hacts
      | _ => cases hacts
    | ownAction action =>
      cases hacts
      cases h
      exact law_action s.turnTimer hs hok rfl hinv rfl
    | turnTimer =>
      obtain ⟨rfl, hphase, heq⟩ := turnTimeout_eq (s := { s with turnTimer := false }) hacts
      rw [step] at h
      split at h
      · cases h
        split at heq
        · rename_i hstack
          exact law_forced hs hok hacts hphase hinv hstack heq
        · exact law_action false hs hok hacts hinv heq
      · cases h
    | _ => cases hacts

/-! ## Runs -/

theorem Created.uno (h : s.Created) : s.pendingUnoPeer = none := by
  obtain ⟨settings, selfId, gameId, fallback, saved, roundNumber, invitedPeers, isPeer, random,
    rfl⟩ := h
  rw [createHost]
  generalize hs : Game.mk .. = s
  have hnone : s.pendingUnoPeer = none := by rw [← hs]
  cases hadd : s.addPlayer selfId with
  | none => exact hnone
  | some s' =>
    have huno := (calm_addPlayer hadd).uno
    rwa [hnone, or_self] at huno

theorem Created.callInv (h : s.Created) : CallInv (s, none) := by
  have hidle : s.phase ≠ .playing := fun hphase => by cases h.spec.2.symm.trans hphase
  exact ⟨h.inv, fun hphase => absurd hphase hidle, fun _ => rfl, silent_of_none h.uno,
    free_of_none h.uno⟩

/-- In every run whose steps meet the condition every step keeps the law of calls. -/
theorem callLaw_of_keepsCalls {es : List HostEvent} {x : Game × Option String} (hs : s.Created)
    (h : Run watched KeepsCalls (s, none) es x) : EveryStep watched CallLaw (s, none) es := by
  refine h.everyStep (I := CallInv) (fun {x e x'} hok hx ha => ?_) hs.callInv
  obtain ⟨s₁, hstep, rfl⟩ := Option.map_eq_some_iff.mp ha
  obtain ⟨hinv, hpays⟩ := law_step hx hok hstep
  refine ⟨hinv, fun p hp => ?_, hpays⟩
  by_cases hphase : s₁.phase = .playing
  · exact (hinv.owed hphase).symm.trans hp
  · cases (hinv.idle hphase).symm.trans hp

/-- Random numbers that deal to the second player five red action cards, a red five and a wild card,
with a red one to begin with -/
def redHand (i : Nat) : Nat :=
  if 93 ≤ i ∧ i ≤ 100 then [1, 19, 9, 23, 22, 21, 20, 19].getD (i - 93) 0 else i

/-- Two players begin a round, and the second plays its action cards, with which it keeps the turn. -/
def redRun : List HostEvent :=
  [.message "a" (.join "g"), .start] ++
    ["r_skip_a_19", "r_skip_b_20", "r_reverse_a_21", "r_reverse_b_22", "r_draw2_a_23"].map
      fun cardId => .message "a" (.action "g" (.play (some cardId)))

/-- Before a round everything is allowed, and in it that others play a card of a colour and that the
host draws. -/
def plain (x : Game × Option String) (e : HostEvent) : Bool :=
  x.1.phase ≠ .playing || match e with
    | .message q (.action _ (.play cardId)) => (x.1.heldCard q cardId).all (·.color ≠ .wild)
    | .ownAction .draw => true
    | _ => false

theorem keepsCalls_of_plain {x : Game × Option String} (h : plain x e = true) :
    KeepsCalls x e := by
  intro hphase
  unfold plain at h
  rw [decide_eq_false (not_not.mpr hphase), Bool.false_or] at h
  split at h
  · rename_i fromId gameId cardId
    have hacts : ∀ q a, HostEvent.acts x.1 (.message fromId (.action gameId (.play cardId))) =
        some (q, a) → (fromId, Action.play cardId) = (q, a) := by
      intro q a hacts
      rw [HostEvent.acts] at hacts
      split at hacts
      · exact Option.some.inj hacts
      · cases hacts
    refine ⟨fun q cardId' hq _ => ?_, fun q hq => ?_, (fun _ _ h => by cases h),
      fun _ _ h => by cases h⟩
    · cases hacts _ _ hq
      exact h
    · cases hacts _ _ hq
  · exact ⟨(fun _ _ h => by cases h), (fun _ h => by cases h), (fun _ _ h => by cases h),
      fun _ _ h => by cases h⟩
  · cases h

/-- It plays its red five without a call, and draws the penalty when the host draws. -/
theorem callLaw_of_keepsCalls_five :
    ∃ x : Game × Option String, x.2 = none ∧ x.1.penalties.map (·.peerId) = [some "a"] ∧
      EveryStep watched CallLaw (openTable redHand, none)
        (redRun ++ [.message "a" (.action "g" (.play (some "r_5_a_9"))), .ownAction .draw]) := by
  have hexec : (exec watched (openTable redHand, none)
      (redRun ++ [.message "a" (.action "g" (.play (some "r_5_a_9"))), .ownAction .draw])).any
      fun x => x.2 = none ∧ x.1.penalties.map (·.peerId) = [some "a"] := by decide +kernel
  have hplain : allowed watched plain (openTable redHand, none)
      (redRun ++ [.message "a" (.action "g" (.play (some "r_5_a_9"))), .ownAction .draw]) = true := by
    decide +kernel
  obtain ⟨x, hx, hpaid⟩ := (Option.any_eq_true _ _).mp hexec
  have hrun := (Run.of_allowed hplain hx).mono fun _ _ => keepsCalls_of_plain
  exact ⟨x, (of_decide_eq_true hpaid).1, (of_decide_eq_true hpaid).2,
    callLaw_of_keepsCalls (created_openTable _) hrun⟩

/-- It plays its wild card with two cards left, and the table has nobody under the obligation. -/
theorem wild_not_pending : ¬ ∀ s es x, s.Created → FreeRun watched (s, none) es x →
    ∀ p, x.2 = some p → x.1.pendingUnoPeer = some p := by
  intro h
  have hexec : (exec watched (openTable redHand, none)
      (redRun ++ [.message "a" (.action "g" (.play (some "wild_0_100")))])).any
      fun x => x.2 = some "a" ∧ x.1.pendingUnoPeer = none := by decide +kernel
  obtain ⟨x, hx, hwild⟩ := (Option.any_eq_true _ _).mp hexec
  obtain ⟨howed, hnone⟩ := of_decide_eq_true hwild
  have hpending := h _ _ x (created_openTable _) (.of_exec hx) "a" howed
  rw [hnone] at hpending
  cases hpending

end Game
end Bluetalk.Uno

import Bluetalk.Uno.Seats

/-!
# Whose turn it is

While a round goes on and two players are connected, one of those is to act. Every turn that is
passed on by `nextIndex` goes to a connected player. The turn is left with somebody who is offline,
or goes the wrong way, only when a player is taken off the table or goes offline on its turn.
-/

open List Option

namespace Bluetalk.Uno.Game

variable {s s' : Game} {i : Nat} {idx : Int} {peerId : String} {e : HostEvent} {card : Card}

/-- The peer id of the player to act, and whether it is connected -/
def toAct (s : Game) : Option (String × Bool) :=
  (s.player? s.toActIdx).map fun p => (p.peerId, p.connected)

/-! ## The next seat -/

theorem getElem?_seats (s : Game) (i : Nat) :
    s.seats[i]? = s.players[i]?.map fun p => (p.peerId, p.connected) :=
  getElem?_map

theorem any_offline {connected : Bool} (h : s.seats[i]? = some (peerId, connected)) :
    s.players[i]?.any (!·.connected) = !connected := by
  rw [getElem?_seats] at h
  obtain ⟨p, hp, heq⟩ := map_eq_some_iff.mp h
  have hconnected : p.connected = connected := congrArg Prod.snd heq
  rw [hp, any_some, hconnected]

theorem length_seats (s : Game) : s.seats.length = s.players.length := length_map _

theorem toAct_eq (s : Game) :
    s.toAct = if 0 ≤ s.toActIdx then s.seats[s.toActIdx.toNat]? else none := by
  rw [toAct, player?]
  split
  · exact (getElem?_seats s _).symm
  · rfl

theorem seats_nextSeat {x : String × Bool} (hi : i < s.players.length)
    (hx : (ringAfter s.seats s.direction i).find? (·.2) = some x) :
    s.seats[(s.nextSeat i).toNat]? = some x := by
  rw [seats, ringAfter_map, find?_map] at hx
  obtain ⟨p, hp, rfl⟩ := map_eq_some_iff.mp hx
  have hskip : s.players[(s.nextSeat i).toNat]? = some p := getElem?_ringSkip_length hi hp
  rw [getElem?_seats, hskip]
  rfl

/-- Somebody is connected. -/
def Peopled (s : Game) : Prop := ∃ x ∈ s.seats, x.2 = true

theorem seats_nextSeat_of_peopled (h : s.Peopled) (idx : Int) :
    ∃ id, s.seats[(s.nextSeat idx).toNat]? = some (id, true) := by
  obtain ⟨x, hx, hconnected⟩ := h
  have hn : 0 < s.players.length := length_seats s ▸ length_pos_of_mem hx
  have hmod : 0 ≤ idx % s.players.length := Int.emod_nonneg _ (Int.natCast_ne_zero.mpr hn.ne')
  have hlt : idx % s.players.length < s.players.length :=
    Int.emod_lt_of_pos _ (Int.natCast_pos.mpr hn)
  obtain ⟨y, hy⟩ := isSome_iff_exists.mp (find?_isSome.mpr
    ⟨x, ((ringAfter_perm s.seats s.direction (idx % s.players.length).toNat).mem_iff).mpr hx,
      hconnected⟩)
  have hnext := seats_nextSeat (i := (idx % s.players.length).toNat) (by omega) hy
  rw [Int.toNat_of_nonneg hmod, nextSeat, ringNext_emod] at hnext
  obtain ⟨id, connected⟩ := y
  obtain rfl : connected = true := find?_some hy
  exact ⟨id, hnext⟩

/-- Somebody has the turn, and somebody connected if there is one. -/
def Settled (s : Game) : Prop := ∃ x, s.toAct = some x ∧ (s.Peopled → x.2 = true)

theorem settled_of_nextIndex (hn : 0 < s.players.length) {k : Nat}
    (hturn : s'.toActIdx = s.nextIndex idx (k + 1)) (hseats : s'.seats = s.seats) : Settled s' := by
  obtain ⟨h₀, hlt⟩ := nextIndex_range hn idx k
  rw [Settled, toAct_eq, Peopled, hturn, hseats, if_pos h₀]
  rw [nextIndex, if_neg hn.ne', Function.iterate_succ_apply'] at h₀ hlt ⊢
  by_cases hpeopled : s.Peopled
  · obtain ⟨id, hid⟩ := seats_nextSeat_of_peopled hpeopled (s.nextSeat^[k] idx)
    exact ⟨_, hid, fun _ => rfl⟩
  have hrange : (s.nextSeat (s.nextSeat^[k] idx)).toNat < s.seats.length := by
    rw [length_seats]
    omega
  exact ⟨_, getElem?_eq_getElem hrange, fun h => absurd h hpeopled⟩

/-! ## What a card does to the turn -/

theorem settled_passTo (hn : 0 < s.players.length) (idx : Int) (k : Nat) :
    Settled (s.passTo (s.nextIndex idx (k + 1))) :=
  settled_of_nextIndex hn rfl rfl

theorem settled_resolveReverse (hn : 0 < s.players.length) : Settled s.resolveReverse := by
  rw [resolveReverse]
  split
  · exact settled_passTo hn _ 1
  · exact settled_passTo (s := { s with direction := -s.direction }) hn _ 0

theorem settled_resolveDraw (hn : 0 < s.players.length) (count : Nat) (type : DrawType) :
    Settled (s.resolveDraw count type) := by
  rw [resolveDraw]
  split
  · exact settled_of_nextIndex hn (s := s) (k := 0) rfl rfl
  refine settled_passTo ?_ _ 0
  have hdraw := (drawn_drawCardsFor s (s.nextIndex s.toActIdx 1).toNat count).1.seats
  rw [← length_seats] at hn ⊢
  exact hdraw ▸ hn

theorem settled_resolveCard (hn : 0 < s.players.length) (card : Card) :
    Settled (s.resolveCard card) := by
  rw [resolveCard]
  split
  · exact settled_passTo hn _ 1
  · exact settled_resolveReverse hn
  · exact settled_resolveDraw hn 2 .draw2
  · exact settled_passTo hn _ 0

theorem choice_resolveDraw (s : Game) (count : Nat) (type : DrawType) :
    (s.resolveDraw count type).pendingColorChoice = s.pendingColorChoice := by
  rw [resolveDraw]
  split
  · rfl
  · exact (frame_drawCardsFor s (s.nextIndex s.toActIdx 1).toNat count).choice

theorem choice_resolveCard (s : Game) (card : Card) :
    (s.resolveCard card).pendingColorChoice = s.pendingColorChoice := by
  rw [resolveCard]
  split
  · rfl
  · rw [resolveReverse]
    split <;> rfl
  · exact choice_resolveDraw s 2 .draw2
  · rfl

theorem phase_afterCardPlayed (h : (s.afterCardPlayed i peerId card).2 = true) :
    (s.afterCardPlayed i peerId card).1.phase ≠ .playing := by
  rw [afterCardPlayed] at h ⊢
  split at h
  · rename_i hempty
    rw [if_pos hempty]
    exact phase_finishRound _ peerId
  · cases h

theorem settled_afterCardPlayed (hn : 0 < s.players.length)
    (h : ¬(s.afterCardPlayed i peerId card).2 = true) :
    Settled (s.afterCardPlayed i peerId card).1 ∧
      (s.afterCardPlayed i peerId card).1.pendingColorChoice = s.pendingColorChoice := by
  rw [afterCardPlayed] at h ⊢
  split at h
  · exact absurd rfl h
  rename_i hcards
  rw [if_neg hcards]
  refine ⟨settled_resolveCard ?_ card, (choice_resolveCard _ card).trans ?_⟩
  · rw [modifyPlayer, length_modify]
    split <;> exact hn
  · split <;> rfl

/-! ## What an action does to the turn -/

/-- During a round the turn is passed on, or the player who has it keeps it. -/
inductive Turned (s s' : Game) : Prop
  | passed (hchoice : s'.pendingColorChoice = none) (hturn : Settled s')
  | kept (hturn : s'.toActIdx = s.toActIdx) (hchoice : s'.pendingColorChoice = s.pendingColorChoice)
    (hpass : s'.drewCanPass = s.drewCanPass ∨ s.pendingColorChoice = none)
  | waits (hturn : s'.toActIdx = s.toActIdx)
    (hchoice : s'.pendingColorChoice = s.toAct.map Prod.fst) (hpass : s'.drewCanPass = none)

theorem OnTurn.toAct_eq (h : OnTurn s peerId i) : ∃ p, s.players[i]? = some p ∧
    s.toAct = some (peerId, p.connected) := by
  obtain ⟨p, hp, hpid⟩ := peerId_of_playerIndex h.index
  refine ⟨p, hp, ?_⟩
  rw [Game.toAct, player?, h.toAct, if_pos (Int.natCast_nonneg i), Int.toNat_natCast, hp, ← hpid]
  rfl

theorem turned_play {player : Player} {cardIdx : Nat} (h : MayPlay s peerId i player cardIdx card)
    (hphase : (s.play i peerId cardIdx card).phase = .playing) :
    Turned s (s.play i peerId cardIdx card) := by
  have hsettle := frame_settleUno s peerId
  obtain ⟨p, -, hact⟩ := h.toOnTurn.toAct_eq
  rw [play] at hphase ⊢
  split
  · refine .waits hsettle.turn ?_ rfl
    rw [hact]
    rfl
  rename_i hcolor
  rw [if_neg hcolor] at hphase
  have hlength : ((s.settleUno peerId).discard i peerId cardIdx card).players.length =
      s.players.length := by
    rw [← length_seats, ← length_seats s, ← hsettle.seats]
    exact congrArg List.length (seats_modifyPlayer (f := (·.lay cardIdx)) fun _ => ⟨rfl, rfl⟩)
  have hchoice : ((s.settleUno peerId).discard i peerId cardIdx card).pendingColorChoice = none :=
    hsettle.choice.trans h.choice
  generalize (s.settleUno peerId).discard i peerId cardIdx card = t at hphase hlength hchoice ⊢
  have hn : 0 < t.players.length := hlength ▸ Nat.zero_lt_of_lt (playerIndex_lt h.index)
  dsimp only at hphase ⊢
  split
  · rename_i hended
    rw [if_pos hended] at hphase
    exact absurd hphase (phase_afterCardPlayed hended)
  rename_i hgoing
  obtain ⟨hturn, hkeeps⟩ := settled_afterCardPlayed
    (s := { t with activeColor := some card.color }) hn hgoing
  exact .passed (hkeeps.trans hchoice) hturn

theorem turned_setColor {color : Color} (hn : 0 < s.players.length)
    (hphase : (s.setColor peerId color).phase = .playing) :
    Turned s (s.setColor peerId color) := by
  rw [setColor] at hphase ⊢
  split at hphase
  · exact absurd hphase (phase_finishRound _ peerId)
  rename_i hgoing
  rw [if_neg hgoing]
  split
  · exact .passed (choice_resolveDraw (s.withColor peerId color) 4 .draw4)
      (settled_resolveDraw (s := s.withColor peerId color) hn 4 .draw4)
  · exact .passed rfl (settled_passTo (s := s.withColor peerId color) hn _ 0)

theorem turned_forceDrawStack (hchoice : s.pendingColorChoice = none) :
    Turned s (s.forceDrawStack peerId) := by
  rw [forceDrawStack]
  split
  · exact .kept rfl rfl (.inl rfl)
  rename_i i hi
  split
  · exact .kept rfl rfl (.inl rfl)
  have hdraw := frame_drawCardsFor s i s.pendingDrawStack
  have hn : 0 < (s.drawCardsFor i s.pendingDrawStack).1.players.length := by
    rw [← length_seats, hdraw.seats, length_seats]
    exact Nat.zero_lt_of_lt (playerIndex_lt hi)
  exact .passed (hdraw.choice.trans hchoice) (settled_of_nextIndex
    (s := { (s.drawCardsFor i s.pendingDrawStack).1 with
      pendingDrawStack := 0, pendingDrawType := none, drewCanPass := none }) (k := 0) hn rfl rfl)

theorem turned_drawOne (hi : i < s.players.length) (hchoice : s.pendingColorChoice = none) :
    Turned s (s.drawOne i peerId) := by
  have hdraw := frame_drawCardsFor s i 1
  have hn : 0 < (s.drawCardsFor i 1).1.players.length := by
    rw [← length_seats, hdraw.seats, length_seats]
    exact Nat.zero_lt_of_lt hi
  have hpassed : Settled ({ (s.drawCardsFor i 1).1 with drewCanPass := none }.passTo
      ((s.drawCardsFor i 1).1.nextIndex (s.drawCardsFor i 1).1.toActIdx 1)) :=
    settled_of_nextIndex (s := (s.drawCardsFor i 1).1) (k := 0) hn rfl rfl
  rw [drawOne]
  split
  · exact .passed (hdraw.choice.trans hchoice) hpassed
  · split
    · exact .kept hdraw.turn hdraw.choice (.inr hchoice)
    · exact .passed (hdraw.choice.trans hchoice) hpassed

theorem toAct_congr (hturn : s'.toActIdx = s.toActIdx) (hseats : s'.seats = s.seats) :
    s'.toAct = s.toAct := by
  rw [toAct_eq, toAct_eq, hturn, hseats]

theorem Turned.congr {uno : Option String} {s₁ : Game}
    (hframe : Frame { s with pendingUnoPeer := uno } s₁) (h : Turned s₁ s') : Turned s s' := by
  cases h with
  | passed hchoice hturn => exact .passed hchoice hturn
  | kept hturn hchoice hpass =>
    exact .kept (hturn.trans hframe.turn) (hchoice.trans hframe.choice)
      (hpass.imp (·.trans hframe.pass) hframe.choice.symm.trans)
  | waits hturn hchoice hpass =>
    refine .waits (hturn.trans hframe.turn) (hchoice.trans ?_) hpass
    exact congrArg _ (toAct_congr hframe.turn hframe.seats)

theorem turned_applyAction {a : Action} (hpass : ∀ c, s.pendingColorChoice = some c →
      s.drewCanPass = none) (hn : 0 < s.players.length) (hphase : s'.phase = .playing)
    (h : s.applyAction peerId a = some s') : Turned s s' := by
  cases a with
  | play cardId =>
    obtain ⟨i, player, cardIdx, card, hmay, rfl⟩ := playCard_some h
    exact turned_play hmay hphase
  | chooseColor color =>
    obtain ⟨-, color, rfl⟩ := chooseColor_some h
    exact turned_setColor hn hphase
  | draw =>
    obtain ⟨i, hturn, rfl⟩ := drawCard_some h
    have hframe := frame_settled s peerId
    have hlength := (moves_settled s peerId).length
    have hchoice : (s.settled peerId).pendingColorChoice = none := hframe.choice.trans hturn.choice
    refine Turned.congr hframe ?_
    split
    · exact turned_forceDrawStack hchoice
    · exact turned_drawOne (hlength ▸ playerIndex_lt hturn.index) hchoice
  | pass =>
    obtain ⟨hpasses, rfl⟩ := passTurn_some h
    have hframe := frame_settleUno { s with drewCanPass := none } peerId
    have hnone : s.pendingColorChoice = none := by
      cases hchoice : s.pendingColorChoice with
      | none => rfl
      | some c => cases hpasses.symm.trans (hpass c hchoice)
    refine .passed (hframe.choice.trans hnone) ?_
    · refine settled_of_nextIndex (s := s.passed peerId) (k := 0) ?_ rfl rfl
      have hlength := (moves_passed s peerId).length
      omega
  | callUno =>
    obtain ⟨i, -, -, rfl⟩ := callUno_some h
    rw [called]
    split
    · exact .kept rfl rfl (.inl rfl)
    · exact .kept rfl rfl (.inl rfl)
  | unknown => cases h

end Bluetalk.Uno.Game

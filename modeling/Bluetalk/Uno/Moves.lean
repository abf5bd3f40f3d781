import Bluetalk.Uno.Host

/-!
# What an action may move

An action of a player moves cards between the hands and the piles, and neither makes nor loses one.
It leaves everyone in its seat, and it begins no round.
-/

open List Option

namespace Bluetalk.Uno.Game

variable {s s' s'' : Game} {i : Nat} {peerId : String} {f : Player → Player} {count cardIdx : Nat}
  {cardId : Option String} {player : Player} {card : Card}

def hands (s : Game) : Multiset Card := (s.players.map fun p => (p.hand : Multiset Card)).sum

/-- All cards of the table -/
def cards (s : Game) : Multiset Card := s.hands + s.piles

/-- Who sits at the table, and who of them is connected -/
def seats (s : Game) : List (String × Bool) := s.players.map fun p => (p.peerId, p.connected)

/-- Nothing but cards has moved. -/
structure Moves (s s' : Game) : Prop where
  cards : 0 < s.players.length → s'.cards = s.cards
  seats : s'.seats = s.seats
  phase : s'.phase = .playing → s.phase = .playing

namespace Moves

theorem refl (s : Game) : Moves s s := ⟨fun _ => rfl, rfl, id⟩

theorem length (h : Moves s s') : s'.players.length = s.players.length := by
  have hlength := congrArg List.length h.seats
  rwa [Game.seats, Game.seats, length_map, length_map] at hlength

theorem trans (h : Moves s s') (h' : Moves s' s'') : Moves s s'' where
  cards hs := (h'.cards (h.length.symm ▸ hs)).trans (h.cards hs)
  seats := h'.seats.trans h.seats
  phase := h.phase ∘ h'.phase

end Moves

/-! ## The parts of an action -/

theorem hands_modifyPlayer (hf : ∀ p, (f p).hand = p.hand) :
    (s.modifyPlayer i f).hands = s.hands := by
  refine congrArg List.sum (map_modify_of_eq (fun p => ?_) _ _)
  rw [hf]

theorem seats_modifyPlayer (hf : ∀ p, (f p).peerId = p.peerId ∧ (f p).connected = p.connected) :
    (s.modifyPlayer i f).seats = s.seats :=
  map_modify_of_eq (fun p => Prod.ext (hf p).1 (hf p).2) _ _

theorem moves_modifyPlayer (hhand : ∀ p, (f p).hand = p.hand)
    (hseat : ∀ p, (f p).peerId = p.peerId ∧ (f p).connected = p.connected) :
    Moves s (s.modifyPlayer i f) where
  cards _ := congrArg (· + s.piles) (hands_modifyPlayer hhand)
  seats := seats_modifyPlayer hseat
  phase := id

theorem Drawn.seats {drawn : List Card} (h : Drawn s i drawn s') : s'.seats = s.seats := by
  obtain ⟨drawPile, discardPile, taken, rfl⟩ := h.eq
  exact seats_modifyPlayer (f := (·.receive drawn)) fun _ => ⟨rfl, rfl⟩

theorem Drawn.moves {drawn : List Card} (h : Drawn s i drawn s')
    (hi : 0 < s.players.length → i < s.players.length) : Moves s s' := by
  have hpiles := h.piles
  have hseats := h.seats
  obtain ⟨drawPile, discardPile, taken, rfl⟩ := h.eq
  refine ⟨fun hs => ?_, hseats, id⟩
  have hhands : (s.modifyPlayer i (·.receive drawn)).hands = s.hands + drawn := by
    have hsum := sum_map_modify (f := (·.receive drawn)) (g := fun p => (p.hand : Multiset Card))
      (hi hs)
    rw [Player.receive, ← Multiset.coe_add, ← add_assoc, add_right_comm] at hsum
    exact add_right_cancel hsum
  calc _ = (s.modifyPlayer i (·.receive drawn)).hands + _ := rfl
    _ = s.cards := by rw [hhands, add_assoc, hpiles, Game.cards]

/-- Nothing but hands, piles and the events told has changed. -/
structure Frame (s s' : Game) : Prop where
  cfg : s'.cfg = s.cfg
  seats : s'.seats = s.seats
  phase : s'.phase = s.phase
  direction : s'.direction = s.direction
  turn : s'.toActIdx = s.toActIdx
  choice : s'.pendingColorChoice = s.pendingColorChoice
  stack : s'.pendingDrawStack = s.pendingDrawStack
  pass : s'.drewCanPass = s.drewCanPass
  uno : s'.pendingUnoPeer = s.pendingUnoPeer

theorem Frame.refl (s : Game) : Frame s s := ⟨rfl, rfl, rfl, rfl, rfl, rfl, rfl, rfl, rfl⟩

theorem Frame.trans (h : Frame s s') (h' : Frame s' s'') : Frame s s'' :=
  ⟨h'.cfg.trans h.cfg, h'.seats.trans h.seats, h'.phase.trans h.phase,
    h'.direction.trans h.direction, h'.turn.trans h.turn, h'.choice.trans h.choice,
    h'.stack.trans h.stack, h'.pass.trans h.pass, h'.uno.trans h.uno⟩

theorem Drawn.frame {drawn : List Card} (h : Drawn s i drawn s') : Frame s s' := by
  have hseats := h.seats
  obtain ⟨drawPile, discardPile, taken, rfl⟩ := h.eq
  exact ⟨rfl, hseats, rfl, rfl, rfl, rfl, rfl, rfl, rfl⟩

theorem frame_drawCardsFor (s : Game) (i count : Nat) : Frame s (s.drawCardsFor i count).1 :=
  (drawn_drawCardsFor s i count).1.frame

theorem moves_drawCardsFor (hi : 0 < s.players.length → i < s.players.length) :
    Moves s (s.drawCardsFor i count).1 :=
  (drawn_drawCardsFor s i count).1.moves hi

theorem playerIndex_lt (h : s.playerIndex peerId = some i) : i < s.players.length :=
  (findIdx?_eq_some_iff_getElem.mp h).1

theorem moves_checkUnoPenalty (s : Game) (peerId : String) : Moves s (s.checkUnoPenalty peerId) := by
  rw [checkUnoPenalty]
  split
  · exact .refl s
  rename_i i hi
  split
  · have hdraw : Moves s (s.drawCardsFor i s.cfg.penaltyCards).1 :=
      moves_drawCardsFor fun _ => playerIndex_lt hi
    exact hdraw.trans ⟨fun _ => rfl, rfl, id⟩
  · exact .refl s

theorem frame_checkUnoPenalty (s : Game) (peerId : String) : Frame s (s.checkUnoPenalty peerId) := by
  rw [checkUnoPenalty]
  split
  · exact .refl s
  split
  · have h := frame_drawCardsFor s
    exact ⟨(h _ _).cfg, (h _ _).seats, (h _ _).phase, (h _ _).direction, (h _ _).turn,
      (h _ _).choice, (h _ _).stack, (h _ _).pass, (h _ _).uno⟩
  · exact .refl s

theorem frame_settleUno (s : Game) (peerId : String) : Frame s (s.settleUno peerId) := by
  rw [settleUno]
  split
  · exact .refl s
  · split
    · exact .refl s
    · exact frame_checkUnoPenalty s _

theorem moves_settleUno (s : Game) (peerId : String) : Moves s (s.settleUno peerId) := by
  rw [settleUno]
  split
  · exact .refl s
  · split
    · exact .refl s
    · exact moves_checkUnoPenalty s _

theorem moves_applyPointsForRound (s : Game) (peerId : String) :
    Moves s (s.applyPointsForRound peerId) := by
  rw [applyPointsForRound]
  split
  · exact .refl s
  split
  · exact .refl s
  rename_i i hi
  have hwon : Moves s (s.modifyPlayer i (·.addScore ((s.players.filter
      (·.peerId ≠ peerId)).map fun p => (p.hand.map cardPoints).sum).sum)) :=
    moves_modifyPlayer (fun _ => rfl) fun _ => ⟨rfl, rfl⟩
  dsimp only
  split
  · exact ⟨hwon.cards, hwon.seats, fun h => by cases h⟩
  · exact hwon

theorem phase_finishRound (s : Game) (peerId : String) :
    (s.finishRound peerId).phase ≠ .playing := by
  rw [finishRound]
  split
  · exact fun h => by cases h
  · rename_i h
    rw [not_ne_iff] at h
    exact fun h' => by cases h.symm.trans h'

theorem moves_finishRound (s : Game) (peerId : String) : Moves s (s.finishRound peerId) := by
  have hpoints := (Moves.mk (fun _ => rfl) rfl id).trans (moves_applyPointsForRound
    { s with
      roundWinner := some peerId
      pendingColorChoice := none
      pendingDrawStack := 0
      pendingDrawType := none
      drewCanPass := none
      pendingUnoPeer := none } peerId)
  have hphase := phase_finishRound s peerId
  rw [finishRound] at hphase ⊢
  split
  · exact ⟨hpoints.cards, hpoints.seats, fun h => by cases h⟩
  · rename_i hover
    rw [if_neg hover] at hphase
    exact ⟨hpoints.cards, hpoints.seats, fun h => absurd h hphase⟩

theorem nextIndex_range (hs : 0 < s.players.length) (fromIdx : Int) (steps : Nat) :
    0 ≤ s.nextIndex fromIdx (steps + 1) ∧ s.nextIndex fromIdx (steps + 1) < s.players.length := by
  rw [nextIndex, if_neg hs.ne', Function.iterate_succ_apply']
  exact ringSkip_range _ hs (ringNext_nonneg hs _) (ringNext_lt hs _)

theorem moves_passTo (s : Game) (idx : Int) : Moves s (s.passTo idx) := ⟨fun _ => rfl, rfl, id⟩

theorem moves_resolveReverse (s : Game) : Moves s s.resolveReverse := by
  rw [resolveReverse]
  split
  · exact moves_passTo s _
  · exact ⟨fun _ => rfl, rfl, id⟩

theorem moves_resolveDraw (s : Game) (count : Nat) (type : DrawType) :
    Moves s (s.resolveDraw count type) := by
  rw [resolveDraw]
  split
  · exact ⟨fun _ => rfl, rfl, id⟩
  have hdraw : Moves s (s.drawCardsFor (s.nextIndex s.toActIdx 1).toNat count).1 := by
    refine moves_drawCardsFor fun hs => ?_
    have hrange : 0 ≤ s.nextIndex s.toActIdx 1 ∧ s.nextIndex s.toActIdx 1 < s.players.length :=
      nextIndex_range hs s.toActIdx 0
    omega
  exact hdraw.trans ⟨fun _ => rfl, rfl, id⟩

theorem moves_forceDrawStack (s : Game) (peerId : String) : Moves s (s.forceDrawStack peerId) := by
  rw [forceDrawStack]
  split
  · exact .refl s
  rename_i i hi
  split
  · exact .refl s
  · have hdraw : Moves s (s.drawCardsFor i s.pendingDrawStack).1 :=
      moves_drawCardsFor fun _ => playerIndex_lt hi
    exact hdraw.trans ⟨fun _ => rfl, rfl, id⟩

theorem moves_scheduleTurnTimer (s : Game) : Moves s s.scheduleTurnTimer :=
  ⟨fun _ => rfl, rfl, id⟩

theorem moves_resolveCard (s : Game) (card : Card) : Moves s (s.resolveCard card) := by
  rw [resolveCard]
  split
  · exact moves_passTo s _
  · exact moves_resolveReverse s
  · exact moves_resolveDraw s 2 .draw2
  · exact moves_passTo s _

theorem moves_afterCardPlayed (s : Game) (i : Nat) (peerId : String) (card : Card) :
    Moves s (s.afterCardPlayed i peerId card).1 := by
  rw [afterCardPlayed]
  have hsaid : Moves s ((if (s.players[i]?.map (·.hand.length)).getD 0 = 1
      then { s with pendingUnoPeer := some peerId } else s).modifyPlayer i
        (·.setSaidUno false)) := by
    refine Moves.trans ?_ (moves_modifyPlayer (fun _ => rfl) fun _ => ⟨rfl, rfl⟩)
    split
    · exact ⟨fun _ => rfl, rfl, id⟩
    · exact .refl s
  split
  · exact hsaid.trans (moves_finishRound _ peerId)
  · exact hsaid.trans (moves_resolveCard _ card)

/-! ## When an action is taken -/

/-- It is the turn of `peerId` at position `i`, and no colour is to be chosen. -/
structure OnTurn (s : Game) (peerId : String) (i : Nat) : Prop where
  index : s.playerIndex peerId = some i
  toAct : s.toActIdx = i
  phase : s.phase = .playing
  choice : s.pendingColorChoice = none

/-- The player `peerId` at position `i` may play the card at `cardIdx` of its hand. -/
structure MayPlay (s : Game) (peerId : String) (i : Nat) (player : Player) (cardIdx : Nat)
    (card : Card) : Prop extends OnTurn s peerId i where
  seat : s.players[i]? = some player
  held : player.hand[cardIdx]? = some card
  rules : s.mayPlay player card = true

/-- The card with the id `cardId` in the hand of `peerId` -/
def heldCard (s : Game) (peerId : String) (cardId : Option String) : Option Card := do
  let i ← s.playerIndex peerId
  let player ← s.players[i]?
  let cardIdx ← player.hand.findIdx? (some ·.id = cardId)
  player.hand[cardIdx]?

theorem heldCard_of_playCard (h : s.playCard peerId cardId = some s') :
    ∃ i player cardIdx card, MayPlay s peerId i player cardIdx card ∧
      s' = s.play i peerId cardIdx card ∧ s.heldCard peerId cardId = some card := by
  obtain ⟨i, hi, h⟩ := bind_eq_some_iff.mp h
  obtain ⟨_, hturn, h⟩ := bind_eq_some_iff.mp h
  obtain ⟨player, hplayer, h⟩ := bind_eq_some_iff.mp h
  obtain ⟨cardIdx, hfind, h⟩ := bind_eq_some_iff.mp h
  obtain ⟨card, hcard, h⟩ := bind_eq_some_iff.mp h
  obtain ⟨_, hmay, h⟩ := bind_eq_some_iff.mp h
  rw [guard_eq_some'] at hturn hmay
  refine ⟨i, player, cardIdx, card, ⟨⟨hi, hturn.1, hturn.2.1, hturn.2.2⟩, hplayer, hcard, hmay⟩,
    (some.inj h).symm, ?_⟩
  exact bind_eq_some_iff.mpr ⟨i, hi, bind_eq_some_iff.mpr ⟨player, hplayer,
    bind_eq_some_iff.mpr ⟨cardIdx, hfind, hcard⟩⟩⟩

theorem playCard_some (h : s.playCard peerId cardId = some s') :
    ∃ i player cardIdx card, MayPlay s peerId i player cardIdx card ∧
      s' = s.play i peerId cardIdx card := by
  obtain ⟨i, player, cardIdx, card, hmay, heq, -⟩ := heldCard_of_playCard h
  exact ⟨i, player, cardIdx, card, hmay, heq⟩

theorem chooseColor_some {color : Option String} (h : s.chooseColor peerId color = some s') :
    s.pendingColorChoice = some peerId ∧ ∃ color, s' = s.setColor peerId color := by
  obtain ⟨_, hchoice, h⟩ := bind_eq_some_iff.mp h
  obtain ⟨color, _, h⟩ := bind_eq_some_iff.mp h
  rw [guard_eq_some'] at hchoice
  exact ⟨hchoice, color, (some.inj h).symm⟩

/-- Where `peerId` draws, the penalty of another settled -/
def settled (s : Game) (peerId : String) : Game :=
  if s.pendingUnoPeer = some peerId then s.settleUno peerId
  else { s.settleUno peerId with pendingUnoPeer := none }

theorem drawCard_some (h : s.drawCard peerId = some s') : ∃ i, OnTurn s peerId i ∧
    s' = if 0 < (s.settled peerId).pendingDrawStack then (s.settled peerId).forceDrawStack peerId
      else (s.settled peerId).drawOne i peerId := by
  obtain ⟨i, hi, h⟩ := bind_eq_some_iff.mp h
  obtain ⟨_, hturn, h⟩ := bind_eq_some_iff.mp h
  rw [guard_eq_some'] at hturn
  exact ⟨i, ⟨hi, hturn.1, hturn.2.1, hturn.2.2⟩, (some.inj h).symm⟩

/-- The turn passed on by a player that drew -/
def passed (s : Game) (peerId : String) : Game :=
  { { s with drewCanPass := none }.settleUno peerId with pendingUnoPeer := none }

theorem passTurn_some (h : s.passTurn peerId = some s') : s.drewCanPass = some peerId ∧
    s' = ((s.passed peerId).passTo
      ((s.passed peerId).nextIndex (s.passed peerId).toActIdx 1)).scheduleTurnTimer := by
  obtain ⟨_, hpass, h⟩ := bind_eq_some_iff.mp h
  rw [guard_eq_some'] at hpass
  exact ⟨hpass, (some.inj h).symm⟩

/-- The player has called. -/
def called (s : Game) (i : Nat) (peerId : String) : Game :=
  if s.pendingUnoPeer = some peerId then
    { s.modifyPlayer i (·.setSaidUno true) with pendingUnoPeer := none }
  else s.modifyPlayer i (·.setSaidUno true)

theorem callUno_some (h : s.callUno peerId = some s') : ∃ i, s.playerIndex peerId = some i ∧
    s.players[i]?.any (·.hand.length = 1) = true ∧ s' = s.called i peerId := by
  obtain ⟨i, hi, h⟩ := bind_eq_some_iff.mp h
  obtain ⟨_, hone, h⟩ := bind_eq_some_iff.mp h
  rw [guard_eq_some'] at hone
  exact ⟨i, hi, hone, (some.inj h).symm⟩

/-! ## The actions -/

theorem getElem?_drawCardsFor {j : Nat} (hij : i ≠ j) :
    (s.drawCardsFor i count).1.players[j]? = s.players[j]? := by
  obtain ⟨drawPile, discardPile, taken, heq⟩ := (drawn_drawCardsFor s i count).1.eq
  rw [heq]
  exact getElem?_modify_ne _ _ hij

theorem peerId_of_playerIndex (h : s.playerIndex peerId = some i) :
    ∃ p, s.players[i]? = some p ∧ p.peerId = peerId := by
  obtain ⟨hi, hp, -⟩ := findIdx?_eq_some_iff_getElem.mp h
  exact ⟨_, getElem?_eq_getElem hi, of_decide_eq_true hp⟩

theorem getElem?_settleUno (hi : s.playerIndex peerId = some i) :
    (s.settleUno peerId).players[i]? = s.players[i]? := by
  rw [settleUno]
  split
  · rfl
  rename_i pending _
  split
  · rfl
  rename_i hne
  rw [checkUnoPenalty]
  split
  · rfl
  rename_i j hj
  split
  · obtain ⟨p, hp, hpid⟩ := peerId_of_playerIndex hi
    obtain ⟨q, hq, hqid⟩ := peerId_of_playerIndex hj
    refine getElem?_drawCardsFor fun hji => hne ?_
    rw [← hqid, ← hpid]
    rw [hji, hp] at hq
    rw [some.inj hq]
  · rfl

theorem moves_discard (hplayer : s.players[i]? = some player) (hcard : player.hand[cardIdx]? = some card) :
    Moves s (s.discard i peerId cardIdx card) where
  cards _ := by
    obtain ⟨hi, rfl⟩ := List.getElem?_eq_some_iff.mp hplayer
    obtain ⟨hidx, rfl⟩ := List.getElem?_eq_some_iff.mp hcard
    have hlay : ((s.players[i].lay cardIdx).hand : Multiset Card) + {s.players[i].hand[cardIdx]} =
        s.players[i].hand := by
      rw [add_comm, Multiset.singleton_add]
      exact Multiset.coe_eq_coe.mpr (getElem_cons_eraseIdx_perm hidx)
    have hhands : (s.modifyPlayer i (·.lay cardIdx)).hands + {s.players[i].hand[cardIdx]} =
        s.hands := by
      have hsum := sum_map_modify (f := (·.lay cardIdx)) (g := fun p => (p.hand : Multiset Card)) hi
      rw [← hlay, add_comm _ {s.players[i].hand[cardIdx]}, ← add_assoc] at hsum
      exact add_right_cancel hsum
    calc _ = (s.modifyPlayer i (·.lay cardIdx)).hands +
          (s.drawPile + (s.discardPile + {s.players[i].hand[cardIdx]}) : Multiset Card) := rfl
      _ = s.cards := by
        rw [← add_assoc (s.drawPile : Multiset Card), add_comm _ {s.players[i].hand[cardIdx]},
          ← add_assoc, hhands]
        rfl
  seats := seats_modifyPlayer (f := (·.lay cardIdx)) fun _ => ⟨rfl, rfl⟩
  phase := id

theorem moves_play (h : MayPlay s peerId i player cardIdx card) : Moves s (s.play i peerId cardIdx card) := by
  have hdiscard : Moves s ((s.settleUno peerId).discard i peerId cardIdx card) :=
    (moves_settleUno s peerId).trans
      (moves_discard ((getElem?_settleUno h.index).trans h.seat) h.held)
  rw [play]
  split
  · exact ⟨hdiscard.cards, hdiscard.seats, hdiscard.phase⟩
  have hcolor : Moves s { (s.settleUno peerId).discard i peerId cardIdx card with
      activeColor := some card.color } := ⟨hdiscard.cards, hdiscard.seats, hdiscard.phase⟩
  have hafter := hcolor.trans (moves_afterCardPlayed _ i peerId card)
  dsimp only
  split
  · exact hafter
  · exact hafter.trans (moves_scheduleTurnTimer _)

theorem moves_setColor (s : Game) (peerId : String) (color : Color) :
    Moves s (s.setColor peerId color) := by
  have hset : Moves s (s.withColor peerId color) := ⟨fun _ => rfl, rfl, id⟩
  rw [setColor]
  split
  · refine Moves.trans ?_ (moves_finishRound _ peerId)
    split
    · exact hset.trans (moves_resolveDraw _ 4 .draw4)
    · exact hset
  refine Moves.trans ?_ (moves_scheduleTurnTimer _)
  split
  · exact hset.trans (moves_resolveDraw _ 4 .draw4)
  · exact hset.trans (moves_passTo _ _)

theorem moves_settled (s : Game) (peerId : String) : Moves s (s.settled peerId) := by
  have hsettle := moves_settleUno s peerId
  rw [settled]
  split
  · exact hsettle
  · exact ⟨hsettle.cards, hsettle.seats, hsettle.phase⟩

theorem frame_settled (s : Game) (peerId : String) :
    Frame { s with pendingUnoPeer := (s.settled peerId).pendingUnoPeer } (s.settled peerId) := by
  have h := frame_settleUno s peerId
  rw [settled]
  split
  · exact ⟨h.cfg, h.seats, h.phase, h.direction, h.turn, h.choice, h.stack, h.pass, rfl⟩
  · exact ⟨h.cfg, h.seats, h.phase, h.direction, h.turn, h.choice, h.stack, h.pass, rfl⟩

theorem moves_drawOne (hi : i < s.players.length) : Moves s (s.drawOne i peerId) := by
  have hdraw : Moves s (s.drawCardsFor i 1).1 := moves_drawCardsFor fun _ => hi
  rw [drawOne]
  split
  · exact ⟨hdraw.cards, hdraw.seats, hdraw.phase⟩
  · split
    · exact ⟨hdraw.cards, hdraw.seats, hdraw.phase⟩
    · exact ⟨hdraw.cards, hdraw.seats, hdraw.phase⟩

theorem moves_passed (s : Game) (peerId : String) : Moves s (s.passed peerId) := by
  have hsettle := moves_settleUno { s with drewCanPass := none } peerId
  exact ⟨hsettle.cards, hsettle.seats, hsettle.phase⟩

theorem moves_called (s : Game) (i : Nat) (peerId : String) : Moves s (s.called i peerId) := by
  have hsaid : Moves s (s.modifyPlayer i (·.setSaidUno true)) :=
    moves_modifyPlayer (fun _ => rfl) fun _ => ⟨rfl, rfl⟩
  rw [called]
  split
  · exact ⟨hsaid.cards, hsaid.seats, hsaid.phase⟩
  · exact hsaid

theorem moves_applyAction {a : Action} (h : s.applyAction peerId a = some s') : Moves s s' := by
  cases a with
  | play cardId =>
    obtain ⟨i, player, cardIdx, card, hmay, rfl⟩ := playCard_some h
    exact moves_play hmay
  | chooseColor color =>
    obtain ⟨-, color, rfl⟩ := chooseColor_some h
    exact moves_setColor s peerId color
  | draw =>
    obtain ⟨i, hturn, rfl⟩ := drawCard_some h
    refine (moves_settled s peerId).trans ?_
    split
    · exact moves_forceDrawStack _ peerId
    · exact moves_drawOne ((moves_settled s peerId).length ▸ playerIndex_lt hturn.index)
  | pass =>
    obtain ⟨-, rfl⟩ := passTurn_some h
    exact (moves_passed s peerId).trans ((moves_passTo _ _).trans (moves_scheduleTurnTimer _))
  | callUno =>
    obtain ⟨i, -, -, rfl⟩ := callUno_some h
    exact moves_called s i peerId
  | unknown => cases h

theorem moves_getD_applyAction (s : Game) (peerId : String) (a : Action) :
    Moves s ((s.applyAction peerId a).getD s) := by
  cases h : s.applyAction peerId a with
  | none => exact .refl s
  | some s' => exact moves_applyAction h

theorem moves_turnTimeout (s : Game) : Moves s s.turnTimeout := by
  rw [turnTimeout]
  split
  · exact .refl s
  split
  · exact .refl s
  split
  · exact moves_getD_applyAction s _ _
  · split
    · exact moves_forceDrawStack s _
    · exact moves_getD_applyAction s _ _

end Bluetalk.Uno.Game

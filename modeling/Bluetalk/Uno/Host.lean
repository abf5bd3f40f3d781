import Bluetalk.Theory.Run
import Bluetalk.Uno.Game

/-!
# The host of an UNO game

What the players ask for, who comes and goes, and the timers, as the host takes them one after
another. A function of the source that answers `false` and leaves the table as it is gives `none`.
A peer id is never empty, so that `null` is the only one that counts as none.
-/

open List Option

namespace Bluetalk.Uno

/-- What a player asks for -/
inductive Action
  | play (cardId : Option String)
  | chooseColor (color : Option String)
  | draw
  | pass
  | callUno
  | unknown

namespace Game

variable (s : Game)

/-! ## Actions -/

/-- Whether the rules let the player play the card -/
def mayPlay (player : Player) (card : Card) : Bool :=
  if 0 < s.pendingDrawStack ∧ s.cfg.houseRules = .casual then
    canStackDraw card s.pendingDrawType s.cfg.houseRules
  else if 0 < s.pendingDrawStack then false
  else canPlay card s.topCard s.activeColor s.cfg.houseRules player.hand

/-- The penalty of another player that did not call, before `peerId` acts -/
def settleUno (peerId : String) : Game :=
  match s.pendingUnoPeer with
  | none => s
  | some pending => if pending = peerId then s else s.checkUnoPenalty pending

/-- The card at `cardIdx` of the hand goes from the player at position `i` to the discard pile. -/
def discard (i : Nat) (peerId : String) (cardIdx : Nat) (card : Card) : Game :=
  let s := { s with pendingUnoPeer := none, drewCanPass := none }
  let s := s.modifyPlayer i (·.lay cardIdx)
  { s with discardPile := s.discardPile ++ [card] }.emitEvent .play (some peerId) (some card) none

/-- The card at `cardIdx` of the hand is played by `peerId` at position `i`. -/
def play (i : Nat) (peerId : String) (cardIdx : Nat) (card : Card) : Game :=
  let s := (s.settleUno peerId).discard i peerId cardIdx card
  if card.color = .wild then { s with pendingColorChoice := some peerId }
  else
    let after := { s with activeColor := some card.color }.afterCardPlayed i peerId card
    if after.2 then after.1 else after.1.scheduleTurnTimer

def playCard (peerId : String) (cardId : Option String) : Option Game := do
  let i ← s.playerIndex peerId
  guard (s.toActIdx = i ∧ s.phase = .playing ∧ s.pendingColorChoice = none)
  let player ← s.players[i]?
  let cardIdx ← player.hand.findIdx? (some ·.id = cardId)
  let card ← player.hand[cardIdx]?
  guard (s.mayPlay player card = true)
  some (s.play i peerId cardIdx card)

/-- The colour is chosen. -/
def withColor (peerId : String) (color : Color) : Game :=
  { s with activeColor := some color, pendingColorChoice := none }.emitEvent .color (some peerId)
    s.topCard (some color)

/-- The wild card takes effect. -/
def setColor (peerId : String) (color : Color) : Game :=
  let s := s.withColor peerId color
  let wild4 : Bool := s.topCard.any (·.value = .wild4)
  if (s.playerIndex peerId).any fun i => s.players[i]?.any (·.hand = []) then
    (if wild4 then s.resolveDrawFour else s).finishRound peerId
  else
    (if wild4 then s.resolveDrawFour else s.passTo (s.nextIndex s.toActIdx 1)).scheduleTurnTimer

def chooseColor (peerId : String) (color : Option String) : Option Game := do
  guard (s.pendingColorChoice = some peerId)
  let color ← color.bind validColor?
  some (s.setColor peerId color)

/-- The player `peerId` at position `i` draws one card, and keeps the turn if it may be played. -/
def drawOne (i : Nat) (peerId : String) : Game :=
  let after := s.drawCardsFor i 1
  let s := after.1
  let passed := ({ s with drewCanPass := none }.passTo (s.nextIndex s.toActIdx 1)).scheduleTurnTimer
  match after.2 with
  | [] => passed
  | card :: _ =>
    if s.players[i]?.any fun p => canPlay card s.topCard s.activeColor s.cfg.houseRules p.hand then
      { s with drewCanPass := some peerId }.emitEvent .draw (some peerId) (some card) none
    else passed.emitEvent .draw (some peerId) (some card) none

def drawCard (peerId : String) : Option Game := do
  let i ← s.playerIndex peerId
  guard (s.toActIdx = i ∧ s.phase = .playing ∧ s.pendingColorChoice = none)
  let settled := s.settleUno peerId
  let s := if s.pendingUnoPeer = some peerId then settled
    else { settled with pendingUnoPeer := none }
  some (if 0 < s.pendingDrawStack then s.forceDrawStack peerId else s.drawOne i peerId)

def passTurn (peerId : String) : Option Game := do
  guard (s.drewCanPass = some peerId)
  let s := { { s with drewCanPass := none }.settleUno peerId with pendingUnoPeer := none }
  some (s.passTo (s.nextIndex s.toActIdx 1)).scheduleTurnTimer

def callUno (peerId : String) : Option Game := do
  let i ← s.playerIndex peerId
  guard (s.players[i]?.any (·.hand.length = 1) = true)
  let s := s.modifyPlayer i (·.setSaidUno true)
  some (if s.pendingUnoPeer = some peerId then { s with pendingUnoPeer := none } else s)

def applyAction (peerId : String) : Action → Option Game
  | .play cardId => s.playCard peerId cardId
  | .chooseColor color => s.chooseColor peerId color
  | .draw => s.drawCard peerId
  | .pass => s.passTurn peerId
  | .callUno => s.callUno peerId
  | .unknown => none

/-! ## Seats -/

def findSeat : Option Nat :=
  (List.range s.cfg.maxPlayers).find? fun seat => s.players.all (·.seat ≠ seat)

/-- `players.sort((a, b) => a.seat - b.seat)` -/
def bySeat (players : List Player) : List Player :=
  players.insertionSort fun p q => p.seat ≤ q.seat

def addPlayer (peerId : String) : Option Game :=
  match s.playerIndex peerId with
  | some i => some (s.modifyPlayer i (·.setConnected true))
  | none =>
    if s.cfg.maxPlayers ≤ s.players.length then none
    else s.findSeat.map fun seat =>
      let player : Player := ⟨peerId, seat, [], false, 0, true⟩
      let s := { s with players := bySeat (s.players ++ [player]) }
      if s.phase = .lobby then s.scheduleAutoStart else s

/-- What a player still has to do is dropped with it. -/
def forget (peerId : String) (o : Option String) : Option String :=
  if o = some peerId then none else o

/-- The player `peerId` at position `idx` is taken from the list, and who is to act and who dealt
stays. -/
def takeOff (peerId : String) (idx : Nat) : Game :=
  let players := s.players.eraseIdx idx
  let toActIdx := if idx < s.toActIdx then s.toActIdx - 1 else s.toActIdx
  { s with
    players
    toActIdx := if players.length ≤ toActIdx then 0 else toActIdx
    dealerIdx := if players.length ≤ s.dealerIdx then max 0 (players.length - 1 : Int)
      else s.dealerIdx
    pendingColorChoice := forget peerId s.pendingColorChoice
    drewCanPass := forget peerId s.drewCanPass
    pendingUnoPeer := forget peerId s.pendingUnoPeer }

def dropPlayer (peerId : String) : Game :=
  match s.playerIndex peerId with
  | none => s
  | some idx =>
    let rest := s.takeOff peerId idx
    if peerId = s.selfId then s
    else if s.phase = .playing ∧ rest.activePlayers.length < 2 then
      { rest with phase := .lobby }.clearTurnTimer
    else if s.phase = .playing ∧ s.toActIdx = idx then
      (if (rest.player? rest.toActIdx).any (!·.connected) then
        rest.passTo (rest.nextIndex rest.toActIdx 1)
      else rest).scheduleTurnTimer
    else rest

/-- What a player that goes offline still had to do is done for it. -/
def releaseTurn (peerId : String) (idx : Nat) : Game :=
  if s.pendingColorChoice = some peerId then
    let s := { s with
      pendingColorChoice := none
      activeColor := some (s.activeColor.getD .red) }
    if s.topCard.any (·.value = .wild4) ∧ s.cfg.houseRules = .official then s.resolveDrawFour
    else s.passTo (s.nextIndex s.toActIdx 1)
  else if s.toActIdx = idx then
    let s := { s with pendingDrawStack := 0, pendingDrawType := none }
    if 2 ≤ s.activePlayers.length then s.passTo (s.nextIndex s.toActIdx 1) else s
  else s

def handleDisconnect (peerId : String) : Game :=
  if peerId = s.selfId then s
  else match s.playerIndex peerId with
    | none => s
    | some idx =>
      if s.phase ≠ .playing then s.dropPlayer peerId
      else if s.players[idx]?.any (!·.connected) then s
      else
        let s := (s.modifyPlayer idx (·.setConnected false)).releaseTurn peerId idx
        let s := { s with
          drewCanPass := forget peerId s.drewCanPass
          pendingUnoPeer := forget peerId s.pendingUnoPeer }
        if s.activePlayers.length < 2 then s.clearTurnTimer else s.scheduleTurnTimer

def reconnectPlayer (peerId : String) : Game :=
  if peerId = s.selfId then s
  else match s.playerIndex peerId with
    | none => s
    | some i =>
      let s := s.modifyPlayer i (·.setConnected true)
      if s.phase = .playing then s.scheduleTurnTimer else s

/-- A join of a player who has a seat -/
def rejoin (i : Nat) : Game :=
  let s := s.modifyPlayer i (·.setConnected true)
  if s.phase = .lobby then s.scheduleAutoStart
  else if s.phase = .playing then s.scheduleTurnTimer
  else s

def handleJoin (peerId : String) : Game :=
  match s.playerIndex peerId with
  | some i => s.rejoin i
  | none =>
    if s.phase ≠ .lobby ∧ s.phase ≠ .roundOver then s
    else if s.cfg.lobbyAccess ≠ .everyone ∧ peerId ≠ s.selfId ∧ peerId ∉ s.invitedPeers then s
    else (s.addPlayer peerId).getD s

/-! ## The start of a round -/

/-- The player at position `i` gets a new hand. -/
def dealTo (i : Nat) : Game :=
  ((s.modifyPlayer i (·.clearHand)).drawCardsFor i 7).1

/-- The pile `cards`, top card first, is searched for a card to begin with. -/
def pickStarterFrom (s : Game) (skipped : List Card) : List Card → Game
  | card :: cards =>
    if isSpecialStartCard card then pickStarterFrom s (skipped ++ [card]) cards
    else
      let s := { s with discardPile := s.discardPile ++ [card], activeColor := some card.color }
      if skipped = [] then { s with drawPile := cards.reverse }
      else { s with
        drawPile := shuffle s.randomValues (cards.reverse ++ skipped)
        taken := s.taken + (cards.reverse ++ skipped).length }
  | [] =>
    match skipped with
    | [] => { s with drawPile := [] }
    | card :: rest =>
      let color := if card.color = .wild then colors.getD (s.randomValues 0 % 4) .red
        else card.color
      let s := { s with
        discardPile := s.discardPile ++ [card]
        activeColor := some color
        taken := s.taken + 1 }
      { s with drawPile := shuffle s.randomValues rest, taken := s.taken + rest.length }

def pickStarterCard : Game := s.pickStarterFrom [] s.drawPile.reverse

/-- The table before the cards are dealt -/
def newRound : Game :=
  { s.clearTurnTimer.clearAutoStartTimer with
    roundWinner := none
    pendingColorChoice := none
    pendingDrawStack := 0
    pendingDrawType := none
    drewCanPass := none
    pendingUnoPeer := none
    direction := 1
    discardPile := []
    drawPile := shuffle s.randomValues buildDeck
    taken := s.taken + buildDeck.length }

/-- All cards dealt and the first one laid -/
def deal : Game := ((List.range s.players.length).foldl dealTo s.newRound).pickStarterCard

def startGame : Game :=
  if s.phase ≠ .lobby ∧ s.phase ≠ .roundOver then s
  else if s.players.length < 2 ∨ s.activePlayers.length < 2 then s
  else
    let s := s.deal
    if s.topCard = none then { s with phase := .lobby }
    else
      let dealerIdx := if s.dealerIdx < 0 then 0 else s.nextIndex s.dealerIdx 1
      let s := { s with
        roundNumber := s.roundNumber + 1
        dealerIdx
        toActIdx := s.nextIndex dealerIdx 1
        phase := .playing }
      (s.emitEvent .start none s.topCard s.activeColor).scheduleTurnTimer

/-! ## Timers and settings -/

/-- What the turn timer does when it fires -/
def turnTimeout : Game :=
  if s.phase ≠ .playing then s
  else match s.player? s.toActIdx with
    | none => s
    | some current =>
      if s.pendingColorChoice = some current.peerId then
        let color := match s.activeColor with
          | some .yellow => "yellow"
          | some .green => "green"
          | some .blue => "blue"
          | _ => "red"
        (s.applyAction current.peerId (.chooseColor (some color))).getD s
      else if 0 < s.pendingDrawStack ∧ s.cfg.houseRules = .official then
        s.forceDrawStack current.peerId
      else (s.applyAction current.peerId .draw).getD s

def updateSettings (patch : SettingsInput) : Game :=
  let occupiedSeats := (s.players.map (·.seat + 1)).foldl max 2
  let s := { s with cfg := sanitizeSettings patch s.cfg occupiedSeats }
  if s.phase = .lobby then s.scheduleAutoStart else s

/-- An invitation, to a peer that is connected and not blocked -/
def invitePeer (peerId : String) : Game :=
  if s.players.any (·.peerId = peerId) ∨ peerId ∈ s.invitedPeers then s
  else { s with invitedPeers := s.invitedPeers ++ [peerId] }

end Game

/-! ## Runs -/

/-- What another peer sends -/
inductive Wire
  | join (gameId : String)
  | leave
  | action (gameId : String) (action : Action)
  | unknown

def Game.onWire (s : Game) (fromId : String) : Wire → Game
  | .join gameId => if gameId = s.gameId then s.handleJoin fromId else s
  | .leave => s.dropPlayer fromId
  | .action gameId action =>
    if gameId = s.gameId then (s.applyAction fromId action).getD s else s
  | .unknown => s

/-- What happens at the host -/
inductive HostEvent
  | message (fromId : String) (wire : Wire)
  | connected (peerId : String)
  | disconnected (peerId : String)
  | ownAction (action : Action)
  | start
  | settings (patch : SettingsInput)
  | invite (peerId : String)
  | kick (peerId : String)
  | turnTimer
  | autoStartTimer

/-- The host takes an event. Only other peers send messages, and only a timer that was set fires. -/
def Game.step (s : Game) : HostEvent → Option Game
  | .message fromId wire => if fromId = s.selfId then none else some (s.onWire fromId wire)
  | .connected peerId => some (s.reconnectPlayer peerId)
  | .disconnected peerId => some (s.handleDisconnect peerId)
  | .ownAction action => some ((s.applyAction s.selfId action).getD s)
  | .start => some s.startGame
  | .settings patch => some (s.updateSettings patch)
  | .invite peerId => some (s.invitePeer peerId)
  | .kick peerId => some (s.dropPlayer peerId)
  | .turnTimer => if s.turnTimer then some { s with turnTimer := false }.turnTimeout else none
  | .autoStartTimer =>
    if s.autoStartTimer then
      let s := { s with autoStartTimer := false }
      some (if s.phase = .lobby then s.startGame else s)
    else none

/-- A player of a saved game -/
structure SavedPlayer where
  peerId : String
  seat : Nat
  score : Nat

/-- The seats that a saved game needs -/
def minSeats (saved : List SavedPlayer) : Nat := (saved.map (·.seat + 1)).foldl max 2

/-- The players of a saved game, of whom those that `present` tells are connected. -/
def restorePlayers (cfg : Settings) (present : String → Bool) (saved : List SavedPlayer) :
    List Player :=
  saved.foldl (fun players row =>
    if players.any (·.peerId = row.peerId) then players
    else players ++ [⟨row.peerId, min row.seat (cfg.maxPlayers - 1), [], false,
      min row.score 1000000, present row.peerId⟩]) []

/-- `createHost` and `bootstrapHost`, with the settings of the saved game as `fallback` -/
def createHost (settings : SettingsInput) (selfId gameId : String) (fallback : Settings)
    (saved : List SavedPlayer) (roundNumber : Nat) (invitedPeers : List String)
    (isPeer : String → Bool) (random : Nat → Nat) : Game :=
  let cfg := sanitizeSettings settings fallback (minSeats saved)
  let s : Game :=
    { selfId, gameId, cfg, random, roundNumber, invitedPeers
      players := Game.bySeat
        (restorePlayers cfg (fun peerId => peerId = selfId || isPeer peerId) saved) }
  (s.addPlayer selfId).getD s

/-- A table as a host opens it -/
def Game.Created (s : Game) : Prop :=
  ∃ settings selfId gameId fallback saved roundNumber invitedPeers isPeer random,
    s = createHost settings selfId gameId fallback saved roundNumber invitedPeers isPeer random

end Bluetalk.Uno

/-!
## Drawing cards

A draw takes cards from the two piles to a hand and changes nothing else. It ends early only when no
pile has a card left besides the top one of the discard pile, which stays where it is.
-/

namespace Bluetalk.Uno.Game

variable {s s' : Game} {i count : Nat} {card : Card}

/-- The cards of the two piles -/
def piles (s : Game) : Multiset Card := s.drawPile + s.discardPile

/-- The cards that can be drawn -/
def available (s : Game) : Nat := s.drawPile.length + (s.discardPile.length - 1)

/-- A card has come off the piles, and nothing else has changed. -/
structure Popped (s : Game) (card : Card) (s' : Game) : Prop where
  eq : ∃ drawPile discardPile taken,
    s' = { s with drawPile := drawPile, discardPile := discardPile, taken := taken }
  piles : card ::ₘ s'.piles = s.piles
  top : s'.topCard = s.topCard
  available : s'.available + 1 = s.available

theorem popped_of_drawPile (h : s.drawPile.getLast? = some card) :
    Popped s card { s with drawPile := s.drawPile.dropLast } where
  eq := ⟨_, _, _, rfl⟩
  piles := by
    have hpile : (s.drawPile : Multiset Card) = card ::ₘ s.drawPile.dropLast := by
      conv_lhs => rw [← dropLast_append_getLast? _ h]
      exact Multiset.coe_eq_coe.mpr (perm_append_singleton _ _)
    rw [Game.piles, Game.piles, hpile, Multiset.cons_add]
  top := rfl
  available := by
    have hlength := congrArg List.length (dropLast_append_getLast? _ h)
    rw [length_append, length_singleton] at hlength
    simp only [Game.available]
    omega

theorem popDrawPile_some (h : s.popDrawPile = some (card, s')) : Popped s card s' := by
  obtain ⟨s₁, hensure, hpop⟩ := bind_eq_some_iff.mp h
  obtain ⟨card', hlast, heq⟩ := map_eq_some_iff.mp hpop
  cases heq
  have hpopped := popped_of_drawPile hlast
  rw [ensureDrawPile] at hensure
  split at hensure
  · cases hensure
    exact hpopped
  rename_i hempty
  rw [not_ne_iff] at hempty
  split at hensure
  · cases hensure
  rename_i hdiscard
  obtain ⟨top, htop⟩ : ∃ top, s.discardPile.getLast? = some top := by
    rw [← isSome_iff_exists, getLast?_isSome]
    rintro hnil
    exact hdiscard (by rw [hnil]; exact Nat.zero_le _)
  have hsplit := dropLast_append_getLast? _ htop
  cases hensure
  refine ⟨⟨_, _, _, rfl⟩, hpopped.piles.trans ?_, ?_, ?_⟩
  · have hshuffle := Multiset.coe_eq_coe.mpr (shuffle_perm s.randomValues s.discardPile.dropLast)
    rw [Game.piles, Game.piles, hempty, Multiset.coe_nil, zero_add, htop]
    conv_rhs => rw [← hsplit, ← Multiset.coe_add, ← hshuffle]
    rfl
  · rw [topCard, topCard, htop]
    rfl
  refine hpopped.available.trans ?_
  have hlength := congrArg List.length hsplit
  rw [length_append, length_singleton] at hlength
  simp only [Game.available, htop, hempty, toList_some, length_singleton,
    length_nil, (shuffle_perm s.randomValues _).length_eq]
  omega

theorem popDrawPile_none (h : s.popDrawPile = none) : s.available = 0 := by
  by_contra hne
  rw [available] at hne
  rw [popDrawPile, ensureDrawPile] at h
  split at h
  · rename_i hpile
    rw [bind_some, map_eq_none_iff, getLast?_eq_none_iff] at h
    exact hpile h
  rename_i hempty
  rw [not_ne_iff] at hempty
  rw [hempty, length_nil] at hne
  split at h
  · omega
  rw [bind_some, map_eq_none_iff, getLast?_eq_none_iff] at h
  have hlength := (shuffle_perm s.randomValues s.discardPile.dropLast).length_eq
  rw [length_eq_zero_iff.mpr h, length_dropLast] at hlength
  omega

/-- The player at position `i` has drawn the cards `drawn`, and nothing else has changed. -/
structure Drawn (s : Game) (i : Nat) (drawn : List Card) (s' : Game) : Prop where
  eq : ∃ drawPile discardPile taken,
    s' = { s.modifyPlayer i (·.receive drawn) with
      drawPile := drawPile, discardPile := discardPile, taken := taken }
  piles : (drawn : Multiset Card) + s'.piles = s.piles
  top : s'.topCard = s.topCard

theorem Drawn.nil (s : Game) (i : Nat) : Drawn s i [] s where
  eq := by
    refine ⟨s.drawPile, s.discardPile, s.taken, ?_⟩
    have hid : (Player.receive · []) = id := by
      funext p
      rw [Player.receive, append_nil]
      rfl
    rw [hid, modifyPlayer, modify_id]
  piles := by rw [Multiset.coe_nil, zero_add]
  top := rfl

theorem drawn_drawCardsFor (s : Game) (i count : Nat) :
    Drawn s i (s.drawCardsFor i count).2 (s.drawCardsFor i count).1 ∧
      (s.drawCardsFor i count).2.length = min count s.available := by
  induction count generalizing s with
  | zero => exact ⟨.nil s i, (Nat.zero_min _).symm⟩
  | succ count ih =>
    rw [drawCardsFor]
    split
    · rename_i hpop
      exact ⟨.nil s i, by rw [popDrawPile_none hpop]; rfl⟩
    rename_i card s₁ hpop
    have hpopped := popDrawPile_some hpop
    obtain ⟨drawPile, discardPile, taken, rfl⟩ := hpopped.eq
    obtain ⟨hdrawn, hlength⟩ :=
      ih (modifyPlayer { s with drawPile, discardPile, taken } i (·.receive [card]))
    refine ⟨⟨?_, ?_, hdrawn.top.trans hpopped.top⟩, ?_⟩
    · obtain ⟨drawPile', discardPile', taken', heq⟩ := hdrawn.eq
      refine ⟨drawPile', discardPile', taken', heq.trans ?_⟩
      simp only [modifyPlayer, modify_modify_eq]
      congr 2
      funext p
      simp [Player.receive]
    · rw [← Multiset.cons_coe, Multiset.cons_add, hdrawn.piles]
      exact hpopped.piles
    · rw [length_cons, hlength]
      have havailable := hpopped.available
      change min count (available { s with drawPile, discardPile, taken }) + 1 = _
      omega

end Bluetalk.Uno.Game

import Mathlib.Data.List.Sort
import Bluetalk.Theory.Ring
import Bluetalk.Uno.Rules

/-!
# The table of an UNO game

The state that the host keeps and what the actions of the players do to it. A pile is a list whose
last card is the top one. The random numbers are a supply `random`, of which `taken` have been used.
The messages shown to the players and the stored checkpoints are left out.
-/

namespace Bluetalk.Uno

structure Player where
  peerId : String
  seat : Nat
  hand : List Card
  saidUno : Bool
  score : Nat
  connected : Bool

namespace Player

variable (p : Player)

/-- `player.hand.push(...cards)` -/
def receive (cards : List Card) : Player := { p with hand := p.hand ++ cards }

/-- `player.hand.splice(cardIdx, 1)` -/
def lay (cardIdx : Nat) : Player := { p with hand := p.hand.eraseIdx cardIdx }

def clearHand : Player := { p with hand := [], saidUno := false }

def setSaidUno (saidUno : Bool) : Player := { p with saidUno }

def setConnected (connected : Bool) : Player := { p with connected }

def addScore (points : Nat) : Player := { p with score := p.score + points }

end Player

inductive Phase
  | lobby
  | playing
  | roundOver
  | matchOver
deriving DecidableEq

inductive EventType
  | start
  | play
  | draw
  | color
  | penalty
deriving DecidableEq

structure Event where
  type : EventType
  peerId : Option String
  card : Option Card
  color : Option Color

/-- The table. Of the `events` the last is `lastEvent`, and their number is `eventSeq`. -/
structure Game where
  selfId : String
  gameId : String
  cfg : Settings
  players : List Player := []
  phase : Phase := .lobby
  direction : ℤˣ := 1
  activeColor : Option Color := none
  drawPile : List Card := []
  discardPile : List Card := []
  toActIdx : Int := -1
  dealerIdx : Int := -1
  roundNumber : Nat := 0
  roundWinner : Option String := none
  matchWinner : Option String := none
  pendingColorChoice : Option String := none
  pendingDrawStack : Nat := 0
  pendingDrawType : Option DrawType := none
  drewCanPass : Option String := none
  pendingUnoPeer : Option String := none
  turnTimer : Bool := false
  autoStartTimer : Bool := false
  events : List Event := []
  invitedPeers : List String := []
  random : Nat → Nat
  taken : Nat := 0

namespace Game

variable (s : Game)

/-- `players[idx]` -/
def player? (idx : Int) : Option Player := if 0 ≤ idx then s.players[idx.toNat]? else none

def activePlayers : List Player := s.players.filter (·.connected)

/-- `players.findIndex(...)`, with `none` for `-1` -/
def playerIndex (peerId : String) : Option Nat := s.players.findIdx? (·.peerId = peerId)

/-- A change of the player at position `i` -/
def modifyPlayer (i : Nat) (f : Player → Player) : Game :=
  { s with players := s.players.modify i f }

/-- One step of `nextIndex` -/
def nextSeat (idx : Int) : Int :=
  ringSkip s.players (·.connected) s.direction s.players.length
    (ringNext s.players.length s.direction idx)

def nextIndex (fromIdx : Int) (steps : Nat) : Int :=
  if s.players.length = 0 then -1 else s.nextSeat^[steps] fromIdx

def clearTurnTimer : Game := { s with turnTimer := false }

def clearAutoStartTimer : Game := { s with autoStartTimer := false }

def emitEvent (type : EventType) (peerId : Option String) (card : Option Card)
    (color : Option Color) : Game :=
  { s with events := s.events ++ [⟨type, peerId, card, color⟩] }

def scheduleAutoStart : Game :=
  { s with
    autoStartTimer := s.cfg.autoStart && s.phase = .lobby && 2 ≤ s.activePlayers.length }

def scheduleTurnTimer : Game :=
  { s with
    turnTimer := 0 < s.cfg.turnTimeSec && s.phase = .playing &&
      (s.player? s.toActIdx).any (·.connected) }

/-! ## Piles -/

/-- `crypto.getRandomValues` -/
def randomValues (i : Nat) : Nat := s.random (s.taken + i) % 2 ^ 32

/-- `ensureDrawPile`, with `none` where it returns `false` and leaves the piles -/
def ensureDrawPile : Option Game :=
  if s.drawPile ≠ [] then some s
  else if s.discardPile.length ≤ 1 then none
  else some { s with
    drawPile := shuffle s.randomValues s.discardPile.dropLast
    discardPile := s.discardPile.getLast?.toList
    taken := s.taken + s.discardPile.dropLast.length }

/-- `drawPile.pop()`, when there is or can be a pile -/
def popDrawPile : Option (Card × Game) :=
  s.ensureDrawPile.bind fun s =>
    s.drawPile.getLast?.map fun card => (card, { s with drawPile := s.drawPile.dropLast })

/-- The player at position `i` draws. -/
def drawCardsFor (s : Game) (i : Nat) : Nat → Game × List Card
  | 0 => (s, [])
  | count + 1 =>
    match s.popDrawPile with
    | none => (s, [])
    | some (card, s) =>
      let rest := drawCardsFor (s.modifyPlayer i (·.receive [card])) i count
      (rest.1, card :: rest.2)

def topCard : Option Card := s.discardPile.getLast?

/-- `players[i].peerId` -/
def peerIdAt (i : Nat) : Option String := s.players[i]?.map (·.peerId)

def checkUnoPenalty (peerId : String) : Game :=
  match s.playerIndex peerId with
  | none => s
  | some i =>
    if s.players[i]?.any fun p => p.hand.length = 1 && !p.saidUno then
      (s.drawCardsFor i s.cfg.penaltyCards).1.emitEvent .penalty (some peerId) none none
    else s

/-! ## The end of a round -/

def applyPointsForRound (winnerPeerId : String) : Game :=
  if s.cfg.gameMode ≠ .points then s
  else match s.playerIndex winnerPeerId with
    | none => s
    | some i =>
      let points := ((s.players.filter (·.peerId ≠ winnerPeerId)).map fun p =>
        (p.hand.map cardPoints).sum).sum
      let won := s.modifyPlayer i (·.addScore points)
      if won.players[i]?.any (s.cfg.targetScore ≤ ·.score) then
        { won with matchWinner := some winnerPeerId, phase := .matchOver }
      else won

def finishRound (winnerPeerId : String) : Game :=
  let s := applyPointsForRound
    { s with
      roundWinner := some winnerPeerId
      pendingColorChoice := none
      pendingDrawStack := 0
      pendingDrawType := none
      drewCanPass := none
      pendingUnoPeer := none } winnerPeerId
  (if s.phase ≠ .matchOver then { s with phase := .roundOver } else s).clearTurnTimer

/-! ## What a card does to the turn -/

def passTo (idx : Int) : Game := { s with toActIdx := idx }

def resolveSkip : Game := s.passTo (s.nextIndex s.toActIdx 2)

def resolveReverse : Game :=
  if s.players.length = 2 then s.resolveSkip
  else
    let s := { s with direction := -s.direction }
    s.passTo (s.nextIndex s.toActIdx 1)

/-- What `resolveDrawTwo` and `resolveDrawFour` do with their number and type -/
def resolveDraw (count : Nat) (type : DrawType) : Game :=
  if s.cfg.houseRules = .casual then
    { s with
      pendingDrawStack := s.pendingDrawStack + count
      pendingDrawType := some type
      toActIdx := s.nextIndex s.toActIdx 1 }
  else
    let nextIdx := s.nextIndex s.toActIdx 1
    let drawn := (s.drawCardsFor nextIdx.toNat count).1
    let s := drawn.emitEvent .draw (drawn.peerIdAt nextIdx.toNat) none none
    s.passTo (s.nextIndex nextIdx 1)

def resolveDrawTwo : Game := s.resolveDraw 2 .draw2

def resolveDrawFour : Game := s.resolveDraw 4 .draw4

def forceDrawStack (peerId : String) : Game :=
  match s.playerIndex peerId with
  | none => s
  | some i =>
    if s.pendingDrawStack = 0 then s
    else
      let s := (s.drawCardsFor i s.pendingDrawStack).1
      let s := { s with pendingDrawStack := 0, pendingDrawType := none, drewCanPass := none }
      let s := s.emitEvent .draw (some peerId) none none
      (s.passTo (s.nextIndex i 1)).scheduleTurnTimer

/-- What a card does to the turn -/
def resolveCard (card : Card) : Game :=
  match card.value with
  | .skip => s.resolveSkip
  | .reverse => s.resolveReverse
  | .draw2 => s.resolveDrawTwo
  | _ => s.passTo (s.nextIndex s.toActIdx 1)

/-- What follows a card of a colour that the player `peerId` at position `i` has played, and whether
it ends the round -/
def afterCardPlayed (i : Nat) (peerId : String) (card : Card) : Game × Bool :=
  let size := (s.players[i]?.map (·.hand.length)).getD 0
  let s := if size = 1 then { s with pendingUnoPeer := some peerId } else s
  let s := s.modifyPlayer i (·.setSaidUno false)
  if size = 0 then (s.finishRound peerId, true) else (s.resolveCard card, false)

end Game
end Bluetalk.Uno

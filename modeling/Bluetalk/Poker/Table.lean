import Bluetalk.Poker.Betting
import Bluetalk.Poker.HandRank

/-!
# The table of a poker game

The state that the host keeps and what the actions of the players do to it. The deck is a list whose
first card is the next one dealt, and a deck that is out of cards deals none. Phase and street,
which are changed together, are one `Stage`. The random numbers are a supply `random`, of which
`taken` have been used. The messages shown to the players, the statistics, the timers and the stored
checkpoints are left out.
-/

namespace Bluetalk.Poker

structure Player where
  peerId : String
  seat : Nat
  chips : Chips
  folded : Bool := false
  allIn : Bool := false
  currentRoundBet : Chips := .amount 0
  totalBet : Chips := .amount 0
  hole : List Card := []
  inHand : Bool := false
  isBot : Bool
  connected : Bool
  pendingChips : Nat := 0

namespace Player

variable (p : Player)

/-- Whether the player can still win the hand -/
def active : Bool := p.inHand && !p.folded

/-- Whether the player can still act in the hand -/
def live : Bool := p.active && !p.allIn

def fold : Player := { p with folded := true }

def setConnected (connected : Bool) : Player := { p with connected }

def clearRoundBet : Player := if p.inHand then { p with currentRoundBet := .amount 0 } else p

def win (amount : Chips) : Player := { p with chips := p.chips + amount }

def checkAllIn : Player := if p.chips = .amount 0 then { p with allIn := true } else p

/-- `pay` goes from the stack into the pot. -/
def bet (pay : Chips) : Player :=
  { p with
    chips := p.chips - pay
    currentRoundBet := p.currentRoundBet + pay
    totalBet := p.totalBet + pay }.checkAllIn

def goAllIn : Player :=
  { p with
    chips := .amount 0
    currentRoundBet := p.currentRoundBet + p.chips
    totalBet := p.totalBet + p.chips
    allIn := true }

end Player

/-- Phase and street of a table -/
inductive Stage
  | lobby
  | preflop
  | flop
  | turn
  | river
  | between
deriving DecidableEq

/-- Whether a hand is running -/
def Stage.running : Stage → Bool
  | .lobby | .between => false
  | .preflop | .flop | .turn | .river => true

/-- What a player asks for, with `Number(raiseTo)` and `Number(amount || 0)` of a raise -/
inductive Action
  | fold
  | check
  | call
  | raise (raiseTo amount : Number)
  | allIn
  | unknown

/-- The table. Of hands that lack a card the score is not a number; how the host's runtime sorts
such scores, and so which of two such hands wins, is told by `cmpShort`. -/
structure Table where
  selfId : String
  tableId : String
  cfg : Settings
  players : List Player := []
  stage : Stage := .lobby
  dealerIdx : Int := -1
  deck : List Card := []
  board : List Card := []
  pot : Chips := .amount 0
  currentBet : Chips := .amount 0
  minRaise : Int
  toActIdx : Int := -1
  acted : List String := []
  handNumber : Nat := 0
  invitedPeers : List String := []
  random : Nat → Nat
  taken : Nat := 0
  cmpShort : List Card → List Card → Ordering

/-- What comes of an action: the table goes on, or its hands are shown and compared. -/
inductive Progress
  | goes (t : Table)
  | shows (t : Table)

namespace Table

variable (t : Table)

/-- `players[idx]` -/
def player? (idx : Int) : Option Player := if 0 ≤ idx then t.players[idx.toNat]? else none

/-- `players.findIndex(...)`, with `none` for `-1` -/
def playerIndex (peerId : String) : Option Nat := t.players.findIdx? (·.peerId = peerId)

/-- `players.find(...)` -/
def playerOf (peerId : String) : Option Player := t.players.find? (·.peerId = peerId)

/-- A change of the player at position `i` -/
def modifyPlayer (i : Nat) (f : Player → Player) : Table :=
  { t with players := t.players.modify i f }

def markActed (peerId : String) : Table := { t with acted := t.acted.insert peerId }

def activeInHand : List Player := t.players.filter (·.active)

/-- The highest bet of this round, of those who can still win the hand -/
def maxBet : Chips := .maximum (t.activeInHand.map (·.currentRoundBet))

def toCall (p : Player) : Chips := t.maxBet - p.currentRoundBet

/-! ## Whose turn it is -/

/-- Whether the player at position `idx` can act -/
def liveAt (idx : Int) : Bool := (t.player? idx).any (·.live)

def nextLiveSeat (fromIdx : Int) : Int :=
  (((List.range t.players.length).map fun k =>
    (fromIdx + (k + 1 : Nat)).tmod t.players.length).find? t.liveAt).getD (-1)

/-- The loop that ends at a player who can act, or where no other one is found -/
def seekLive : Nat → Int → Int
  | 0, idx => idx
  | guard + 1, idx =>
    if t.liveAt idx then idx
    else
      let nx := t.nextLiveSeat idx
      if nx < 0 ∨ nx = idx then idx else seekLive guard nx

/-- The loop that ends at a player who can act, or when `guard` is used up -/
def seekNext : Nat → Int → Int
  | 0, idx => idx
  | guard + 1, idx =>
    if t.liveAt idx then idx else seekNext guard (t.nextLiveSeat idx)

def passTurn : Table :=
  { t with toActIdx := t.seekNext (t.players.length + 2) (t.nextLiveSeat t.toActIdx) }

def bettingComplete : Bool :=
  let live := t.activeInHand.filter (!·.allIn)
  live.isEmpty ||
    (live.all (·.currentRoundBet.same t.maxBet) && live.all (t.acted.contains ·.peerId))

/-! ## Streets -/

def clearRoundBets : Table :=
  { t with players := t.players.map (·.clearRoundBet), currentBet := .amount 0 }

/-- One card is burned and `n` cards go to the board. -/
def dealBoard (n : Nat) : Table :=
  { t with board := t.board ++ (t.deck.drop 1).take n, deck := t.deck.drop (n + 1) }

def dealStreet : Table :=
  match t.stage with
  | .preflop => { t.dealBoard 3 with stage := .flop }
  | .flop => { t.dealBoard 1 with stage := .turn }
  | .turn => { t.dealBoard 1 with stage := .river }
  | _ => t

/-- One round of the loop in `runoutBoard`, which the river ends -/
def runoutStep : Table :=
  match t.stage with
  | .preflop | .flop | .turn => t.clearRoundBets.dealStreet
  | _ => t

/-- The streets that are missing are dealt, three at most. -/
def runoutBoard : Table := t.runoutStep.runoutStep.runoutStep

/-- The lowest raise at the start of a street -/
def firstRaise : Int := t.cfg.bigBlind * t.cfg.minRaiseBB

def advanceStreet : Table :=
  let t := { t.clearRoundBets with minRaise := t.firstRaise, acted := [] }.dealStreet
  let n := t.players.length
  let first :=
    if (t.players.filter (·.inHand)).length ≤ 2 then t.dealerIdx.tmod n
    else t.nextLiveSeat t.dealerIdx
  { t with toActIdx := t.seekLive (n + 3) first }

/-! ## The end of a hand -/

/-- The only player who can still win takes the pot. -/
def awardUncontested : Option Table :=
  if t.activeInHand.length = 1 then
    some { t with
      players := t.players.map fun p => if p.active then p.win t.pot else p
      stage := .between
      toActIdx := -1 }
  else none

/-- What everyone dealt in has put into the pot -/
def contrib : List (String × Chips) :=
  (t.players.filter (·.inHand)).map fun p => (p.peerId, p.totalBet)

/-- `pl.hole.concat(board)` -/
def cards7 (peerId : String) : List Card := ((t.playerOf peerId).map (·.hole)).getD [] ++ t.board

/-- The hands of two players compared -/
def cmpHands (a b : String) : Ordering :=
  if (t.cards7 a).length = 7 ∧ (t.cards7 b).length = 7 then
    cmpScore ((best7 (t.cards7 a)).getD []) ((best7 (t.cards7 b)).getD [])
  else t.cmpShort (t.cards7 a) (t.cards7 b)

/-- Those to whom a layer of the pot goes: the best of those who can still win it, or back to all
who have put it in -/
def winners (layer : Layer String) : List String :=
  match layer.eligible.filter fun id => (t.playerOf id).any (·.active) with
  | [] => layer.eligible
  | elig => champions t.cmpHands elig

def payouts : List (String × Nat) :=
  (buildSidePots t.contrib).flatMap fun layer => shares layer.amount (t.winners layer)

/-- `pl.chips += amount` -/
def pay (t : Table) (payout : String × Nat) : Table :=
  match t.playerIndex payout.1 with
  | none => t
  | some i => t.modifyPlayer i (·.win (.amount payout.2))

def showdown : Table :=
  { t.payouts.foldl pay t with stage := .between, toActIdx := -1 }

/-! ## Actions -/

/-- The player to act bets. -/
def bet (pay : Chips) : Table :=
  { t.modifyPlayer t.toActIdx.toNat (·.bet pay) with pot := t.pot + pay }

/-- A bet of `peerId` has come to `newBet`, where `maxBet` was the highest one. -/
def raised (peerId : String) (maxBet newBet : Chips) : Table :=
  let t := { t with currentBet := max t.currentBet newBet }
  match newBet - maxBet with
  | .amount raiseSize =>
    if t.minRaise ≤ raiseSize then
      { t with minRaise := max t.firstRaise raiseSize, acted := [peerId] }
    else t.markActed peerId
  | .nan => t.markActed peerId

/-- `Number(act.raiseTo) || (maxBet + Number(act.amount || 0))` -/
def requestedTarget (maxBet : Chips) (raiseTo amount : Number) : Number :=
  if raiseTo = .nan ∨ raiseTo = .finite 0 then
    match maxBet, amount with
    | .amount m, .finite q => .finite (m + q)
    | .amount _, amount => amount
    | .nan, _ => .nan
  else raiseTo

/-- `Math.min(playerMax, Math.max(minimumTarget, Math.round(requestedTarget)))` -/
def totalTarget (playerMax minimumTarget : Chips) : Number → Chips
  | .nan => .nan
  | .negInfinity => min playerMax minimumTarget
  | .finite q => min playerMax (max minimumTarget (.amount (roundHalfUp q)))
  | .infinity => match minimumTarget with
    | .amount _ => playerMax
    | .nan => .nan

/-- What an action of the player to act changes before the turn goes on; `none` where it is not
taken. -/
def act (p : Player) : Action → Option Table
  | .fold => some ((t.modifyPlayer t.toActIdx.toNat (·.fold)).markActed p.peerId)
  | .check => if t.toCall p = .amount 0 then some (t.markActed p.peerId) else none
  | .call => some ((t.bet (min (t.toCall p) p.chips)).markActed p.peerId)
  | .raise raiseTo amount =>
    let playerMax := p.currentRoundBet + p.chips
    if playerMax.le t.maxBet then none
    else
      let target := totalTarget playerMax (t.maxBet + .amount t.minRaise)
        (requestedTarget t.maxBet raiseTo amount)
      let pay := min (target - p.currentRoundBet) p.chips
      some ((t.bet pay).raised p.peerId t.maxBet (p.currentRoundBet + pay))
  | .allIn =>
    some ({ t.modifyPlayer t.toActIdx.toNat (·.goAllIn) with pot := t.pot + p.chips }.raised
      p.peerId t.maxBet (p.currentRoundBet + p.chips))
  | .unknown => some t

/-- What follows every action that was taken -/
def tail : Progress :=
  match t.awardUncontested with
  | some t => .goes t
  | none =>
    if t.bettingComplete then
      let anyLive := t.activeInHand.any (!·.allIn)
      if !anyLive then .shows t.runoutBoard
      else if t.stage = .river then .shows t
      else .goes t.advanceStreet
    else .goes t.passTurn

/-- `none` where the action is not taken and the table stays as it is -/
def applyAction (peerId : String) (action : Action) : Option Progress := do
  let p ← t.player? t.toActIdx
  guard (p.peerId = peerId ∧ p.live = true)
  (t.act p action).map tail

end Table

/-- The table afterwards -/
def Progress.table : Progress → Table
  | .goes t => t
  | .shows t => t.showdown

end Bluetalk.Poker

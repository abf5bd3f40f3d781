import Bluetalk.Poker.Table
import Bluetalk.Theory.Run

/-!
# The host of a poker game

The start of a hand, and who comes and goes, as the host takes one event after another. The timers
that start a hand do what the host may do at any time.
-/

namespace Bluetalk.Poker

/-- `POKER_BOT_PEER_ID` -/
def botPeerId : String := "__bt_poker_bot_debug__"

namespace Player

variable (p : Player)

/-- `player.chips = Math.min(1000000000, player.chips + amount)` -/
def grant (amount : Nat) : Player :=
  { p with chips := min (.amount 1000000000) (p.chips + .amount amount) }

def creditPending : Player :=
  if 0 < p.pendingChips then { p.grant p.pendingChips with pendingChips := 0 } else p

/-- Whether the player is dealt into the next hand -/
def ready : Bool := Chips.lt (.amount 0) p.chips && (p.connected || p.isBot)

def enterHand : Player :=
  { p with
    folded := p.chips.le (.amount 0)
    allIn := false
    currentRoundBet := .amount 0
    totalBet := .amount 0
    hole := []
    inHand := p.ready }

/-- What is left of the ante, or what is there of it -/
def anteOf (ante : Nat) : Chips := if p.inHand then min (.amount ante) p.chips else .amount 0

def payAnte (ante : Nat) : Player :=
  if p.inHand then
    { p with
      chips := p.chips - p.anteOf ante
      totalBet := p.totalBet + p.anteOf ante }.checkAllIn
  else p

end Player

/-- Every player in the hand gets the next two cards of the deck. -/
def dealHoles : List Player → List Card → List Player × List Card
  | [], deck => ([], deck)
  | p :: players, deck =>
    if p.inHand then
      let rest := dealHoles players (deck.drop 2)
      ({ p with hole := deck.take 2 } :: rest.1, rest.2)
    else
      let rest := dealHoles players deck
      (p :: rest.1, rest.2)

namespace Table

variable (t : Table)

/-! ## The start of a hand -/

/-- `crypto.getRandomValues` -/
def randomValues (i : Nat) : Nat := t.random (t.taken + i) % 2 ^ 32

def nextInHandIndex (fromIdx : Int) : Int :=
  (((List.range t.players.length).map fun k =>
    (fromIdx + (k + 1 : Nat) + t.players.length).tmod t.players.length).find? fun idx =>
      (t.player? idx).any (·.inHand)).getD (-1)

/-- A new deck, and everyone with chips is in. -/
def newHand : Table :=
  { t with
    players := t.players.map (·.enterHand)
    handNumber := t.handNumber + 1
    deck := (shuffle t.randomValues makeDeck).reverse
    taken := t.taken + makeDeck.length
    board := []
    pot := .amount 0
    currentBet := .amount 0
    minRaise := t.firstRaise
    acted := [] }

def payAntes : Table :=
  if 0 < t.cfg.ante then
    { t with
      players := t.players.map (·.payAnte t.cfg.ante)
      pot := (t.players.map (·.anteOf t.cfg.ante)).foldl (· + ·) t.pot }
  else t

/-- The player at position `idx` pays a blind, or what is there of it. -/
def postBlind (idx : Int) (blind : Nat) : Table :=
  match t.player? idx with
  | none => t
  | some p =>
    let pay := min (.amount blind) p.chips
    { t.modifyPlayer idx.toNat (·.bet pay) with pot := t.pot + pay }

def betAt (idx : Int) : Chips := ((t.player? idx).map (·.currentRoundBet)).getD .nan

/-- The blinds, of `count` players -/
def postBlinds (count : Nat) : Table × Int :=
  let sbIdx := if count = 2 then t.dealerIdx else t.nextInHandIndex t.dealerIdx
  let bbIdx := t.nextInHandIndex sbIdx
  let t := (t.postBlind sbIdx t.cfg.smallBlind).postBlind bbIdx t.cfg.bigBlind
  ({ t with currentBet := max (t.betAt sbIdx) (t.betAt bbIdx) }, bbIdx)

def deal : Table :=
  let dealt := dealHoles t.players t.deck
  { t with players := dealt.1, deck := dealt.2 }

/-- Everyone has put in what is due, and has cards: the hand with `count` players begins. -/
def dealHand (count : Nat) : Table × Int :=
  let t := t.newHand
  let t := { t with dealerIdx := t.nextInHandIndex t.dealerIdx }.payAntes
  let blinds := t.postBlinds count
  ({ blinds.1.deal with stage := .preflop }, blinds.2)

def credited : Table := { t with players := t.players.map (·.creditPending) }

def startHand : Progress :=
  if t.stage.running then .goes t
  else
    let t := t.credited
    let count := (t.players.filter (·.ready)).length
    if count < 2 then .goes t
    else
      let (t, bbIdx) := t.dealHand count
      let first := if count = 2 then t.dealerIdx else t.nextLiveSeat bbIdx
      let t := { t with toActIdx := t.seekLive (count + 3) first }
      if t.toActIdx < 0 ∨ (t.player? t.toActIdx).all (·.allIn) then .shows t else .goes t

/-! ## Seats -/

def findSeat : Option Nat :=
  (List.range t.cfg.maxPlayers).find? fun seat => t.players.all (·.seat ≠ seat)

/-- `players.sort((a, b) => a.seat - b.seat)` -/
def bySeat (players : List Player) : List Player :=
  players.insertionSort fun p q => p.seat ≤ q.seat

def newSeat : Option Nat := if t.cfg.maxPlayers ≤ t.players.length then none else t.findSeat

def newPlayer (peerId : String) (seat : Nat) : Player :=
  { peerId, seat, chips := .amount t.cfg.startingChips, isBot := peerId = botPeerId,
    connected := true }

/-- A player who is not at the table takes a seat. -/
def seatPlayer (peerId : String) : Option Table :=
  t.newSeat.map fun seat => { t with players := bySeat (t.players ++ [t.newPlayer peerId seat]) }

def addPlayer (peerId : String) : Option Table :=
  match t.playerIndex peerId with
  | some i => some (t.modifyPlayer i (·.setConnected true))
  | none => t.seatPlayer peerId

/-- `if (players.length === 0) …` -/
def lobbyIfEmpty : Table := if t.players = [] then { t with stage := .lobby } else t

/-- What `removePlayer` does with a player who is in no hand -/
def takeOff (i : Nat) : Table :=
  let players := t.players.eraseIdx i
  let dealerIdx := if i < t.dealerIdx then t.dealerIdx - 1 else t.dealerIdx
  { t with
    players
    dealerIdx := if players.length ≤ dealerIdx then players.length - 1 else dealerIdx }.lobbyIfEmpty

def removePlayer (peerId : String) : Progress :=
  match t.playerIndex peerId with
  | none => .goes t
  | some i =>
    if t.players[i]?.any (·.inHand) && t.stage.running then
      let t := t.modifyPlayer i (·.setConnected false)
      if t.toActIdx = i then (t.applyAction peerId .fold).getD (.goes t)
      else
        let t := (t.modifyPlayer i (·.fold)).markActed peerId
        .goes (t.awardUncontested.getD t)
    else .goes (t.takeOff i)

/-- `kickPlayer` takes the player at position `i` from the list, and dealer and turn stay. -/
def kickOut (i : Nat) : Table :=
  let players := t.players.eraseIdx i
  let clamp (idx : Int) : Int := if players.length ≤ idx then max 0 (players.length - 1) else idx
  let shift (idx : Int) : Int := if i < idx then idx - 1 else idx
  { t with
    players
    dealerIdx := clamp (shift t.dealerIdx)
    toActIdx := clamp (shift t.toActIdx) }.lobbyIfEmpty

/-- The same after the hand has ended, when nobody is to act -/
def kickOutAwarded (i : Nat) : Table :=
  let players := t.players.eraseIdx i
  let dealerIdx := if i < t.dealerIdx then t.dealerIdx - 1 else t.dealerIdx
  { t with
    players
    dealerIdx := if players.length ≤ dealerIdx then max 0 (players.length - 1)
      else dealerIdx }.lobbyIfEmpty

def kickPlayer (peerId : String) : Table :=
  if peerId = t.selfId then t
  else match t.playerIndex peerId with
  | none => t
  | some i =>
    if t.players[i]?.any (·.active) && t.stage.running then
      let folded := (t.modifyPlayer i (·.fold)).markActed peerId
      match folded.awardUncontested with
      | some t => t.kickOutAwarded i
      | none =>
        if (t.player? t.toActIdx).any (·.peerId = peerId) then folded.passTurn.kickOut i
        else folded.kickOut i
    else t.kickOut i

/-! ## The host's own controls -/

def updateSettings (patch : SettingsInput) : Table :=
  let occupiedSeats := (t.players.map (·.seat + 1)).foldl max 2
  { t with cfg := sanitizeSettings patch t.cfg occupiedSeats }

def addChips (peerId : String) (amount : Number) : Table :=
  match t.playerIndex peerId with
  | none => t
  | some i =>
    let value := clampInt amount 1 1000000000 0
    if value = 0 then t
    else if t.stage.running then
      t.modifyPlayer i fun p => { p with pendingChips := min 1000000000 (p.pendingChips + value) }
    else t.modifyPlayer i (·.grant value)

def removeChips (peerId : String) (amount : Number) : Table :=
  match t.playerIndex peerId with
  | none => t
  | some i =>
    let value := clampInt amount 1 1000000000 0
    if value = 0 ∨ t.stage.running = true then t
    else t.modifyPlayer i fun p =>
      { p with chips := max (.amount 0) (p.chips - .amount value) }

/-- An invitation, to a peer that is connected and not blocked -/
def invitePeer (peerId : String) : Table :=
  if t.players.any (·.peerId = peerId) then t
  else { t with invitedPeers := t.invitedPeers.insert peerId }

/-- What the bot does on its turn, by the draws of luck `first` and `second` -/
def botAction (p : Player) (first second : Bool) : Action :=
  let toCall := t.toCall p
  if toCall.le (.amount 0) then
    if first then .raise .nan (.finite t.cfg.bigBlind) else .check
  else if p.chips.le toCall then if first then .fold else .call
  else if Chips.lt (.amount (t.cfg.bigBlind * 6)) toCall && first then .fold
  else if Chips.lt (.amount (t.cfg.bigBlind * 3)) toCall && second then .fold
  else .call

def botTurn (first second : Bool) : Progress :=
  match t.player? t.toActIdx with
  | none => .goes t
  | some p =>
    if p.peerId = botPeerId then
      (t.applyAction botPeerId (t.botAction p first second)).getD (.goes t)
    else .goes t

def addDebugBot : Table :=
  if t.players.any (·.peerId = botPeerId) then t else (t.addPlayer botPeerId).getD t

end Table

/-! ## Runs -/

/-- What another peer sends -/
inductive Wire
  | join
  | leave
  | action (action : Action)
  | unknown

/-- Whether a new player may come in -/
def Table.joinable (t : Table) (fromId : String) : Bool :=
  fromId ≠ botPeerId && !t.stage.running &&
    (t.cfg.lobbyAccess = .everyone || t.invitedPeers.contains fromId)

def Table.onWire (t : Table) (fromId : String) : Wire → Progress
  | .join => .goes (if t.joinable fromId then (t.addPlayer fromId).getD t else t)
  | .leave => t.removePlayer fromId
  | .action action => (t.applyAction fromId action).getD (.goes t)
  | .unknown => .goes t

/-- What happens at the host -/
inductive HostEvent
  | message (fromId tableId : String) (wire : Wire)
  | disconnected (peerId : String)
  | ownAction (action : Action)
  | turnTimer (peerId : String)
  | botTurn (first second : Bool)
  | start
  | addBot
  | removeBot
  | settings (patch : SettingsInput)
  | addChips (peerId : String) (amount : Number)
  | removeChips (peerId : String) (amount : Number)
  | invite (peerId : String)
  | kick (peerId : String)

/-- What the host makes of an event. Only other peers send messages, and the turn timer, which folds
for a player, is set only where the settings say so. -/
def Table.takes (t : Table) : HostEvent → Option Progress
  | .message fromId tableId wire =>
    if fromId = t.selfId then none
    else some (if tableId = t.tableId then t.onWire fromId wire else .goes t)
  | .disconnected peerId => some (t.removePlayer peerId)
  | .ownAction action => some ((t.applyAction t.selfId action).getD (.goes t))
  | .turnTimer peerId =>
    if 0 < t.cfg.turnTimeSec then some ((t.applyAction peerId .fold).getD (.goes t)) else none
  | .botTurn first second => some (t.botTurn first second)
  | .start => some t.startHand
  | .addBot => some (.goes t.addDebugBot)
  | .removeBot => some (t.removePlayer botPeerId)
  | .settings patch => some (.goes (t.updateSettings patch))
  | .addChips peerId amount => some (.goes (t.addChips peerId amount))
  | .removeChips peerId amount => some (.goes (t.removeChips peerId amount))
  | .invite peerId => some (.goes (t.invitePeer peerId))
  | .kick peerId => some (.goes (t.kickPlayer peerId))

def Table.step (t : Table) (e : HostEvent) : Option Table := (t.takes e).map Progress.table

/-- A player of a saved game -/
structure SavedPlayer where
  peerId : String
  seat : Nat
  chips : Nat
  pendingChips : Nat

/-- The seats that a saved game needs -/
def minSeats (saved : List SavedPlayer) : Nat := (saved.map (·.seat + 1)).foldl max 2

def restorePlayer (cfg : Settings) (present : String → Bool) (row : SavedPlayer) : Player where
  peerId := row.peerId
  seat := min row.seat (cfg.maxPlayers - 1)
  chips := .amount (min row.chips 1000000000 : Nat)
  isBot := row.peerId = botPeerId
  connected := present row.peerId
  pendingChips := min row.pendingChips 1000000000

/-- The players of a saved game, of whom those that `present` tells are connected. -/
def restorePlayers (cfg : Settings) (present : String → Bool) (saved : List SavedPlayer) :
    List Player :=
  saved.foldl (fun players row =>
    if players.any (·.peerId = row.peerId) then players
    else players ++ [restorePlayer cfg present row]) []

/-- `createHost` and `bootstrapHost`, with the settings of the saved game as `fallback` -/
def createHost (settings : SettingsInput) (selfId tableId : String) (fallback : Settings)
    (saved : List SavedPlayer) (handNumber : Nat) (invitedPeers : List String)
    (isPeer : String → Bool) (random : Nat → Nat)
    (cmpShort : List Card → List Card → Ordering) : Table :=
  let cfg := sanitizeSettings settings fallback (minSeats saved)
  let present peerId : Bool := peerId = selfId || peerId = botPeerId || isPeer peerId
  let t : Table :=
    { selfId, tableId, cfg, handNumber, invitedPeers, random, cmpShort
      minRaise := cfg.bigBlind
      players := Table.bySeat (restorePlayers cfg present saved) }
  (t.addPlayer selfId).getD t

/-- A table as a host opens it, from a game that a table has saved: it has no more than nine
players, on the first nine seats. -/
def Table.Created (t : Table) : Prop :=
  ∃ settings selfId tableId fallback saved handNumber invitedPeers isPeer random cmpShort,
    saved.length ≤ 9 ∧ (∀ row ∈ saved, row.seat < 9) ∧
      t = createHost settings selfId tableId fallback saved handNumber invitedPeers isPeer random
        cmpShort

end Bluetalk.Poker

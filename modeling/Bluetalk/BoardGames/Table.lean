import Mathlib.Data.List.Sort
import Bluetalk.Js.CleanText
import Bluetalk.Theory.Run

/-!
# The host of a board game

The state that the host keeps and what happens at it, which connect four and tic-tac-toe share but
for their boards, their bounds and their texts (`Rules`). What is sent, what is stored and the
settings of the window are left out.
-/

namespace Bluetalk.BoardGames

/-- The rows of a board, with 0 where there is no disc -/
abbrev Board := List (List Nat)

namespace Board

/-- `board[r][c]` within the board -/
def cell? (board : Board) (r c : Int) : Option Nat :=
  if 0 ≤ r ∧ 0 ≤ c then board[r.toNat]?.bind (·[c.toNat]?) else none

def setCell (board : Board) (r c : Int) (disc : Nat) : Board :=
  board.modify r.toNat (·.set c.toNat disc)

/-- Whether a disc of the kind is on the board -/
def has (board : Board) (disc : Nat) : Bool := board.any (·.contains disc)

end Board

/-- What the games differ in -/
structure Rules (Move : Type) where
  maxPlayers : Nat
  createEmptyBoard : Board
  /-- The board after a legal move, and where the disc is -/
  place : Board → Nat → Move → Option (Board × Int × Int)
  /-- The cells of a line through a new disc that wins -/
  checkWin : Board → Int → Int → Nat → Option (List (Int × Int))
  isBoardFull : Board → Bool
  /-- The turn after a move, of so many players -/
  advanceTurn : Nat → Nat → Nat
  /-- Whether the peer is never removed -/
  isFixed : String → Bool
  tooFewText : String
  startText : String → Nat → String
  turnText : String → Nat → String
  drawText : String
  place_spec : ∀ {board disc move board' r c}, place board disc move = some (board', r, c) →
    board' = board.setCell r c disc ∧ board.cell? r c = some 0
  advanceTurn_eq : ∀ {i n}, i < n → 2 ≤ n → n ≤ maxPlayers → advanceTurn i n = (i + 1) % n

structure Player where
  peerId : String
  name : String
  seat : Nat
  disc : Nat
  connected : Bool

def Player.reconnected (name : Option String) (p : Player) : Player :=
  { p with connected := true, name := jsSlice (name.getD p.name) 48 }

inductive Phase
  | lobby
  | playing
  | finished
deriving DecidableEq

structure Table where
  selfId : String
  gameId : String
  /-- `cfg.lobbyAccess === 'public'` -/
  isPublic : Bool
  players : List Player := []
  phase : Phase := .lobby
  board : Board
  toActIdx : Nat := 0
  winnerPeerId : Option String := none
  winCells : Option (List (Int × Int)) := none
  message : String := ""
  invitedPeers : List String := []

namespace Table

variable {Move : Type} (R : Rules Move) (t : Table)

def playerIndex (peerId : String) : Option Nat := t.players.findIdx? (·.peerId = peerId)

def seated (peerId : String) : Bool := t.players.any (·.peerId = peerId)

def findSeat : Option Nat :=
  (List.range R.maxPlayers).find? fun s => !t.players.any (·.seat = s)

/-- `name` is what comes in, where it is not empty. -/
def addPlayer (peerId : String) (name : Option String) : Table :=
  match t.playerIndex peerId with
  | some idx =>
    { t with players := t.players.modify idx (Player.reconnected name) }
  | none =>
    if R.maxPlayers ≤ t.players.length then t
    else match t.findSeat R with
      | none => t
      | some seat =>
        let player : Player :=
          { peerId, name := jsSlice (name.getD peerId) 48, seat, disc := seat + 1, connected := true }
        { t with players := (t.players ++ [player]).insertionSort fun a b => a.seat ≤ b.seat }

def removePlayer (peerId : String) : Table :=
  if R.isFixed peerId then t
  else match t.playerIndex peerId with
    | none => t
    | some idx =>
      if peerId = t.selfId then t
      else
        let toActIdx := if idx < t.toActIdx then t.toActIdx - 1 else t.toActIdx
        let players := t.players.eraseIdx idx
        let toActIdx := if players.length ≤ toActIdx then 0 else toActIdx
        if t.phase = .playing ∧ players.length < 2 then
          { t with
            players, toActIdx, phase := .lobby, board := R.createEmptyBoard
            winnerPeerId := none, winCells := none
            message := "Zu wenige Spieler — zurück in die Lobby." }
        else { t with players, toActIdx }

def kickPlayer (peerId : String) : Table :=
  if peerId = t.selfId ∨ R.isFixed peerId then t
  else match t.players.find? (·.peerId = peerId) with
    | none => t
    | some p =>
      { t.removePlayer R peerId with message := s!"{p.name} wurde vom Host entfernt." }

/-- `players[toActIdx]?.name || fallback` -/
def actorName (toActIdx : Nat) (fallback : String) : String :=
  ((t.players[toActIdx]?.map (·.name)).filter (· ≠ "")).getD fallback

/-- `players[toActIdx]?.disc || 1` -/
def actorDisc (toActIdx : Nat) : Nat := ((t.players[toActIdx]?.map (·.disc)).filter (· ≠ 0)).getD 1

/-- A new game with the message -/
def begin (message : String) : Table :=
  { t with
    board := R.createEmptyBoard, toActIdx := 0, winnerPeerId := none, winCells := none
    phase := .playing, message }

def startGame : Table :=
  if t.phase ≠ .lobby then t
  else if t.players.length < 2 then { t with message := R.tooFewText }
  else t.begin R (R.startText (t.actorName 0 "Spieler 1") (t.actorDisc 0))

def rematch : Table :=
  if t.phase ≠ .finished then t
  else t.begin R ("Revanche — " ++ t.actorName 0 "Spieler 1" ++ " beginnt.")

/-- `drop` of connect four, `place` of tic-tac-toe -/
def place (peerId : String) (move : Move) : Table :=
  match t.playerIndex peerId with
  | none => t
  | some idx =>
    if t.toActIdx ≠ idx ∨ t.phase ≠ .playing then t
    else match t.players[idx]? with
      | none => t
      | some player =>
        match R.place t.board player.disc move with
        | none => t
        | some (board, row, col) =>
          match R.checkWin board row col player.disc with
          | some cells =>
            { t with
              board, winnerPeerId := some peerId, winCells := some cells, phase := .finished
              message := s!"{player.name} gewinnt!" }
          | none =>
            if R.isBoardFull board then
              { t with
                board, winnerPeerId := none, winCells := none, phase := .finished
                message := R.drawText }
            else
              let toActIdx := R.advanceTurn t.toActIdx t.players.length
              { t with
                board, toActIdx
                message := R.turnText (t.actorName toActIdx "Spieler") (t.actorDisc toActIdx) }

end Table

/-- An action as it comes in, with `none` for one of another type -/
inductive Action (Move : Type)
  | place (move : Move)
  | rematch

/-- What happens at a host: messages of peers, of which any may leave or be disconnected, and what
the host does. An action of the host itself is one that comes from its own id. -/
inductive Event (Move : Type)
  | join (sender gameId : String) (name : Option String)
  | leave (sender : String)
  | action (sender gameId : String) (action : Option (Action Move))
  | invite (peerId : String) (reachable : Bool)
  | kick (peerId : String)
  | start
  | rematch

namespace Table

variable {Move : Type} (R : Rules Move) (t : Table)

def applyAction (peerId : String) : Option (Action Move) → Table
  | none => t
  | some (.place move) => t.place R peerId move
  | some .rematch => t.rematch R

def handleJoin (sender : String) (name : Option String) : Table :=
  if t.phase ≠ .lobby then t
  else if !t.isPublic ∧ sender ≠ t.selfId ∧ sender ∉ t.invitedPeers then t
  else t.addPlayer R sender name

def invitePeer (peerId : String) (reachable : Bool) : Table :=
  if peerId = "" ∨ t.seated peerId ∨ !reachable then t
  else
    { t with
      invitedPeers := peerId :: t.invitedPeers, message := "Einladung wurde im Chat gesendet." }

def after : Event Move → Table
  | .join sender gameId name => if gameId = t.gameId then t.handleJoin R sender name else t
  | .leave sender => t.removePlayer R sender
  | .action sender gameId action => if gameId = t.gameId then t.applyAction R sender action else t
  | .invite peerId reachable => t.invitePeer peerId reachable
  | .kick peerId => t.kickPlayer R peerId
  | .start => t.startGame R
  | .rematch => t.rematch R

def step (t : Table) (e : Event Move) : Option Table := some (t.after R e)

end Table

/-- `createHost` without a stored game, and `bootstrapHost` -/
def createHost {Move : Type} (R : Rules Move) (selfId gameId name : String) (isPublic : Bool) :
    Table :=
  ({ selfId, gameId, isPublic, board := R.createEmptyBoard } : Table).addPlayer R selfId (some name)

end Bluetalk.BoardGames

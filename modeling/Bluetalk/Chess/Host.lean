import Bluetalk.Chess.Rules
import Bluetalk.Js.Number
import Bluetalk.Theory.Run

/-!
# A chess game and the moves that are sent

A move of the rules names its squares by row and column, a move on the wire by texts such as `e4`.
`moveToWire` takes either: of a text it reads a row and a column that are not there.
-/

namespace Bluetalk.Chess

/-- What a move has in its fields `from` and `to` -/
inductive Place
  | square (s : Square)
  | text (alg : String)

/-- `sqToAlg`, which finds neither `r` nor `c` in a text -/
def sqToAlg : Place → String
  | .square s => String.ofList [Char.ofNat (97 + s.2.val)] ++ toString (8 - s.1.val)
  | .text _ => String.ofList [Char.ofNat 0] ++ "NaN"

/-- The square that a row and a column are -/
def squareAt (r c : Number) : Option Square :=
  squares.find? fun s => r = .finite s.r ∧ c = .finite s.c

/-- `8 - rank` -/
def rowOf : Number → Number
  | .finite rank => .finite (8 - rank)
  | _ => .nan

/-- `algToSq`. What is between two rows is no square here, and no legal move has it. -/
def algToSq (alg : String) : Option Square :=
  match alg.toList with
  | file :: rest@(_ :: _) =>
    squareAt (rowOf (Number.ofText (String.ofList rest))) (.finite (file.toNat - 97 : Int))
  | _ => none

/-- A move as an object with places -/
structure MoveObject where
  from_ : Place
  to_ : Place
  promotion : Option PieceType
  castle : Option Side
  enPassant : Bool

def Move.toObject (move : Move) : MoveObject where
  from_ := .square move.from_
  to_ := .square move.to_
  promotion := move.promotion
  castle := move.castle
  enPassant := move.enPassant

def moveToWire (move : MoveObject) : MoveObject where
  from_ := .text (sqToAlg move.from_)
  to_ := .text (sqToAlg move.to_)
  promotion := move.promotion
  castle := move.castle
  enPassant := move.enPassant

def movesToWire (moves : List MoveObject) : List MoveObject := moves.map moveToWire

/-! ## Moves that come in -/

/-- A field `from` or `to` as it comes in: nothing, a text, or anything else with what it has under
`r` and `c` -/
inductive RawPlace
  | missing
  | text (alg : String)
  | other (r c : Number)

/-- A field `castle` as it comes in: nothing, a side, or anything else -/
inductive RawCastle
  | missing
  | side (side : Side)
  | other
deriving DecidableEq

/-- A move as it comes in, with the text of its promotion, empty where there is none, and whether
`enPassant` is `true` -/
structure RawMove where
  from_ : RawPlace
  to_ : RawPlace
  promotion : String
  enPassant : Bool
  castle : RawCastle

/-- A move that was read -/
structure WantedMove where
  from_ : Square
  to_ : Square
  promotion : Option PieceType
  enPassant : Bool
  castle : RawCastle

def RawPlace.square : RawPlace → Option Square
  | .missing => none
  | .text alg => algToSq alg
  | .other r c => squareAt r c

/-- `q`, `r`, `b` or `n`, small or not -/
def promotionOf (text : String) : Option PieceType :=
  match text.toList.head? with
  | some 'q' | some 'Q' => some .queen
  | some 'r' | some 'R' => some .rook
  | some 'b' | some 'B' => some .bishop
  | some 'n' | some 'N' => some .knight
  | _ => none

/-- `none` where the source has `null`, or a square that is not on the board -/
def normalizeMove (input : RawMove) : Option WantedMove := do
  let from_ ← input.from_.square
  let to_ ← input.to_.square
  return {
    from_, to_
    promotion := promotionOf input.promotion
    enPassant := input.enPassant
    castle := input.castle }

/-- A field `castle` of a move of the rules -/
def castleField : Option Side → RawCastle
  | none => .missing
  | some side => .side side

def movesEqual (a : Move) (b : WantedMove) : Bool :=
  a.from_ = b.from_ && a.to_ = b.to_ && a.promotion = b.promotion && a.enPassant = b.enPassant &&
    castleField a.castle = b.castle

def promotionLetter : Option PieceType → String
  | some .queen => "q"
  | some .rook => "r"
  | some .bishop => "b"
  | some .knight => "n"
  | _ => ""

def Place.raw : Place → RawPlace
  | .square s => .other (.finite s.r) (.finite s.c)
  | .text alg => .text alg

/-- A move that was sent, sent back -/
def MoveObject.raw (move : MoveObject) : RawMove where
  from_ := move.from_.raw
  to_ := move.to_.raw
  promotion := promotionLetter move.promotion
  enPassant := move.enPassant
  castle := castleField move.castle

/-! ## There and back -/

theorem algToSq_text (alg : String) : algToSq (sqToAlg (.text alg)) = none := by
  change algToSq (String.ofList [Char.ofNat 0] ++ "NaN") = none
  decide +kernel

variable {promotion : Option PieceType}

theorem normalizeMove_twice (move : MoveObject) :
    normalizeMove (moveToWire (moveToWire move)).raw = none := by
  have hfrom : (moveToWire (moveToWire move)).raw.from_.square = none := algToSq_text _
  rw [normalizeMove, hfrom]
  rfl

end Bluetalk.Chess

/-!
## The host of a chess game

The state that the host keeps and what happens at it, at times in milliseconds. `pushState` looks at
the clocks before it sends the state; what it sends to a player beside a copy of the state is told
by `sentMoves`. The end of a game pushes the state too, when there is nothing more for the clocks to
do. Names, messages, the stored checkpoints and the handle of the timer are left out.
-/

namespace Bluetalk.Chess

/-- `timeControlSec` is `0` where the game has no clocks. -/
structure Settings where
  isPublic : Bool := false
  timeControlSec : Nat := 0

/-- Settings as they come in: whether `lobbyAccess` is `public`, `Number(timeControlSec)` -/
structure SettingsInput where
  isPublic : Option Bool := none
  timeControlSec : Option Number := none

def sanitizeSettings (input : SettingsInput) (fallback : Settings) : Settings where
  isPublic := input.isPublic.getD fallback.isPublic
  timeControlSec := clampInt (input.timeControlSec.getD (.finite fallback.timeControlSec)) 0 7200
    fallback.timeControlSec

structure Player where
  peerId : String
  seat : Nat
  color : Color
  connected : Bool
deriving DecidableEq

def colorForSeat (seat : Nat) : Color := if seat = 0 then .white else .black

inductive Phase
  | lobby
  | playing
  | gameOver
deriving DecidableEq

inductive GameResult
  | checkmate (winnerColor : Color)
  | stalemate
  | draw (reason : String)
  | resign (loserColor winnerColor : Color)
  | timeout (winnerColor : Color)
  | opponentLeft (winnerColor : Option Color)
deriving DecidableEq

/-- An entry of the list of moves -/
structure HistoryEntry where
  san : String
  color : Color
  from_ : Place
  to_ : Place

structure Host where
  selfId : String
  gameId : String
  cfg : Settings
  players : List Player := []
  phase : Phase := .lobby
  chessState : Position := initialState
  lastMove : Option MoveObject := none
  moveHistory : List HistoryEntry := []
  gameResult : Option GameResult := none
  drawOffer : Option Color := none
  whiteMs : Int
  blackMs : Int
  clockLastTick : Int
  invitedPeers : List String := []

/-- The letter of a piece other than a pawn -/
def PieceType.letter : PieceType → String
  | .king => "K"
  | .queen => "Q"
  | .rook => "R"
  | .bishop => "B"
  | .knight => "N"
  | .pawn => "P"

def fileLetter (s : Square) : String := String.ofList [Char.ofNat (97 + s.2.val)]

/-- The squares of the other pieces of the kind that could go where a move goes -/
def rivals (s : Position) (piece : Piece) (move : Move) : List Square :=
  ((getLegalMoves s piece.color).filter fun m => m.from_ ≠ move.from_ && m.to_ = move.to_ &&
    (s.board m.from_).any (·.type = piece.type)).map (·.from_)

/-- What tells a piece from its rivals -/
def disambiguation (from_ : Square) (rivals : List Square) : String :=
  if rivals = [] then ""
  else if !rivals.any (·.c = from_.c) then fileLetter from_
  else if !rivals.any (·.r = from_.r) then toString (8 - from_.1.val)
  else sqToAlg (.square from_)

def moveToSan (s : Position) (move : Move) : String :=
  match s.board move.from_, move.castle with
  | none, _ => ""
  | some _, some .king => "O-O"
  | some _, some .queen => "O-O-O"
  | some piece, none =>
    let isCapture := s.board move.to_ ≠ none || move.enPassant
    if piece.type = .pawn then
      (if isCapture then fileLetter move.from_ ++ "x" else "") ++ sqToAlg (.square move.to_) ++
        match move.promotion with
        | some type => "=" ++ type.letter
        | none => ""
    else
      piece.type.letter ++ disambiguation move.from_ (rivals s piece move) ++
        (if isCapture then "x" else "") ++ sqToAlg (.square move.to_)

namespace Host

variable (h : Host)

/-- `players.find` by the peer -/
def player? (peerId : String) : Option Player := h.players.find? (·.peerId = peerId)

/-- `timeControlSec * 1000`, the time of a new game -/
def fullMs : Int := h.cfg.timeControlSec * 1000

def endGame (result : GameResult) : Host :=
  { h with phase := .gameOver, gameResult := some result, drawOffer := none }

def clocksRun : Bool := h.phase = .playing && 0 < h.cfg.timeControlSec && h.gameResult = none

/-- The clock of the player on turn, at a time -/
def spend (now : Int) : Host :=
  let elapsed := now - h.clockLastTick
  match h.chessState.turn with
  | .white => { h with whiteMs := max 0 (h.whiteMs - elapsed), clockLastTick := now }
  | .black => { h with blackMs := max 0 (h.blackMs - elapsed), clockLastTick := now }

/-- Who wins by the clocks, if any time has run out -/
def timeoutWinner : Option Color :=
  if h.whiteMs ≤ 0 then some .black else if h.blackMs ≤ 0 then some .white else none

def tickClocks (now : Int) : Host :=
  if h.clocksRun then
    match (h.spend now).timeoutWinner with
    | some winner => (h.spend now).endGame (.timeout winner)
    | none => h.spend now
  else h

/-- `pushState`, and what it sends is told by `sentMoves` -/
def pushState (now : Int) : Host := h.tickClocks now

def getLegalMovesForPeer (peerId : String) : List MoveObject :=
  match h.player? peerId with
  | none => []
  | some player =>
    if h.phase ≠ .playing || h.gameResult ≠ none then []
    else if player.color ≠ h.chessState.turn then []
    else movesToWire ((getLegalMoves h.chessState player.color).map Move.toObject)

/-- The field `legalMoves` of the state that a player gets -/
def sentMoves (peerId : String) : List MoveObject := movesToWire (h.getLegalMovesForPeer peerId)

/-- `players.sort` by the seat -/
def bySeat (players : List Player) : List Player :=
  players.insertionSort fun p q => p.seat ≤ q.seat

/-- `none` where the table is full -/
def addPlayer (now : Int) (peerId : String) : Option Host :=
  if h.players.any (·.peerId = peerId) then some h
  else if 2 ≤ h.players.length then none
  else
    let seat := if h.players = [] then 0 else 1
    let player : Player := ⟨peerId, seat, colorForSeat seat, true⟩
    let h := { h with players := bySeat (h.players ++ [player]) }
    some (h.pushState now)

/-- The first player of a peer leaves. -/
def removePlayer (now : Int) (peerId : String) : Host :=
  match h.player? peerId with
  | none => h
  | some _ =>
    let h := { h with
      players := h.players.eraseP (·.peerId = peerId)
      invitedPeers := h.invitedPeers.filter (· ≠ peerId) }
    if h.phase = .playing ∧ h.players.length < 2 then
      h.endGame (.opponentLeft (h.players.head?.map (·.color)))
    else
      let h := { h with phase := if h.phase = Phase.playing then .lobby else h.phase }
      h.pushState now

/-- The draws that the rules see, if any -/
def drawReason : Option String :=
  if isFiftyMoveDraw h.chessState then some "Remis (50-Züge-Regel)."
  else if isInsufficientMaterial h.chessState then some "Remis (unzureichendes Material)."
  else none

def startGame (now : Int) : Host :=
  if h.phase ≠ .lobby then h
  else if h.players.length < 2 ∨ (h.players.filter (·.connected)).length < 2 then h.pushState now
  else
    let h := { h with
      chessState := initialState
      lastMove := none
      moveHistory := []
      gameResult := none
      drawOffer := none
      phase := .playing
      whiteMs := h.fullMs
      blackMs := h.fullMs
      clockLastTick := now }
    h.pushState now

/-- The legal move that a peer asks for and may make -/
def requestedMove (peerId : String) (rawMove : RawMove) : Option Move :=
  match h.player? peerId with
  | none => none
  | some player =>
    if h.phase ≠ .playing || h.gameResult ≠ none then none
    else if player.color ≠ h.chessState.turn then none
    else (normalizeMove rawMove).bind fun move =>
      (getLegalMoves h.chessState player.color).find? fun m => movesEqual m move

/-- What ends a game after a move of `color` -/
def resultAfter (color : Color) : Option GameResult :=
  if isCheckmate h.chessState color.opponent then some (.checkmate color)
  else if isStalemate h.chessState color.opponent then some .stalemate
  else h.drawReason.map .draw

/-- A legal move is made. -/
def playMove (now : Int) (move : Move) : Option Host :=
  (applyMove h.chessState move).map fun chessState =>
    let prevTurn := h.chessState.turn
    let lastMove := moveToWire move.toObject
    let check :=
      if isCheckmate chessState prevTurn.opponent then "#"
      else if isInCheck chessState prevTurn.opponent then "+"
      else ""
    let entry : HistoryEntry :=
      ⟨moveToSan h.chessState move ++ check, prevTurn, lastMove.from_, lastMove.to_⟩
    let after := { h with
      chessState
      lastMove := some lastMove
      moveHistory := h.moveHistory ++ [entry]
      drawOffer := none
      clockLastTick := now }
    match after.resultAfter prevTurn with
    | some result => after.endGame result
    | none => after.pushState now

/-- `none` where the move is refused -/
def makeMove (now : Int) (peerId : String) (rawMove : RawMove) : Option Host :=
  (h.requestedMove peerId rawMove).bind fun move => (h.tickClocks now).playMove now move

/-- Whether a peer is seated in a game that goes on -/
def playerInGame (peerId : String) : Option Player :=
  if h.phase = .playing && h.gameResult = none then h.player? peerId else none

def resign (peerId : String) : Option Host :=
  (h.playerInGame peerId).map fun player =>
    h.endGame (.resign player.color player.color.opponent)

def offerDraw (now : Int) (peerId : String) : Option Host :=
  (h.playerInGame peerId).map fun player =>
    let h := { h with drawOffer := some player.color }
    h.pushState now

def acceptDraw (peerId : String) : Option Host :=
  match h.player? peerId, h.drawOffer with
  | some player, some offer =>
    if h.phase = .playing ∧ offer ≠ player.color then some (h.endGame (.draw "Remis (vereinbart)."))
    else none
  | _, _ => none

def declineDraw (now : Int) (peerId : String) : Option Host :=
  match h.player? peerId, h.drawOffer with
  | some player, some offer =>
    let after := { h with drawOffer := none }
    if offer ≠ player.color then some (after.pushState now) else none
  | _, _ => none

end Host

/-- What a player asks for -/
inductive Action
  | move (rawMove : RawMove)
  | resign
  | offerDraw
  | acceptDraw
  | declineDraw
  | unknown

def Host.applyAction (h : Host) (now : Int) (peerId : String) : Action → Option Host
  | .move rawMove => h.makeMove now peerId rawMove
  | .resign => h.resign peerId
  | .offerDraw => h.offerDraw now peerId
  | .acceptDraw => h.acceptDraw peerId
  | .declineDraw => h.declineDraw now peerId
  | .unknown => none

/-- What another peer sends -/
inductive Wire
  | join (gameId : String)
  | leave
  | action (gameId : String) (action : Action)
  | unknown

def Host.onWire (h : Host) (now : Int) (fromId : String) : Wire → Host
  | .join gameId =>
    if gameId ≠ h.gameId then h
    else if h.phase ≠ .lobby then h
    else if !h.cfg.isPublic && fromId ≠ h.selfId && !h.invitedPeers.contains fromId then h
    else (h.addPlayer now fromId).getD h
  | .leave => h.removePlayer now fromId
  | .action gameId action =>
    if gameId = h.gameId then (h.applyAction now fromId action).getD h else h
  | .unknown => h

/-- What happens at the host. An invitation goes to a peer that is connected and not blocked. -/
inductive HostEvent
  | wire (fromId : String) (wire : Wire)
  | action (peerId : String) (action : Action)
  | tick
  | start
  | kick (peerId : String)
  | disconnected (peerId : String)
  | settings (patch : SettingsInput)
  | invite (peerId : String)
  | save

def Host.updateSettings (h : Host) (now : Int) (patch : SettingsInput) : Host :=
  if h.phase ≠ .lobby then h.pushState now
  else
    let h := { h with cfg := sanitizeSettings patch h.cfg }
    let h := { h with whiteMs := h.fullMs, blackMs := h.fullMs }
    h.pushState now

def Host.kickPlayer (h : Host) (now : Int) (peerId : String) : Host :=
  if peerId = h.selfId ∨ h.player? peerId = none then h
  else (h.removePlayer now peerId).pushState now

def Host.invitePeer (h : Host) (now : Int) (peerId : String) : Host :=
  if peerId = "" ∨ h.players.any (·.peerId = peerId) then h
  else
    let h := { h with invitedPeers := h.invitedPeers ++ [peerId] }
    h.pushState now

def Host.after (h : Host) (now : Int) : HostEvent → Host
  | .wire fromId wire => h.onWire now fromId wire
  | .action peerId action => (h.applyAction now peerId action).getD h
  | .tick => (h.tickClocks now).pushState now
  | .start => h.startGame now
  | .kick peerId => h.kickPlayer now peerId
  | .disconnected peerId => h.removePlayer now peerId
  | .settings patch => h.updateSettings now patch
  | .invite peerId => h.invitePeer now peerId
  | .save => h.pushState now

def Host.step (h : Host) (e : Int × HostEvent) : Option Host := some (h.after e.1 e.2)

/-- A game as it is saved. A game that has a result is over. -/
structure SavedGame where
  cfg : Settings
  players : List Player
  phase : Phase
  chessState : Position
  lastMove : Option MoveObject
  moveHistory : List HistoryEntry
  gameResult : Option GameResult
  drawOffer : Option Color
  whiteMs : Int
  blackMs : Int
  invitedPeers : List String
  ended : gameResult ≠ none → phase = .gameOver

/-- `createHost` and `bootstrapHost` of a new game -/
def newHost (settings : SettingsInput) (selfId gameId : String) (now : Int) : Host :=
  let cfg := sanitizeSettings settings {}
  let h : Host :=
    { selfId, gameId, cfg
      whiteMs := cfg.timeControlSec * 1000
      blackMs := cfg.timeControlSec * 1000
      clockLastTick := now }
  (h.addPlayer now selfId).getD h

/-- The players of a saved game, each once, of whom those that `present` tells are connected. -/
def restorePlayers (present : String → Bool) (saved : List Player) : List Player :=
  saved.foldl (fun players row =>
    if row.peerId = "" ∨ players.any (·.peerId = row.peerId) then players
    else
      let seat := min row.seat 1
      players ++ [⟨row.peerId, seat, colorForSeat seat, present row.peerId⟩]) []

/-- `createHost` and `bootstrapHost` of a game that was saved, where `present` tells who is
connected -/
def restoredHost (settings : SettingsInput) (selfId gameId : String) (now : Int)
    (present : String → Bool) (saved : SavedGame) : Host :=
  let h : Host :=
    { selfId, gameId
      cfg := sanitizeSettings settings saved.cfg
      players := Host.bySeat
        (restorePlayers (fun peerId => peerId = selfId || present peerId) saved.players)
      phase := saved.phase
      chessState := saved.chessState
      lastMove := saved.lastMove
      moveHistory := saved.moveHistory
      gameResult := saved.gameResult
      drawOffer := saved.drawOffer
      whiteMs := saved.whiteMs
      blackMs := saved.blackMs
      clockLastTick := now
      invitedPeers := saved.invitedPeers }
  (h.addPlayer now selfId).getD h

end Bluetalk.Chess

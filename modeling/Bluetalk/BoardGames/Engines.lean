import Bluetalk.BoardGames.Table
import Bluetalk.Js.Number

/-!
# Connect four and tic-tac-toe

The boards of the two games, their legal moves and the lines that win, and the rules that a host
goes by. Tic-tac-toe is the one that is played online.
-/

open Option

namespace Bluetalk.BoardGames

namespace Board

/-- The cells of the kind from the next one on, in one direction; no line is longer than `size`. -/
def reach (board : Board) (size : Nat) (row col : Int) (disc : Nat) (dr dc : Int) :
    List (Int × Int) :=
  ((List.range size).map fun (k : Nat) => (row + dr * (k + 1), col + dc * (k + 1))).takeWhile
    fun cell => board.cell? cell.1 cell.2 = some disc

/-- The lines through a cell, in the four directions -/
def lines (board : Board) (size : Nat) (row col : Int) (disc : Nat) : List (List (Int × Int)) :=
  [(0, 1), (1, 0), (1, 1), (1, -1)].map fun direction =>
    (row, col) :: board.reach size row col disc (-direction.1) (-direction.2) ++
      board.reach size row col disc direction.1 direction.2

end Board

namespace ConnectFour

def ROWS : Nat := 6
def COLS : Nat := 7
def MAX_PLAYERS : Nat := 2

def createEmptyBoard : Board := List.replicate ROWS (List.replicate COLS 0)

/-- The lowest free cell of a column is taken. -/
def dropDisc (board : Board) (col : Int) (player : Nat) : Option (Board × Int × Int) :=
  if col < 0 ∨ COLS ≤ col ∨ player < 1 ∨ 2 < player then none
  else
    (((List.range ROWS).reverse.map Int.ofNat).find? fun row => board.cell? row col = some 0).map
      fun row => (board.setCell row col player, row, col)

def isColumnFull (board : Board) (col : Int) : Bool := board.cell? 0 col ≠ some 0

def isBoardFull (board : Board) : Bool := (List.range COLS).all fun col => isColumnFull board col

def checkWin (board : Board) (row col : Int) (player : Nat) : Option (List (Int × Int)) :=
  (board.lines COLS row col player).find? fun cells => 4 ≤ cells.length

/-- What `drop` does to the board, for `Number(column)` -/
def drop (board : Board) (disc : Nat) (column : Number) : Option (Board × Int × Int) :=
  column.round?.bind fun col =>
    if col < 0 ∨ COLS ≤ col ∨ isColumnFull board col then none else dropDisc board col disc

theorem drop_spec {board board' : Board} {disc : Nat} {column : Number} {r c : Int}
    (h : drop board disc column = some (board', r, c)) :
    board' = board.setCell r c disc ∧ board.cell? r c = some 0 := by
  obtain ⟨col, -, h⟩ := bind_eq_some_iff.mp h
  rw [ite_none_left_eq_some, dropDisc, ite_none_left_eq_some] at h
  obtain ⟨row, hrow, hplaced⟩ := map_eq_some_iff.mp h.2.2
  cases hplaced
  have hempty := List.find?_some hrow
  exact ⟨rfl, of_decide_eq_true hempty⟩

def rules : Rules Number where
  maxPlayers := MAX_PLAYERS
  createEmptyBoard := createEmptyBoard
  place := drop
  checkWin := checkWin
  isBoardFull := isBoardFull
  advanceTurn toActIdx _ := if toActIdx = 0 then 1 else 0
  isFixed _ := false
  tooFewText := "Genau 2 Spieler nötig."
  startText name _ := s!"{name} beginnt (Rot)."
  turnText name _ := s!"{name} ist am Zug."
  drawText := "Unentschieden — das Brett ist voll."
  place_spec := drop_spec
  advanceTurn_eq {i n} hi hn hmax := by
    obtain rfl : n = 2 := Nat.le_antisymm hmax hn
    split <;> omega

end ConnectFour

namespace TicTacToe

/-- The peer id of the algorithm that one can play alone against -/
def AI_PEER_ID : String := "__ttt_ai__"

def PLAYER_MARKS : List String := ["X", "O", "△", "□"]

def BOARD_SIZES : List Nat := [3, 5, 7]

def WIN_LENGTHS : List Nat := [3, 4, 5]

/-- The settings of a game that is played online, with `Number(value)` of the numeric ones -/
structure SettingsInput where
  boardSize : Number := .finite 3
  winLength : Number := .finite 3
  maxPlayers : Number := .finite 2
  aiAutoplay : Bool := false

structure Settings where
  boardSize : Nat
  winLength : Nat
  maxPlayers : Nat

/-- `Math.min(4, Math.max(2, Math.round(value || 2)))` -/
def playersOf : Number → Nat
  | .nan | .negInfinity => 2
  | .infinity => 4
  | .finite q => if q = 0 then 2 else min 4 (max 2 (roundHalfUp q).toNat)

/-- A value that is one of those listed -/
def listed (values : List Nat) (value : Number) : Option Nat :=
  values.find? fun n => value = .finite n

/-- `sanitizeSettings` for `playMode: 'online'` -/
def sanitizeSettings (input : SettingsInput) : Settings :=
  let boardSize := (listed BOARD_SIZES input.boardSize).getD 3
  if input.aiAutoplay then ⟨3, 3, 2⟩
  else
    ⟨boardSize, min ((listed WIN_LENGTHS input.winLength).getD 3) boardSize,
      playersOf input.maxPlayers⟩

def createEmptyBoard (size : Nat) : Board := List.replicate size (List.replicate size 0)

/-- `applyMove`, for `Number(row)` and `Number(col)` -/
def applyMove (board : Board) (player : Nat) (move : Number × Number) :
    Option (Board × Int × Int) := do
  let r ← move.1.round?
  let c ← move.2.round?
  if r < 0 ∨ c < 0 ∨ board.length ≤ r ∨ board.length ≤ c then none
  else if board.cell? r c ≠ some 0 ∨ player < 1 ∨ 4 < player then none
  else some (board.setCell r c player, r, c)

def isBoardFull (board : Board) : Bool := board.all fun row => row.all (· ≠ 0)

/-- The cells of a line, as many as are needed -/
def checkWin (winLength : Nat) (board : Board) (row col : Int) : Option (List (Int × Int)) :=
  match board.cell? row col with
  | none | some 0 => none
  | some player =>
    let need := max 2 winLength
    ((board.lines board.length row col player).find? fun cells => need ≤ cells.length).map
      (·.take need)

theorem applyMove_spec {board board' : Board} {player : Nat} {move : Number × Number} {r c : Int}
    (h : applyMove board player move = some (board', r, c)) :
    board' = board.setCell r c player ∧ board.cell? r c = some 0 := by
  obtain ⟨r', -, h⟩ := bind_eq_some_iff.mp h
  obtain ⟨c', -, h⟩ := bind_eq_some_iff.mp h
  rw [ite_none_left_eq_some, ite_none_left_eq_some] at h
  obtain ⟨-, hfree, h⟩ := h
  cases h
  exact ⟨rfl, not_not.mp (not_or.mp hfree).1⟩

def markOf (disc : Nat) : String := PLAYER_MARKS.getD (disc - 1) "undefined"

def rules (cfg : Settings) : Rules (Number × Number) where
  maxPlayers := cfg.maxPlayers
  createEmptyBoard := createEmptyBoard cfg.boardSize
  place := applyMove
  checkWin board row col _ := checkWin cfg.winLength board row col
  isBoardFull := isBoardFull
  advanceTurn toActIdx count := (toActIdx + 1) % count
  isFixed peerId := peerId = AI_PEER_ID
  tooFewText := "Mindestens 2 Spieler nötig."
  startText name disc := s!"{name} beginnt ({markOf disc})."
  turnText name disc := s!"{name} ist am Zug ({markOf disc})."
  drawText := "Unentschieden — das Feld ist voll."
  place_spec := applyMove_spec
  advanceTurn_eq _ _ _ := rfl

end TicTacToe

/-- The engines of the two games -/
inductive Engine
  | connectFour
  | ticTacToe (input : TicTacToe.SettingsInput)

abbrev Engine.Move : Engine → Type
  | .connectFour => Number
  | .ticTacToe _ => Number × Number

def Engine.rules : (engine : Engine) → Rules engine.Move
  | .connectFour => ConnectFour.rules
  | .ticTacToe input => TicTacToe.rules (TicTacToe.sanitizeSettings input)

end Bluetalk.BoardGames

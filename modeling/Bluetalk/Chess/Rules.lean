import Mathlib.Data.Fintype.Prod

/-!
# The board, the moves and the rules of chess

Squares are rows and columns from 0, the eighth rank first. A board says what stands on each square.
-/

open List Function

namespace Bluetalk.Chess

inductive Color
  | white
  | black
deriving DecidableEq

def Color.opponent : Color → Color
  | white => black
  | black => white

inductive PieceType
  | king
  | queen
  | rook
  | bishop
  | knight
  | pawn
deriving DecidableEq

structure Piece where
  color : Color
  type : PieceType
deriving DecidableEq

scoped instance neZeroEight : @NeZero Nat Zero.ofOfNat0 8 := Nat.instNeZeroSucc

abbrev Square := Fin 8 × Fin 8

namespace Square

/-- The row -/
def r (s : Square) : Int := s.1.val

/-- The column -/
def c (s : Square) : Int := s.2.val

end Square

/-- The square of row `r` and column `c`, when they are `inBounds` -/
def sq? (r c : Int) : Option Square :=
  if h : (0 ≤ r ∧ r < 8) ∧ 0 ≤ c ∧ c < 8 then some (⟨r.toNat, by omega⟩, ⟨c.toNat, by omega⟩)
  else none

/-- All squares, row by row -/
def squares : List Square := (List.finRange 8).flatMap fun r => (List.finRange 8).map fun c => (r, c)

abbrev Board := Square → Option Piece

def findKing (board : Board) (color : Color) : Option Square :=
  squares.find? fun s => board s = some ⟨color, .king⟩

/-- Which castlings are still allowed -/
structure Castling where
  wK : Bool
  wQ : Bool
  bK : Bool
  bQ : Bool

structure Position where
  board : Board
  turn : Color
  castling : Castling
  enPassant : Option Square
  halfMoveClock : Nat
  fullMoveNumber : Nat

/-- The row on which a colour's king and rooks begin -/
def homeRank : Color → Fin 8
  | .white => 7
  | .black => 0

/-- The pieces of a home rank, from the first file on -/
def backRank : Fin 8 → PieceType
  | 0 | 7 => .rook
  | 1 | 6 => .knight
  | 2 | 5 => .bishop
  | 3 => .queen
  | 4 => .king

def startBoard : Board := fun (r, c) =>
  match r with
  | 0 => some ⟨.black, backRank c⟩
  | 1 => some ⟨.black, .pawn⟩
  | 6 => some ⟨.white, .pawn⟩
  | 7 => some ⟨.white, backRank c⟩
  | _ => none

/-- `createInitialState`, the position of `START_FEN` -/
def initialState : Position where
  board := startBoard
  turn := .white
  castling := ⟨true, true, true, true⟩
  enPassant := none
  halfMoveClock := 0
  fullMoveNumber := 1

theorem mem_squares (s : Square) : s ∈ squares := by
  rw [squares, mem_flatMap]
  exact ⟨s.1, mem_finRange _, mem_map.mpr ⟨s.2, mem_finRange _, rfl⟩⟩

variable {s : Square} {color : Color} {board : Board}

theorem sq?_eq_some {r c : Int} : sq? r c = some s ↔ s.r = r ∧ s.c = c := by
  rw [sq?]
  constructor
  · intro h
    split at h
    · rename_i hbounds
      cases h
      exact ⟨Int.toNat_of_nonneg hbounds.1.1, Int.toNat_of_nonneg hbounds.2.1⟩
    · cases h
  rintro ⟨rfl, rfl⟩
  rw [dif_pos (by simp only [Square.r, Square.c]; omega)]
  rfl

@[simp] theorem opponent_opponent (color : Color) : color.opponent.opponent = color := by
  cases color <;> rfl

theorem eq_opponent_of_ne {color' : Color} (h : color' ≠ color) :
    color' = color.opponent := by
  cases color <;> cases color' <;> first | rfl | exact absurd rfl h

theorem opponent_ne (color : Color) : color.opponent ≠ color := by
  cases color <;> decide

theorem findKing_eq_some (h : findKing board color = some s) : board s = some ⟨color, .king⟩ := by
  have hfound := find?_some h
  exact of_decide_eq_true hfound

theorem findKing_isSome (h : board s = some ⟨color, .king⟩) : ∃ s', findKing board color = some s' := by
  refine Option.isSome_iff_exists.mp (find?_isSome.mpr ⟨s, mem_squares s, ?_⟩)
  exact decide_eq_true h

end Bluetalk.Chess

/-!
## The moves of the pieces

What each piece may do before it is asked whether its king is left in check, and which squares a
colour attacks. A king's attacks do not ask for castling, so that `pieceMoves` and `isSquareAttacked`,
which call each other in the source, stand one after the other here: `reach` is `pieceMoves` of a
piece that only attacks.
-/

namespace Bluetalk.Chess

inductive Side
  | king
  | queen
deriving DecidableEq

structure Move where
  from_ : Square
  to_ : Square
  promotion : Option PieceType := none
  enPassant : Bool := false
  castle : Option Side := none
deriving DecidableEq

/-- `PROMOTION_PIECES` -/
def promotionPieces : List PieceType := [.queen, .rook, .bishop, .knight]

/-- The direction in which pawns go -/
def forward : Color → Int
  | .white => -1
  | .black => 1

def startRank : Color → Int
  | .white => 6
  | .black => 1

def promoRank : Color → Int
  | .white => 0
  | .black => 7

variable (s : Position) (color : Color) (from_ : Square)

/-- Whether a piece of `color` may go to a square, by what stands there -/
def free (to_ : Square) : Bool := (s.board to_).all (·.color ≠ color)

/-- A pawn arrives at a square. -/
def arrive (to_ : Square) : List Move :=
  if to_.r = promoRank color then promotionPieces.map fun type => ⟨from_, to_, some type, false, none⟩
  else [⟨from_, to_, none, false, none⟩]

/-- A pawn goes straight on. -/
def pawnSteps : List Move :=
  match sq? (from_.r + forward color) from_.c with
  | none => []
  | some one =>
    if s.board one = none then
      arrive color from_ one ++
        if from_.r = startRank color then
          match sq? (from_.r + 2 * forward color) from_.c with
          | none => []
          | some two => if s.board two = none then [⟨from_, two, none, false, none⟩] else []
        else []
    else []

/-- A pawn takes in the direction `dc`. -/
def pawnTakes (dc : Int) : List Move :=
  match sq? (from_.r + forward color) (from_.c + dc) with
  | none => []
  | some cap =>
    match s.board cap with
    | some target => if target.color ≠ color then arrive color from_ cap else []
    | none => if s.enPassant = some cap then [⟨from_, cap, none, true, none⟩] else []

/-- The squares at the given distances that a piece may go to -/
def jumps (deltas : List (Int × Int)) : List Move :=
  (deltas.filterMap fun (dr, dc) => sq? (from_.r + dr) (from_.c + dc)).filterMap fun to_ =>
    if free s color to_ then some ⟨from_, to_, none, false, none⟩ else none

def knightDeltas : List (Int × Int) :=
  [(-2, -1), (-2, 1), (-1, -2), (-1, 2), (1, -2), (1, 2), (2, -1), (2, 1)]

def kingDeltas : List (Int × Int) :=
  [(-1, -1), (-1, 0), (-1, 1), (0, -1), (0, 1), (1, -1), (1, 0), (1, 1)]

/-- From row `r` and column `c` on in one direction, to the edge of the board or the first piece,
which may be taken. No line has more than seven squares. -/
def slide (dr dc : Int) : Nat → Int → Int → List Square
  | 0, _, _ => []
  | n + 1, r, c =>
    match sq? r c with
    | none => []
    | some to_ =>
      match s.board to_ with
      | none => to_ :: slide dr dc n (r + dr) (c + dc)
      | some target => if target.color ≠ color then [to_] else []

def lines (dirs : List (Int × Int)) : List Move :=
  (dirs.flatMap fun (dr, dc) => slide s color dr dc 7 (from_.r + dr) (from_.c + dc)).map
    fun to_ => ⟨from_, to_, none, false, none⟩

def diagonals : List (Int × Int) := [(-1, -1), (-1, 1), (1, -1), (1, 1)]

def straights : List (Int × Int) := [(-1, 0), (1, 0), (0, -1), (0, 1)]

/-- The moves of a piece but castling, which is `pieceMoves` with `forAttackOnly` -/
def reach (type : PieceType) : List Move :=
  match type with
  | .pawn => pawnSteps s color from_ ++ [-1, 1].flatMap (pawnTakes s color from_)
  | .knight => jumps s color from_ knightDeltas
  | .king => jumps s color from_ kingDeltas
  | .bishop => lines s color from_ diagonals
  | .rook => lines s color from_ straights
  | .queen => lines s color from_ (diagonals ++ straights)

/-- Whether the piece `p` on `from_` attacks `square` -/
def attacksFrom (square : Square) (p : Piece) : Bool :=
  match p.type with
  | .pawn =>
    [-1, 1].any fun dc => from_.r + forward p.color = square.r && from_.c + dc = square.c
  | .king => kingDeltas.any fun (dr, dc) => from_.r + dr = square.r && from_.c + dc = square.c
  | type => (reach s p.color from_ type).any (·.to_ = square)

def isSquareAttacked (square : Square) (byColor : Color) : Bool :=
  squares.any fun from_ =>
    (s.board from_).any fun p => p.color = byColor && attacksFrom s from_ square p

def Castling.right (castling : Castling) : Color → Side → Bool
  | .white, .king => castling.wK
  | .white, .queen => castling.wQ
  | .black, .king => castling.bK
  | .black, .queen => castling.bQ

/-- Where the rook of a side begins -/
def Side.rookFile : Side → Fin 8
  | .king => 7
  | .queen => 0

/-- Where the rook of a side comes to stand -/
def Side.castledFile : Side → Fin 8
  | .king => 5
  | .queen => 3

/-- Where the king comes to stand -/
def Side.kingFile : Side → Fin 8
  | .king => 6
  | .queen => 2

/-- The files between king and rook -/
def Side.between : Side → List (Fin 8)
  | .king => [5, 6]
  | .queen => [1, 2, 3]

/-- The files that the king passes and reaches -/
def Side.passed : Side → List (Fin 8)
  | .king => [5, 6]
  | .queen => [2, 3]

def castlingMove (side : Side) : List Move :=
  let rank := homeRank color
  if s.castling.right color side ∧ (∀ c ∈ side.between, s.board (rank, c) = none) ∧
      s.board (rank, side.rookFile) = some ⟨color, .rook⟩ ∧
      ∀ c ∈ side.passed, isSquareAttacked s (rank, c) color.opponent = false then
    [⟨from_, (rank, side.kingFile), none, false, some side⟩]
  else []

def castlingMoves : List Move :=
  if isSquareAttacked s from_ color.opponent then []
  else if from_ = (homeRank color, 4) then
    castlingMove s color from_ .king ++ castlingMove s color from_ .queen
  else []

def pieceMoves : List Move :=
  match s.board from_ with
  | none => []
  | some piece =>
    match piece.type with
    | .king => reach s piece.color from_ .king ++ castlingMoves s piece.color from_
    | type => reach s piece.color from_ type

def getPseudoLegalMoves : List Move :=
  squares.flatMap fun from_ =>
    if (s.board from_).any (·.color = color) then pieceMoves s from_ else []

end Bluetalk.Chess

/-!
## The rules of chess
-/

namespace Bluetalk.Chess

def isInCheck (s : Position) (color : Color) : Bool :=
  (findKing s.board color).any fun king => isSquareAttacked s king color.opponent

/-- The row of the pawn that is taken en passant -/
def capturedRow (piece : Piece) (move : Move) : Int := move.to_.r - forward piece.color

/-- The board after a move of `piece` -/
def boardAfter (board : Board) (piece : Piece) (move : Move) : Board :=
  let board := update board move.from_ none
  let board := match move.enPassant, sq? (capturedRow piece move) move.to_.c with
    | true, some captured => update board captured none
    | _, _ => board
  let board := match move.castle with
    | some side =>
      let rank := homeRank piece.color
      update (update board (rank, side.castledFile) (board (rank, side.rookFile)))
        (rank, side.rookFile) none
    | none => board
  let placed := match piece.type, move.promotion with
    | .pawn, some type => ⟨piece.color, type⟩
    | _, _ => piece
  update board move.to_ (some placed)

/-- The castling rights after a move of `piece` -/
def castlingAfter (castling : Castling) (piece : Piece) (move : Move) : Castling :=
  let lost (color : Color) (side : Side) : Bool :=
    piece = ⟨color, .king⟩ || (piece = ⟨color, .rook⟩ && move.from_.2 = side.rookFile) ||
      move.to_ = (homeRank color, side.rookFile)
  { wK := castling.wK && !lost .white .king
    wQ := castling.wQ && !lost .white .queen
    bK := castling.bK && !lost .black .king
    bQ := castling.bQ && !lost .black .queen }

/-- The square behind a pawn that goes two steps -/
def enPassantAfter (piece : Piece) (move : Move) : Option Square :=
  if piece.type = .pawn ∧ (move.to_.r - move.from_.r).natAbs = 2 then
    sq? ((move.from_.r + move.to_.r) / 2) move.from_.c
  else none

/-- `none` where there is nothing to move -/
def applyMove (s : Position) (move : Move) : Option Position :=
  (s.board move.from_).map fun piece =>
    { board := boardAfter s.board piece move
      turn := s.turn.opponent
      castling := castlingAfter s.castling piece move
      enPassant := enPassantAfter piece move
      halfMoveClock :=
        if piece.type = .pawn ∨ s.board move.to_ ≠ none then 0 else s.halfMoveClock + 1
      fullMoveNumber := if s.turn = .black then s.fullMoveNumber + 1 else s.fullMoveNumber }

def getLegalMoves (s : Position) (color : Color) : List Move :=
  (getPseudoLegalMoves s color).filter fun move =>
    (applyMove s move).any fun after => !isInCheck after color

def hasLegalMove (s : Position) (color : Color) : Bool := getLegalMoves s color ≠ []

def isCheckmate (s : Position) (color : Color) : Bool := isInCheck s color && !hasLegalMove s color

def isStalemate (s : Position) (color : Color) : Bool := !isInCheck s color && !hasLegalMove s color

def isFiftyMoveDraw (s : Position) : Bool := 100 ≤ s.halfMoveClock

/-- The pieces on the board, row by row -/
def pieces (s : Position) : List Piece := squares.filterMap s.board

/-- Whether bishops stand on squares of the same colour -/
def isInsufficientMaterial (s : Position) : Bool :=
  let nonKings := (pieces s).filter (·.type ≠ .king)
  if 4 < (pieces s).length then false
  else match nonKings with
    | [] => true
    | [p] => p.type = .bishop || p.type = .knight
    | [p, q] =>
      if p.type = .bishop ∧ q.type = .bishop ∧ p.color ≠ q.color then
        match (squares.filter fun s' => (s.board s').any (·.type = .bishop)).map fun s' =>
            (s'.r + s'.c) % 2 with
        | [a, b] => a = b
        | _ => false
      else false
    | _ => false

/-- Moves that are played from a position, each of them legal for the colour whose turn it is -/
def play (s : Position) (move : Move) : Option Position :=
  if move ∈ getLegalMoves s s.turn then applyMove s move else none

end Bluetalk.Chess

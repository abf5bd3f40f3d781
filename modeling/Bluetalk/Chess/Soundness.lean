import Bluetalk.Chess.Material
import Bluetalk.Theory.Run

/-!
# Positions of a game

What holds in every position that is reached by legal moves: the kings are there and one that could
be taken is on the move, the pieces are not more than at the beginning, pawns stand where pawns can,
and a pawn that may be taken en passant stands beyond its square. A king is never taken: whatever
could go to its square attacks it, and the side to move does not find the other one in check.
-/

open Option

namespace Bluetalk.Chess
open Function

variable {s s' : Position} {color : Color} {from_ to_ square : Square} {piece p : Piece}
  {move : Move} {type : PieceType}

def isKing (color : Color) (x : Option Piece) : Bool := x = some ⟨color, .king⟩

def isPieceOf (color : Color) (x : Option Piece) : Bool := x.any (·.color = color)

def isPawnOf (color : Color) (x : Option Piece) : Bool := x = some ⟨color, .pawn⟩

/-- A position that a game can reach -/
structure Sound (s : Position) : Prop where
  kings : ∀ color, count s.board (isKing color) = 1
  safe : isInCheck s s.turn.opponent = false
  ranks : ∀ square color, s.board square = some ⟨color, .pawn⟩ → square.r ≠ 0 ∧ square.r ≠ 7
  men : ∀ color, count s.board (isPieceOf color) ≤ 16
  pawns : ∀ color, count s.board (isPawnOf color) ≤ 8
  passed : ∀ square, s.enPassant = some square → s.board square = none ∧
    square.r = startRank s.turn.opponent + forward s.turn.opponent ∧ PassedBy s s.turn square

theorem Sound.king_unique (H : Sound s) (h : s.board from_ = some ⟨color, .king⟩)
    (h' : s.board to_ = some ⟨color, .king⟩) : from_ = to_ := by
  refine eq_of_tally_eq_one (p := isKing color) (f := s.board) (x := none) nodup_squares
    (H.kings color) (mem_squares _) (mem_squares _) ?_ ?_ rfl
  · rw [h]
    exact decide_eq_true rfl
  · rw [h']
    exact decide_eq_true rfl

theorem Sound.not_attacks_king (H : Sound s) (hpiece : s.board from_ = some piece)
    (hcolor : piece.color = s.turn) (hattack : attacksFrom s from_ to_ piece = true) :
    s.board to_ ≠ some ⟨s.turn.opponent, .king⟩ := by
  intro hking
  obtain ⟨square, hsquare⟩ := findKing_isSome hking
  obtain rfl : square = to_ := H.king_unique (findKing_eq_some hsquare) hking
  have hattacked : isSquareAttacked s square s.turn = true := by
    refine List.any_eq_true.mpr ⟨from_, mem_squares _, ?_⟩
    rw [hpiece]
    exact (Bool.and_eq_true _ _).mpr ⟨decide_eq_true hcolor, hattack⟩
  have hsafe := H.safe
  rw [isInCheck, hsquare, opponent_opponent, any_some, hattacked] at hsafe
  cases hsafe

/-! ## One move -/

theorem placed_of_ne (h : piece.type ≠ .pawn) : placed piece move = piece := by
  obtain ⟨color, type⟩ := piece
  cases type with
  | pawn => exact absurd rfl h
  | king | queen | rook | bishop | knight => rfl

@[simp] theorem placed_color : (placed piece move).color = piece.color := by
  rw [placed]
  split <;> rfl

theorem Plays.placed_type (h : Plays s piece from_ move) :
    placed piece move = piece ∨
      piece.type = .pawn ∧ (placed piece move).type ∈ promotionPieces := by
  by_cases htype : piece.type = .pawn
  · have harrives : ∀ {to_ promotion}, Arrives piece.color to_ promotion →
        placed piece ⟨from_, to_, promotion, false, none⟩ = piece ∨
          piece.type = .pawn ∧
            (placed piece ⟨from_, to_, promotion, false, none⟩).type ∈ promotionPieces := by
      rintro to_ promotion (⟨-, type, hmem, rfl⟩ | ⟨-, rfl⟩)
      · right
        rw [placed, htype]
        exact ⟨rfl, hmem⟩
      · left
        rw [placed, htype]
    cases h with
    | goes hpawn => exact absurd htype hpawn
    | steps _ _ _ harrive | takes _ _ _ _ _ harrive => exact harrives harrive
    | doubles | passes => left; rw [placed, htype]
    | castles _ hking => rw [htype] at hking; cases hking
  · exact .inl (placed_of_ne htype)

theorem of_update_none {board : Board} {q : Square} (h : update board q none square = some p) :
    board square = some p := by
  by_cases hq : square = q
  · subst hq
    rw [update_self] at h
    cases h
  · rwa [update_of_ne hq] at h

theorem Plays.boardAfter_eq_some (hplays : Plays s piece from_ move)
    (hpassed : ∀ q, s.enPassant = some q → PassedBy s piece.color q)
    (h : boardAfter s.board piece move square = some p) :
    s.board square = some p ∨ square = move.to_ ∧ p = placed piece move ∨
      p = ⟨piece.color, .rook⟩ := by
  have hplain : ∀ {move : Move}, move.enPassant = false → move.castle = none →
      boardAfter s.board piece move square = some p →
        s.board square = some p ∨ square = move.to_ ∧ p = placed piece move ∨
          p = ⟨piece.color, .rook⟩ := by
    intro move hep hcastle h
    rw [boardAfter_plain hep hcastle] at h
    by_cases hto : square = move.to_
    · subst hto
      rw [update_self] at h
      exact .inr (.inl ⟨rfl, (some.inj h).symm⟩)
    · rw [update_of_ne hto] at h
      exact .inl (of_update_none h)
  cases hplays with
  | goes | steps | doubles | takes => exact hplain rfl rfl h
  | @passes to_ htype hrow hempty hep =>
    obtain ⟨captured, hfile, hrow', -⟩ := hpassed to_ hep
    rw [boardAfter_passes (sq?_eq_some.mpr ⟨hrow', hfile⟩)] at h
    by_cases hto : square = to_
    · subst hto
      rw [update_self] at h
      refine .inr (.inl ⟨rfl, ?_⟩)
      rw [placed, htype]
      exact (some.inj h).symm
    · rw [update_of_ne hto] at h
      exact .inl (of_update_none (of_update_none h))
  | castles side htype hfrom hright hbetween hrook =>
    subst hfrom
    rw [boardAfter_castles] at h
    by_cases hto : square = (homeRank piece.color, side.kingFile)
    · subst hto
      rw [update_self] at h
      refine .inr (.inl ⟨rfl, ?_⟩)
      rw [placed, htype]
      exact (some.inj h).symm
    rw [update_of_ne hto] at h
    have h := of_update_none h
    by_cases hrookTo : square = (homeRank piece.color, side.castledFile)
    · subst hrookTo
      rw [update_self, hrook] at h
      exact .inr (.inr (some.inj h).symm)
    · rw [update_of_ne hrookTo] at h
      exact .inl (of_update_none h)

theorem Square.eq_of_rc {a b : Square} (hr : a.r = b.r) (hc : a.c = b.c) : a = b := by
  have ha := sq?_eq_some.mpr ⟨hr, hc⟩
  rw [sq?_eq_some.mpr ⟨rfl, rfl⟩] at ha
  exact (some.inj ha).symm

theorem Square.r_bounds (q : Square) : 0 ≤ q.r ∧ q.r < 8 := by
  rw [Square.r]
  omega

theorem ne_pawn_of_mem (h : type ∈ promotionPieces) : type ≠ .pawn := by
  rintro rfl
  revert h
  decide

theorem ne_king_of_mem (h : type ∈ promotionPieces) : type ≠ .king := by
  rintro rfl
  revert h
  decide

theorem Plays.pawn_rank (hplays : Plays s piece from_ move) (htype : (placed piece move).type = .pawn)
    (hpassed : ∀ q, s.enPassant = some q → q.r = startRank piece.color.opponent + forward piece.color.opponent) :
    move.to_.r ≠ 0 ∧ move.to_.r ≠ 7 := by
  have hbounds := from_.r_bounds
  -- one step on, where it does not become another piece
  have hsteps : ∀ {to_ : Square} {promotion}, piece.type = .pawn →
      to_.r = from_.r + forward piece.color → Arrives piece.color to_ promotion →
      (placed piece ⟨from_, to_, promotion, false, none⟩).type = .pawn →
        to_.r ≠ 0 ∧ to_.r ≠ 7 := by
    rintro to_ promotion hpawn hrow (⟨-, type, hmem, rfl⟩ | ⟨hpromo, -⟩) hplaced
    · rw [placed, hpawn] at hplaced
      exact absurd hplaced (ne_pawn_of_mem hmem)
    · obtain ⟨color, type⟩ := piece
      cases color <;> simp only [forward, promoRank] at hrow hpromo <;> omega
  cases hplays with
  | goes hpawn =>
    rw [placed_of_ne hpawn] at htype
    exact absurd htype hpawn
  | steps hpawn hrow _ harrive | takes hpawn hrow _ _ _ harrive =>
    exact hsteps hpawn hrow harrive htype
  | doubles hpawn hstart _ _ hto =>
    obtain ⟨hrow, -⟩ := hto
    obtain ⟨color, type⟩ := piece
    dsimp only
    cases color <;> simp only [forward, startRank] at hrow hstart <;> omega
  | @passes to_ hpawn hrow hempty hep =>
    have hrank := hpassed to_ hep
    obtain ⟨color, type⟩ := piece
    dsimp only
    cases color <;> simp only [Color.opponent, forward, startRank] at hrank <;> omega
  | castles side hking =>
    rw [placed_of_ne (by rw [hking]; decide), hking] at htype
    cases htype

theorem Plays.enPassantAfter (hplays : Plays s piece from_ move)
    (h : enPassantAfter piece move = some square) : piece.type = .pawn ∧
      move = ⟨from_, move.to_, none, false, none⟩ ∧ from_.r = startRank piece.color ∧
        square.r = from_.r + forward piece.color ∧ square.c = move.to_.c ∧
          move.to_.r = from_.r + 2 * forward piece.color ∧ s.board square = none := by
  obtain ⟨⟨hpawn, htwo⟩, h⟩ := ite_none_right_eq_some.mp h
  obtain ⟨hrow, hfile⟩ := sq?_eq_some.mp h
  have hforward : forward piece.color = 1 ∨ forward piece.color = -1 := by
    cases piece.color with
    | white => exact .inr rfl
    | black => exact .inl rfl
  have hnot : ∀ {to_ : Square}, to_.r = from_.r + forward piece.color →
      (to_.r - from_.r).natAbs ≠ 2 := by
    intro to_ hto
    omega
  cases hplays with
  | goes hne => exact absurd hpawn hne
  | steps _ hto | takes _ hto | passes _ hto => exact absurd htwo (hnot hto)
  | castles side hking => rw [hpawn] at hking; cases hking
  | @doubles one to_ _ hstart hone hempty hto =>
    dsimp only at hrow hfile htwo
    obtain rfl : square = one := Square.eq_of_rc (by omega) (by omega)
    refine ⟨hpawn, rfl, hstart, hone.1, ?_, hto.1, hempty⟩
    dsimp only
    omega

/-! ## Legal moves -/

theorem play_spec (h : play s move = some s') : ∃ piece, s.board move.from_ = some piece ∧
    piece.color = s.turn ∧ Plays s piece move.from_ move ∧ isInCheck s' s.turn = false ∧
      s'.board = boardAfter s.board piece move ∧ s'.turn = s.turn.opponent ∧
        s'.castling = castlingAfter s.castling piece move ∧
          s'.enPassant = enPassantAfter piece move := by
  rw [play] at h
  split at h
  · rename_i hlegal
    obtain ⟨hpseudo, hcheck⟩ := List.mem_filter.mp hlegal
    obtain ⟨piece, hpiece, hcolor, hplays⟩ := plays_of_mem hpseudo
    rw [h, any_some, Bool.not_eq_true'] at hcheck
    rw [applyMove, hpiece] at h
    cases h
    exact ⟨piece, hpiece, hcolor, hplays, hcheck, rfl, rfl, rfl, rfl⟩
  · cases h

theorem isPieceOf_placed : isPieceOf color (some (placed piece move)) =
    isPieceOf color (some piece) := by
  rw [isPieceOf, isPieceOf, any_some, any_some, placed_color]

theorem Plays.isKing_placed (h : Plays s piece from_ move) :
    isKing color (some (placed piece move)) = isKing color (some piece) := by
  rcases h.placed_type with hsame | ⟨hpawn, hmem⟩
  · rw [hsame]
  have hleft : some (placed piece move) ≠ some ⟨color, .king⟩ := fun e =>
    ne_king_of_mem hmem (by rw [some.inj e])
  have hright : some piece ≠ some ⟨color, .king⟩ := fun e => by
    rw [some.inj e] at hpawn
    cases hpawn
  rw [isKing, isKing, decide_eq_false hleft, decide_eq_false hright]

theorem Plays.isPawnOf_placed (h : Plays s piece from_ move)
    (hpawn : isPawnOf color (some (placed piece move)) = true) :
    isPawnOf color (some piece) = true := by
  rcases h.placed_type with hsame | ⟨-, hmem⟩
  · rwa [hsame] at hpawn
  · have hplaced := some.inj (of_decide_eq_true hpawn)
    exact absurd (by rw [hplaced]) (ne_pawn_of_mem hmem)

theorem Sound.play (H : Sound s) (h : play s move = some s') : Sound s' := by
  obtain ⟨piece, hpiece, hcolor, hplays, hcheck, hboard, hturn, -, hep⟩ := play_spec h
  have hpassed : ∀ q, s.enPassant = some q → PassedBy s piece.color q := fun q hq =>
    hcolor ▸ (H.passed q hq).2.2
  obtain ⟨taken, htaken, hcount⟩ := count_boardAfter hpiece hplays hpassed
  constructor
  case kings =>
    intro color
    have hkings := hcount (isKing color) rfl
    have hnoKing : isKing color taken = false := by
      refine decide_eq_false ?_
      rintro rfl
      obtain ⟨hother, hking⟩ := htaken _ rfl
      obtain ⟨hsquare, hattack⟩ := hking rfl
      obtain rfl : color = s.turn.opponent := hcolor ▸ eq_opponent_of_ne hother
      exact H.not_attacks_king hpiece hcolor hattack hsquare
    rw [hplays.isKing_placed, hnoKing, H.kings color, Bool.toNat_false] at hkings
    rw [hboard]
    omega
  case safe =>
    rwa [hturn, opponent_opponent]
  case ranks =>
    intro square color hsquare
    rw [hboard] at hsquare
    rcases hplays.boardAfter_eq_some hpassed hsquare with hold | ⟨rfl, hplaced⟩ | hrook
    · exact H.ranks square color hold
    · -- a pawn that arrives was one before
      have hpawn : (placed piece move).type = .pawn := by rw [← hplaced]
      exact hplays.pawn_rank hpawn fun q hq => hcolor ▸ (H.passed q hq).2.1
    · cases hrook
  case men =>
    intro color
    have hmen := hcount (isPieceOf color) rfl
    have hle := H.men color
    rw [isPieceOf_placed] at hmen
    rw [hboard]
    omega
  case pawns =>
    intro color
    have hpawns := hcount (isPawnOf color) rfl
    have hle := H.pawns color
    have hplaced : (isPawnOf color (some (placed piece move))).toNat ≤
        (isPawnOf color (some piece)).toNat := by
      cases hpawn : isPawnOf color (some (placed piece move)) with
      | false => exact Nat.zero_le _
      | true => rw [hplays.isPawnOf_placed hpawn]
    rw [hboard]
    omega
  case passed =>
    intro square hsquare
    rw [hep] at hsquare
    obtain ⟨htype, hmove, hstart, hrow, hfile, hto, hempty⟩ := hplays.enPassantAfter hsquare
    have hforward : forward piece.color = 1 ∨ forward piece.color = -1 := by
      cases piece.color with
      | white => exact .inr rfl
      | black => exact .inl rfl
    have hne : square ≠ move.to_ := by
      intro e
      rw [← e] at hto
      omega
    have hplain : s'.board = update (update s.board move.from_ none) move.to_ (some piece) := by
      have hplaced : placed piece move = piece := by
        rw [hmove, placed, htype]
      rw [hboard, boardAfter_plain (by rw [hmove]) (by rw [hmove]), hplaced]
    rw [hturn, opponent_opponent, ← hcolor]
    refine ⟨?_, by rw [hrow, hstart], move.to_, hfile.symm, ?_, ?_⟩
    · rw [hplain, update_of_ne hne]
      by_cases hfrom : square = move.from_
      · rw [hfrom, update_self]
      · rw [update_of_ne hfrom, hempty]
    · have hopponent : forward piece.color.opponent = -forward piece.color := by
        cases piece.color <;> rfl
      omega
    · rw [hplain, update_self, opponent_opponent, ← htype]

theorem sound_initialState : Sound initialState where
  kings color := by cases color <;> decide +kernel
  safe := by decide +kernel
  ranks square color := by
    revert square
    cases color <;> decide +kernel
  men color := by cases color <;> decide +kernel
  pawns color := by cases color <;> decide +kernel
  passed square h := by cases h

/-- Every position that is reached from the initial one by legal moves is sound. -/
theorem reachable_sound {moves : List Move} {s : Position}
    (h : FreeRun play initialState moves s) : Sound s :=
  h.invariant (fun _ H hplay => H.play hplay) sound_initialState

/-- The position after the king's pawn went two steps -/
theorem reachable_sound_e4 : ∃ s, FreeRun play initialState [⟨(6, 4), (4, 4), none, false, none⟩] s ∧
    Sound s := by
  have hlegal : ⟨(6, 4), (4, 4), none, false, none⟩ ∈ getLegalMoves initialState .white := by
    decide +kernel
  have hrun : FreeRun play initialState [⟨(6, 4), (4, 4), none, false, none⟩] _ :=
    Run.single trivial (if_pos hlegal)
  exact ⟨_, hrun, reachable_sound hrun⟩

end Bluetalk.Chess

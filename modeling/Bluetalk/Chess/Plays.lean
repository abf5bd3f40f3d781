import Bluetalk.Chess.Rules

/-!
# What a move can be

Every move of a piece is one of six kinds (`plays_of_mem`), and leaves a board that says so.
-/

open List

namespace Bluetalk.Chess

variable {s : Position} {color : Color} {from_ to_ : Square} {piece : Piece} {move : Move}
  {dc : Int}

/-- What a pawn becomes that arrives at `to_` -/
def Arrives (color : Color) (to_ : Square) (promotion : Option PieceType) : Prop :=
  (to_.r = promoRank color ∧ ∃ type ∈ promotionPieces, promotion = some type) ∨
    (to_.r ≠ promoRank color ∧ promotion = none)

/-- The kinds of moves of `piece`, which stands on `from_`. -/
inductive Plays (s : Position) (piece : Piece) (from_ : Square) : Move → Prop
  | goes {to_ : Square} (htype : piece.type ≠ .pawn) (hfree : free s piece.color to_ = true)
      (hattack : attacksFrom s from_ to_ piece = true) :
      Plays s piece from_ ⟨from_, to_, none, false, none⟩
  | steps {to_ : Square} {promotion : Option PieceType} (htype : piece.type = .pawn)
      (hrow : to_.r = from_.r + forward piece.color) (hempty : s.board to_ = none)
      (harrive : Arrives piece.color to_ promotion) :
      Plays s piece from_ ⟨from_, to_, promotion, false, none⟩
  | doubles {one to_ : Square} (htype : piece.type = .pawn) (hstart : from_.r = startRank piece.color)
      (hone : one.r = from_.r + forward piece.color ∧ one.c = from_.c) (hfree : s.board one = none)
      (hto : to_.r = from_.r + 2 * forward piece.color ∧ to_.c = from_.c)
      (hempty : s.board to_ = none) : Plays s piece from_ ⟨from_, to_, none, false, none⟩
  | takes {to_ : Square} {target : Piece} {promotion : Option PieceType} (htype : piece.type = .pawn)
      (hrow : to_.r = from_.r + forward piece.color) (htarget : s.board to_ = some target)
      (hcolor : target.color ≠ piece.color) (hattack : attacksFrom s from_ to_ piece = true)
      (harrive : Arrives piece.color to_ promotion) :
      Plays s piece from_ ⟨from_, to_, promotion, false, none⟩
  | passes {to_ : Square} (htype : piece.type = .pawn) (hrow : to_.r = from_.r + forward piece.color)
      (hempty : s.board to_ = none) (hep : s.enPassant = some to_) :
      Plays s piece from_ ⟨from_, to_, none, true, none⟩
  | castles (side : Side) (htype : piece.type = .king) (hfrom : from_ = (homeRank piece.color, 4))
      (hright : s.castling.right piece.color side = true)
      (hbetween : ∀ c ∈ side.between, s.board (homeRank piece.color, c) = none)
      (hrook : s.board (homeRank piece.color, side.rookFile) = some ⟨piece.color, .rook⟩) :
      Plays s piece from_ ⟨from_, (homeRank piece.color, side.kingFile), none, false, some side⟩

theorem mem_arrive (h : move ∈ arrive color from_ to_) :
    ∃ promotion, move = ⟨from_, to_, promotion, false, none⟩ ∧ Arrives color to_ promotion := by
  rw [arrive] at h
  split at h
  · rename_i hrow
    obtain ⟨type, htype, rfl⟩ := mem_map.mp h
    exact ⟨_, rfl, .inl ⟨hrow, type, htype, rfl⟩⟩
  · rename_i hrow
    exact ⟨none, mem_singleton.mp h, .inr ⟨hrow, rfl⟩⟩

theorem plays_pawnSteps (htype : piece.type = .pawn)
    (h : move ∈ pawnSteps s piece.color from_) : Plays s piece from_ move := by
  rw [pawnSteps] at h
  cases hone : sq? (from_.r + forward piece.color) from_.c with
  | none => rw [hone] at h; cases h
  | some one =>
    rw [hone] at h
    dsimp only at h
    obtain ⟨hrow, hfile⟩ := sq?_eq_some.mp hone
    split at h
    · rename_i hempty
      rcases mem_append.mp h with h | h
      · obtain ⟨promotion, rfl, harrive⟩ := mem_arrive h
        exact .steps htype hrow hempty harrive
      split at h
      · rename_i hstart
        cases htwo : sq? (from_.r + 2 * forward piece.color) from_.c with
        | none => rw [htwo] at h; cases h
        | some two =>
          rw [htwo] at h
          dsimp only at h
          split at h
          · rename_i hempty'
            rw [mem_singleton.mp h]
            exact .doubles htype hstart ⟨hrow, hfile⟩ hempty (sq?_eq_some.mp htwo) hempty'
          · cases h
      · cases h
    · cases h

theorem plays_pawnTakes (htype : piece.type = .pawn) (hdc : dc ∈ ([-1, 1] : List Int))
    (h : move ∈ pawnTakes s piece.color from_ dc) : Plays s piece from_ move := by
  rw [pawnTakes] at h
  cases hcap : sq? (from_.r + forward piece.color) (from_.c + dc) with
  | none => rw [hcap] at h; cases h
  | some cap =>
    rw [hcap] at h
    dsimp only at h
    obtain ⟨hrow, hfile⟩ := sq?_eq_some.mp hcap
    cases htarget : s.board cap with
    | some target =>
      rw [htarget] at h
      dsimp only at h
      split at h
      · rename_i hcolor
        obtain ⟨promotion, rfl, harrive⟩ := mem_arrive h
        refine .takes htype hrow htarget hcolor ?_ harrive
        rw [attacksFrom, htype]
        exact any_eq_true.mpr ⟨dc, hdc, by simp [hrow, hfile]⟩
      · cases h
    | none =>
      rw [htarget] at h
      dsimp only at h
      split at h
      · rename_i hep
        rw [mem_singleton.mp h]
        exact .passes htype hrow htarget hep
      · cases h

theorem mem_jumps {deltas : List (Int × Int)} (h : move ∈ jumps s color from_ deltas) :
    ∃ to_, move = ⟨from_, to_, none, false, none⟩ ∧ free s color to_ = true ∧
      ∃ d ∈ deltas, from_.r + d.1 = to_.r ∧ from_.c + d.2 = to_.c := by
  obtain ⟨to_, hto, h⟩ := mem_filterMap.mp h
  obtain ⟨d, hd, hsq⟩ := mem_filterMap.mp hto
  obtain ⟨hrow, hfile⟩ := sq?_eq_some.mp hsq
  split at h
  · rename_i hfree
    cases h
    exact ⟨to_, rfl, hfree, d, hd, hrow.symm, hfile.symm⟩
  · cases h

theorem free_of_mem_slide {dr : Int} {n : Nat} {r c : Int}
    (h : to_ ∈ slide s color dr dc n r c) : free s color to_ = true := by
  induction n generalizing r c with
  | zero => cases h
  | succ n ih =>
    rw [slide] at h
    split at h
    · cases h
    rename_i to_' hto'
    split at h
    · rename_i hempty
      rcases mem_cons.mp h with rfl | h
      · rw [free, hempty]
        rfl
      · exact ih h
    rename_i target htarget
    split at h
    · rename_i hcolor
      rw [mem_singleton.mp h, free, htarget]
      exact decide_eq_true hcolor
    · cases h

theorem mem_lines {dirs : List (Int × Int)} (h : move ∈ lines s color from_ dirs) :
    ∃ to_, move = ⟨from_, to_, none, false, none⟩ ∧ free s color to_ = true := by
  obtain ⟨to_, hto, rfl⟩ := mem_map.mp h
  obtain ⟨d, -, hto⟩ := mem_flatMap.mp hto
  exact ⟨to_, rfl, free_of_mem_slide hto⟩

theorem plays_of_reach (hpawn : piece.type ≠ .pawn) (hking : piece.type ≠ .king)
    (hmove : ∃ to_, move = ⟨from_, to_, none, false, none⟩ ∧ free s piece.color to_ = true)
    (h : move ∈ reach s piece.color from_ piece.type) : Plays s piece from_ move := by
  obtain ⟨to_, rfl, hfree⟩ := hmove
  refine .goes hpawn hfree ?_
  obtain ⟨c, type⟩ := piece
  cases type with
  | pawn => exact absurd rfl hpawn
  | king => exact absurd rfl hking
  | queen | rook | bishop | knight => exact any_eq_true.mpr ⟨_, h, decide_eq_true rfl⟩

theorem plays_reach (h : move ∈ reach s piece.color from_ piece.type) :
    Plays s piece from_ move := by
  cases htype : piece.type with
  | pawn =>
    rw [htype, reach] at h
    rcases mem_append.mp h with h | h
    · exact plays_pawnSteps htype h
    · obtain ⟨dc, hdc, h⟩ := mem_flatMap.mp h
      exact plays_pawnTakes htype hdc h
  | king =>
    rw [htype, reach] at h
    obtain ⟨to_, rfl, hfree, d, hd, hrow, hfile⟩ := mem_jumps h
    refine .goes (by rw [htype]; decide) hfree ?_
    rw [attacksFrom, htype]
    exact any_eq_true.mpr ⟨d, hd, by simp [hrow, hfile]⟩
  | knight =>
    refine plays_of_reach (by rw [htype]; decide) (by rw [htype]; decide) ?_ h
    rw [htype, reach] at h
    obtain ⟨to_, hmove, hfree, -⟩ := mem_jumps h
    exact ⟨to_, hmove, hfree⟩
  | queen | rook | bishop =>
    refine plays_of_reach (by rw [htype]; decide) (by rw [htype]; decide) ?_ h
    rw [htype, reach] at h
    exact mem_lines h

theorem plays_castlingMove {side : Side} (htype : piece.type = .king)
    (hfrom : from_ = (homeRank piece.color, 4))
    (h : move ∈ castlingMove s piece.color from_ side) : Plays s piece from_ move := by
  rw [castlingMove] at h
  split at h
  · rename_i hallowed
    obtain ⟨hright, hbetween, hrook, -⟩ := hallowed
    rw [mem_singleton.mp h]
    exact .castles side htype hfrom hright hbetween hrook
  · cases h

theorem plays_pieceMoves (hpiece : s.board from_ = some piece) (h : move ∈ pieceMoves s from_) :
    Plays s piece from_ move := by
  rw [pieceMoves, hpiece] at h
  dsimp only at h
  split at h
  · rename_i htype
    rcases mem_append.mp h with h | h
    · exact plays_reach (htype ▸ h)
    rw [castlingMoves] at h
    split at h
    · cases h
    split at h
    · rename_i hfrom
      rcases mem_append.mp h with h | h
      · exact plays_castlingMove htype hfrom h
      · exact plays_castlingMove htype hfrom h
    · cases h
  · exact plays_reach h

theorem plays_of_mem (h : move ∈ getPseudoLegalMoves s color) :
    ∃ piece, s.board move.from_ = some piece ∧ piece.color = color ∧
      Plays s piece move.from_ move := by
  obtain ⟨from_, -, h⟩ := mem_flatMap.mp h
  split at h
  · rename_i hcolor
    obtain ⟨piece, hpiece, hcolor⟩ := (Option.any_eq_true _ _).mp hcolor
    have hplays := plays_pieceMoves hpiece h
    have hfrom : move.from_ = from_ := by cases hplays <;> rfl
    exact ⟨piece, hfrom ▸ hpiece, of_decide_eq_true hcolor, hfrom ▸ hplays⟩
  · cases h

/-- What stands on the square at which a piece arrives -/
def placed (piece : Piece) (move : Move) : Piece :=
  match piece.type, move.promotion with
  | .pawn, some type => ⟨piece.color, type⟩
  | _, _ => piece

theorem boardAfter_plain {board : Board} (hep : move.enPassant = false)
    (hcastle : move.castle = none) : boardAfter board piece move =
      Function.update (Function.update board move.from_ none) move.to_ (some (placed piece move)) := by
  rw [boardAfter, hep, hcastle]
  rfl

end Bluetalk.Chess

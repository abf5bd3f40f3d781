import Bluetalk.Chess.Plays
import Bluetalk.Theory.Positions

/-!
# What a move does to the board

Where pieces stand after a move, and how many of a kind there are.
-/

namespace Bluetalk.Chess
open Function

variable {s : Position} {board : Board} {from_ to_ square : Square} {piece p : Piece} {move : Move}
  {side : Side} {captured : Square} {P : Option Piece → Bool}

/-- How many squares are as `P` says -/
def count (board : Board) (P : Option Piece → Bool) : Nat := tally squares board P

theorem nodup_squares : squares.Nodup := by decide +kernel

theorem count_update (board : Board) (square : Square) (P : Option Piece → Bool) (x : Option Piece) :
    count (update board square x) P + (P (board square)).toNat =
      count board P + (P x).toNat := tally_update nodup_squares (mem_squares square) x

/-! ## Boards after a move -/

theorem boardAfter_passes (h : sq? (to_.r - forward piece.color) to_.c =
    some captured) : boardAfter board piece ⟨from_, to_, none, true, none⟩ =
      update (update (update board from_ none) captured none) to_ (some piece) := by
  rw [boardAfter]
  rw [capturedRow, h]
  cases hpiece : piece.type <;> rfl

theorem boardAfter_castles : boardAfter board piece
    ⟨(homeRank piece.color, 4), (homeRank piece.color, side.kingFile), none, false, some side⟩ =
      update (update (update (update board (homeRank piece.color, 4) none)
        (homeRank piece.color, side.castledFile) (board (homeRank piece.color, side.rookFile)))
        (homeRank piece.color, side.rookFile) none) (homeRank piece.color, side.kingFile)
        (some piece) := by
  have hrook : update board (homeRank piece.color, 4) none (homeRank piece.color, side.rookFile) =
      board (homeRank piece.color, side.rookFile) := by
    refine update_of_ne (fun e => ?_) _ _
    have hfile : side.rookFile = 4 := congrArg Prod.snd e
    cases side <;> exact absurd hfile (by decide)
  rw [boardAfter]
  dsimp only
  rw [hrook]
  cases hpiece : piece.type <;> rfl

theorem count_plain (move : Move) (hpiece : board move.from_ = some piece) (hne : move.to_ ≠ move.from_)
    (hep : move.enPassant = false) (hcastle : move.castle = none) (hP : P none = false) : count (boardAfter board piece move) P + (P (some piece)).toNat +
      (P (board move.to_)).toNat = count board P + (P (some (placed piece move))).toNat := by
  have hleave := count_update board move.from_ P none
  have harrive := count_update (update board move.from_ none) move.to_ P
    (some (placed piece move))
  rw [update_of_ne hne] at harrive
  rw [hpiece, hP, Bool.toNat_false] at hleave
  rw [boardAfter_plain hep hcastle]
  omega

theorem count_passes {taken : Piece}
    (hcaptured : sq? (to_.r - forward piece.color) to_.c = some captured)
    (hpiece : board from_ = some piece) (htaken : board captured = some taken)
    (hempty : board to_ = none) (hcolor : taken.color ≠ piece.color) (hP : P none = false) :
    count (boardAfter board piece ⟨from_, to_, none, true, none⟩) P + (P (some taken)).toNat =
      count board P := by
  have hcaptured' : captured ≠ from_ := by
    rintro rfl
    rw [hpiece] at htaken
    exact hcolor (by rw [Option.some.inj htaken])
  have hto : to_ ≠ from_ := by
    rintro rfl
    rw [hempty] at hpiece
    cases hpiece
  have hto' : to_ ≠ captured := by
    rintro rfl
    rw [hempty] at htaken
    cases htaken
  have hleave := count_update board from_ P none
  have htake := count_update (update board from_ none) captured P none
  have harrive := count_update (update (update board from_ none) captured none) to_ P
    (some piece)
  rw [update_of_ne hto', update_of_ne hto, hempty] at harrive
  rw [update_of_ne hcaptured', htaken] at htake
  rw [hpiece] at hleave
  simp only [hP, Bool.toNat_false] at hleave htake harrive
  rw [boardAfter_passes hcaptured]
  omega

theorem count_castles (hfrom : from_ = (homeRank piece.color, 4)) (hpiece : board from_ = some piece)
    (hbetween : ∀ c ∈ side.between, board (homeRank piece.color, c) = none)
    (hrook : board (homeRank piece.color, side.rookFile) = some ⟨piece.color, .rook⟩) : count (boardAfter board piece
      ⟨from_, (homeRank piece.color, side.kingFile), none, false, some side⟩) P =
        count board P := by
  subst hfrom
  have hfiles : side.castledFile ≠ 4 ∧ side.rookFile ≠ 4 ∧ side.kingFile ≠ 4 ∧
      side.rookFile ≠ side.castledFile ∧ side.kingFile ≠ side.castledFile ∧
        side.kingFile ≠ side.rookFile ∧ side.castledFile ∈ side.between ∧
          side.kingFile ∈ side.between := by
    cases side <;> decide
  obtain ⟨hcastled, hrookFile, hkingFile, hrookCastled, hkingCastled, hkingRook, hfree, hfree'⟩ :=
    hfiles
  have hne : ∀ {c c' : Fin 8}, c ≠ c' → (homeRank piece.color, c) ≠ (homeRank piece.color, c') :=
    fun h e => h (congrArg Prod.snd e)
  have hleave := count_update board (homeRank piece.color, 4) P none
  have hput := count_update (update board (homeRank piece.color, 4) none)
    (homeRank piece.color, side.castledFile) P
    (board (homeRank piece.color, side.rookFile))
  have hrookLeaves := count_update (update (update board (homeRank piece.color, 4) none)
    (homeRank piece.color, side.castledFile) (board (homeRank piece.color, side.rookFile)))
    (homeRank piece.color, side.rookFile) P none
  have harrive := count_update (update (update (update board (homeRank piece.color, 4) none)
    (homeRank piece.color, side.castledFile) (board (homeRank piece.color, side.rookFile)))
    (homeRank piece.color, side.rookFile) none)
    (homeRank piece.color, side.kingFile) P (some piece)
  rw [update_of_ne (hne hkingRook), update_of_ne (hne hkingCastled), update_of_ne (hne hkingFile),
    hbetween _ hfree'] at harrive
  rw [update_of_ne (hne hrookCastled), update_of_ne (hne hrookFile)] at hrookLeaves
  rw [update_of_ne (hne hcastled), hbetween _ hfree] at hput
  rw [hpiece] at hleave
  rw [boardAfter_castles]
  omega

/-- Where the pawn stands that may be taken en passant: beyond the square for the side to move -/
def PassedBy (s : Position) (color : Color) (square : Square) : Prop :=
  ∃ p : Square, p.c = square.c ∧ p.r = square.r - forward color ∧
    s.board p = some ⟨color.opponent, .pawn⟩

theorem ne_of_free {color : Color} (hpiece : s.board from_ = some piece) (hcolor : piece.color = color)
    (hfree : free s color to_ = true) : to_ ≠ from_ := by
  rintro rfl
  rw [free, hpiece] at hfree
  exact of_decide_eq_true hfree hcolor

theorem count_boardAfter (hpiece : s.board from_ = some piece) (hplays : Plays s piece from_ move)
    (hpassed : ∀ q, s.enPassant = some q → PassedBy s piece.color q) :
    ∃ taken : Option Piece, (∀ t ∈ taken, t.color ≠ piece.color ∧ (t.type = .king →
        s.board move.to_ = some t ∧ attacksFrom s from_ move.to_ piece = true)) ∧
      ∀ P : Option Piece → Bool, P none = false →
        count (boardAfter s.board piece move) P + (P (some piece)).toNat + (P taken).toNat =
          count s.board P + (P (some (placed piece move))).toNat := by
  cases hplays with
  | @goes to_ htype hfree hattack =>
    refine ⟨s.board to_, fun t ht => ⟨?_, fun _ => ⟨ht, hattack⟩⟩, fun P hP => ?_⟩
    · rw [free, ht] at hfree
      exact of_decide_eq_true hfree
    · exact count_plain _ hpiece (ne_of_free hpiece rfl hfree) rfl rfl hP
  | @steps to_ promotion htype hrow hempty harrive =>
    have hne : to_ ≠ from_ := by
      rintro rfl
      rw [hempty] at hpiece
      cases hpiece
    refine ⟨none, fun t ht => (by cases ht), fun P hP => ?_⟩
    have hcount := count_plain ⟨from_, to_, promotion, false, none⟩ hpiece hne rfl rfl hP
    rwa [hempty] at hcount
  | @doubles one to_ htype hstart hone hfree hto hempty =>
    have hne : to_ ≠ from_ := by
      rintro rfl
      rw [hempty] at hpiece
      cases hpiece
    refine ⟨none, fun t ht => (by cases ht), fun P hP => ?_⟩
    have hcount := count_plain ⟨from_, to_, none, false, none⟩ hpiece hne rfl rfl hP
    rwa [hempty] at hcount
  | @takes to_ target promotion htype hrow htarget hcolor hattack harrive =>
    have hne : to_ ≠ from_ := by
      rintro rfl
      rw [hpiece] at htarget
      exact hcolor (by rw [Option.some.inj htarget])
    refine ⟨some target, ?_, fun P hP => ?_⟩
    · rintro t ⟨⟩
      exact ⟨hcolor, fun _ => ⟨htarget, hattack⟩⟩
    · have hcount := count_plain ⟨from_, to_, promotion, false, none⟩ hpiece hne rfl rfl hP
      rwa [htarget] at hcount
  | @passes to_ htype hrow hempty hep =>
    obtain ⟨captured, hfile, hrow', htaken⟩ := hpassed to_ hep
    refine ⟨some ⟨piece.color.opponent, .pawn⟩, ?_, fun P hP => ?_⟩
    · rintro t ⟨⟩
      exact ⟨opponent_ne _, fun h => by cases h⟩
    have hcount := count_passes (sq?_eq_some.mpr ⟨hrow', hfile⟩) hpiece htaken hempty
      (opponent_ne _) hP
    have hplaced : placed piece ⟨from_, to_, none, true, none⟩ = piece := by
      rw [placed, htype]
    rw [hplaced]
    omega
  | castles side htype hfrom hright hbetween hrook =>
    refine ⟨none, fun t ht => (by cases ht), fun P hP => ?_⟩
    have hcount := count_castles (P := P) hfrom hpiece hbetween hrook
    have hplaced : placed piece ⟨from_, (homeRank piece.color, side.kingFile), none, false,
        some side⟩ = piece := by
      rw [placed, htype]
    rw [hplaced, hcount, hP, Bool.toNat_false, Nat.add_zero]

end Bluetalk.Chess

import Bluetalk.Chess.Soundness

/-!
# Castling rights

A game beside which it is noted where every piece began and which pieces have moved or been taken.
The rights of the position agree with these notes as long as no other rook of the colour leaves the
file of a rook that still may castle: `applyMove` asks for the file of the rook that moves, not for
its corner.
-/

open List

namespace Bluetalk.Chess
open Function

variable {s : Position} {color : Color} {side : Side} {piece : Piece} {move : Move}
  {square o q : Square}

/-! ## Pieces and where they began -/

section
variable {α : Type} {f : Square → Option α} {x : Option α} {a : α}

/-- What stands on a square goes along with a move of `piece`, which becomes `x`. -/
def carried (f : Square → Option α) (piece : Piece) (move : Move) (x : Option α) :
    Square → Option α :=
  let f := update f move.from_ none
  let f := match move.enPassant, sq? (capturedRow piece move) move.to_.c with
    | true, some captured => update f captured none
    | _, _ => f
  let f := match move.castle with
    | some side =>
      let rank := homeRank piece.color
      update (update f (rank, side.castledFile) (f (rank, side.rookFile)))
        (rank, side.rookFile) none
    | none => f
  update f move.to_ x

theorem boardAfter_eq_carried (board : Board) :
    boardAfter board piece move = carried board piece move (some (placed piece move)) := rfl

/-- The squares whose pieces are moved or taken -/
def disturbed (piece : Piece) (move : Move) : List Square :=
  [move.from_, move.to_] ++
    (if move.enPassant then (sq? (capturedRow piece move) move.to_.c).toList else []) ++
      (move.castle.map fun side => (homeRank piece.color, side.rookFile)).toList

/-- The square on which a rook is put that castles -/
def castled (piece : Piece) (move : Move) : Option Square :=
  move.castle.map fun side => (homeRank piece.color, side.castledFile)

theorem carried_of_not_mem (h : square ∉ disturbed piece move)
    (hcastled : castled piece move ≠ some square) : carried f piece move x square = f square := by
  obtain ⟨from_, to_, promotion, enPassant, castle⟩ := move
  simp only [disturbed, castled, mem_append, mem_cons, not_mem_nil, or_false, not_or] at h hcastled
  obtain ⟨⟨⟨hfrom, hto⟩, hpassed⟩, hrook⟩ := h
  have hcleared : ∀ square : Square, square ≠ from_ →
      square ∉ (if enPassant then (sq? (capturedRow piece ⟨from_, to_, promotion, enPassant, castle⟩)
        to_.c).toList else []) →
      (match enPassant, sq? (capturedRow piece ⟨from_, to_, promotion, enPassant, castle⟩) to_.c with
        | true, some captured => update (update f from_ none) captured none
        | _, _ => update f from_ none) square = f square := by
    intro square hfrom hpassed
    cases enPassant with
    | false => exact update_of_ne hfrom _ _
    | true =>
      cases hsq : sq? (capturedRow piece ⟨from_, to_, promotion, true, castle⟩) to_.c with
      | none => exact update_of_ne hfrom _ _
      | some captured =>
        rw [hsq] at hpassed
        have hne : square ≠ captured := by simpa using hpassed
        exact (update_of_ne hne _ _).trans (update_of_ne hfrom _ _)
  rw [carried]
  rw [update_of_ne hto]
  cases castle with
  | none => exact hcleared square hfrom hpassed
  | some side =>
    have hrook : square ≠ (homeRank piece.color, side.rookFile) := by simpa using hrook
    have hcastled : square ≠ (homeRank piece.color, side.castledFile) := by
      simpa [eq_comm] using hcastled
    dsimp only
    rw [update_of_ne hrook, update_of_ne hcastled]
    exact hcleared square hfrom hpassed

theorem carried_eq_some (h : carried f piece move x square = some a) :
    f square = some a ∨ x = some a ∨ ∃ q ∈ disturbed piece move, f q = some a := by
  obtain ⟨from_, to_, promotion, enPassant, castle⟩ := move
  have hnone : ∀ {f : Square → Option α} {q square : Square}, update f q none square = some a →
      f square = some a := by
    intro f q square h
    by_cases hq : square = q
    · subst hq
      rw [update_self] at h
      cases h
    · rwa [update_of_ne hq] at h
  have hcleared : ∀ square : Square,
      (match enPassant, sq? (capturedRow piece ⟨from_, to_, promotion, enPassant, castle⟩) to_.c with
        | true, some captured => update (update f from_ none) captured none
        | _, _ => update f from_ none) square = some a → f square = some a := by
    intro square h
    cases enPassant with
    | false => exact hnone h
    | true =>
      cases hsq : sq? (capturedRow piece ⟨from_, to_, promotion, true, castle⟩) to_.c with
      | none =>
        rw [hsq] at h
        exact hnone h
      | some captured =>
        rw [hsq] at h
        exact hnone (hnone h)
  rw [carried] at h
  by_cases hto : square = to_
  · subst hto
    rw [update_self] at h
    exact .inr (.inl h)
  rw [update_of_ne hto] at h
  cases castle with
  | none => exact .inl (hcleared square h)
  | some side =>
    have h := hnone h
    by_cases hcastled : square = (homeRank piece.color, side.castledFile)
    · subst hcastled
      rw [update_self] at h
      refine .inr (.inr ⟨_, ?_, hcleared _ h⟩)
      exact mem_append_right _ (mem_singleton.mpr rfl)
    · rw [update_of_ne hcastled] at h
      exact .inl (hcleared square h)

end

/-! ## Games with notes -/

/-- Where the king of a colour begins -/
def kingSquare (color : Color) : Square := (homeRank color, 4)

/-- Where a rook of a colour begins -/
def corner (color : Color) (side : Side) : Square := (homeRank color, side.rookFile)

/-- A position, with the square on which each piece began, and whether the piece that began on a
square has moved or been taken -/
structure Tracked where
  pos : Position
  origin : Square → Option Square
  touched : Square → Bool

def Tracked.initial : Tracked where
  pos := initialState
  origin square := (startBoard square).map fun _ => square
  touched _ := false

/-- A legal move, noted -/
def track (g : Tracked) (move : Move) : Option Tracked :=
  (g.pos.board move.from_).bind fun piece => (play g.pos move).map fun pos =>
    { pos
      origin := carried g.origin piece move (g.origin move.from_)
      touched := fun o =>
        g.touched o || (disturbed piece move).any fun square => g.origin square = some o }

/-- A right is set for a king and a rook that have neither moved nor been taken, and for no others. -/
def RightsExact (g : Tracked) : Prop :=
  ∀ color side, g.pos.castling.right color side = true ↔
    g.touched (kingSquare color) = false ∧ g.touched (corner color side) = false

/-- No other rook of a colour leaves the file of a rook that may castle. -/
def KeepsFiles (g : Tracked) (move : Move) : Prop :=
  ∀ color side, g.pos.castling.right color side = true →
    g.pos.board move.from_ = some ⟨color, .rook⟩ → move.from_.2 = side.rookFile →
      move.from_ = corner color side

/-- What the notes say of pieces that have not been touched -/
structure Noted (g : Tracked) : Prop where
  sound : Sound g.pos
  there : ∀ o, startBoard o ≠ none → g.touched o = false →
    g.origin o = some o ∧ g.pos.board o = startBoard o
  only : ∀ square o, g.touched o = false → g.origin square = some o → square = o

variable {g g' : Tracked} {from_ : Square}

theorem track_spec (h : track g move = some g') : ∃ piece, g.pos.board move.from_ = some piece ∧
    piece.color = g.pos.turn ∧ Plays g.pos piece move.from_ move ∧ play g.pos move = some g'.pos ∧
      g'.pos.board = boardAfter g.pos.board piece move ∧
        g'.pos.castling = castlingAfter g.pos.castling piece move ∧
          g'.origin = carried g.origin piece move (g.origin move.from_) ∧
            ∀ o, g'.touched o = false ↔
              g.touched o = false ∧ ∀ square ∈ disturbed piece move, g.origin square ≠ some o := by
  obtain ⟨piece, hpiece, h⟩ := Option.bind_eq_some_iff.mp h
  obtain ⟨pos, hplay, rfl⟩ := Option.map_eq_some_iff.mp h
  obtain ⟨piece', hpiece', hcolor, hplays, -, hboard, -, hcastling, -⟩ := play_spec hplay
  obtain rfl : piece = piece' := Option.some.inj (hpiece.symm.trans hpiece')
  refine ⟨piece, hpiece, hcolor, hplays, hplay, hboard, hcastling, rfl, fun o => ?_⟩
  rw [Bool.or_eq_false_iff, any_eq_false]
  simp only [decide_eq_true_eq]

theorem Plays.castled_empty (h : Plays s piece from_ move)
    (hcastled : castled piece move = some square) : s.board square = none := by
  obtain ⟨side, hside, rfl⟩ := Option.map_eq_some_iff.mp hcastled
  cases h with
  | goes | steps | doubles | takes | passes => cases hside
  | castles _ _ _ _ hbetween _ =>
    cases hside
    refine hbetween _ ?_
    cases side <;> decide

theorem Noted.track (N : Noted g) (h : track g move = some g') : Noted g' := by
  obtain ⟨piece, hpiece, hcolor, hplays, hplay, hboard, -, horigin, htouched⟩ := track_spec h
  refine ⟨N.sound.play hplay, fun o hstart ho => ?_, fun square o ho hsquare => ?_⟩
  · obtain ⟨hbefore, hdisturbed⟩ := (htouched o).mp ho
    obtain ⟨horigin', hboard'⟩ := N.there o hstart hbefore
    have hnot : o ∉ disturbed piece move := fun hmem => hdisturbed o hmem horigin'
    have hcastled : castled piece move ≠ some o := fun e => by
      rw [hplays.castled_empty e] at hboard'
      exact hstart hboard'.symm
    rw [horigin, hboard, boardAfter_eq_carried, carried_of_not_mem hnot hcastled,
      carried_of_not_mem hnot hcastled]
    exact ⟨horigin', hboard'⟩
  · obtain ⟨hbefore, hdisturbed⟩ := (htouched o).mp ho
    rw [horigin] at hsquare
    rcases carried_eq_some hsquare with hold | hmoved | ⟨q, hq, hmoved⟩
    · exact N.only square o hbefore hold
    · exact absurd hmoved (hdisturbed _ mem_cons_self)
    · exact absurd hmoved (hdisturbed q hq)

theorem noted_initial : Noted Tracked.initial where
  sound := sound_initialState
  there o hstart _ := by
    obtain ⟨piece, hpiece⟩ := Option.ne_none_iff_exists'.mp hstart
    refine ⟨?_, rfl⟩
    change (startBoard o).map _ = _
    rw [hpiece]
    rfl
  only square o _ h := by
    obtain ⟨piece, -, h⟩ := Option.map_eq_some_iff.mp h
    exact h

/-! ## Rights -/

/-- What takes a right away -/
def loses (color : Color) (side : Side) (piece : Piece) (move : Move) : Bool :=
  piece = ⟨color, .king⟩ || (piece = ⟨color, .rook⟩ && move.from_.2 = side.rookFile) ||
    move.to_ = corner color side

theorem right_castlingAfter (castling : Castling) (color : Color) (side : Side) :
    (castlingAfter castling piece move).right color side =
      (castling.right color side && !loses color side piece move) := by
  cases color <;> cases side <;> rfl

theorem startBoard_kingSquare (color : Color) :
    startBoard (kingSquare color) = some ⟨color, .king⟩ := by
  cases color <;> rfl

theorem startBoard_corner (color : Color) (side : Side) :
    startBoard (corner color side) = some ⟨color, .rook⟩ := by
  cases color <;> cases side <;> rfl

/-- Disturbed are the two squares, a pawn that is passed, and the rook in castling. -/
theorem mem_disturbed (hplays : Plays s piece from_ move)
    (hpassed : ∀ q, s.enPassant = some q → PassedBy s piece.color q)
    (h : square ∈ disturbed piece move) : square = move.from_ ∨ square = move.to_ ∨
      s.board square = some ⟨piece.color.opponent, .pawn⟩ ∨
        piece.type = .king ∧ ∃ side, square = corner piece.color side := by
  have hplain : ∀ {from_ to_ : Square} {promotion}, square ∈ disturbed piece
      ⟨from_, to_, promotion, false, none⟩ → square = from_ ∨ square = to_ := by
    intro from_ to_ promotion h
    simpa [disturbed] using h
  cases hplays with
  | goes | steps | doubles | takes => exact (hplain h).imp_right .inl
  | @passes to_ _ _ _ hep =>
    obtain ⟨captured, hfile, hrow, htaken⟩ := hpassed to_ hep
    have hcaptured : sq? (capturedRow piece ⟨from_, to_, none, true, none⟩) to_.c = some captured :=
      sq?_eq_some.mpr ⟨hrow, hfile⟩
    rw [disturbed, if_pos rfl, hcaptured] at h
    have h : square = from_ ∨ square = to_ ∨ square = captured := by simpa using h
    rcases h with h | h | rfl
    · exact .inl h
    · exact .inr (.inl h)
    · exact .inr (.inr (.inl htaken))
  | castles side hking =>
    have h : square = from_ ∨ square = (homeRank piece.color, side.kingFile) ∨
        square = (homeRank piece.color, side.rookFile) := by simpa [disturbed] using h
    rcases h with h | h | h
    · exact .inl h
    · exact .inr (.inl h)
    · exact .inr (.inr (.inr ⟨hking, side, h⟩))

theorem not_own_or_king (H : Sound s) (hpiece : s.board from_ = some piece)
    (hcolor : piece.color = s.turn) (hplays : Plays s piece from_ move) {p : Piece}
    (hp : s.board move.to_ = some p) : p.color ≠ piece.color ∧ p.type ≠ .king := by
  have htaken : ∀ {to_ : Square}, p.color ≠ piece.color → attacksFrom s from_ to_ piece = true →
      s.board to_ = some p → p.color ≠ piece.color ∧ p.type ≠ .king := by
    intro to_ hother hattack hp
    refine ⟨hother, fun hking => ?_⟩
    have hopponent : p.color = s.turn.opponent := hcolor ▸ eq_opponent_of_ne hother
    refine H.not_attacks_king hpiece hcolor hattack ?_
    rw [hp, ← hopponent, ← hking]
  cases hplays with
  | goes _ hfree hattack =>
    rw [free, hp] at hfree
    exact htaken (of_decide_eq_true hfree) hattack hp
  | takes _ _ htarget hother hattack =>
    obtain rfl := Option.some.inj (htarget.symm.trans hp)
    exact htaken hother hattack hp
  | steps _ _ hempty | doubles _ _ _ _ _ hempty | passes _ _ hempty => rw [hempty] at hp; cases hp
  | castles side _ _ _ hbetween =>
    have hempty := hbetween side.kingFile (by cases side <;> decide)
    rw [hempty] at hp
    cases hp

section
variable (N : Noted g) (hcolor : piece.color = g.pos.turn)
include N hcolor

theorem Noted.passed : ∀ q, g.pos.enPassant = some q → PassedBy g.pos piece.color q :=
  fun q hq => hcolor ▸ (N.sound.passed q hq).2.2

variable (hpiece : g.pos.board move.from_ = some piece)
  (hplays : Plays g.pos piece move.from_ move)
include hpiece hplays

theorem Noted.disturbs_king (hking : g.touched (kingSquare color) = false) :
    kingSquare color ∈ disturbed piece move ↔ piece = ⟨color, .king⟩ := by
  obtain ⟨-, hthere⟩ := N.there _ (by rw [startBoard_kingSquare]; simp) hking
  rw [startBoard_kingSquare] at hthere
  constructor
  · intro h
    rcases mem_disturbed hplays (N.passed hcolor) h with h | h | h | ⟨-, side, h⟩
    · rw [h, hpiece] at hthere
      exact Option.some.inj hthere
    · rw [h] at hthere
      exact absurd rfl (not_own_or_king N.sound hpiece hcolor hplays hthere).2
    · rw [hthere] at h
      cases h
    · have hfile : (4 : Fin 8) = side.rookFile := congrArg Prod.snd h
      cases side <;> exact absurd hfile (by decide)
  · rintro rfl
    have hfrom : move.from_ = kingSquare color := N.sound.king_unique hpiece hthere
    rw [← hfrom]
    exact mem_cons_self

omit hpiece in
/-- A rook is disturbed by its own moves, by its capture and by castling. -/
theorem Noted.disturbs_rook (hrook : g.touched (corner color side) = false) :
    corner color side ∈ disturbed piece move ∨ piece = ⟨color, .king⟩ ↔
      move.from_ = corner color side ∨ move.to_ = corner color side ∨ piece = ⟨color, .king⟩ := by
  obtain ⟨-, hthere⟩ := N.there _ (by rw [startBoard_corner]; simp) hrook
  rw [startBoard_corner] at hthere
  constructor
  · rintro (h | h)
    · rcases mem_disturbed hplays (N.passed hcolor) h with h | h | h | ⟨hking, side', h⟩
      · exact .inl h.symm
      · exact .inr (.inl h.symm)
      · rw [hthere] at h
        cases h
      · -- the corner tells the colour
        have hrank : homeRank color = homeRank piece.color := congrArg Prod.fst h
        have hsame : piece.color = color := by
          revert hrank
          cases color <;> cases piece.color <;> decide
        exact .inr (.inr (by rw [← hsame, ← hking]))
    · exact .inr (.inr h)
  · rintro (h | h | h)
    · exact .inl (h ▸ mem_cons_self)
    · exact .inl (h ▸ mem_cons_of_mem _ mem_cons_self)
    · exact .inr h

/-- A right is lost with its king or rook, where no other rook leaves the file. -/
theorem Noted.loses_iff (hking : g.touched (kingSquare color) = false)
    (hrook : g.touched (corner color side) = false) :
    (loses color side piece move = true ↔
      kingSquare color ∈ disturbed piece move ∨ corner color side ∈ disturbed piece move) ↔
    (piece = ⟨color, .rook⟩ → move.from_.2 = side.rookFile → move.from_ = corner color side) := by
  obtain ⟨-, hthere⟩ := N.there _ (by rw [startBoard_corner]; simp) hrook
  rw [startBoard_corner] at hthere
  have hdisturbed : kingSquare color ∈ disturbed piece move ∨ corner color side ∈ disturbed piece move ↔
      move.from_ = corner color side ∨ move.to_ = corner color side ∨ piece = ⟨color, .king⟩ := by
    rw [N.disturbs_king hcolor hpiece hplays hking, or_comm, N.disturbs_rook hcolor hplays hrook]
  have hloses : loses color side piece move = true ↔ piece = ⟨color, .king⟩ ∨
      (piece = ⟨color, .rook⟩ ∧ move.from_.2 = side.rookFile) ∨ move.to_ = corner color side := by
    simp only [loses, Bool.or_eq_true, Bool.and_eq_true, decide_eq_true_eq, or_assoc]
  rw [hdisturbed, hloses]
  have hown : piece = ⟨color, .rook⟩ → move.to_ ≠ corner color side := by
    rintro rfl hto
    rw [← hto] at hthere
    exact (not_own_or_king N.sound hpiece hcolor hplays hthere).1 rfl
  constructor
  · intro h hpieceRook hfile
    rcases h.mp (.inr (.inl ⟨hpieceRook, hfile⟩)) with hfrom | hto | hpieceKing
    · exact hfrom
    · exact absurd hto (hown hpieceRook)
    · rw [hpieceRook] at hpieceKing
      cases hpieceKing
  intro h
  constructor
  · rintro (hpieceKing | ⟨hpieceRook, hfile⟩ | hto)
    · exact .inr (.inr hpieceKing)
    · exact .inl (h hpieceRook hfile)
    · exact .inr (.inl hto)
  rintro (hfrom | hto | hpieceKing)
  · rw [hfrom, hthere] at hpiece
    exact .inr (.inl ⟨(Option.some.inj hpiece).symm, congrArg Prod.snd hfrom⟩)
  · exact .inr (.inr hto)
  · exact .inl hpieceKing

end

/-- A move leaves the rights exact iff no rook leaves the file of another that may castle. -/
theorem track_exact_iff (N : Noted g) (hexact : RightsExact g) (h : track g move = some g') :
    RightsExact g' ↔ KeepsFiles g move := by
  obtain ⟨piece, hpiece, hcolor, hplays, -, -, hcastling, -, htouched⟩ := track_spec h
  refine forall_congr' fun color => forall_congr' fun side => ?_
  rw [hcastling, right_castlingAfter]
  cases hright : g.pos.castling.right color side with
  | false =>
    -- a right that was lost stays lost
    have hbefore := (not_congr (hexact color side)).mp (by rw [hright]; exact Bool.false_ne_true)
    have hafter : ¬(g'.touched (kingSquare color) = false ∧ g'.touched (corner color side) = false) :=
      fun h => hbefore ⟨((htouched _).mp h.1).1, ((htouched _).mp h.2).1⟩
    simp [hafter]
  | true =>
    obtain ⟨hking, hrook⟩ := (hexact color side).mp hright
    have hsquare : ∀ o, g.touched o = false → startBoard o ≠ none →
        (g'.touched o = false ↔ o ∉ disturbed piece move) := by
      intro o ho hstart
      rw [htouched]
      refine ⟨fun h hmem => h.2 o hmem (N.there o hstart ho).1, fun h => ⟨ho, fun q hq e => h ?_⟩⟩
      exact N.only q o ho e ▸ hq
    rw [hsquare _ hking (by rw [startBoard_kingSquare]; simp),
      hsquare _ hrook (by rw [startBoard_corner]; simp), ← not_or, Bool.true_and,
      Bool.not_eq_true', ← Bool.not_eq_true, not_iff_not,
      N.loses_iff hcolor hpiece hplays hking hrook]
    constructor
    · intro h _ hboard hfile
      exact h (Option.some.inj (hpiece.symm.trans hboard)) hfile
    · intro h hpieceRook hfile
      exact h rfl (hpieceRook ▸ hpiece) hfile

theorem rightsExact_initial : RightsExact Tracked.initial := by
  intro color side
  cases color <;> cases side <;> exact ⟨fun _ => ⟨rfl, rfl⟩, fun _ => rfl⟩

/-- The castling rights are exact in all positions of a game if in none of its moves another rook of
a colour leaves the file of a rook that may castle, and only then. -/
theorem rightsExact_iff_keepsFiles {moves : List Move} {g : Tracked}
    (h : FreeRun track Tracked.initial moves g) :
    Always track RightsExact Tracked.initial moves ↔ Run track KeepsFiles Tracked.initial moves g :=
  h.always_iff (fun N => N.track) (fun N hexact => track_exact_iff N hexact) noted_initial
    rightsExact_initial

/-- Two knights and a pawn -/
def opening : List Move :=
  [⟨(7, 6), (5, 5), none, false, none⟩, ⟨(0, 1), (2, 2), none, false, none⟩,
    ⟨(6, 4), (4, 4), none, false, none⟩]

theorem rightsExact_iff_keepsFiles_opening : ∃ g, FreeRun track Tracked.initial opening g ∧
    (Always track RightsExact Tracked.initial opening ↔
      Run track KeepsFiles Tracked.initial opening g) := by
  have hexec : (exec track Tracked.initial opening).isSome = true := by decide +kernel
  obtain ⟨g, hg⟩ := Option.isSome_iff_exists.mp hexec
  have hrun : FreeRun track Tracked.initial opening g := .of_exec hg
  exact ⟨g, hrun, rightsExact_iff_keepsFiles hrun⟩

/-- The king's rook comes to the third rank, goes over to the first file and leaves it. -/
def rookLift : List Move :=
  [⟨(6, 7), (4, 7), none, false, none⟩, ⟨(0, 1), (2, 2), none, false, none⟩,
    ⟨(7, 7), (5, 7), none, false, none⟩, ⟨(2, 2), (0, 1), none, false, none⟩,
    ⟨(5, 7), (5, 0), none, false, none⟩, ⟨(0, 1), (2, 2), none, false, none⟩,
    ⟨(5, 0), (5, 1), none, false, none⟩]

/-- The queen's side right is lost, though king and queen's rook have not moved. -/
theorem rookLift_loses_right : ∃ g, FreeRun track Tracked.initial rookLift g ∧
    g.pos.castling.right .white .queen = false ∧ g.touched (kingSquare .white) = false ∧
      g.touched (corner .white .queen) = false ∧ ¬RightsExact g := by
  have hexec : (exec track Tracked.initial rookLift).any (fun g =>
      !g.pos.castling.right .white .queen && !g.touched (kingSquare .white) &&
        !g.touched (corner .white .queen)) = true := by decide +kernel
  obtain ⟨g, hg, hlost⟩ := (Option.any_eq_true _ _).mp hexec
  simp only [Bool.and_eq_true, Bool.not_eq_true'] at hlost
  obtain ⟨⟨hright, hking⟩, hrook⟩ := hlost
  refine ⟨g, .of_exec hg, hright, hking, hrook, fun h => ?_⟩
  rw [(h .white .queen).mpr ⟨hking, hrook⟩] at hright
  cases hright

end Bluetalk.Chess

import Bluetalk.Chess.Host
import Bluetalk.Chess.Soundness

/-!
# A game that is over

What has a result is over, and nothing that happens afterwards changes the result, the position, the
list of moves or the clocks. The result can come in the middle of a move: `makeMove` looks at the
clocks after it has checked the move, and makes the move though the time has run out.
-/

open Option

namespace Bluetalk.Chess.Host

variable {h h' : Host} {now : Int} {peerId : String} {rawMove : RawMove} {e : Int × HostEvent}
  {move : Move} {x : Option Host}

def Over (h : Host) : Prop := h.gameResult ≠ none → h.phase = .gameOver

/-- The result, the position, the list of moves and the clocks are as they were. -/
structure Kept (h h' : Host) : Prop where
  gameResult : h'.gameResult = h.gameResult
  chessState : h'.chessState = h.chessState
  moveHistory : h'.moveHistory = h.moveHistory
  whiteMs : h'.whiteMs = h.whiteMs
  blackMs : h'.blackMs = h.blackMs

/-- The time of a player has run out, and nobody has noticed yet. -/
def outOfTime (h : Host) (now : Int) : Bool :=
  h.clocksRun && (h.spend now).timeoutWinner.isSome

/-- The move that an event asks for, and the peer that does -/
def askedMove (h : Host) : HostEvent → Option (String × RawMove)
  | .action peerId (.move rawMove) => some (peerId, rawMove)
  | .wire peerId (.action gameId (.move rawMove)) =>
    if gameId = h.gameId then some (peerId, rawMove) else none
  | _ => none

/-- What is over stays as it is, and a move that comes after the time has run out is not made: it
finds the game without a result, or ended by the clocks. -/
structure Finished (h : Host) (e : Int × HostEvent) (h' : Host) : Prop where
  kept : h.gameResult ≠ none → Kept h h'
  late : (h.askedMove e.2).isSome = true → h.outOfTime e.1 = true →
    h'.chessState = h.chessState ∧ h'.moveHistory = h.moveHistory ∧
      (h'.gameResult = none ∨ ∃ winner, h'.gameResult = some (.timeout winner))

/-- No move that would be made comes after the time has run out. -/
def InTime (h : Host) (e : Int × HostEvent) : Prop :=
  ∀ peerId rawMove, h.askedMove e.2 = some (peerId, rawMove) → h.outOfTime e.1 = true →
    h.requestedMove peerId rawMove = none

/-! ## The clocks -/

theorem tickClocks_of_over (hover : h.phase = .gameOver) : h.tickClocks now = h := by
  rw [tickClocks, clocksRun, hover]
  rfl

theorem pushState_of_over (hover : h.phase = .gameOver) : h.pushState now = h :=
  tickClocks_of_over hover

theorem Over.endGame (result : GameResult) : (h.endGame result).Over := fun _ => rfl

theorem spend_phase : (h.spend now).phase = h.phase ∧ (h.spend now).gameResult = h.gameResult ∧
    (h.spend now).chessState = h.chessState ∧ (h.spend now).moveHistory = h.moveHistory := by
  rw [spend]
  cases h.chessState.turn <;> exact ⟨rfl, rfl, rfl, rfl⟩

theorem Over.spend (H : h.Over) : (h.spend now).Over := by
  intro hresult
  rw [spend_phase.2.1] at hresult
  rw [spend_phase.1]
  exact H hresult

theorem Over.tickClocks (H : h.Over) : (h.tickClocks now).Over := by
  rw [Host.tickClocks]
  split
  · split
    · exact .endGame _
    · exact H.spend
  · exact H

theorem Over.pushState (H : h.Over) : (h.pushState now).Over := H.tickClocks

theorem tickClocks_chessState : (h.tickClocks now).chessState = h.chessState ∧
    (h.tickClocks now).moveHistory = h.moveHistory := by
  rw [tickClocks]
  split
  · split
    · exact spend_phase.2.2
    · exact spend_phase.2.2
  · exact ⟨rfl, rfl⟩

/-! ## Every operation -/

theorem over_of_none (hnone : h.gameResult = none) : h.Over := fun hresult => absurd hnone hresult

theorem Over.addPlayer (H : h.Over) (hadd : h.addPlayer now peerId = some h') : h'.Over := by
  rw [Host.addPlayer] at hadd
  split at hadd
  · cases hadd
    exact H
  split at hadd
  · cases hadd
  · cases hadd
    exact Over.pushState H

theorem Over.removePlayer (H : h.Over) : (h.removePlayer now peerId).Over := by
  rw [Host.removePlayer]
  split
  · exact H
  dsimp only
  split
  · exact .endGame _
  refine Over.pushState fun hresult => ?_
  have hover := H hresult
  rw [hover]
  rfl

theorem Over.startGame (H : h.Over) : (h.startGame now).Over := by
  rw [Host.startGame]
  split
  · exact H
  · split
    · exact H.pushState
    · exact Over.pushState (over_of_none rfl)

theorem Over.playMove (H : h.Over) (hplay : h.playMove now move = some h') :
    h'.Over := by
  obtain ⟨chessState, -, rfl⟩ := map_eq_some_iff.mp hplay
  dsimp only
  split
  · exact .endGame _
  · exact Over.pushState H

theorem Over.applyAction {action : Action} (H : h.Over)
    (happly : h.applyAction now peerId action = some h') : h'.Over := by
  cases action with
  | move rawMove =>
    obtain ⟨move, -, hplay⟩ := bind_eq_some_iff.mp happly
    exact H.tickClocks.playMove hplay
  | resign =>
    obtain ⟨player, -, rfl⟩ := map_eq_some_iff.mp happly
    exact .endGame _
  | offerDraw =>
    obtain ⟨player, -, rfl⟩ := map_eq_some_iff.mp happly
    exact Over.pushState H
  | acceptDraw =>
    rw [Host.applyAction, acceptDraw] at happly
    split at happly
    · split at happly
      · cases happly
        exact .endGame _
      · cases happly
    · cases happly
  | declineDraw =>
    rw [Host.applyAction, declineDraw] at happly
    split at happly
    · split at happly
      · cases happly
        exact Over.pushState H
      · cases happly
    · cases happly
  | unknown => cases happly

theorem Over.getD (H : h.Over) (hx : ∀ h', x = some h' → h'.Over) :
    (x.getD h).Over := by
  cases x with
  | none => exact H
  | some h' => exact hx h' rfl

theorem Over.after (H : h.Over) (now : Int) (e : HostEvent) : (h.after now e).Over := by
  cases e with
  | wire fromId wire =>
    rw [Host.after]
    cases wire with
    | join gameId =>
      rw [onWire]
      split
      · exact H
      split
      · exact H
      · split
        · exact H
        · exact H.getD fun h' hadd => H.addPlayer hadd
    | leave => exact H.removePlayer
    | action gameId action =>
      rw [onWire]
      split
      · exact H.getD fun h' happly => H.applyAction happly
      · exact H
    | unknown => exact H
  | action peerId action => exact H.getD fun h' happly => H.applyAction happly
  | tick => exact H.tickClocks.pushState
  | start => exact H.startGame
  | kick peerId =>
    rw [Host.after, kickPlayer]
    split
    · exact H
    · exact H.removePlayer.pushState
  | disconnected peerId => exact H.removePlayer
  | settings patch =>
    rw [Host.after, updateSettings]
    split
    · exact H.pushState
    · exact Over.pushState H
  | invite peerId =>
    rw [Host.after, invitePeer]
    split
    · exact H
    · exact Over.pushState H
  | save => exact H.pushState

/-! ## What is over -/

theorem Kept.refl : Kept h h := ⟨rfl, rfl, rfl, rfl, rfl⟩

theorem kept_getD (hx : ∀ h', x = some h' → Kept h h') : Kept h (x.getD h) := by
  cases x with
  | none => exact .refl
  | some h' => exact hx h' rfl

section
variable (hover : h.phase = .gameOver)
include hover

theorem kept_pushState (hphase : h'.phase = h.phase) (hkept : Kept h h') :
    Kept h (h'.pushState now) := by
  rwa [pushState_of_over (hphase.trans hover)]

theorem kept_addPlayer (hadd : h.addPlayer now peerId = some h') : Kept h h' := by
  rw [addPlayer] at hadd
  split at hadd
  · cases hadd
    exact .refl
  split at hadd
  · cases hadd
  · cases hadd
    exact kept_pushState hover rfl ⟨rfl, rfl, rfl, rfl, rfl⟩

theorem removePlayer_of_over :
    Kept h (h.removePlayer now peerId) ∧ (h.removePlayer now peerId).phase = .gameOver := by
  rw [removePlayer]
  split
  · exact ⟨.refl, hover⟩
  rw [if_neg (by rw [hover]; rintro ⟨h, -⟩; cases h), if_neg (by rw [hover]; decide)]
  refine ⟨kept_pushState hover rfl ⟨rfl, rfl, rfl, rfl, rfl⟩, ?_⟩
  exact (congrArg Host.phase (pushState_of_over (by exact hover))).trans hover

theorem requestedMove_of_over : h.requestedMove peerId rawMove = none := by
  rw [requestedMove]
  split
  · rfl
  · rw [hover]
    rfl

theorem playerInGame_of_over : h.playerInGame peerId = none := by
  rw [playerInGame, hover]
  rfl

theorem kept_applyAction {action : Action} (happly : h.applyAction now peerId action = some h') :
    Kept h h' := by
  cases action with
  | move rawMove =>
    rw [applyAction, makeMove, requestedMove_of_over hover] at happly
    cases happly
  | resign =>
    rw [applyAction, resign, playerInGame_of_over hover] at happly
    cases happly
  | offerDraw =>
    rw [applyAction, offerDraw, playerInGame_of_over hover] at happly
    cases happly
  | acceptDraw =>
    rw [applyAction, acceptDraw] at happly
    split at happly
    · rw [if_neg (by rw [hover]; rintro ⟨h, -⟩; cases h)] at happly
      cases happly
    · cases happly
  | declineDraw =>
    rw [applyAction, declineDraw] at happly
    split at happly
    · split at happly
      · cases happly
        exact kept_pushState hover rfl ⟨rfl, rfl, rfl, rfl, rfl⟩
      · cases happly
    · cases happly
  | unknown => cases happly

theorem kept_after (now : Int) (e : HostEvent) : Kept h (h.after now e) := by
  cases e with
  | wire fromId wire =>
    rw [after]
    cases wire with
    | join gameId =>
      rw [onWire]
      split
      · exact .refl
      split
      · exact .refl
      · split
        · exact .refl
        · exact kept_getD fun h' hadd => kept_addPlayer hover hadd
    | leave => exact (removePlayer_of_over hover).1
    | action gameId action =>
      rw [onWire]
      split
      · exact kept_getD fun h' happly => kept_applyAction hover happly
      · exact .refl
    | unknown => exact .refl
  | action peerId action => exact kept_getD fun h' happly => kept_applyAction hover happly
  | tick =>
    rw [after, tickClocks_of_over hover, pushState_of_over hover]
    exact .refl
  | start =>
    rw [after, startGame, if_pos (by rw [hover]; decide)]
    exact .refl
  | kick peerId =>
    rw [after, kickPlayer]
    split
    · exact .refl
    have hremoved : Kept h (h.removePlayer now peerId) ∧
        (h.removePlayer now peerId).phase = .gameOver := removePlayer_of_over hover
    obtain ⟨hkept, hphase⟩ := hremoved
    rwa [pushState_of_over hphase]
  | disconnected peerId => exact (removePlayer_of_over hover).1
  | settings patch =>
    rw [after, updateSettings, if_pos (by rw [hover]; decide), pushState_of_over hover]
    exact .refl
  | invite peerId =>
    rw [after, invitePeer]
    split
    · exact .refl
    · exact kept_pushState hover rfl ⟨rfl, rfl, rfl, rfl, rfl⟩
  | save =>
    rw [after, pushState_of_over hover]
    exact .refl

end

/-! ## Moves -/

theorem after_of_asked {e : HostEvent} (hasked : h.askedMove e = some (peerId, rawMove)) :
    h.after now e = (h.makeMove now peerId rawMove).getD h := by
  cases e with
  | wire fromId wire =>
    cases wire with
    | action gameId action =>
      cases action with
      | move rawMove' =>
        obtain ⟨hgame, hasked⟩ := ite_none_right_eq_some.mp hasked
        cases hasked
        exact if_pos hgame
      | resign | offerDraw | acceptDraw | declineDraw | unknown => cases hasked
    | join | leave | unknown => cases hasked
  | action peerId' action =>
    cases action with
    | move rawMove' =>
      cases hasked
      rfl
    | resign | offerDraw | acceptDraw | declineDraw | unknown => cases hasked
  | tick | start | kick | disconnected | settings | invite | save => cases hasked

theorem requestedMove_spec (hmove : h.requestedMove peerId rawMove = some move) :
    ∃ player, h.player? peerId = some player ∧ player.color = h.chessState.turn ∧
      move ∈ getLegalMoves h.chessState h.chessState.turn := by
  rw [requestedMove] at hmove
  split at hmove
  · cases hmove
  rename_i player hplayer
  split at hmove
  · cases hmove
  split at hmove
  · cases hmove
  rename_i hturn
  have hcolor : player.color = h.chessState.turn := by simpa using hturn
  obtain ⟨wanted, -, hfind⟩ := bind_eq_some_iff.mp hmove
  exact ⟨player, hplayer, hcolor, hcolor ▸ List.mem_of_find?_eq_some hfind⟩

theorem isSome_applyMove {s : Position} {color : Color} (hlegal : move ∈ getLegalMoves s color) : (applyMove s move).isSome = true := by
  obtain ⟨-, hcheck⟩ := List.mem_filter.mp hlegal
  obtain ⟨after, hafter, -⟩ := (any_eq_true _ _).mp hcheck
  rw [hafter]
  rfl

theorem playMove_spec (hplay : h.playMove now move = some h') :
    applyMove h.chessState move = some h'.chessState ∧
      h'.moveHistory.length = h.moveHistory.length + 1 := by
  obtain ⟨chessState, happly, rfl⟩ := map_eq_some_iff.mp hplay
  dsimp only
  split
  · exact ⟨happly, by simp [endGame]⟩
  · rw [pushState, tickClocks_chessState.1, tickClocks_chessState.2]
    exact ⟨happly, by simp⟩

theorem makeMove_spec (now : Int) (hmove : h.requestedMove peerId rawMove = some move) :
    ∃ h', h.makeMove now peerId rawMove = some h' ∧
      applyMove h.chessState move = some h'.chessState ∧
        h'.moveHistory.length = h.moveHistory.length + 1 := by
  obtain ⟨player, -, -, hlegal⟩ := requestedMove_spec hmove
  have hticked : (h.tickClocks now).chessState = h.chessState ∧
      (h.tickClocks now).moveHistory = h.moveHistory := tickClocks_chessState
  obtain ⟨hstate, hhistory⟩ := hticked
  obtain ⟨s, hs⟩ := isSome_iff_exists.mp (isSome_applyMove hlegal)
  have hplays : ∃ h', (h.tickClocks now).playMove now move = some h' := by
    rw [playMove, hstate, hs]
    exact ⟨_, rfl⟩
  obtain ⟨h', hplay⟩ := hplays
  have hspec := playMove_spec hplay
  rw [hstate, hhistory] at hspec
  exact ⟨h', bind_eq_some_iff.mpr ⟨move, hmove, hplay⟩, hspec⟩

/-! ## The law -/

theorem finished_iff (H : h.Over) (hstep : h.step e = some h') : Finished h e h' ↔ InTime h e := by
  obtain ⟨now, e⟩ := e
  obtain rfl : h.after now e = h' := some.inj hstep
  constructor
  · intro hfinished peerId rawMove hasked hlate
    by_contra hrequested
    obtain ⟨move, hmove⟩ := ne_none_iff_exists'.mp hrequested
    obtain ⟨h', hmade, -, hlength⟩ := makeMove_spec now hmove
    have hafter : h.after now e = h' := by rw [after_of_asked hasked, hmade, getD_some]
    obtain ⟨-, hhistory, -⟩ := hfinished.late (by rw [hasked]; rfl) hlate
    rw [hafter] at hhistory
    rw [hhistory] at hlength
    omega
  · intro hintime
    refine ⟨fun hresult => kept_after (H hresult) now e, fun hasked hlate => ?_⟩
    obtain ⟨⟨peerId, rawMove⟩, hasked⟩ := isSome_iff_exists.mp hasked
    have hnone := hintime peerId rawMove hasked hlate
    have hafter : h.after now e = h := by
      rw [after_of_asked hasked, makeMove, hnone]
      rfl
    rw [hafter]
    refine ⟨rfl, rfl, .inl ?_⟩
    have hrun := ((Bool.and_eq_true _ _).mp hlate).1
    exact of_decide_eq_true ((Bool.and_eq_true _ _).mp hrun).2

/-- A host as it is created, for a new game or one that was saved -/
inductive Created : Host → Prop
  | new (settings : SettingsInput) (selfId gameId : String) (now : Int) :
    Created (newHost settings selfId gameId now)
  | restored (settings : SettingsInput) (selfId gameId : String) (now : Int)
    (present : String → Bool) (saved : SavedGame) :
    Created (restoredHost settings selfId gameId now present saved)

theorem Created.over (H : Created h) : h.Over := by
  cases H with
  | new => exact Over.getD (over_of_none rfl) fun h' hadd => Over.addPlayer (over_of_none rfl) hadd
  | restored settings selfId gameId now present saved =>
    exact Over.getD saved.ended fun h' hadd => Over.addPlayer (by exact saved.ended) hadd

/-- What is over stays as it is, and no move is made out of time, in every step of a run if no move
that would be made comes after the time has run out, and only then. -/
theorem finished_iff_inTime {events : List (Int × HostEvent)} (hcreated : Created h)
    (hrun : FreeRun step h events h') :
    EveryStep step Finished h events ↔ Run step InTime h events h' := by
  refine hrun.everyStep_iff (I := Over) (fun H hstep _ => ?_)
    (fun H hstep => finished_iff H hstep) hcreated.over
  exact some.inj hstep ▸ H.after _ _

/-- The king's pawn goes two steps. -/
def kingsPawn : RawMove := (moveToWire (Move.toObject ⟨(6, 4), (4, 4), none, false, none⟩)).raw

/-- A game of a minute each, in which the first move is made in time -/
def timelyMove : List (Int × HostEvent) :=
  [(0, .wire "b" (.join "g")), (0, .start), (59900, .action "a" (.move kingsPawn))]

theorem finished_iff_inTime_timely :
    let h := newHost ⟨some true, some (.finite 60)⟩ "a" "g" 0
    ∃ h', FreeRun step h timelyMove h' ∧
      (EveryStep step Finished h timelyMove ↔ Run step InTime h timelyMove h') := by
  intro h
  have hrun : FreeRun step h timelyMove _ :=
    .cons trivial rfl (.cons trivial rfl (.cons trivial rfl .nil))
  exact ⟨_, hrun, finished_iff_inTime (.new _ _ _ _) hrun⟩

/-- A game of a minute each, in which the first move comes too late -/
def lateMove : List (Int × HostEvent) :=
  [(0, .wire "b" (.join "g")), (0, .start), (59900, .tick), (60100, .action "a" (.move kingsPawn))]

/-- The move is made, and the game is over by the clocks. -/
theorem lateMove_made :
    let h := newHost ⟨some true, some (.finite 60)⟩ "a" "g" 0
    Created h ∧ ∃ h', FreeRun step h lateMove h' ∧ h'.gameResult = some (.timeout .black) ∧
      h'.moveHistory.length = 1 ∧ ¬EveryStep step Finished h lateMove := by
  intro h
  have hrun : FreeRun step h lateMove _ :=
    .cons trivial rfl (.cons trivial rfl (.cons trivial rfl (.cons trivial rfl .nil)))
  refine ⟨.new _ _ _ _, _, hrun, by decide +kernel, by decide +kernel, fun hevery => ?_⟩
  have hlast := ((((hevery _ rfl).2 _ rfl).2 _ rfl).2 _ rfl).1
  obtain ⟨-, hhistory, -⟩ := hlast.late rfl (by decide +kernel)
  have hlength := congrArg List.length hhistory
  revert hlength
  decide +kernel

end Bluetalk.Chess.Host

/-!
## Legal moves on the wire

What a player gets to know of its legal moves. The wire form of a move is read as that move
(`makeMove_wire`), but the list that is sent has been brought into that form twice.
-/

namespace Bluetalk.Chess.Host

variable {h : Host} {peerId : String} {player : Player} {move : Move}

/-- The legal moves of a player, while it is to move -/
def ownMoves (h : Host) (player : Player) : List Move :=
  if h.phase = .playing ∧ h.gameResult = none ∧ player.color = h.chessState.turn then
    getLegalMoves h.chessState player.color
  else []

/-- An entry of the list is the wire form of a move, and is taken for that move when it comes
back. -/
def Stands (h : Host) (peerId : String) (move : Move) (entry : MoveObject) : Prop :=
  entry = moveToWire move.toObject ∧ ∀ now, ∃ h', h.makeMove now peerId entry.raw = some h' ∧
    applyMove h.chessState move = some h'.chessState

/-- The list that is sent stands for the legal moves of the player. -/
def Faithful (h : Host) (peerId : String) (player : Player) : Prop :=
  List.Forall₂ (h.Stands peerId) (h.ownMoves player) (h.sentMoves peerId)

theorem getLegalMovesForPeer_eq (hplayer : h.player? peerId = some player) :
    h.getLegalMovesForPeer peerId = movesToWire ((h.ownMoves player).map Move.toObject) := by
  rw [getLegalMovesForPeer, hplayer, ownMoves]
  by_cases hphase : h.phase = .playing
  · by_cases hresult : h.gameResult = none
    · by_cases hcolor : player.color = h.chessState.turn
      · simp [hphase, hresult, hcolor]
      · simp [hphase, hresult, hcolor, movesToWire]
    · simp [hphase, hresult, movesToWire]
  · simp [hphase, movesToWire]

theorem makeMove_twice (now : Int) (move : MoveObject) :
    h.makeMove now peerId (moveToWire (moveToWire move)).raw = none := by
  have hrequested : h.requestedMove peerId (moveToWire (moveToWire move)).raw = none := by
    rw [requestedMove]
    split
    · rfl
    · rw [normalizeMove_twice, bind_none, ite_self, ite_self]
  rw [makeMove, hrequested]
  rfl

theorem not_faithful (hplayer : h.player? peerId = some player) (hmoves : h.ownMoves player ≠ []) :
    ¬h.Faithful peerId player := by
  rw [Faithful, sentMoves, getLegalMovesForPeer_eq hplayer]
  cases hlist : h.ownMoves player with
  | nil => exact absurd hlist hmoves
  | cons move moves =>
    rintro (_ | ⟨⟨-, hstands⟩, -⟩)
    obtain ⟨h', hmade, -⟩ := hstands 0
    rw [makeMove_twice] at hmade
    cases hmade

/-- A seated player is sent its legal moves if it has none, as when it is not to move, and only
then. -/
theorem faithful_iff (hplayer : h.player? peerId = some player) :
    h.Faithful peerId player ↔ h.ownMoves player = [] := by
  constructor
  · intro hfaithful
    by_contra hmoves
    exact not_faithful hplayer hmoves hfaithful
  · intro hnil
    rw [Faithful, sentMoves, getLegalMovesForPeer_eq hplayer, hnil]
    exact .nil

/-- A game of two without clocks, after the host has made a move -/
def blackToMove : Host :=
  ((((newHost ⟨some true, none⟩ "a" "g" 0).after 0 (.wire "b" (.join "g"))).after 0 .start).after 0
    (.action "a" (.move kingsPawn)))

theorem faithful_iff_blackToMove :
    blackToMove.Faithful "a" ⟨"a", 0, .white, true⟩ ↔
      blackToMove.ownMoves ⟨"a", 0, .white, true⟩ = [] :=
  faithful_iff (by decide +kernel)

/-- The other player is to move, and its list does not stand for its moves. -/
theorem blackToMove_misled : ∃ h, Created h ∧ FreeRun step h [(0, .wire "b" (.join "g")), (0, .start),
      (0, .action "a" (.move kingsPawn))] blackToMove ∧
    blackToMove.player? "b" = some ⟨"b", 1, .black, true⟩ ∧ "b" ≠ blackToMove.selfId ∧
      ¬blackToMove.Faithful "b" ⟨"b", 1, .black, true⟩ := by
  have hplayer : blackToMove.player? "b" = some ⟨"b", 1, .black, true⟩ := by decide +kernel
  refine ⟨_, .new ⟨some true, none⟩ "a" "g" 0,
    .cons trivial rfl (.cons trivial rfl (.cons trivial rfl .nil)), hplayer, by decide +kernel,
    not_faithful hplayer ?_⟩
  decide +kernel

end Bluetalk.Chess.Host

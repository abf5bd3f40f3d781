import Bluetalk.Uno.Moves

/-!
# Who sits at the table

No two players have one peer id, and while a round goes on the table is not empty.
-/

open List Option

namespace Bluetalk.Uno

/-- The player that an event takes off the table -/
def HostEvent.removes : HostEvent → Option String
  | .message fromId .leave => some fromId
  | .kick peerId => some peerId
  | _ => none

/-- The player that leaves the table or goes offline by an event -/
def HostEvent.departs : HostEvent → Option String
  | .message fromId .leave => some fromId
  | .kick peerId => some peerId
  | .disconnected peerId => some peerId
  | _ => none

namespace Game

variable {s s' : Game} {i idx : Nat} {peerId : String} {e : HostEvent}

def peerIds (s : Game) : List String := s.players.map (·.peerId)

theorem peerIds_eq_of_seats (h : s'.seats = s.seats) : s'.peerIds = s.peerIds := by
  have hmap := congrArg (List.map Prod.fst) h
  rw [seats, seats, List.map_map, List.map_map] at hmap
  exact hmap

theorem peerIds_setConnected (s : Game) (i : Nat) (connected : Bool) :
    (s.modifyPlayer i (·.setConnected connected)).peerIds = s.peerIds :=
  map_modify_of_eq (f := fun p : Player => p.setConnected connected) (fun _ => rfl) _ _

theorem playerIndex_eq_none : s.playerIndex peerId = none ↔ peerId ∉ s.peerIds :=
  findIdx?_key_eq_none

/-! ## A player is taken off -/

/-- The players besides `peerId` that are connected -/
def others (s : Game) (peerId : String) : List Player :=
  s.activePlayers.filter (·.peerId ≠ peerId)

theorem activePlayers_takeOff (hs : s.peerIds.Nodup) (h : s.playerIndex peerId = some idx) :
    (s.takeOff peerId idx).activePlayers = s.others peerId := by
  rw [activePlayers, takeOff, others, activePlayers, eraseIdx_findIdx? hs h, filter_comm]

theorem forget_eq_some {o : Option String} {c : String} (h : forget peerId o = some c) :
    o = some c ∧ c ≠ peerId := by
  rw [forget] at h
  split at h
  · cases h
  · rename_i hne
    exact ⟨h, fun hc => hne (hc ▸ h)⟩

/-- What becomes of the table when a player is taken off it -/
structure Dropped (s : Game) (peerId : String) (idx : Nat) (s' : Game) : Prop where
  index : s.playerIndex peerId = some idx
  other : peerId ≠ s.selfId
  players : s'.players = s.players.eraseIdx idx
  piles : s'.piles = s.piles
  phase : s'.phase =
    if s.phase = .playing ∧ (s.takeOff peerId idx).activePlayers.length < 2 then .lobby else s.phase

theorem dropPlayer_cases (s : Game) (peerId : String) :
    s.dropPlayer peerId = s ∧ (peerId = s.selfId ∨ peerId ∉ s.peerIds) ∨
      ∃ idx, Dropped s peerId idx (s.dropPlayer peerId) := by
  rw [dropPlayer]
  split
  · rename_i hnone
    exact .inl ⟨rfl, .inr (playerIndex_eq_none.mp hnone)⟩
  rename_i idx hidx
  dsimp only
  split
  · rename_i hself
    exact .inl ⟨rfl, .inl hself⟩
  rename_i hother
  refine .inr ⟨idx, ?_⟩
  split
  · rename_i hfew
    exact ⟨hidx, hother, rfl, rfl, (if_pos hfew).symm⟩
  rename_i hmany
  have hphase : (s.takeOff peerId idx).phase = if s.phase = .playing ∧
      (s.takeOff peerId idx).activePlayers.length < 2 then .lobby else s.phase :=
    (if_neg hmany).symm
  split
  · split
    · exact ⟨hidx, hother, rfl, rfl, hphase⟩
    · exact ⟨hidx, hother, rfl, rfl, hphase⟩
  · exact ⟨hidx, hother, rfl, rfl, hphase⟩

theorem nodup_dropPlayer (hs : s.peerIds.Nodup) : (s.dropPlayer peerId).peerIds.Nodup := by
  obtain ⟨heq, -⟩ | ⟨idx, hdropped⟩ := dropPlayer_cases s peerId
  · rwa [heq]
  · rw [peerIds, hdropped.players, ← eraseIdx_map]
    exact hs.sublist (eraseIdx_sublist _ _)

/-! ## A player joins, goes offline or comes back -/

theorem moves_releaseTurn (s : Game) (peerId : String) (idx : Nat) :
    Moves s (s.releaseTurn peerId idx) := by
  rw [releaseTurn]
  split
  · have hcolor : Moves s { s with
        pendingColorChoice := none, activeColor := some (s.activeColor.getD .red) } :=
      ⟨fun _ => rfl, rfl, id⟩
    dsimp only
    split
    · exact hcolor.trans (moves_resolveDraw _ 4 .draw4)
    · exact hcolor.trans (moves_passTo _ _)
  · split
    · dsimp only
      split
      · exact ⟨fun _ => rfl, rfl, id⟩
      · exact ⟨fun _ => rfl, rfl, id⟩
    · exact .refl s

/-- Who sits at the table stays, with its cards, and no round begins. -/
structure Stays (s s' : Game) : Prop where
  cards : 0 < s.players.length → s'.cards = s.cards
  peerIds : s'.peerIds = s.peerIds
  phase : s'.phase = .playing → s.phase = .playing

theorem Moves.stays (h : Moves s s') : Stays s s' :=
  ⟨h.cards, peerIds_eq_of_seats h.seats, h.phase⟩

theorem Stays.length (h : Stays s s') : s'.players.length = s.players.length := by
  have hlength := congrArg List.length h.peerIds
  rwa [Game.peerIds, Game.peerIds, length_map, length_map] at hlength

theorem Stays.trans {s'' : Game} (h : Stays s s') (h' : Stays s' s'') : Stays s s'' where
  cards hs := (h'.cards (h.length.symm ▸ hs)).trans (h.cards hs)
  peerIds := h'.peerIds.trans h.peerIds
  phase := h.phase ∘ h'.phase

theorem stays_setConnected (s : Game) (i : Nat) (connected : Bool) :
    Stays s (s.modifyPlayer i (·.setConnected connected)) where
  cards _ := congrArg (· + s.piles) (hands_modifyPlayer fun _ => rfl)
  peerIds := peerIds_setConnected s i connected
  phase := id

theorem stays_rejoin (s : Game) (i : Nat) : Stays s (s.rejoin i) := by
  have h := stays_setConnected s i true
  rw [rejoin]
  split
  · exact h.trans ⟨fun _ => rfl, rfl, id⟩
  · split
    · exact h.trans ⟨fun _ => rfl, rfl, id⟩
    · exact h

theorem stays_reconnectPlayer (s : Game) (peerId : String) : Stays s (s.reconnectPlayer peerId) := by
  rw [reconnectPlayer]
  split
  · exact (Moves.refl s).stays
  split
  · exact (Moves.refl s).stays
  have h := stays_setConnected s
  dsimp only
  split
  · exact (h _ true).trans ⟨fun _ => rfl, rfl, id⟩
  · exact h _ true

theorem stays_handleDisconnect (hphase : s.phase = .playing) :
    Stays s (s.handleDisconnect peerId) := by
  rw [handleDisconnect]
  split
  · exact (Moves.refl s).stays
  split
  · exact (Moves.refl s).stays
  rw [if_neg (not_not.mpr hphase)]
  split
  · exact (Moves.refl s).stays
  rename_i idx _ _
  have h := (stays_setConnected s idx false).trans (moves_releaseTurn _ peerId idx).stays
  dsimp only
  split
  · exact h.trans ⟨fun _ => rfl, rfl, id⟩
  · exact h.trans ⟨fun _ => rfl, rfl, id⟩

theorem bySeat_perm (players : List Player) : (bySeat players).Perm players :=
  perm_insertionSort _ _

theorem addPlayer_cases (h : s.addPlayer peerId = some s') :
    (∃ i, s' = s.modifyPlayer i (·.setConnected true)) ∨
      s'.phase = s.phase ∧ peerId ∉ s.peerIds ∧ s'.peerIds.Perm (peerId :: s.peerIds) := by
  rw [addPlayer] at h
  split at h
  · cases h
    exact .inl ⟨_, rfl⟩
  rename_i hnone
  split at h
  · cases h
  obtain ⟨seat, -, rfl⟩ := map_eq_some_iff.mp h
  have hperm := ((bySeat_perm (s.players ++ [⟨peerId, seat, [], false, 0, true⟩])).trans
    (perm_append_singleton _ _)).map (·.peerId)
  refine .inr ⟨?_, playerIndex_eq_none.mp hnone, ?_⟩
  · dsimp only
    split
    · rfl
    · rfl
  dsimp only
  split
  · exact hperm
  · exact hperm

theorem handleJoin_cases (s : Game) (peerId : String) : Stays s (s.handleJoin peerId) ∨
    (s.handleJoin peerId).phase ≠ .playing ∧ peerId ∉ s.peerIds ∧
      (s.handleJoin peerId).peerIds.Perm (peerId :: s.peerIds) := by
  rw [handleJoin]
  split
  · exact .inl (stays_rejoin s _)
  rename_i hnone
  split
  · exact .inl (Moves.refl s).stays
  rename_i hphase
  split
  · exact .inl (Moves.refl s).stays
  cases hadd : s.addPlayer peerId with
  | none => exact .inl (Moves.refl s).stays
  | some s' =>
    rw [getD_some]
    obtain ⟨i, rfl⟩ | ⟨hsame, hnew, hperm⟩ := addPlayer_cases hadd
    · exact .inl (stays_setConnected s i true)
    · refine .inr ⟨fun hplaying => ?_, hnew, hperm⟩
      rw [← hsame, hplaying] at hphase
      exact hphase ⟨by decide, by decide⟩

/-! ## A table is opened -/

theorem nodup_restorePlayers (cfg : Settings) (present : String → Bool) (saved : List SavedPlayer) :
    ((restorePlayers cfg present saved).map (·.peerId)).Nodup := by
  refine foldlRecOn (motive := fun players : List Player => (players.map (·.peerId)).Nodup) (b := [])
    saved _ nodup_nil fun players h row _ => ?_
  split
  · exact h
  rename_i hnew
  rw [map_append, map_singleton, ← concat_eq_append, nodup_concat]
  refine ⟨fun hmem => hnew ?_, h⟩
  obtain ⟨p, hp, hpid⟩ := mem_map.mp hmem
  exact any_eq_true.mpr ⟨p, hp, decide_eq_true hpid⟩

theorem Created.spec (h : s.Created) : s.peerIds.Nodup ∧ s.phase = .lobby := by
  obtain ⟨settings, selfId, gameId, fallback, saved, roundNumber, invitedPeers, isPeer, random,
    rfl⟩ := h
  rw [createHost]
  generalize hs : Game.mk .. = s
  have hnodup : s.peerIds.Nodup := by
    rw [← hs]
    exact ((bySeat_perm _).map (·.peerId)).nodup_iff.mpr (nodup_restorePlayers _ _ saved)
  have hphase : s.phase = .lobby := by rw [← hs]
  cases hadd : s.addPlayer selfId with
  | none => exact ⟨hnodup, hphase⟩
  | some s' =>
    obtain ⟨i, rfl⟩ | ⟨hsame, hnew, hperm⟩ := addPlayer_cases hadd
    · exact ⟨peerIds_setConnected s i true ▸ hnodup, hphase⟩
    · exact ⟨hperm.nodup_iff.mpr (nodup_cons.mpr ⟨hnew, hnodup⟩), hsame.trans hphase⟩

/-! ## A round begins -/

theorem frame_dealTo (s : Game) (k : Nat) : Frame s (s.dealTo k) := by
  have hclear : Frame s (s.modifyPlayer k (·.clearHand)) :=
    ⟨rfl, seats_modifyPlayer (f := (·.clearHand)) fun _ => ⟨rfl, rfl⟩, rfl, rfl, rfl, rfl, rfl, rfl,
      rfl⟩
  exact hclear.trans (frame_drawCardsFor _ k 7)

theorem players_pickStarterFrom (s : Game) (skipped pile : List Card) :
    (s.pickStarterFrom skipped pile).players = s.players := by
  induction pile generalizing skipped with
  | nil => cases skipped <;> rfl
  | cons card cards ih =>
    rw [pickStarterFrom]
    split
    · exact ih _
    · split
      · rfl
      · rfl

theorem frame_pickStarterFrom (s : Game) (skipped pile : List Card) :
    Frame s (s.pickStarterFrom skipped pile) := by
  induction pile generalizing skipped with
  | nil =>
    cases skipped with
    | nil | cons => exact ⟨rfl, rfl, rfl, rfl, rfl, rfl, rfl, rfl, rfl⟩
  | cons card cards ih =>
    rw [pickStarterFrom]
    split
    · exact ih _
    · split
      · exact ⟨rfl, rfl, rfl, rfl, rfl, rfl, rfl, rfl, rfl⟩
      · exact ⟨rfl, rfl, rfl, rfl, rfl, rfl, rfl, rfl, rfl⟩

theorem frame_deal (s : Game) : Frame s.newRound s.deal := by
  have hfold : ∀ (ks : List Nat) (t : Game), Frame t (ks.foldl dealTo t) := by
    intro ks
    induction ks with
    | nil => exact fun t => .refl t
    | cons k ks ih => exact fun t => (frame_dealTo t k).trans (ih _)
  exact (hfold _ _).trans (frame_pickStarterFrom _ _ _)

theorem seats_deal (s : Game) : s.deal.seats = s.seats := (frame_deal s).seats

/-- A round that begins -/
structure Started (s s' : Game) : Prop where
  idle : s.phase ≠ .playing
  enough : 2 ≤ s.activePlayers.length
  players : s'.players = s.deal.players
  piles : s'.piles = s.deal.piles
  phase : s'.phase = .playing
  choice : s'.pendingColorChoice = none
  uno : s'.pendingUnoPeer = none
  turn : ∃ idx, s'.toActIdx = s.deal.nextIndex idx 1

theorem startGame_cases (s : Game) :
    Stays s s.startGame ∨ (s.startGame.phase ≠ .playing ∧ s.startGame.seats = s.seats) ∨
      Started s s.startGame := by
  rw [startGame]
  split
  · exact .inl (Moves.refl s).stays
  rename_i hphase
  have hidle : s.phase ≠ .playing := by
    intro hplaying
    rw [hplaying] at hphase
    exact hphase ⟨by decide, by decide⟩
  split
  · exact .inl (Moves.refl s).stays
  rename_i henough
  rw [not_or, not_lt, not_lt] at henough
  dsimp only
  split
  · exact .inr (.inl ⟨(fun h => by cases h), seats_deal s⟩)
  · exact .inr (.inr ⟨hidle, henough.2, rfl, rfl, rfl, (frame_deal s).choice,
      (frame_deal s).uno, _, rfl⟩)

/-! ## Steps -/

/-- What a step does to the players and their cards -/
inductive Outcome (s : Game) (e : HostEvent) (s' : Game) : Prop
  | stays (h : Stays s s')
    (hremoves : ∀ q, e.removes = some q → q = s.selfId ∨ q ∉ s.peerIds)
  | dropped (q : String) (idx : Nat) (h : Dropped s q idx s')
    (hremoves : e.removes = some q ∨ e.removes = none ∧ s.phase ≠ .playing)
  | joined (q : String) (hphase : s'.phase ≠ .playing) (hnew : q ∉ s.peerIds)
    (h : s'.peerIds.Perm (q :: s.peerIds)) (hremoves : e.removes = none)
  | idle (hphase : s'.phase ≠ .playing) (h : s'.seats = s.seats) (hremoves : e.removes = none)
  | started (h : Started s s') (hremoves : e.removes = none)

theorem outcome_dropPlayer {q : String} (h : e.removes = some q) :
    Outcome s e (s.dropPlayer q) := by
  obtain ⟨heq, hq⟩ | ⟨idx, hdropped⟩ := dropPlayer_cases s q
  · rw [heq]
    refine .stays (Moves.refl s).stays fun q' hq' => ?_
    obtain rfl := some.inj (h.symm.trans hq')
    exact hq
  · exact .dropped q idx hdropped (.inl h)

theorem outcome_startGame (h : e.removes = none) : Outcome s e s.startGame := by
  have hremoves : ∀ q, e.removes = some q → q = s.selfId ∨ q ∉ s.peerIds :=
    fun q hq => by cases h.symm.trans hq
  obtain hstays | ⟨hphase, hseats⟩ | hstarted := startGame_cases s
  · exact .stays hstays hremoves
  · exact .idle hphase hseats h
  · exact .started hstarted h

/-- In a round players leave only by `dropPlayer`; new ones come between two rounds. -/
theorem step_outcome (h : s.step e = some s') : Outcome s e s' := by
  cases e with
  | message fromId wire =>
    rw [step] at h
    split at h
    · cases h
    cases h
    cases wire with
    | join gameId =>
      rw [onWire]
      split
      · obtain hstays | ⟨hphase, hnew, hperm⟩ := handleJoin_cases s fromId
        · exact .stays hstays fun q hq => by cases hq
        · exact .joined fromId hphase hnew hperm rfl
      · exact .stays (Moves.refl s).stays fun q hq => by cases hq
    | leave => exact outcome_dropPlayer rfl
    | action gameId action =>
      rw [onWire]
      split
      · exact .stays (moves_getD_applyAction s fromId action).stays fun q hq => by cases hq
      · exact .stays (Moves.refl s).stays fun q hq => by cases hq
    | unknown => exact .stays (Moves.refl s).stays fun q hq => by cases hq
  | connected peerId =>
    cases h
    exact .stays (stays_reconnectPlayer s peerId) fun q hq => by cases hq
  | disconnected peerId =>
    cases h
    by_cases hphase : s.phase = .playing
    · exact .stays (stays_handleDisconnect hphase) fun q hq => by cases hq
    have hdrop : s.handleDisconnect peerId = s.dropPlayer peerId := by
      rw [handleDisconnect]
      split
      · rename_i hself
        rw [dropPlayer]
        split
        · rfl
        · exact (if_pos hself).symm
      split
      · rename_i hnone
        rw [dropPlayer, hnone]
      · rfl
    rw [hdrop]
    obtain ⟨heq, -⟩ | ⟨idx, hdropped⟩ := dropPlayer_cases s peerId
    · rw [heq]
      exact .stays (Moves.refl s).stays fun q hq => by cases hq
    · exact .dropped peerId idx hdropped (.inr ⟨rfl, hphase⟩)
  | ownAction action =>
    cases h
    exact .stays (moves_getD_applyAction s s.selfId action).stays fun q hq => by cases hq
  | start =>
    cases h
    exact outcome_startGame rfl
  | settings patch =>
    cases h
    refine .stays ?_ fun q hq => by cases hq
    rw [updateSettings]
    split
    · exact ⟨fun _ => rfl, rfl, id⟩
    · exact ⟨fun _ => rfl, rfl, id⟩
  | invite peerId =>
    cases h
    refine .stays ?_ fun q hq => by cases hq
    rw [invitePeer]
    split
    · exact (Moves.refl s).stays
    · exact ⟨fun _ => rfl, rfl, id⟩
  | kick peerId =>
    cases h
    exact outcome_dropPlayer rfl
  | turnTimer =>
    rw [step] at h
    split at h
    · cases h
      have hclear : Moves s { s with turnTimer := false } := ⟨fun _ => rfl, rfl, id⟩
      exact .stays (hclear.trans (moves_turnTimeout _)).stays fun q hq => by cases hq
    · cases h
  | autoStartTimer =>
    rw [step] at h
    split at h
    · dsimp only at h
      split at h
      · rename_i hlobby
        cases h
        -- The timer itself is no part of what a round begins with.
        obtain hstays | ⟨hphase, hseats⟩ | hstarted :=
          startGame_cases { s with autoStartTimer := false }
        · exact .stays ⟨hstays.cards, hstays.peerIds, hstays.phase⟩ fun q hq => by cases hq
        · exact .idle hphase hseats rfl
        · exact .started ⟨hstarted.idle, hstarted.enough, hstarted.players, hstarted.piles,
            hstarted.phase, hstarted.choice, hstarted.uno, hstarted.turn⟩ rfl
      · cases h
        exact .stays ⟨fun _ => rfl, rfl, id⟩ fun q hq => by cases hq
    · cases h

theorem started_of_step (hphase : s.phase ≠ .playing) (h : s.step e = some s')
    (hphase' : s'.phase = .playing) : Started s s' := by
  cases step_outcome h with
  | stays hstays => exact absurd (hstays.phase hphase') hphase
  | dropped q idx hdropped =>
    rw [hdropped.phase, if_neg fun h => hphase h.1] at hphase'
    exact absurd hphase' hphase
  | joined q hidle | idle hidle => exact absurd hphase' hidle
  | started hstarted => exact hstarted

end Game
end Bluetalk.Uno

import Bluetalk.BoardGames.Engines

/-!
# A table that can be played at

A running game has two players at least, one of whom is to act, and the discs on the board are those
of their moves in turns. A rematch with nobody to play against breaks that, and so does a player who
leaves discs behind (`sound_of_keeps`).
-/

open List Option

namespace Bluetalk.BoardGames

/-- The board after so many moves of players with these discs, from the first one on, who take turns
with legal moves that do not end the game -/
inductive Played {Move : Type} (R : Rules Move) (discs : List Nat) : Nat → Board → Prop
  | start : Played R discs 0 R.createEmptyBoard
  | move {n disc : Nat} {board board' : Board} {r c : Int} {move : Move} :
    Played R discs n board → discs[n % discs.length]? = some disc →
    R.place board disc move = some (board', r, c) → R.checkWin board' r c disc = none →
    R.isBoardFull board' = false → Played R discs (n + 1) board'

variable {Move : Type} {R : Rules Move} {board board' : Board} {order : List Nat}
  {disc n i k : Nat} {r c : Int} {peerId sender : String} {t t' : Table} {e : Event Move}

/-! ## Discs on the board -/

theorem has_iff : board.has disc = true ↔ ∃ i j : Nat, (board[i]?.bind fun row => row[j]?) = some disc := by
  rw [Board.has, List.any_eq_true]
  constructor
  · rintro ⟨row, hrow, hdisc⟩
    obtain ⟨i, hi⟩ := mem_iff_getElem?.mp hrow
    obtain ⟨j, hj⟩ := mem_iff_getElem?.mp (contains_iff_mem.mp hdisc)
    exact ⟨i, j, by rw [hi]; exact hj⟩
  · rintro ⟨i, j, h⟩
    obtain ⟨row, hi, hj⟩ := bind_eq_some_iff.mp h
    exact ⟨row, mem_of_getElem? hi, contains_iff_mem.mpr (mem_of_getElem? hj)⟩

theorem has_setCell (hempty : board.cell? r c = some 0) (hdisc : disc ≠ 0) (new : Nat) :
    (board.setCell r c new).has new = true ∧
      (board.has disc = true → (board.setCell r c new).has disc = true) := by
  rw [Board.cell?, ite_none_right_eq_some] at hempty
  obtain ⟨row, hrow, hcell⟩ := bind_eq_some_iff.mp hempty.2
  rw [has_iff, has_iff, has_iff]
  refine ⟨⟨r.toNat, c.toNat, ?_⟩, ?_⟩
  · rw [Board.setCell, getElem?_modify_eq, hrow]
    exact List.getElem?_set_self (List.getElem?_eq_some_iff.mp hcell).1
  rintro ⟨i, j, h⟩
  refine ⟨i, j, ?_⟩
  obtain ⟨row', hrow', hcell'⟩ := bind_eq_some_iff.mp h
  rw [Board.setCell, getElem?_modify]
  split
  · rename_i hi
    subst hi
    rw [hrow] at hrow' ⊢
    cases hrow'
    have hne : c.toNat ≠ j := by
      rintro rfl
      rw [hcell] at hcell'
      exact hdisc (some.inj hcell').symm
    exact (getElem?_set_ne hne).trans hcell'
  · simpa using h

/-! ## Moves in turns -/

theorem Played.eraseIdx (h : Played R order n board) (hn : n ≤ k) (hk : k < order.length) :
    Played R (order.eraseIdx k) n board := by
  induction h with
  | start => exact .start
  | @move n disc board board' r c _ _ hdisc hplace hwin hfull ih =>
    refine .move (ih (Nat.le_of_succ_le hn)) ?_ hplace hwin hfull
    have hlength : (order.eraseIdx k).length = order.length - 1 := length_eraseIdx_of_lt hk
    rw [Nat.mod_eq_of_lt (by omega)] at hdisc ⊢
    rwa [getElem?_eraseIdx_of_lt (by omega)]

theorem Played.has (h : Played R order n board) (hi : i < n) (hget : order[i]? = some disc)
    (hdisc : disc ≠ 0) : board.has disc = true := by
  induction h with
  | start => cases hi
  | @move n disc' board board' r c _ _ hmover hplace _ _ ih =>
    obtain ⟨rfl, hempty⟩ := R.place_spec hplace
    obtain ⟨hnew, hkept⟩ := has_setCell hempty hdisc disc'
    rcases Nat.lt_succ_iff_lt_or_eq.mp hi with hlt | rfl
    · exact hkept (ih hlt)
    · rw [Nat.mod_eq_of_lt (List.getElem?_eq_some_iff.mp hget).1, hget] at hmover
      cases hmover
      exact hnew

/-! ## Sound tables -/

namespace Table

/-- The discs of the players, in the order of their seats -/
def discs (t : Table) : List Nat := t.players.map (·.disc)

/-- The board is that of moves in turns, and the next player is to act. -/
def InTurn (R : Rules Move) (t : Table) : Prop :=
  ∃ n, Played R t.discs n t.board ∧ t.toActIdx = n % t.players.length

/-- What holds of a table while a game is running -/
structure Sound (R : Rules Move) (t : Table) : Prop where
  two : 2 ≤ t.players.length
  toAct : t.toActIdx < t.players.length
  distinct : t.discs.Nodup
  inTurn : t.InTurn R

/-- What always holds of a table -/
structure Kept (R : Rules Move) (t : Table) : Prop where
  discs : ∀ p ∈ t.players, p.disc = p.seat + 1
  seats : (t.players.map (·.seat)).Nodup
  count : t.players.length ≤ R.maxPlayers
  playing : t.phase = .playing → 2 ≤ t.players.length ∧ t.InTurn R

theorem Kept.sound (H : t.Kept R) (hphase : t.phase = .playing) : t.Sound R := by
  obtain ⟨htwo, hturn⟩ := H.playing hphase
  refine ⟨htwo, ?_, ?_, hturn⟩
  · obtain ⟨n, -, hidx⟩ := hturn
    rw [hidx]
    exact Nat.mod_lt n (by omega)
  have hdiscs : t.discs = (t.players.map (·.seat)).map (· + 1) := by
    rw [Table.discs, List.map_map]
    exact List.map_congr_left H.discs
  rw [hdiscs]
  exact H.seats.map fun _ _ h => Nat.succ.inj h

theorem Kept.congr (H : t.Kept R) (hplayers : t'.players = t.players) (hboard : t'.board = t.board)
    (htoAct : t'.toActIdx = t.toActIdx) (hphase : t'.phase = .playing → t.phase = .playing) :
    t'.Kept R := by
  refine ⟨hplayers ▸ H.discs, hplayers ▸ H.seats, hplayers ▸ H.count, fun h => ?_⟩
  rw [InTurn, Table.discs, hplayers, hboard, htoAct]
  exact H.playing (hphase h)

theorem Kept.of_perm (H : t.Kept R) {p : Player} (hp : p.disc = p.seat + 1)
    (hseat : p.seat ∉ t.players.map (·.seat)) (hcount : t.players.length < R.maxPlayers)
    (hperm : t'.players.Perm (t.players ++ [p])) (hphase : t'.phase ≠ .playing) : t'.Kept R := by
  refine ⟨fun q hq => ?_, ?_, ?_, fun h => absurd h hphase⟩
  · rcases mem_append.mp (hperm.mem_iff.mp hq) with hq | hq
    · exact H.discs q hq
    · rw [mem_singleton.mp hq]
      exact hp
  · rw [(hperm.map _).nodup_iff, map_append, nodup_append]
    refine ⟨H.seats, nodup_singleton _, fun s hs s' hs' => ?_⟩
    rintro rfl
    rw [mem_singleton.mp hs'] at hs
    exact hseat hs
  · rw [hperm.length_eq, length_append]
    exact hcount

theorem findSeat_not_mem {s : Nat} (h : t.findSeat R = some s) : s ∉ t.players.map (·.seat) := by
  have hfree := List.find?_some h
  intro hmem
  obtain ⟨p, hp, rfl⟩ := mem_map.mp hmem
  rw [Bool.not_eq_true', List.any_eq_false] at hfree
  exact hfree p hp (decide_eq_true rfl)

theorem map_modify {α β : Type} {f : α → β} {g : α → α} {l : List α} (h : ∀ a, f (g a) = f a) : (l.modify i g).map f = l.map f := by
  induction l generalizing i with
  | nil => rw [modify_nil]
  | cons a l ih =>
    cases i with
    | zero => rw [modify_zero_cons, map_cons, map_cons, h]
    | succ i => rw [modify_succ_cons, map_cons, map_cons, ih]

theorem Kept.addPlayer (H : t.Kept R) (hphase : t.phase ≠ .playing) (peerId : String)
    (name : Option String) : (t.addPlayer R peerId name).Kept R := by
  rw [Table.addPlayer]
  split
  · rename_i idx _
    refine ⟨fun p hp => ?_, ?_, ?_, fun h => absurd h hphase⟩
    · have hpair := mem_map_of_mem (f := fun p : Player => (p.disc, p.seat)) hp
      rw [map_modify (g := Player.reconnected name) fun _ => rfl] at hpair
      obtain ⟨q, hq, hpair⟩ := mem_map.mp hpair
      obtain ⟨hdisc, hseat⟩ := Prod.mk.inj hpair
      rw [← hdisc, ← hseat]
      exact H.discs q hq
    · rw [map_modify (g := Player.reconnected name) fun _ => rfl]
      exact H.seats
    · exact (length_modify _ _ _).trans_le H.count
  · split
    · exact H
    · split
      · exact H
      · rename_i hcount _ seat hseat
        exact H.of_perm (p := ⟨peerId, jsSlice (name.getD peerId) 48, seat, seat + 1, true⟩) rfl
          (findSeat_not_mem hseat) (Nat.not_le.mp hcount) (perm_insertionSort _ _) hphase

/-- Whether the peer, who can leave, has a disc on the board -/
def moved (R : Rules Move) (t : Table) (peerId : String) : Bool :=
  peerId ≠ t.selfId && !R.isFixed peerId &&
    (t.players.find? (·.peerId = peerId)).any fun p => t.board.has p.disc

/-- Whether a running game goes on without the peer as if there had been no such player -/
def goesWithout (R : Rules Move) (t : Table) (peerId : String) : Bool :=
  t.phase ≠ .playing || t.players.length ≤ 2 || !t.moved R peerId

/-- Whether a new game may be begun -/
def canRematch (t : Table) : Bool := t.phase ≠ .finished || 2 ≤ t.players.length

/-- What leaves the table sound -/
def keeps (R : Rules Move) (t : Table) : Event Move → Bool
  | .rematch => t.canRematch
  | .action sender gameId (some .rematch) =>
    gameId ≠ t.gameId || t.phase ≠ .finished || (t.seated sender && t.canRematch)
  | .leave peerId => t.goesWithout R peerId
  | .kick peerId => t.goesWithout R peerId
  | _ => true

theorem find_of_playerIndex {idx : Nat} (h : t.playerIndex peerId = some idx) :
    ∃ p, t.players[idx]? = some p ∧ t.players.find? (·.peerId = peerId) = some p := by
  obtain ⟨hlt, hp, hfirst⟩ := findIdx?_eq_some_iff_getElem.mp h
  refine ⟨t.players[idx], getElem?_eq_getElem hlt, ?_⟩
  refine find?_eq_some_iff_getElem.mpr ⟨hp, idx, hlt, rfl, fun j hj => ?_⟩
  rw [Bool.not_eq_true']
  exact Bool.eq_false_iff.mpr (hfirst j hj)

theorem Kept.removePlayer (H : t.Kept R) (hgoes : t.goesWithout R peerId = true) :
    (t.removePlayer R peerId).Kept R := by
  rw [Table.removePlayer]
  split
  · exact H
  rename_i hfixed
  split
  · exact H
  rename_i idx hidx
  split
  · exact H
  rename_i hself
  obtain ⟨p, hp, hfind⟩ := find_of_playerIndex hidx
  have hlt : idx < t.players.length := (List.getElem?_eq_some_iff.mp hp).1
  have hlength : (t.players.eraseIdx idx).length = t.players.length - 1 :=
    length_eraseIdx_of_lt hlt
  have hsub := eraseIdx_sublist t.players idx
  have hdiscs : ∀ q ∈ t.players.eraseIdx idx, q.disc = q.seat + 1 :=
    fun q hq => H.discs q (hsub.mem hq)
  have hseats : ((t.players.eraseIdx idx).map (·.seat)).Nodup := H.seats.sublist (hsub.map _)
  have hcount : (t.players.eraseIdx idx).length ≤ R.maxPlayers := hsub.length_le.trans H.count
  dsimp only
  split
  · exact ⟨hdiscs, hseats, hcount, fun h => (by cases h)⟩
  rename_i hstays
  refine ⟨hdiscs, hseats, hcount, fun hphase => ?_⟩
  dsimp only at hphase
  obtain ⟨htwo, n, hplayed, htoAct⟩ := H.playing hphase
  have htwo' : 2 ≤ (t.players.eraseIdx idx).length :=
    Nat.not_lt.mp fun hlt => hstays ⟨hphase, hlt⟩
  -- The player has no disc on the board, so it is still the first round, before that player.
  have hn : n ≤ idx := by
    by_contra hlt
    have hdisc : t.discs[idx]? = some p.disc := by
      rw [Table.discs, getElem?_map, hp, map_some]
    have hpos : p.disc ≠ 0 := by
      rw [H.discs p (mem_of_getElem? hp)]
      exact Nat.succ_ne_zero _
    have hhas := hplayed.has (Nat.not_le.mp hlt) hdisc hpos
    have hmoved : t.moved R peerId = true := by
      rw [moved, hfind, any_some, hhas]
      simp [hself, hfixed]
    have hthree : ¬ t.players.length ≤ 2 := by omega
    simp [goesWithout, hphase, hmoved, hthree] at hgoes
  rw [Nat.mod_eq_of_lt (by omega)] at htoAct
  refine ⟨htwo', n, ?_, ?_⟩
  · have hdiscs' : (t.players.eraseIdx idx).map (·.disc) = t.discs.eraseIdx idx :=
      (eraseIdx_map ..).symm
    rw [Table.discs, hdiscs']
    exact hplayed.eraseIdx hn (by rwa [Table.discs, length_map])
  have hbefore : ¬ idx < n := Nat.not_lt.mpr hn
  simp only [htoAct, if_neg hbefore]
  split
  · rename_i hlast
    have : n = (t.players.eraseIdx idx).length := by omega
    rw [this, Nat.mod_self]
  · rename_i hlast
    exact (Nat.mod_eq_of_lt (Nat.not_le.mp hlast)).symm

theorem Kept.kickPlayer (H : t.Kept R) (hgoes : t.goesWithout R peerId = true) :
    (t.kickPlayer R peerId).Kept R := by
  rw [Table.kickPlayer]
  split
  · exact H
  · split
    · exact H
    · exact (H.removePlayer hgoes).congr rfl rfl rfl id

theorem Kept.begin (H : t.Kept R) (htwo : 2 ≤ t.players.length) (message : String) :
    (t.begin R message).Kept R :=
  ⟨H.discs, H.seats, H.count, fun _ => ⟨htwo, 0, .start, (Nat.zero_mod _).symm⟩⟩

theorem Kept.startGame (H : t.Kept R) : (t.startGame R).Kept R := by
  rw [Table.startGame]
  split
  · exact H
  split
  · exact H.congr rfl rfl rfl id
  · rename_i htwo
    exact H.begin (Nat.not_lt.mp htwo) _

theorem Kept.rematch (H : t.Kept R) (hcan : t.canRematch = true) : (t.rematch R).Kept R := by
  rw [Table.rematch]
  split
  · exact H
  · rename_i hphase
    refine H.begin ?_ _
    simpa [canRematch, not_not.mp hphase] using hcan

theorem Kept.place (H : t.Kept R) (peerId : String) (move : Move) :
    (t.place R peerId move).Kept R := by
  rw [Table.place]
  split
  · exact H
  rename_i idx _
  split
  · exact H
  rename_i hturn
  obtain ⟨hactor, hphase⟩ := not_or.mp hturn
  split
  · exact H
  rename_i player hplayer
  split
  · exact H
  rename_i board row col hplace
  split
  · exact ⟨H.discs, H.seats, H.count, fun h => (by cases h)⟩
  rename_i hwin
  split
  · exact ⟨H.discs, H.seats, H.count, fun h => (by cases h)⟩
  rename_i hfull
  obtain ⟨htwo, n, hplayed, htoAct⟩ := H.playing (not_not.mp hphase)
  refine ⟨H.discs, H.seats, H.count, fun _ => ⟨htwo, n + 1, ?_, ?_⟩⟩
  · refine .move hplayed ?_ hplace hwin (Bool.eq_false_iff.mpr hfull)
    rw [Table.discs, length_map, getElem?_map, ← htoAct, not_not.mp hactor, hplayer]
    rfl
  have hlt : t.toActIdx < t.players.length := htoAct ▸ Nat.mod_lt n (by omega)
  have hnext := R.advanceTurn_eq hlt htwo H.count
  rw [hnext, htoAct, Nat.mod_add_mod]

theorem Kept.handleJoin (H : t.Kept R) (sender : String) (name : Option String) :
    (t.handleJoin R sender name).Kept R := by
  rw [Table.handleJoin]
  split
  · exact H
  rename_i hphase
  have hlobby : t.phase ≠ .playing := by
    rw [not_not.mp hphase]
    exact fun h => by cases h
  split
  · exact H
  · exact H.addPlayer hlobby sender name

theorem Kept.step (hkeeps : t.keeps R e = true) (H : t.Kept R) (hstep : t.step R e = some t') :
    t'.Kept R := by
  cases hstep
  cases e with
  | join sender gameId name =>
    rw [after]
    split
    · exact H.handleJoin sender name
    · exact H
  | leave sender => exact H.removePlayer hkeeps
  | action sender gameId action =>
    rw [after]
    split
    · rename_i hgame
      cases action with
      | none => exact H
      | some action =>
        cases action with
        | place move => exact H.place sender move
        | rematch =>
          refine H.rematch ?_
          by_cases hphase : t.phase = .finished
          · simp [keeps, hgame, hphase] at hkeeps
            exact hkeeps.2
          · simp [canRematch, hphase]
    · exact H
  | invite peerId reachable =>
    rw [after, invitePeer]
    split
    · exact H
    · exact H.congr rfl rfl rfl id
  | kick peerId => exact H.kickPlayer hkeeps
  | start => exact H.startGame
  | rematch => exact H.rematch hkeeps

theorem kept_createHost (selfId gameId name : String) (isPublic : Bool) :
    (createHost R selfId gameId name isPublic).Kept R := by
  refine Kept.addPlayer ⟨?_, ?_, ?_, ?_⟩ ?_ selfId (some name)
  · exact fun p hp => by cases hp
  · exact nodup_nil
  · exact Nat.zero_le _
  · exact fun h => by cases h
  · exact fun h => by cases h

theorem place_of_outsider (hout : t.seated sender = false) (move : Move) :
    t.place R sender move = t := by
  have hnone : t.playerIndex sender = none := by
    rw [playerIndex, findIdx?_eq_none_iff]
    rw [seated, List.any_eq_false] at hout
    exact fun p hp => Bool.eq_false_iff.mpr (hout p hp)
  rw [place, hnone]

theorem after_of_outsider {gameId : String} {action : Option (Action Move)}
    (hout : t.seated sender = false) (hkeeps : t.keeps R (.action sender gameId action) = true) :
    t.after R (.action sender gameId action) = t := by
  rw [after]
  split
  · rename_i hgame
    cases action with
    | none => rfl
    | some action =>
      cases action with
      | place move => exact place_of_outsider hout move
      | rematch =>
        have hphase : t.phase ≠ .finished := by
          intro hphase
          simp [keeps, hgame, hphase, hout] at hkeeps
        exact if_pos hphase
  · rfl

/-- An action of a peer without a seat changes nothing. -/
def IgnoresOutsider (t : Table) (e : Event Move) (t' : Table) : Prop :=
  ∀ {sender gameId action}, e = .action sender gameId action → t.seated sender = false → t' = t

end Table

variable {engine : Engine} {es : List (Event engine.Move)}

/-- A table at which no new game begins without two players, or for a peer without a seat, and which
no player leaves whose discs stay on the board -/
theorem sound_of_keeps {selfId gameId name : String} {isPublic : Bool} {t : Table}
    (h : Run (Table.step engine.rules) (fun t e => t.keeps engine.rules e = true)
      (createHost engine.rules selfId gameId name isPublic) es t) :
    (t.phase = .playing → t.Sound engine.rules) ∧
      EveryStep (Table.step engine.rules) Table.IgnoresOutsider
        (createHost engine.rules selfId gameId name isPublic) es := by
  have hcreated := Table.kept_createHost (R := engine.rules) selfId gameId name isPublic
  refine ⟨(h.invariant Table.Kept.step hcreated).sound, ?_⟩
  refine h.everyStep (I := fun _ => True) (fun hkeeps _ hstep => ⟨trivial, ?_⟩) trivial
  rintro sender gameId action rfl hout
  cases hstep
  exact Table.after_of_outsider hout hkeeps

/-- A game of connect four that the host wins with the first column -/
def firstColumn : List (Event Engine.connectFour.Move) :=
  [.join "guest" "game" none, .start] ++
    ([("host", 0), ("guest", 1), ("host", 0), ("guest", 1), ("host", 0), ("guest", 1),
      ("host", 0)].map fun turn =>
        .action turn.1 "game" (some (.place (.finite turn.2))))

/-- Both want another game. -/
theorem sound_of_keeps_firstColumn : ∃ t,
    exec (Table.step Engine.connectFour.rules)
      (createHost Engine.connectFour.rules "host" "game" "Host" true)
      (firstColumn ++ [.action "guest" "game" (some .rematch)]) = some t ∧
    t.phase = .playing ∧ t.Sound Engine.connectFour.rules := by
  have hexec : ((exec (Table.step Engine.connectFour.rules)
      (createHost Engine.connectFour.rules "host" "game" "Host" true)
      (firstColumn ++ [.action "guest" "game" (some .rematch)])).any fun t =>
        t.phase = .playing) = true := by
    decide +kernel
  have hkeeps : allowed (Table.step Engine.connectFour.rules) (Table.keeps Engine.connectFour.rules)
      (createHost Engine.connectFour.rules "host" "game" "Host" true)
      (firstColumn ++ [.action "guest" "game" (some .rematch)]) = true := by
    decide +kernel
  obtain ⟨t, ht, hphase⟩ := (any_eq_true _ _).mp hexec
  have hplaying := of_decide_eq_true hphase
  exact ⟨t, ht, hplaying, (sound_of_keeps (.of_allowed hkeeps ht)).1 hplaying⟩

/-- The guest leaves when the game is over, and sends for another one. -/
theorem rematch_alone : ¬ ∀ (engine : Engine) selfId gameId name isPublic es t,
    FreeRun (Table.step engine.rules) (createHost engine.rules selfId gameId name isPublic) es t →
    (t.phase = .playing → t.Sound engine.rules) ∧
      EveryStep (Table.step engine.rules) Table.IgnoresOutsider
        (createHost engine.rules selfId gameId name isPublic) es := by
  intro h
  have hexec : ((exec (Table.step Engine.connectFour.rules)
      (createHost Engine.connectFour.rules "host" "game" "Host" true)
      (firstColumn ++ [.leave "guest", .action "guest" "game" (some .rematch)])).any fun t =>
        t.phase = .playing ∧ t.players.length = 1) = true := by
    decide +kernel
  obtain ⟨t, ht, hend⟩ := (any_eq_true _ _).mp hexec
  obtain ⟨hplaying, halone⟩ := of_decide_eq_true hend
  have hsound := (h .connectFour "host" "game" "Host" true _ t (.of_exec ht)).1 hplaying
  have htwo := hsound.two
  omega

end Bluetalk.BoardGames

import Mathlib.Data.List.Find
import Bluetalk.Uno.Cards
import Bluetalk.Uno.Turns

/-!
# The law of turns

Which steps of a round leave the turn with a connected player, the next one in the order of play
where a player leaves or goes offline on its turn. There are three that do not: a player comes back
while the one to act is offline and only one other is connected, the one to act is taken off the
table while the order of play is reversed, and it goes offline with the colour of a wild draw four to
choose, after which the one that draws is passed over.
-/

open List Option

namespace Bluetalk.Uno

/-- The player that comes back by an event -/
def HostEvent.returns (gameId : String) : HostEvent → Option String
  | .message fromId (.join id) => if id = gameId then some fromId else none
  | .connected peerId => some peerId
  | _ => none

namespace Game

variable {s s' : Game} {i idx : Nat} {q peerId : String} {e : HostEvent} {x : String × Bool}
  {l : List (String × Bool)}

/-- A connected player is to act, and a colour is for no other to choose, while a round goes on and
two players are connected. -/
def Ready (s : Game) : Prop :=
  s.phase = .playing → 2 ≤ s.activePlayers.length →
    ∃ p, s.player? s.toActIdx = some p ∧ p.connected = true ∧
      ∀ c, s.pendingColorChoice = some c → c = p.peerId

/-- The next connected player besides `leaver` in the order of play -/
def nextAfter (s : Game) (leaver : String) : Option (String × Bool) :=
  (ringAfter s.seats s.direction s.toActIdx.toNat).find? fun x => x.2 && x.1 ≠ leaver

/-- The law of a step: the table is ready, and where a player leaves or goes offline on its turn, the
turn passes to the next connected player. -/
structure TurnLaw (s : Game) (e : HostEvent) (s' : Game) : Prop where
  ready : Ready s'
  passes : s.phase = .playing → s'.phase = .playing → 2 ≤ s'.activePlayers.length →
    ∀ x, s.toAct = some x → e.departs = some x.1 → x.1 ≠ s.selfId → s'.toAct = s.nextAfter x.1

/-- The condition of a step while `x` is to act -/
structure KeepsTurnOf (s : Game) (e : HostEvent) (x : String × Bool) : Prop where
  returns : ∀ q, (q, false) ∈ s.seats → e.returns s.gameId = some q → q ≠ s.selfId →
    s.activePlayers.length = 1 → x.2 = true ∨ x.1 = q
  removes : e.removes = some x.1 → x.1 ≠ s.selfId → 2 ≤ (s.others x.1).length → s.direction = -1 →
    ∀ y, (ringAfter s.seats 1 s.toActIdx.toNat).head? = some y → y.2 = false
  chooses : e = .disconnected x.1 → x.1 ≠ s.selfId → 2 ≤ (s.others x.1).length →
    s.pendingColorChoice = some x.1 → s.cfg.houseRules = .official →
    s.topCard.any (·.value = .wild4) = false

/-- The exact condition under which a step keeps the law of turns -/
def KeepsTurn (s : Game) (e : HostEvent) : Prop :=
  s.phase = .playing → ∀ x, s.toAct = some x → KeepsTurnOf s e x

/-- During a round somebody has the turn, and while there is a colour to choose, it is for the player
to act, who may not pass. -/
structure TurnInv (s : Game) : Prop where
  distinct : s.peerIds.Nodup
  turn : s.phase = .playing → ∃ x, s.toAct = some x ∧
    ∀ c, s.pendingColorChoice = some c → c = x.1 ∧ s.drewCanPass = none

/-! ## Counting the connected -/

theorem length_activePlayers (s : Game) :
    s.activePlayers.length = (s.players.map fun p => if p.connected then 1 else 0).sum := by
  rw [activePlayers]
  induction s.players with
  | nil => rfl
  | cons p players ih =>
    rw [filter_cons, map_cons, sum_cons]
    split
    · rw [length_cons, ih, add_comm]
    · rw [ih, zero_add]

theorem activePlayers_congr (h : s'.seats = s.seats) :
    s'.activePlayers.length = s.activePlayers.length := by
  have hsum : ∀ t : Game, t.activePlayers.length =
      (t.seats.map fun x => if x.2 = true then 1 else 0).sum := by
    intro t
    rw [length_activePlayers, seats, List.map_map]
    rfl
  rw [hsum, hsum, h]

theorem activePlayers_connect {p : Player} (hp : s.players[i]? = some p) :
    (s.modifyPlayer i (·.setConnected true)).activePlayers.length +
      (if p.connected then 1 else 0) = s.activePlayers.length + 1 := by
  obtain ⟨hi, rfl⟩ := List.getElem?_eq_some_iff.mp hp
  rw [length_activePlayers, length_activePlayers]
  exact sum_map_modify hi

theorem filter_modify_of_neg {f : Player → Player} {keep : Player → Bool}
    (h : ∀ p, keep (f p) = false) (players : List Player) (idx : Nat) :
    (players.modify idx f).filter keep = (players.eraseIdx idx).filter keep := by
  induction players generalizing idx with
  | nil => cases idx <;> rfl
  | cons p players ih =>
    cases idx with
    | zero =>
      rw [modify_zero_cons, filter_cons_of_neg (by simp [h]), eraseIdx_cons_zero]
    | succ idx =>
      rw [modify_succ_cons, eraseIdx_cons_succ, filter_cons, filter_cons, ih]

theorem activePlayers_disconnect (hs : s.peerIds.Nodup) (h : s.playerIndex q = some idx) :
    (s.modifyPlayer idx (·.setConnected false)).activePlayers = s.others q := by
  rw [← activePlayers_takeOff hs h]
  exact filter_modify_of_neg (fun _ => rfl) _ _

/-- The seat of `q` with another state of its connection -/
def setSeat (q : String) (connected : Bool) (x : String × Bool) : String × Bool :=
  if x.1 = q then (x.1, connected) else x

theorem seats_setConnected (hs : s.peerIds.Nodup) (h : s.playerIndex q = some idx)
    (connected : Bool) : (s.modifyPlayer idx (·.setConnected connected)).seats =
      s.seats.map (setSeat q connected) := by
  rw [peerIds] at hs
  rw [playerIndex] at h
  rw [seats, seats, modifyPlayer]
  generalize s.players = players at hs h ⊢
  induction players generalizing idx with
  | nil => cases h
  | cons p players ih =>
    rw [map_cons, nodup_cons] at hs
    rw [findIdx?_cons] at h
    rw [map_cons, map_cons]
    by_cases hp : p.peerId = q
    · rw [decide_eq_true hp, if_pos rfl] at h
      cases h
      have hrest : (players.map fun p => (p.peerId, p.connected)).map (setSeat q connected) =
          players.map fun p => (p.peerId, p.connected) := by
        rw [List.map_map]
        refine List.map_congr_left fun p' hp' => if_neg fun hid => hs.1 ?_
        exact hp.trans hid.symm ▸ mem_map_of_mem hp'
      rw [modify_zero_cons, map_cons, hrest, setSeat, if_pos hp]
      rfl
    · rw [decide_eq_false hp, if_neg (by decide)] at h
      obtain ⟨j, hj, rfl⟩ := map_eq_some_iff.mp h
      rw [modify_succ_cons, map_cons, ih hs.2 hj, setSeat, if_neg hp]

/-! ## The next player -/

theorem exists_nextAfter (h : 0 < (s.others q).length) : ∃ x, s.nextAfter q = some x := by
  obtain ⟨p, hp⟩ := exists_mem_of_length_pos h
  obtain ⟨hactive, hne⟩ := mem_filter.mp hp
  obtain ⟨hmem, hconnected⟩ := mem_filter.mp hactive
  refine isSome_iff_exists.mp (find?_isSome.mpr ⟨(p.peerId, p.connected), ?_, ?_⟩)
  · exact (ringAfter_perm _ _ _).mem_iff.mpr (mem_map_of_mem hmem)
  · rw [Bool.and_eq_true]
    exact ⟨hconnected, hne⟩

theorem find?_ringAfter_offline (l : List (String × Bool)) (d : ℤˣ) (i : Nat) :
    (ringAfter (l.map (setSeat q false)) d i).find? (·.2) =
      (ringAfter l d i).find? fun x => x.2 && x.1 ≠ q := by
  have hkeep : ((fun x : String × Bool => x.2) ∘ setSeat q false) = fun x => x.2 && x.1 ≠ q := by
    funext x
    rw [Function.comp_apply, setSeat]
    split
    · rename_i hx
      simp [hx]
    · rename_i hx
      simp [hx]
  rw [ringAfter_map, find?_map, hkeep]
  cases hfind : (ringAfter l d i).find? fun x => x.2 && x.1 ≠ q with
  | none => rfl
  | some x =>
    have hx := find?_some hfind
    rw [Bool.and_eq_true, decide_eq_true_eq] at hx
    exact congrArg some (if_neg hx.2)

theorem toAct_of_nextIndex {t : Game} (hi : i < t.players.length)
    (hturn : s'.toActIdx = t.nextIndex i 1) (hseats : s'.seats = t.seats)
    (hx : (ringAfter t.seats t.direction i).find? (·.2) = some x) : s'.toAct = some x := by
  have hn : 0 < t.players.length := Nat.zero_lt_of_lt hi
  rw [toAct_eq, hturn, hseats, if_pos (nextIndex_range hn i 0).1, nextIndex, if_neg hn.ne']
  exact seats_nextSeat hi hx

theorem find?_ringAfter_ne {d : ℤˣ} (hnodup : l.Nodup)
    (hx : l[i]? = some x) (hmany : 2 ≤ (l.filter (·.2)).length) :
    (ringAfter l d i).find? (·.2) ≠ some x := by
  intro hfind
  obtain ⟨hi, rfl⟩ := List.getElem?_eq_some_iff.mp hx
  have hinit := ringAfter_eq_append d hi
  generalize (if d = 1 then ringOthers l i else (ringOthers l i).reverse) = init at hinit
  have hperm := ringAfter_perm l d i
  rw [hinit] at hfind hperm
  have hnot : l[i] ∉ init := by
    intro hmem
    have hdup := hperm.nodup_iff.mpr hnodup
    rw [← concat_eq_append, nodup_concat] at hdup
    exact hdup.1 hmem
  have hnone : init.find? (·.2) = none := by
    rw [find?_append] at hfind
    cases hinit : init.find? (·.2) with
    | none => rfl
    | some y =>
      rw [hinit, some_or, Option.some.injEq] at hfind
      exact absurd (hfind ▸ mem_of_find?_eq_some hinit) hnot
  have hlength := (hperm.filter (·.2)).length_eq
  rw [filter_append, filter_eq_nil_iff.mpr (by simpa using find?_eq_none.mp hnone),
    nil_append] at hlength
  have hle := length_filter_le (fun x : String × Bool => x.2) [l[i]]
  rw [length_singleton] at hle
  omega

theorem peopled_of_active (h : 0 < s.activePlayers.length) : s.Peopled := by
  obtain ⟨p, hp⟩ := exists_mem_of_length_pos h
  obtain ⟨hmem, hconnected⟩ := mem_filter.mp hp
  exact ⟨_, mem_map_of_mem hmem, hconnected⟩

theorem ready_iff : Ready s ↔ (s.phase = .playing → 2 ≤ s.activePlayers.length →
    ∃ x, s.toAct = some x ∧ x.2 = true ∧ ∀ c, s.pendingColorChoice = some c → c = x.1) := by
  refine imp_congr_right fun _ => imp_congr_right fun _ => ⟨?_, ?_⟩
  · rintro ⟨p, hp, hconnected, hchoice⟩
    exact ⟨_, congrArg (Option.map _) hp, hconnected, hchoice⟩
  · rintro ⟨x, hx, hconnected, hchoice⟩
    obtain ⟨p, hp, rfl⟩ := map_eq_some_iff.mp hx
    exact ⟨p, hp, hconnected, hchoice⟩

/-! ## The player to act is taken off the table -/

theorem find?_ringAfter_others (d : ℤˣ) (hids : (l.map Prod.fst).Nodup)
    (hi : i < l.length) : ((ringAfter l d i).find? fun x => x.2 && x.1 ≠ l[i].1) =
      (if d = 1 then ringOthers l i else (ringOthers l i).reverse).find? (·.2) := by
  have hperm := (ringAfter_perm l d i).map Prod.fst
  have hinit := ringAfter_eq_append d hi
  generalize (if d = 1 then ringOthers l i else (ringOthers l i).reverse) = init at hinit ⊢
  rw [hinit] at hperm ⊢
  have hnot : l[i].1 ∉ init.map Prod.fst := by
    have hdup := hperm.nodup_iff.mpr hids
    rw [map_append, map_singleton, ← concat_eq_append, nodup_concat] at hdup
    exact hdup.1
  rw [find?_append, find?_cons_of_neg (by simp), find?_nil, or_none]
  refine find?_congr fun x hx => ?_
  have hne : x.1 ≠ l[i].1 := fun hid => hnot (hid ▸ mem_map_of_mem hx)
  rw [decide_eq_true hne, Bool.and_true]

theorem length_activePlayers_seats (s : Game) :
    s.activePlayers.length = (s.seats.filter (·.2)).length := by
  rw [seats, List.filter_map, List.length_map]
  rfl

theorem seats_takeOff (s : Game) (q : String) (idx : Nat) : (s.takeOff q idx).seats = s.seats.eraseIdx idx := by
  rw [seats, takeOff, seats, eraseIdx_map]

theorem toActIdx_takeOff (q : String) (hidx : idx < s.seats.length) (hact : s.toActIdx = idx) :
    (s.takeOff q idx).toActIdx = ((if s.seats.length - 1 ≤ idx then 0 else idx : Nat) : Int) := by
  have hplayers : (s.players.eraseIdx idx).length = s.seats.length - 1 := by
    rw [length_eraseIdx_of_lt (length_seats s ▸ hidx), length_seats]
  rw [takeOff]
  rw [hact, if_neg (lt_irrefl _), hplayers]
  by_cases hle : s.seats.length - 1 ≤ idx
  · rw [if_pos hle, if_pos (Int.ofNat_le.mpr hle)]
    rfl
  · rw [if_neg hle, if_neg (mt Int.ofNat_le.mp hle)]

theorem nodup_seats (hs : s.peerIds.Nodup) : (s.seats.map Prod.fst).Nodup := by
  rw [seats, List.map_map]
  exact hs

theorem getElem?_seats_playerIndex (h : s.playerIndex q = some idx) :
    ∃ connected, s.seats[idx]? = some (q, connected) := by
  obtain ⟨p, hp, hpid⟩ := peerId_of_playerIndex h
  exact ⟨p.connected, by rw [getElem?_seats, hp, ← hpid]; rfl⟩

theorem position_takeOff (hs : s.peerIds.Nodup) (h : s.playerIndex q = some idx)
    (hmany : 2 ≤ (s.others q).length) :
    (if s.seats.length - 1 ≤ idx then 0 else idx) < (s.takeOff q idx).seats.length := by
  have hless : (s.takeOff q idx).seats.length = s.seats.length - 1 := by
    rw [seats_takeOff, length_eraseIdx_of_lt (length_seats s ▸ playerIndex_lt h)]
  have hlength : 2 ≤ (s.takeOff q idx).seats.length := by
    rw [length_seats]
    rw [← activePlayers_takeOff hs h] at hmany
    exact hmany.trans (length_filter_le _ _)
  split <;> omega

/-- When the player to act leaves, the turn goes on to the next connected one. -/
theorem toAct_dropPlayer (hs : s.peerIds.Nodup) (h : s.playerIndex q = some idx)
    (hact : s.toActIdx = idx) (hother : q ≠ s.selfId) (hphase : s.phase = .playing)
    (hmany : 2 ≤ (s.others q).length) : ∃ c rest, ringOthers s.seats idx = c :: rest ∧
      (s.dropPlayer q).toAct = if c.2 then some c else s.nextAfter q := by
  have hidx : idx < s.seats.length := length_seats s ▸ playerIndex_lt h
  have hactive := activePlayers_takeOff hs h
  obtain ⟨connected, hseat⟩ := getElem?_seats_playerIndex h
  have hturn := toActIdx_takeOff q hidx hact
  have hring := rotate_eraseIdx hidx
  rw [← seats_takeOff s q] at hring
  have hj := position_takeOff hs h hmany
  generalize (if s.seats.length - 1 ≤ idx then 0 else idx) = j at hturn hring hj
  cases hcs : ringOthers s.seats idx with
  | nil =>
    rw [hcs, rotate_eq_nil_iff] at hring
    rw [hring] at hj
    exact absurd hj (Nat.not_lt_zero _)
  | cons c rest =>
    refine ⟨c, rest, rfl, ?_⟩
    have hc : (s.takeOff q idx).toAct = some c := by
      rw [toAct_eq, hturn, if_pos (Int.natCast_nonneg j), Int.toNat_natCast, ← head?_rotate hj,
        hring, hcs]
      rfl
    obtain ⟨p, hp, hpc⟩ := map_eq_some_iff.mp hc
    have hfew : ¬(s.phase = .playing ∧ (s.takeOff q idx).activePlayers.length < 2) := by
      rw [hactive]
      omega
    rw [dropPlayer, h]
    dsimp only
    rw [if_neg hother, if_neg hfew, if_pos ⟨hphase, hact⟩]
    have hoffline : (((s.takeOff q idx).player? (s.takeOff q idx).toActIdx).any (!·.connected)) =
        !c.2 := by rw [hp, ← hpc]; rfl
    cases hconnected : c.2 with
    | true =>
      rw [hconnected, Bool.not_true] at hoffline
      rw [if_neg (Bool.not_eq_true _ ▸ hoffline)]
      exact hc
    | false =>
      rw [hconnected, Bool.not_false] at hoffline
      rw [if_pos hoffline, if_neg (by decide)]
      obtain ⟨x, hx⟩ := exists_nextAfter (by omega : 0 < (s.others q).length)
      rw [hx]
      refine toAct_of_nextIndex (t := s.takeOff q idx) (length_seats _ ▸ hj) (by rw [← hturn]; rfl)
        rfl ?_
      have hget := (List.getElem?_eq_some_iff.mp hseat).2
      have hothers := find?_ringAfter_others s.direction (nodup_seats hs) hidx
      rw [hget, hcs] at hothers
      rw [nextAfter, hact, Int.toNat_natCast, hothers] at hx
      rw [← hx, ringAfter]
      change (if s.direction = 1 then _ else _ : List (String × Bool)).find? _ = _
      split
      · rw [← rotate_rotate, hring, hcs, rotate_cons_succ, rotate_zero,
          find?_append, find?_cons_of_neg (by simp [hconnected]), find?_nil,
          or_none, find?_cons_of_neg (by simp [hconnected])]
      · rw [hring, hcs]

/-- Against the order of play the turn is right only if the next position is offline. -/
theorem toAct_dropPlayer_iff (hs : s.peerIds.Nodup) (h : s.playerIndex q = some idx)
    (hact : s.toActIdx = idx) (hother : q ≠ s.selfId) (hphase : s.phase = .playing)
    (hmany : 2 ≤ (s.others q).length) : (s.dropPlayer q).toAct = s.nextAfter q ↔
      (s.direction = -1 → ∀ y, (ringAfter s.seats 1 idx).head? = some y → y.2 = false) := by
  have hidx : idx < s.seats.length := length_seats s ▸ playerIndex_lt h
  obtain ⟨c, rest, hcs, hturn⟩ := toAct_dropPlayer hs h hact hother hphase hmany
  obtain ⟨connected, hseat⟩ := getElem?_seats_playerIndex h
  have hget := (List.getElem?_eq_some_iff.mp hseat).2
  have hothers := find?_ringAfter_others s.direction (nodup_seats hs) hidx
  rw [hget, hcs] at hothers
  have hhead : (ringAfter s.seats 1 idx).head? = some c := by
    rw [ringAfter_eq_append 1 hidx, if_pos rfl, hcs]
    rfl
  rw [hhead, hturn, nextAfter, hact, Int.toNat_natCast, hothers]
  cases hc : c.2 with
  | false =>
    refine iff_of_true rfl fun _ y hy => ?_
    rwa [← Option.some.inj hy]
  | true =>
    rw [if_pos rfl]
    obtain hd | hd := Int.units_eq_one_or s.direction
    · rw [hd, if_pos rfl, List.find?_cons_of_pos hc]
      exact iff_of_true rfl fun h => absurd h (by decide)
    rw [hd, if_neg (by decide)]
    refine iff_of_false (fun hfind => ?_) fun h => ?_
    · -- Read backwards, the one at the next position comes last.
      have hring := rotate_eraseIdx hidx
      have hj := position_takeOff hs h hmany
      generalize (if s.seats.length - 1 ≤ idx then 0 else idx) = j at hring hj
      rw [← seats_takeOff s q] at hring
      have hnodup : (s.takeOff q idx).seats.Nodup := by
        rw [seats_takeOff]
        exact ((nodup_seats hs).of_map _).sublist (List.eraseIdx_sublist _ _)
      refine find?_ringAfter_ne (i := j) (d := -1) hnodup (x := c) ?_ ?_ ?_
      · rw [← List.head?_rotate hj, hring, hcs]
        rfl
      · rwa [← length_activePlayers_seats, activePlayers_takeOff hs h]
      · rw [ringAfter, if_neg (by decide), hring, hcs]
        exact hfind.symm
    · rw [h rfl c rfl] at hc
      cases hc

theorem toAct_takeOff (hne : s.toActIdx ≠ idx) (hx : s.toAct = some x)
    (hidx : idx < s.players.length) : (s.takeOff q idx).toAct = some x := by
  rw [toAct_eq] at hx
  split at hx
  · rename_i h₀
    have hlt := (List.getElem?_eq_some_iff.mp hx).1
    have hlength := List.length_eraseIdx_of_lt hidx
    rw [length_seats] at hlt
    have hturn : (s.takeOff q idx).toActIdx =
        if idx < s.toActIdx then s.toActIdx - 1 else s.toActIdx := by
      rw [takeOff]
      rw [hlength, if_neg]
      split <;> omega
    rw [toAct_eq, hturn, seats_takeOff]
    by_cases hless : idx < s.toActIdx
    · have hnat : (s.toActIdx - 1).toNat + 1 = s.toActIdx.toNat := by omega
      rw [if_pos hless, if_pos (by omega), getElem?_eraseIdx_of_ge (by omega), hnat]
      exact hx
    · rw [if_neg hless, if_pos h₀, getElem?_eraseIdx_of_lt (by omega)]
      exact hx
  · cases hx

/-! ## Steps that leave everyone as they are -/

theorem Turned.inv (hs : TurnInv s) (hphase : s.phase = .playing) (hseats : s'.seats = s.seats)
    (h : Turned s s') : TurnInv s' := by
  refine ⟨peerIds_eq_of_seats hseats ▸ hs.distinct, fun _ => ?_⟩
  obtain ⟨x, hx, hchoice⟩ := hs.turn hphase
  cases h with
  | passed hnone hturn =>
    obtain ⟨y, hy, -⟩ := hturn
    exact ⟨y, hy, fun c hc => by cases hnone.symm.trans hc⟩
  | kept hturn hsame hpass =>
    refine ⟨x, (toAct_congr hturn hseats).trans hx, fun c hc => ?_⟩
    obtain ⟨hcx, hdrew⟩ := hchoice c (hsame.symm.trans hc)
    obtain hpass | hnone := hpass
    · exact ⟨hcx, hpass.trans hdrew⟩
    · cases hnone.symm.trans (hsame.symm.trans hc)
  | waits hturn hwho hpass =>
    refine ⟨x, (toAct_congr hturn hseats).trans hx, fun c hc => ⟨?_, hpass⟩⟩
    rw [hwho, hx] at hc
    exact (some.inj hc).symm

theorem Turned.ready (hready : Ready s) (hphase : s.phase = .playing)
    (hseats : s'.seats = s.seats) (h : Turned s s') : Ready s' := by
  rw [ready_iff] at hready ⊢
  intro _ hmany
  rw [activePlayers_congr hseats] at hmany
  obtain ⟨x, hx, hconnected, hchoice⟩ := hready hphase hmany
  cases h with
  | passed hnone hturn =>
    obtain ⟨y, hy, hyc⟩ := hturn
    have hpeopled : s'.Peopled := by
      rw [Peopled, hseats]
      exact peopled_of_active (by omega)
    exact ⟨y, hy, hyc hpeopled, fun c hc => by cases hnone.symm.trans hc⟩
  | kept hturn hsame hpass =>
    exact ⟨x, (toAct_congr hturn hseats).trans hx, hconnected,
      fun c hc => hchoice c (hsame.symm.trans hc)⟩
  | waits hturn hwho hpass =>
    refine ⟨x, (toAct_congr hturn hseats).trans hx, hconnected, fun c hc => ?_⟩
    rw [hwho, hx] at hc
    exact (some.inj hc).symm

end Game
end Bluetalk.Uno

/-!
## What a step does to the turn

While a round goes on a step takes somebody off the table or offline, or brings somebody back, or
leaves everyone as they are.
-/

namespace Bluetalk.Uno

variable {e : HostEvent} {q : String}

theorem HostEvent.spec_of_removes (h : e.removes = some q) :
    e.departs = some q ∧ (∀ gameId, e.returns gameId = none) ∧ ∀ p, e ≠ .disconnected p := by
  cases e with
  | message fromId wire =>
    cases wire with
    | leave => exact ⟨h, fun _ => rfl, fun _ => HostEvent.noConfusion⟩
    | _ => cases h
  | kick peerId => exact ⟨h, fun _ => rfl, fun _ => HostEvent.noConfusion⟩
  | _ => cases h

theorem HostEvent.departs_disconnected (he : e = .disconnected q) :
    e.departs = some q := by
  rw [he]
  rfl

namespace Game

variable {s s' : Game} {i idx : Nat} {q peerId : String} {e : HostEvent} {x : String × Bool}

/-! ### What a step does to the turn -/

/-- What a step does to the turn while a round goes on -/
inductive TurnStep (s : Game) (e : HostEvent) (s' : Game) : Prop
  | turned (hseats : s'.seats = s.seats) (h : s'.phase = .playing → Turned s s')
    (hreturns : ∀ q, (q, false) ∈ s.seats → e.returns s.gameId = some q → q = s.selfId)
    (hdeparts : ∀ q, e.departs = some q → q ≠ s.selfId → (q, true) ∉ s.seats)
  | returned (q : String) (i : Nat) (hi : s.playerIndex q = some i) (hother : q ≠ s.selfId)
    (hframe : Frame (s.modifyPlayer i (·.setConnected true)) s')
    (hreturns : e.returns s.gameId = some q) (hdeparts : e.departs = none)
  | dropped (q : String) (idx : Nat) (hidx : s.playerIndex q = some idx) (hother : q ≠ s.selfId)
    (hremoves : e.removes = some q) (h : s' = s.dropPlayer q)
  | offline (q : String) (idx : Nat) (hidx : s.playerIndex q = some idx) (hother : q ≠ s.selfId)
    (hseat : s.seats[idx]? = some (q, true)) (he : e = .disconnected q)
    (h : s' = s.handleDisconnect q)

theorem Turned.refl (s : Game) : Turned s s := .kept rfl rfl (.inl rfl)

theorem turned_getD_applyAction {a : Action} (hs : TurnInv s) (hphase : s.phase = .playing)
    (hphase' : ((s.applyAction peerId a).getD s).phase = .playing) :
    Turned s ((s.applyAction peerId a).getD s) := by
  obtain ⟨x, hx, hchoice⟩ := hs.turn hphase
  cases h : s.applyAction peerId a with
  | none => exact .refl s
  | some s' =>
    rw [h] at hphase'
    refine turned_applyAction (fun c hc => (hchoice c hc).2) ?_ hphase' h
    obtain ⟨p, hp, -⟩ := map_eq_some_iff.mp hx
    rw [player?] at hp
    split at hp
    · exact Nat.zero_lt_of_lt (List.getElem?_eq_some_iff.mp hp).1
    · cases hp

theorem turned_turnTimeout (hs : TurnInv s) (hphase : s.phase = .playing)
    (hphase' : s.turnTimeout.phase = .playing) : Turned s s.turnTimeout := by
  obtain ⟨x, hx, hchoice⟩ := hs.turn hphase
  obtain ⟨current, hcurrent, rfl⟩ := map_eq_some_iff.mp hx
  rw [turnTimeout, if_neg (not_not.mpr hphase), hcurrent] at hphase' ⊢
  dsimp only at hphase' ⊢
  split at hphase'
  · rename_i hwho
    rw [if_pos hwho]
    exact turned_getD_applyAction hs hphase hphase'
  rename_i hwho
  have hnone : s.pendingColorChoice = none := by
    cases hc : s.pendingColorChoice with
    | none => rfl
    | some c => exact absurd (hc.trans (congrArg some (hchoice c hc).1)) hwho
  rw [if_neg hwho]
  split at hphase'
  · rename_i hstack
    rw [if_pos hstack]
    exact turned_forceDrawStack hnone
  · rename_i hstack
    rw [if_neg hstack]
    exact turned_getD_applyAction hs hphase hphase'

theorem turnStep_idle (h : Moves s s') (hturn : s'.phase = .playing → Turned s s')
    (hreturns : e.returns s.gameId = none) (hdeparts : e.departs = none) : TurnStep s e s' :=
  .turned h.seats hturn (fun _ _ hq => by cases hreturns.symm.trans hq)
    fun _ hq => by cases hdeparts.symm.trans hq

theorem not_mem_seats_of_playerIndex (h : s.playerIndex q = none) (connected : Bool) :
    (q, connected) ∉ s.seats := by
  intro hmem
  obtain ⟨p, hp, hpq⟩ := mem_map.mp hmem
  refine playerIndex_eq_none.mp h (mem_map.mpr ⟨p, hp, ?_⟩)
  exact congrArg Prod.fst hpq

theorem turnStep_dropPlayer (hremoves : e.removes = some q) : TurnStep s e (s.dropPlayer q) := by
  obtain ⟨hdeparts, hreturns, -⟩ := HostEvent.spec_of_removes hremoves
  have hnoreturn : ∀ p, (p, false) ∈ s.seats → e.returns s.gameId = some p → p = s.selfId :=
    fun p _ hp => by cases (hreturns s.gameId).symm.trans hp
  cases hidx : s.playerIndex q with
  | none =>
    have hsame : s.dropPlayer q = s := by rw [dropPlayer, hidx]
    rw [hsame]
    refine .turned rfl (fun _ => .refl s) hnoreturn fun p hp _ => ?_
    rw [← some.inj (hdeparts.symm.trans hp)]
    exact not_mem_seats_of_playerIndex hidx true
  | some idx =>
    by_cases hself : q = s.selfId
    · have hsame : s.dropPlayer q = s := by
        rw [dropPlayer, hidx]
        exact if_pos hself
      rw [hsame]
      refine .turned rfl (fun _ => .refl s) hnoreturn fun p hp hother => ?_
      exact absurd ((some.inj (hp.symm.trans hdeparts)).trans hself) hother
    · exact .dropped q idx hidx hself hremoves rfl

theorem turnStep_handleDisconnect (hs : s.peerIds.Nodup) (hphase : s.phase = .playing) :
    TurnStep s (.disconnected q) (s.handleDisconnect q) := by
  have hstays : s.handleDisconnect q = s → (q ≠ s.selfId → (q, true) ∉ s.seats) →
      TurnStep s (.disconnected q) (s.handleDisconnect q) := by
    intro hsame hseat
    rw [hsame]
    refine .turned rfl (fun _ => .refl s) (fun _ _ h => by cases h) fun p hp => ?_
    cases hp
    exact hseat
  by_cases hself : q = s.selfId
  · refine hstays ?_ fun hother => absurd hself hother
    rw [handleDisconnect, if_pos hself]
  cases hidx : s.playerIndex q with
  | none =>
    refine hstays ?_ fun _ => not_mem_seats_of_playerIndex hidx true
    rw [handleDisconnect, if_neg hself, hidx]
  | some idx =>
    obtain ⟨connected, hseat⟩ := getElem?_seats_playerIndex hidx
    cases connected with
    | true => exact .offline q idx hidx hself hseat rfl rfl
    | false =>
      have hplayer : s.players[idx]?.any (!·.connected) = true := any_offline hseat
      refine hstays ?_ fun _ hmem => ?_
      · rw [handleDisconnect, if_neg hself, hidx]
        dsimp only
        rw [if_neg (not_not.mpr hphase), if_pos hplayer]
      · have hsame := inj_on_of_nodup_map (nodup_seats hs) hmem
          (mem_of_getElem? hseat) rfl
        cases hsame

theorem turnStep_reconnectPlayer (hphase : s.phase = .playing) :
    TurnStep s (.connected q) (s.reconnectPlayer q) := by
  rw [reconnectPlayer]
  split
  · rename_i hself
    refine .turned rfl (fun _ => .refl s) (fun p _ hp => ?_) fun _ h => by cases h
    cases hp
    exact hself
  rename_i hother
  split
  · rename_i hnone
    refine .turned rfl (fun _ => .refl s) (fun p hmem hp => ?_) fun _ h => by cases h
    cases hp
    exact absurd hmem (not_mem_seats_of_playerIndex hnone false)
  rename_i i hi
  have hgoing : (s.modifyPlayer i (·.setConnected true)).phase = .playing := hphase
  rw [if_pos hgoing]
  exact .returned q i hi hother ⟨rfl, rfl, rfl, rfl, rfl, rfl, rfl, rfl, rfl⟩ rfl rfl

theorem turnStep_handleJoin (hphase : s.phase = .playing) (hother : q ≠ s.selfId) :
    TurnStep s (.message q (.join s.gameId)) (s.handleJoin q) := by
  have hreturns : (HostEvent.message q (.join s.gameId)).returns s.gameId = some q := if_pos rfl
  rw [handleJoin]
  split
  · rename_i i hi
    have hgoing : (s.modifyPlayer i (·.setConnected true)).phase = .playing := hphase
    have hlobby : ¬(s.modifyPlayer i (·.setConnected true)).phase = .lobby :=
      fun h => by cases hgoing.symm.trans h
    rw [rejoin, if_neg hlobby, if_pos hgoing]
    exact .returned q i hi hother ⟨rfl, rfl, rfl, rfl, rfl, rfl, rfl, rfl, rfl⟩ hreturns rfl
  rename_i hnone
  have hgoing : s.phase ≠ .lobby ∧ s.phase ≠ .roundOver := by
    rw [hphase]
    exact ⟨by decide, by decide⟩
  rw [if_pos hgoing]
  refine .turned rfl (fun _ => .refl s) (fun p hmem hp => ?_) fun _ h => by cases h
  rw [hreturns] at hp
  exact absurd (some.inj hp ▸ hmem) (not_mem_seats_of_playerIndex hnone false)

theorem step_turn (hs : TurnInv s) (hphase : s.phase = .playing) (h : s.step e = some s') :
    TurnStep s e s' := by
  cases e with
  | message fromId wire =>
    rw [step] at h
    split at h
    · cases h
    rename_i hother
    cases h
    cases wire with
    | join gameId =>
      rw [onWire]
      split
      · rename_i hgame
        rw [hgame]
        exact turnStep_handleJoin hphase hother
      · rename_i hgame
        refine turnStep_idle (.refl s) (fun _ => .refl s) ?_ rfl
        exact if_neg hgame
    | leave => exact turnStep_dropPlayer rfl
    | action gameId action =>
      rw [onWire]
      split
      · exact turnStep_idle (moves_getD_applyAction s fromId action)
          (turned_getD_applyAction hs hphase) rfl rfl
      · exact turnStep_idle (.refl s) (fun _ => .refl s) rfl rfl
    | unknown => exact turnStep_idle (.refl s) (fun _ => .refl s) rfl rfl
  | connected peerId =>
    cases h
    exact turnStep_reconnectPlayer hphase
  | disconnected peerId =>
    cases h
    exact turnStep_handleDisconnect hs.distinct hphase
  | ownAction action =>
    cases h
    exact turnStep_idle (moves_getD_applyAction s s.selfId action)
      (turned_getD_applyAction hs hphase) rfl rfl
  | start =>
    cases h
    have hgoing : s.phase ≠ .lobby ∧ s.phase ≠ .roundOver := by
      rw [hphase]
      exact ⟨by decide, by decide⟩
    rw [startGame, if_pos hgoing]
    exact turnStep_idle (.refl s) (fun _ => .refl s) rfl rfl
  | settings patch =>
    cases h
    rw [updateSettings]
    split
    · exact turnStep_idle ⟨fun _ => rfl, rfl, id⟩ (fun _ => .kept rfl rfl (.inl rfl)) rfl rfl
    · exact turnStep_idle ⟨fun _ => rfl, rfl, id⟩ (fun _ => .kept rfl rfl (.inl rfl)) rfl rfl
  | invite peerId =>
    cases h
    rw [invitePeer]
    split
    · exact turnStep_idle (.refl s) (fun _ => .refl s) rfl rfl
    · exact turnStep_idle ⟨fun _ => rfl, rfl, id⟩ (fun _ => .kept rfl rfl (.inl rfl)) rfl rfl
  | kick peerId =>
    cases h
    exact turnStep_dropPlayer rfl
  | turnTimer =>
    rw [step] at h
    split at h
    · cases h
      have hclear : Moves s { s with turnTimer := false } := ⟨fun _ => rfl, rfl, id⟩
      have hinv : TurnInv { s with turnTimer := false } := ⟨hs.distinct, hs.turn⟩
      refine turnStep_idle (hclear.trans (moves_turnTimeout _)) (fun hphase' => ?_) rfl rfl
      have hframe : Frame { s with pendingUnoPeer := s.pendingUnoPeer }
        { s with turnTimer := false } := ⟨rfl, rfl, rfl, rfl, rfl, rfl, rfl, rfl, rfl⟩
      exact Turned.congr hframe (turned_turnTimeout hinv hphase hphase')
    · cases h
  | autoStartTimer =>
    rw [step] at h
    split at h
    · have hlobby : ¬s.phase = .lobby := fun h => by cases hphase.symm.trans h
      dsimp only at h
      rw [if_neg hlobby] at h
      cases h
      exact turnStep_idle ⟨fun _ => rfl, rfl, id⟩ (fun _ => .kept rfl rfl (.inl rfl)) rfl rfl
    · cases h

end Game
end Bluetalk.Uno

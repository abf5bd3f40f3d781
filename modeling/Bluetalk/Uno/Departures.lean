import Bluetalk.Uno.TurnLaw

/-!
# Who comes back and who goes

For each kind of step, the exact condition under which it keeps the law of turns.
-/

open List Option

namespace Bluetalk.Uno.Game

variable {s s' : Game} {i idx : Nat} {q peerId : String} {e : HostEvent} {x : String × Bool}
  {y : String × Bool}

/-! ## When a step keeps the law -/

theorem setSeat_fst (q : String) (connected : Bool) (x : String × Bool) :
    (setSeat q connected x).1 = x.1 := by
  rw [setSeat]
  split <;> rfl

theorem setSeat_snd : (setSeat q true x).2 = true ↔ x.2 = true ∨ x.1 = q := by
  rw [setSeat]
  split
  · rename_i hx
    exact iff_of_true rfl (.inr hx)
  · rename_i hx
    rw [or_iff_left hx]

theorem toAct_map_setSeat {connected : Bool} (hseats : s'.seats = s.seats.map (setSeat q connected))
    (hturn : s'.toActIdx = s.toActIdx) : s'.toAct = s.toAct.map (setSeat q connected) := by
  rw [toAct_eq, toAct_eq, hturn, hseats, getElem?_map]
  split <;> rfl

theorem mem_seats_of_toAct (hx : s.toAct = some x) : x ∈ s.seats := by
  rw [toAct_eq] at hx
  split at hx
  · exact mem_of_getElem? hx
  · cases hx

theorem toAct_of_playerIndex (hidx : s.playerIndex q = some idx) (hact : s.toActIdx = idx) :
    ∃ connected, s.toAct = some (q, connected) := by
  obtain ⟨connected, hseat⟩ := getElem?_seats_playerIndex hidx
  refine ⟨connected, ?_⟩
  rw [toAct_eq, hact, if_pos (Int.natCast_nonneg idx), Int.toNat_natCast]
  exact hseat

theorem ne_of_toAct (hs : s.peerIds.Nodup) (hidx : s.playerIndex q = some idx)
    (hne : s.toActIdx ≠ idx) (hx : s.toAct = some x) : x.1 ≠ q := by
  rintro rfl
  obtain ⟨connected, hseat⟩ := getElem?_seats_playerIndex hidx
  rw [toAct_eq] at hx
  split at hx
  · rename_i h₀
    have hlt := (List.getElem?_eq_some_iff.mp hx).1
    have hsame : (s.seats.map Prod.fst)[s.toActIdx.toNat]? = (s.seats.map Prod.fst)[idx]? := by
      rw [getElem?_map, getElem?_map, hx, hseat]
      rfl
    have hpos := (getElem?_inj (by rwa [length_map]) (nodup_seats hs)).mp hsame
    omega
  · cases hx

theorem Ready.connected (h : Ready s) (hphase : s.phase = .playing)
    (hmany : 2 ≤ s.activePlayers.length) (hx : s.toAct = some x) : x.2 = true := by
  obtain ⟨y, hy, hconnected, -⟩ := ready_iff.mp h hphase hmany
  rwa [some.inj (hx.symm.trans hy)]

theorem length_others_le (s : Game) (q : String) :
    (s.others q).length ≤ s.activePlayers.length :=
  length_filter_le _ _

theorem keepsTurn_of
    (hreturns : ∀ p, (p, false) ∈ s.seats → e.returns s.gameId = some p → p = s.selfId)
    (h : ∀ x, s.toAct = some x → e.departs = some x.1 → x.1 ≠ s.selfId →
      ¬2 ≤ (s.others x.1).length) : KeepsTurn s e := by
  intro _ x hx
  refine ⟨fun p hp hpr hself => absurd (hreturns p hp hpr) hself, fun hremoves hself hmany => ?_,
    fun he hself hmany => ?_⟩
  · exact absurd hmany (h x hx (HostEvent.spec_of_removes hremoves).1 hself)
  · exact absurd hmany (h x hx (HostEvent.departs_disconnected he) hself)

theorem turnLaw_of_few (h : s'.phase = .playing → s'.activePlayers.length < 2) :
    TurnLaw s e s' where
  ready hphase hmany := absurd hmany (h hphase).not_ge
  passes _ hphase hmany := absurd hmany (h hphase).not_ge

theorem turnLaw_of_other (hx : s.toAct = some x) (hx' : s'.toAct = some x) (hconnected : x.2 = true)
    (hchoice : ∀ c, s'.pendingColorChoice = some c → c = x.1) (hdeparts : e.departs ≠ some x.1) :
    TurnLaw s e s' where
  ready := ready_iff.mpr fun _ _ => ⟨x, hx', hconnected, hchoice⟩
  passes _ _ _ y hy hd := by
    rw [← some.inj (hx.symm.trans hy)] at hd
    exact absurd hd hdeparts

theorem turnLaw_iff_of_actor (hphase : s.phase = .playing) (hphase' : s'.phase = .playing)
    (hx : s.toAct = some x) (hdeparts : e.departs = some x.1) (hother : x.1 ≠ s.selfId)
    (hmany : 2 ≤ (s.others x.1).length) (hactive : s'.activePlayers.length = (s.others x.1).length)
    (hchoice : s'.pendingColorChoice = none) :
    TurnLaw s e s' ↔ s'.toAct = s.nextAfter x.1 := by
  constructor
  · intro h
    exact h.passes hphase hphase' (hactive ▸ hmany) x hx hdeparts hother
  intro hturn
  refine ⟨ready_iff.mpr fun _ _ => ?_, fun _ _ _ y hy _ _ => ?_⟩
  · obtain ⟨y, hy⟩ := exists_nextAfter (s := s) (q := x.1) (by omega)
    have hconnected := find?_some hy
    rw [Bool.and_eq_true] at hconnected
    exact ⟨y, hturn.trans hy, hconnected.1, fun c hc => by cases hchoice.symm.trans hc⟩
  · rw [← some.inj (hx.symm.trans hy)]
    exact hturn

/-! ## Everyone stays -/

theorem law_turned (hready : Ready s) (hphase : s.phase = .playing)
    (hseats : s'.seats = s.seats) (h : s'.phase = .playing → Turned s s')
    (hreturns : ∀ q, (q, false) ∈ s.seats → e.returns s.gameId = some q → q = s.selfId)
    (hdeparts : ∀ q, e.departs = some q → q ≠ s.selfId → (q, true) ∉ s.seats) :
    TurnLaw s e s' ↔ KeepsTurn s e := by
  have hquiet : ∀ x, s.toAct = some x → e.departs = some x.1 → x.1 ≠ s.selfId →
      ¬2 ≤ s.activePlayers.length := by
    intro x hx hd hother hmany
    have hconnected := hready.connected hphase hmany hx
    refine hdeparts x.1 hd hother ?_
    rw [← hconnected]
    exact mem_seats_of_toAct hx
  refine iff_of_true ⟨fun hphase' => ?_, fun _ _ hmany x hx hd hother => ?_⟩ (keepsTurn_of hreturns
    fun x hx hd hother hmany => hquiet x hx hd hother (hmany.trans (length_others_le s x.1)))
  · exact (h hphase').ready hready hphase hseats hphase'
  · rw [activePlayers_congr hseats] at hmany
    exact absurd hmany (hquiet x hx hd hother)

/-! ## Somebody comes back -/

theorem inv_returned (hs : TurnInv s) (hi : s.playerIndex q = some i)
    (hframe : Frame (s.modifyPlayer i (·.setConnected true)) s') : TurnInv s' := by
  have hseats := hframe.seats.trans (seats_setConnected hs.distinct hi true)
  refine ⟨?_, fun hphase => ?_⟩
  · rw [peerIds_eq_of_seats hframe.seats, peerIds_setConnected]
    exact hs.distinct
  obtain ⟨x, hx, hchoice⟩ := hs.turn (hframe.phase.symm.trans hphase)
  refine ⟨setSeat q true x, ?_, fun c hc => ?_⟩
  · rw [toAct_map_setSeat hseats hframe.turn, hx]
    rfl
  · rw [setSeat_fst]
    obtain ⟨hcx, hpass⟩ := hchoice c (hframe.choice.symm.trans hc)
    exact ⟨hcx, hframe.pass.trans hpass⟩

theorem law_returned (hs : TurnInv s) (hready : Ready s) (hphase : s.phase = .playing)
    (hi : s.playerIndex q = some i) (hother : q ≠ s.selfId)
    (hframe : Frame (s.modifyPlayer i (·.setConnected true)) s')
    (hreturns : e.returns s.gameId = some q) (hdeparts : e.departs = none) :
    TurnLaw s e s' ↔ KeepsTurn s e := by
  obtain ⟨x, hx, hchoice⟩ := hs.turn hphase
  obtain ⟨p, hp, hpq⟩ := peerId_of_playerIndex hi
  have hmem : (q, p.connected) ∈ s.seats := by
    rw [← hpq]
    exact mem_map_of_mem (mem_of_getElem? hp)
  have hseats := hframe.seats.trans (seats_setConnected hs.distinct hi true)
  have hx' : s'.toAct = some (setSeat q true x) := by
    rw [toAct_map_setSeat hseats hframe.turn, hx]
    rfl
  have hcount := activePlayers_connect hp
  rw [← activePlayers_congr hframe.seats] at hcount
  have hlaw : TurnLaw s e s' ↔ (2 ≤ s'.activePlayers.length → x.2 = true ∨ x.1 = q) := by
    constructor
    · intro h hmany
      exact setSeat_snd.mp (h.ready.connected (hframe.phase.trans hphase) hmany hx')
    intro h
    refine ⟨ready_iff.mpr fun _ hmany => ⟨_, hx', setSeat_snd.mpr (h hmany), fun c hc => ?_⟩,
      fun _ _ _ _ _ hd => by cases hdeparts.symm.trans hd⟩
    rw [setSeat_fst]
    exact (hchoice c (hframe.choice.symm.trans hc)).1
  have hok : KeepsTurn s e ↔
      (p.connected = false → s.activePlayers.length = 1 → x.2 = true ∨ x.1 = q) := by
    constructor
    · intro h hoff hone
      exact (h hphase x hx).returns q (hoff ▸ hmem) hreturns hother hone
    intro h _ y hy
    obtain rfl := some.inj (hx.symm.trans hy)
    refine ⟨fun r hr hrr _ hone => ?_, fun hremoves => ?_, fun he => ?_⟩
    · obtain rfl := some.inj (hrr.symm.trans hreturns)
      have hsame := inj_on_of_nodup_map (nodup_seats hs.distinct) hmem hr rfl
      exact h (congrArg Prod.snd hsame) hone
    · cases hdeparts.symm.trans (HostEvent.spec_of_removes hremoves).1
    · cases hdeparts.symm.trans (HostEvent.departs_disconnected he)
  rw [hlaw, hok]
  cases hconnected : p.connected with
  | true =>
    rw [hconnected, if_pos rfl] at hcount
    refine iff_of_true (fun hmany => .inl ?_) fun h => by cases h
    exact hready.connected hphase (by omega) hx
  | false =>
    rw [hconnected, if_neg (by decide)] at hcount
    constructor
    · intro h _ hone
      exact h (by omega)
    intro h hmany
    by_cases hone : s.activePlayers.length = 1
    · exact h rfl hone
    · exact .inl (hready.connected hphase (by omega) hx)

/-! ## Somebody is taken off the table -/

theorem frame_dropPlayer (hs : s.peerIds.Nodup) (hidx : s.playerIndex q = some idx)
    (hother : q ≠ s.selfId) (hmany : 2 ≤ (s.others q).length) :
    ∃ turn, Frame ((s.takeOff q idx).passTo turn) (s.dropPlayer q) ∧
      (s.toActIdx ≠ idx → turn = (s.takeOff q idx).toActIdx) := by
  have hfew : ¬(s.phase = .playing ∧ (s.takeOff q idx).activePlayers.length < 2) := by
    rw [activePlayers_takeOff hs hidx]
    omega
  rw [dropPlayer, hidx]
  dsimp only
  rw [if_neg hother, if_neg hfew]
  split
  · rename_i hact
    split
    · exact ⟨_, ⟨rfl, rfl, rfl, rfl, rfl, rfl, rfl, rfl, rfl⟩, fun h => absurd hact.2 h⟩
    · exact ⟨_, ⟨rfl, rfl, rfl, rfl, rfl, rfl, rfl, rfl, rfl⟩, fun h => absurd hact.2 h⟩
  · exact ⟨_, ⟨rfl, rfl, rfl, rfl, rfl, rfl, rfl, rfl, rfl⟩, fun _ => rfl⟩

theorem many_of_dropPlayer (hs : s.peerIds.Nodup) (hidx : s.playerIndex q = some idx)
    (hother : q ≠ s.selfId) (hphase : s.phase = .playing)
    (hphase' : (s.dropPlayer q).phase = .playing) : 2 ≤ (s.others q).length := by
  obtain ⟨-, hself | hnone⟩ | ⟨j, hdropped⟩ := dropPlayer_cases s q
  · exact absurd hself hother
  · rw [playerIndex_eq_none.mpr hnone] at hidx
    cases hidx
  by_contra hfew
  have hlobby := hdropped.phase
  rw [activePlayers_takeOff hs hdropped.index, if_pos ⟨hphase, not_le.mp hfew⟩] at hlobby
  cases hphase'.symm.trans hlobby

theorem inv_dropped (hs : TurnInv s) (hphase : s.phase = .playing)
    (hidx : s.playerIndex q = some idx) (hother : q ≠ s.selfId) : TurnInv (s.dropPlayer q) := by
  refine ⟨nodup_dropPlayer hs.distinct, fun hphase' => ?_⟩
  obtain ⟨x, hx, hchoice⟩ := hs.turn hphase
  have hmany := many_of_dropPlayer hs.distinct hidx hother hphase hphase'
  obtain ⟨turn, hframe, hsame⟩ := frame_dropPlayer hs.distinct hidx hother hmany
  have hopen : ∀ c, (s.dropPlayer q).pendingColorChoice = some c →
      c ≠ q ∧ c = x.1 ∧ (s.dropPlayer q).drewCanPass = none := by
    intro c hc
    obtain ⟨hc, hne⟩ := forget_eq_some (hframe.choice.symm.trans hc)
    obtain ⟨hcx, hpass⟩ := hchoice c hc
    refine ⟨hne, hcx, hframe.pass.trans ?_⟩
    change forget q s.drewCanPass = none
    rw [hpass]
    rfl
  by_cases hact : s.toActIdx = idx
  · obtain ⟨connected, hq⟩ := toAct_of_playerIndex hidx hact
    have hxq : x.1 = q := congrArg Prod.fst (some.inj (hx.symm.trans hq))
    obtain ⟨c, rest, -, hturn⟩ := toAct_dropPlayer hs.distinct hidx hact hother hphase hmany
    obtain ⟨y, hy⟩ := exists_nextAfter (s := s) (q := q) (by omega)
    rw [hy] at hturn
    have hnone : ∀ c, (s.dropPlayer q).pendingColorChoice ≠ some c := by
      intro c hc
      obtain ⟨hne, hcx, -⟩ := hopen c hc
      exact hne (hcx.trans hxq)
    split at hturn
    · exact ⟨c, hturn, fun c hc => absurd hc (hnone c)⟩
    · exact ⟨y, hturn, fun c hc => absurd hc (hnone c)⟩
  · refine ⟨x, ?_, fun c hc => (hopen c hc).2⟩
    refine (toAct_congr (hframe.turn.trans (hsame hact)) hframe.seats).trans ?_
    exact toAct_takeOff hact hx (playerIndex_lt hidx)

theorem law_dropped (hs : TurnInv s) (hready : Ready s) (hphase : s.phase = .playing)
    (hidx : s.playerIndex q = some idx) (hother : q ≠ s.selfId) (hremoves : e.removes = some q) :
    TurnLaw s e (s.dropPlayer q) ↔ KeepsTurn s e := by
  obtain ⟨hdeparts, hreturns, hnot⟩ := HostEvent.spec_of_removes hremoves
  have hnoreturn : ∀ p, (p, false) ∈ s.seats → e.returns s.gameId = some p → p = s.selfId :=
    fun p _ hp => by cases (hreturns s.gameId).symm.trans hp
  obtain ⟨x, hx, hchoice⟩ := hs.turn hphase
  by_cases hmany : 2 ≤ (s.others q).length
  · obtain ⟨turn, hframe, hsame⟩ := frame_dropPlayer hs.distinct hidx hother hmany
    have hphase' : (s.dropPlayer q).phase = .playing := hframe.phase.trans hphase
    by_cases hact : s.toActIdx = idx
    · obtain ⟨connected, hq⟩ := toAct_of_playerIndex hidx hact
      obtain rfl := some.inj (hx.symm.trans hq)
      have hactive : (s.dropPlayer q).activePlayers.length = (s.others q).length := by
        rw [activePlayers_congr hframe.seats, ← activePlayers_takeOff hs.distinct hidx]
        rfl
      have hnone : (s.dropPlayer q).pendingColorChoice = none := by
        refine hframe.choice.trans (eq_none_iff_forall_ne_some.mpr fun c hc => ?_)
        obtain ⟨hc, hne⟩ := forget_eq_some hc
        exact hne (hchoice c hc).1
      rw [turnLaw_iff_of_actor hphase hphase' hx hdeparts hother hmany hactive hnone,
        toAct_dropPlayer_iff hs.distinct hidx hact hother hphase hmany]
      constructor
      · intro h _ y hy
        refine ⟨fun p hp hpr hself => absurd (hnoreturn p hp hpr) hself, fun _ _ _ hd => ?_,
          fun he => absurd he (hnot _)⟩
        rw [hact]
        exact h hd
      · intro h hd
        have hnext := (h hphase _ hx).removes hremoves hother hmany hd
        rwa [hact] at hnext
    · have hne := ne_of_toAct hs.distinct hidx hact hx
      have hx' : (s.dropPlayer q).toAct = some x :=
        (toAct_congr (hframe.turn.trans (hsame hact)) hframe.seats).trans
          (toAct_takeOff hact hx (playerIndex_lt hidx))
      refine iff_of_true ?_ (keepsTurn_of hnoreturn fun y hy hd => ?_)
      · refine turnLaw_of_other hx hx'
          (hready.connected hphase (hmany.trans (length_others_le s q)) hx) (fun c hc => ?_) ?_
        · exact (hchoice c (forget_eq_some (hframe.choice.symm.trans hc)).1).1
        · rw [hdeparts]
          exact fun h => hne (some.inj h).symm
      · rw [← some.inj (hx.symm.trans hy)] at hd
        exact absurd (some.inj (hdeparts.symm.trans hd)).symm hne
  · refine iff_of_true (turnLaw_of_few fun hphase' => ?_) (keepsTurn_of hnoreturn fun y _ hd _ => ?_)
    · exact absurd (many_of_dropPlayer hs.distinct hidx hother hphase hphase') hmany
    · rwa [← some.inj (hdeparts.symm.trans hd)]

/-! ## Somebody goes offline -/

theorem exists_find?_ringAfter (h : 0 < s.activePlayers.length) (d : ℤˣ) (i : Nat) :
    ∃ y, (ringAfter s.seats d i).find? (·.2) = some y := by
  obtain ⟨x, hx, hconnected⟩ := peopled_of_active h
  exact isSome_iff_exists.mp
    (find?_isSome.mpr ⟨x, (ringAfter_perm _ _ _).mem_iff.mpr hx, hconnected⟩)

theorem toAct_resolveDraw {count : Nat} {type : DrawType}
    (hs : s.peerIds.Nodup) (hrules : s.cfg.houseRules = .official) (hi : i < s.players.length)
    (hact : s.toActIdx = i) (hmany : 2 ≤ s.activePlayers.length)
    (hy : (ringAfter s.seats s.direction i).find? (·.2) = some y) :
    (s.resolveDraw count type).toAct ≠ some y := by
  have hcasual : ¬s.cfg.houseRules = .casual := by
    rw [hrules]
    decide
  obtain ⟨h₀, hlt⟩ := nextIndex_range (Nat.zero_lt_of_lt hi) s.toActIdx 0
  have hnext : s.seats[(s.nextIndex s.toActIdx 1).toNat]? = some y := by
    rw [hact, nextIndex, if_neg (Nat.ne_zero_of_lt hi)]
    exact seats_nextSeat hi hy
  rw [zero_add] at h₀ hlt
  have hframe := frame_drawCardsFor s (s.nextIndex s.toActIdx 1).toNat count
  obtain ⟨z, hz⟩ := exists_find?_ringAfter (s := s) (by omega) s.direction
    (s.nextIndex s.toActIdx 1).toNat
  have hz' : (s.resolveDraw count type).toAct = some z := by
    rw [resolveDraw, if_neg hcasual]
    refine toAct_of_nextIndex (i := (s.nextIndex s.toActIdx 1).toNat)
      (t := (s.drawCardsFor (s.nextIndex s.toActIdx 1).toNat count).1) ?_ ?_ rfl ?_
    · rw [← length_seats, hframe.seats, length_seats]
      omega
    · rw [Int.toNat_of_nonneg h₀]
      rfl
    · rw [hframe.seats, hframe.direction]
      exact hz
  rw [hz', ← hz]
  refine find?_ringAfter_ne ((nodup_seats hs).of_map _) hnext ?_
  rwa [← length_activePlayers_seats]

/-- The colour of a wild draw four is left for the rules to choose. -/
def LeavesDrawFour (s : Game) (q : String) : Prop :=
  s.pendingColorChoice = some q ∧ s.topCard.any (·.value = .wild4) = true ∧
    s.cfg.houseRules = .official

theorem toAct_releaseTurn (hs : s.peerIds.Nodup) (hi : i < s.players.length)
    (hact : s.toActIdx = i) (hmany : 2 ≤ s.activePlayers.length)
    (hy : (ringAfter s.seats s.direction i).find? (·.2) = some y) :
    (s.releaseTurn q i).toAct = some y ↔ ¬LeavesDrawFour s q := by
  have hnext : ∀ t : Game, t.seats = s.seats → t.toActIdx = s.nextIndex i 1 → t.toAct = some y :=
    fun t hseats hturn => toAct_of_nextIndex hi hturn hseats hy
  rw [releaseTurn]
  split
  · rename_i hwho
    dsimp only
    split
    · rename_i hfour
      refine iff_of_false ?_ (not_not.mpr ⟨hwho, hfour⟩)
      exact toAct_resolveDraw (s := { s with
        pendingColorChoice := none, activeColor := some (s.activeColor.getD .red) }) hs hfour.2 hi
        hact hmany hy
    rename_i hfour
    refine iff_of_true (hnext _ rfl ?_) fun h => hfour h.2
    rw [hact]
    rfl
  · rename_i hwho
    dsimp only
    split
    · refine iff_of_true (hnext _ rfl ?_) fun h => hwho h.1
      rw [hact]
      rfl
    · rename_i hfew
      exact absurd hmany hfew

theorem choice_releaseTurn (s : Game) (q : String) (i : Nat) :
    (s.releaseTurn q i).pendingColorChoice = forget q s.pendingColorChoice := by
  rw [releaseTurn, forget]
  split
  · dsimp only
    split
    · exact choice_resolveDraw _ 4 .draw4
    · rfl
  split
  · dsimp only
    split <;> rfl
  · rfl

theorem phase_releaseTurn (s : Game) (q : String) (i : Nat) :
    (s.releaseTurn q i).phase = s.phase := by
  have hdraw : ∀ t : Game, (t.resolveDraw 4 .draw4).phase = t.phase := by
    intro t
    rw [resolveDraw]
    split
    · rfl
    · exact (frame_drawCardsFor t (t.nextIndex t.toActIdx 1).toNat 4).phase
  rw [releaseTurn]
  split
  · dsimp only
    split
    · exact hdraw _
    · rfl
  split
  · dsimp only
    split <;> rfl
  · rfl

theorem exists_toAct_releaseTurn (hi : i < s.players.length) (hact : s.toActIdx = i) :
    ∃ y, (s.releaseTurn q i).toAct = some y := by
  have hn : 0 < s.players.length := Nat.zero_lt_of_lt hi
  have hsettled : ∀ t, Settled t → ∃ y, t.toAct = some y := fun t ⟨y, hy, _⟩ => ⟨y, hy⟩
  rw [releaseTurn]
  split
  · dsimp only
    split
    · exact hsettled _ (settled_resolveDraw (s := { s with
        pendingColorChoice := none, activeColor := some (s.activeColor.getD .red) }) hn 4 .draw4)
    · exact hsettled _ (settled_of_nextIndex (s := s) (k := 0) hn rfl rfl)
  dsimp only
  split
  · exact hsettled _ (settled_of_nextIndex (s := s) (k := 0) hn rfl rfl)
  have hlt : s.toActIdx.toNat < s.seats.length := by
    rw [hact, length_seats]
    exact hi
  refine ⟨s.seats[s.toActIdx.toNat], ?_⟩
  rw [toAct_eq]
  rw [if_pos (hact ▸ Int.natCast_nonneg i)]
  exact getElem?_eq_getElem hlt

theorem handleDisconnect_eq (hphase : s.phase = .playing) (hidx : s.playerIndex q = some idx)
    (hother : q ≠ s.selfId) (hseat : s.seats[idx]? = some (q, true)) : ∃ turnTimer,
      s.handleDisconnect q =
        { (s.modifyPlayer idx (·.setConnected false)).releaseTurn q idx with
          drewCanPass := forget q
            ((s.modifyPlayer idx (·.setConnected false)).releaseTurn q idx).drewCanPass
          pendingUnoPeer := forget q
            ((s.modifyPlayer idx (·.setConnected false)).releaseTurn q idx).pendingUnoPeer
          turnTimer } := by
  have hplayer : ¬s.players[idx]?.any (!·.connected) = true := by
    rw [any_offline hseat]
    decide
  rw [handleDisconnect, if_neg hother, hidx]
  dsimp only
  rw [if_neg (not_not.mpr hphase), if_neg hplayer]
  split
  · exact ⟨_, rfl⟩
  · exact ⟨_, rfl⟩

theorem releaseTurn_of_other (hwho : s.pendingColorChoice ≠ some q) (hact : s.toActIdx ≠ i) :
    s.releaseTurn q i = s := by rw [releaseTurn, if_neg hwho, if_neg hact]

theorem seats_handleDisconnect (hs : s.peerIds.Nodup) (hphase : s.phase = .playing)
    (hidx : s.playerIndex q = some idx) (hother : q ≠ s.selfId)
    (hseat : s.seats[idx]? = some (q, true)) :
    (s.handleDisconnect q).seats = s.seats.map (setSeat q false) ∧
      (s.handleDisconnect q).activePlayers.length = (s.others q).length := by
  obtain ⟨turnTimer, heq⟩ := handleDisconnect_eq hphase hidx hother hseat
  have hsame : (s.handleDisconnect q).seats =
      (s.modifyPlayer idx (·.setConnected false)).seats := by
    rw [heq]
    exact (moves_releaseTurn _ q idx).seats
  refine ⟨hsame.trans (seats_setConnected hs hidx false), ?_⟩
  rw [activePlayers_congr hsame, activePlayers_disconnect hs hidx]

theorem handleDisconnect_other (hs : TurnInv s) (hphase : s.phase = .playing)
    (hidx : s.playerIndex q = some idx) (hother : q ≠ s.selfId)
    (hseat : s.seats[idx]? = some (q, true)) (hact : s.toActIdx ≠ idx) (hx : s.toAct = some x) :
    (s.handleDisconnect q).toAct = some x ∧
      (s.handleDisconnect q).pendingColorChoice = s.pendingColorChoice ∧
      (s.handleDisconnect q).drewCanPass = forget q s.drewCanPass := by
  obtain ⟨y, hy, hchoice⟩ := hs.turn hphase
  obtain rfl := some.inj (hx.symm.trans hy)
  have hne := ne_of_toAct hs.distinct hidx hact hx
  have hwho : (s.modifyPlayer idx (·.setConnected false)).pendingColorChoice ≠ some q :=
    fun hc => hne (hchoice q hc).1.symm
  obtain ⟨turnTimer, heq⟩ := handleDisconnect_eq hphase hidx hother hseat
  rw [releaseTurn_of_other hwho hact] at heq
  refine ⟨?_, by rw [heq]; rfl, by rw [heq]; rfl⟩
  have hturn : (s.handleDisconnect q).toActIdx = s.toActIdx := by
    rw [heq]
    rfl
  rw [toAct_map_setSeat (seats_handleDisconnect hs.distinct hphase hidx hother hseat).1 hturn, hx]
  exact congrArg some (if_neg hne)

theorem inv_offline (hs : TurnInv s) (hphase : s.phase = .playing)
    (hidx : s.playerIndex q = some idx) (hother : q ≠ s.selfId)
    (hseat : s.seats[idx]? = some (q, true)) : TurnInv (s.handleDisconnect q) := by
  refine ⟨(stays_handleDisconnect hphase).peerIds ▸ hs.distinct, fun _ => ?_⟩
  obtain ⟨x, hx, hchoice⟩ := hs.turn hphase
  by_cases hact : s.toActIdx = idx
  · obtain ⟨connected, hq⟩ := toAct_of_playerIndex hidx hact
    obtain rfl := some.inj (hx.symm.trans hq)
    have hlt : idx < (s.modifyPlayer idx (·.setConnected false)).players.length := by
      rw [modifyPlayer, length_modify]
      exact playerIndex_lt hidx
    obtain ⟨y, hy⟩ := exists_toAct_releaseTurn (q := q) hlt hact
    obtain ⟨turnTimer, heq⟩ := handleDisconnect_eq hphase hidx hother hseat
    have hsame := choice_releaseTurn (s.modifyPlayer idx (·.setConnected false)) q idx
    rw [heq]
    refine ⟨y, (toAct_congr rfl rfl).trans hy, fun c hc => ?_⟩
    obtain ⟨hc, hne⟩ := forget_eq_some (hsame.symm.trans hc)
    exact absurd (hchoice c hc).1 hne
  · obtain ⟨hx', hsame, hpass⟩ := handleDisconnect_other hs hphase hidx hother hseat hact hx
    refine ⟨x, hx', fun c hc => ?_⟩
    obtain ⟨hcx, hnone⟩ := hchoice c (hsame.symm.trans hc)
    refine ⟨hcx, hpass.trans ?_⟩
    rw [hnone]
    rfl

theorem law_offline (hs : TurnInv s) (hready : Ready s) (hphase : s.phase = .playing)
    (hidx : s.playerIndex q = some idx) (hother : q ≠ s.selfId)
    (hseat : s.seats[idx]? = some (q, true)) :
    TurnLaw s (.disconnected q) (s.handleDisconnect q) ↔ KeepsTurn s (.disconnected q) := by
  have hdeparts : (HostEvent.disconnected q).departs = some q := rfl
  have hnoreturn : ∀ p, (p, false) ∈ s.seats →
      (HostEvent.disconnected q).returns s.gameId = some p → p = s.selfId := fun _ _ h => by cases h
  obtain ⟨x, hx, hchoice⟩ := hs.turn hphase
  obtain ⟨hseats, hactive⟩ := seats_handleDisconnect hs.distinct hphase hidx hother hseat
  by_cases hmany : 2 ≤ (s.others q).length
  · by_cases hact : s.toActIdx = idx
    · obtain ⟨connected, hq⟩ := toAct_of_playerIndex hidx hact
      obtain rfl := some.inj (hx.symm.trans hq)
      obtain ⟨turnTimer, heq⟩ := handleDisconnect_eq hphase hidx hother hseat
      have hphase' : (s.handleDisconnect q).phase = .playing := by
        rw [heq]
        exact (phase_releaseTurn _ q idx).trans hphase
      have hnone : (s.handleDisconnect q).pendingColorChoice = none := by
        rw [heq]
        refine (choice_releaseTurn _ q idx).trans (eq_none_iff_forall_ne_some.mpr ?_)
        intro c hc
        obtain ⟨hc, hne⟩ := forget_eq_some hc
        exact hne (hchoice c hc).1
      rw [turnLaw_iff_of_actor hphase hphase' hx hdeparts hother hmany hactive hnone]
      have hlaw : (s.handleDisconnect q).toAct = s.nextAfter q ↔ ¬LeavesDrawFour s q := by
        obtain ⟨y, hy⟩ := exists_nextAfter (s := s) (q := q) (by omega)
        rw [hy, heq]
        rw [nextAfter, hact, Int.toNat_natCast, ← find?_ringAfter_offline,
          ← seats_setConnected hs.distinct hidx false] at hy
        refine toAct_releaseTurn (s := s.modifyPlayer idx (·.setConnected false)) ?_ ?_ hact ?_ hy
        · rw [peerIds_setConnected]
          exact hs.distinct
        · rw [modifyPlayer, length_modify]
          exact playerIndex_lt hidx
        · rwa [activePlayers_disconnect hs.distinct hidx]
      rw [hlaw]
      constructor
      · intro h _ y hy
        obtain rfl := some.inj (hx.symm.trans hy)
        refine ⟨fun p hp hpr hself => absurd (hnoreturn p hp hpr) hself, (fun h => by cases h),
          fun _ _ _ hwho hrules => ?_⟩
        exact Bool.eq_false_iff.mpr fun hfour => h ⟨hwho, hfour, hrules⟩
      · rintro h ⟨hwho, hfour, hrules⟩
        rw [(h hphase _ hx).chooses rfl hother hmany hwho hrules] at hfour
        cases hfour
    · have hne := ne_of_toAct hs.distinct hidx hact hx
      obtain ⟨hx', hsame, -⟩ := handleDisconnect_other hs hphase hidx hother hseat hact hx
      refine iff_of_true ?_ (keepsTurn_of hnoreturn fun y hy hd => ?_)
      · refine turnLaw_of_other hx hx'
          (hready.connected hphase (hmany.trans (length_others_le s q)) hx) (fun c hc => ?_) ?_
        · exact (hchoice c (hsame.symm.trans hc)).1
        · exact fun h => hne (some.inj h).symm
      · rw [← some.inj (hx.symm.trans hy)] at hd
        exact absurd (some.inj hd).symm hne
  · refine iff_of_true (turnLaw_of_few fun _ => ?_) (keepsTurn_of hnoreturn fun y _ hd _ => ?_)
    · omega
    · rwa [← some.inj hd]

end Bluetalk.Uno.Game

/-!
## A round goes on

The exact condition under which a run keeps the law of turns, from the table as a host opens it.
-/

namespace Bluetalk.Uno.Game

variable {s s' : Game} {e : HostEvent}

theorem step_playing (hs : TurnInv s) (hphase : s.phase = .playing) (h : s.step e = some s') :
    TurnInv s' ∧ (Ready s → (TurnLaw s e s' ↔ KeepsTurn s e)) := by
  cases step_turn hs hphase h with
  | turned hseats hturn hreturns hdeparts =>
    refine ⟨⟨peerIds_eq_of_seats hseats ▸ hs.distinct, fun hphase' => ?_⟩,
      fun hready => law_turned hready hphase hseats hturn hreturns hdeparts⟩
    exact ((hturn hphase').inv hs hphase hseats).turn hphase'
  | returned q i hi hother hframe hreturns hdeparts =>
    exact ⟨inv_returned hs hi hframe,
      fun hready => law_returned hs hready hphase hi hother hframe hreturns hdeparts⟩
  | dropped q idx hidx hother hremoves h =>
    rw [h]
    exact ⟨inv_dropped hs hphase hidx hother,
      fun hready => law_dropped hs hready hphase hidx hother hremoves⟩
  | offline q idx hidx hother hseat he h =>
    rw [h, he]
    exact ⟨inv_offline hs hphase hidx hother hseat,
      fun hready => law_offline hs hready hphase hidx hother hseat⟩

theorem Started.toAct (h : Started s s') :
    ∃ x, s'.toAct = some x ∧ x.2 = true := by
  obtain ⟨idx, hturn⟩ := h.turn
  have hseats : s'.seats = s.deal.seats := congrArg (List.map _) h.players
  have hlength : s.deal.players.length = s.players.length := by
    rw [← length_seats, seats_deal, length_seats]
  have hle : s.activePlayers.length ≤ s.players.length := length_filter_le _ _
  have henough := h.enough
  obtain ⟨x, hx, hconnected⟩ := settled_of_nextIndex (s := s.deal) (k := 0) (by omega) hturn hseats
  refine ⟨x, hx, hconnected ?_⟩
  rw [Peopled, hseats, seats_deal]
  exact peopled_of_active (by omega)

theorem step_idle (hs : s.peerIds.Nodup) (hphase : s.phase ≠ .playing)
    (h : s.step e = some s') : TurnInv s' ∧ (TurnLaw s e s' ↔ KeepsTurn s e) := by
  have hinv : Inv s := ⟨hs, fun h => absurd h hphase⟩
  refine ⟨⟨(inv_step hinv h).distinct, fun hphase' => ?_⟩,
    iff_of_true ⟨ready_iff.mpr fun hphase' _ => ?_, fun h => absurd h hphase⟩
      fun h => absurd h hphase⟩
  · have hstarted := started_of_step hphase h hphase'
    obtain ⟨x, hx, -⟩ := hstarted.toAct
    exact ⟨x, hx, fun c hc => by cases hstarted.choice.symm.trans hc⟩
  · have hstarted := started_of_step hphase h hphase'
    obtain ⟨x, hx, hconnected⟩ := hstarted.toAct
    exact ⟨x, hx, hconnected, fun c hc => by cases hstarted.choice.symm.trans hc⟩

theorem TurnInv.step (hs : TurnInv s) (h : s.step e = some s') :
    TurnInv s' ∧ (Ready s → (TurnLaw s e s' ↔ KeepsTurn s e)) := by
  by_cases hphase : s.phase = .playing
  · exact step_playing hs hphase h
  · exact (step_idle hs.distinct hphase h).imp_right fun hlaw _ => hlaw

theorem step_law (hs : TurnInv s ∧ Ready s) (h : s.step e = some s') :
    TurnInv s' ∧ (TurnLaw s e s' ↔ KeepsTurn s e) :=
  (hs.1.step h).imp_right fun hlaw => hlaw hs.2

/-- In every round somebody has the turn, and no one else has a colour to choose. -/
theorem turn_kept {es : List HostEvent} (hs : s.Created) : Always step TurnInv s es :=
  Run.always (fun H h => (H.step h).1) ⟨hs.spec.1, fun h => by cases hs.spec.2.symm.trans h⟩

/-- Three players begin a round. -/
theorem turn_kept_three : Always step TurnInv (openTable fun _ => 0) threeBegin :=
  turn_kept (created_openTable _)

/-- Every step of a run keeps the law of turns exactly when each meets its condition. -/
theorem turnLaw_iff_keepsTurn {es : List HostEvent} (hs : s.Created) (h : FreeRun step s es s') :
    EveryStep step TurnLaw s es ↔ Run step KeepsTurn s es s' := by
  have hidle : s.phase ≠ .playing := fun hphase => by cases hs.spec.2.symm.trans hphase
  exact h.everyStep_iff (I := fun s => TurnInv s ∧ Ready s)
    (fun hs ha hlaw => ⟨(step_law hs ha).1, hlaw.ready⟩) (fun hs ha => (step_law hs ha).2)
    ⟨⟨hs.spec.1, fun h => absurd h hidle⟩, fun h => absurd h hidle⟩

/-- The player to act goes offline, and the turn is passed on. -/
theorem turnLaw_iff_keepsTurn_offline : ∃ s, s.toAct = some ("b", true) ∧
    (EveryStep step TurnLaw (openTable fun _ => 0) (threeBegin ++ [.disconnected "a"]) ↔
      Run step KeepsTurn (openTable fun _ => 0) (threeBegin ++ [.disconnected "a"]) s) := by
  have hexec : (exec step (openTable fun _ => 0) (threeBegin ++ [.disconnected "a"])).any
      (·.toAct = some ("b", true)) := by decide +kernel
  obtain ⟨s, hs, hturn⟩ := (any_eq_true _ _).mp hexec
  exact ⟨s, of_decide_eq_true hturn, turnLaw_iff_keepsTurn (created_openTable _) (.of_exec hs)⟩

/-- Two of three go offline, the one to act the last of them, and only the other comes back. -/
theorem round_stuck : ¬ ∀ s es s', s.Created → FreeRun step s es s' → Ready s' := by
  intro h
  have hexec : (exec step (openTable fun _ => 0)
      (threeBegin ++ [.disconnected "b", .disconnected "a", .connected "b"])).any
      fun s => s.phase = .playing ∧ 2 ≤ s.activePlayers.length ∧ s.toAct = some ("a", false) := by
    decide +kernel
  obtain ⟨s, hs, hstuck⟩ := (any_eq_true _ _).mp hexec
  obtain ⟨hphase, hmany, hturn⟩ := of_decide_eq_true hstuck
  have hready := h _ _ s (created_openTable _) (.of_exec hs)
  cases hready.connected hphase hmany hturn

end Bluetalk.Uno.Game

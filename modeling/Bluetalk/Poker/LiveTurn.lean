import Bluetalk.Poker.Start

/-!
# A running hand waits for a player who can act

`toActIdx` is a position in a list of which players are taken and into which one is put. The searches
for the next player end at one who can act where there is one (`liveAt_nextLiveSeat`); what remains
are the three ways in which a position comes to name another player, or nobody.
-/

open List Option

namespace Bluetalk.Poker.Table

variable {t t' : Table} {i j : Nat} {idx : Int} {peerId : String} {p : Player} {a : Action}
  {e : HostEvent} {es : List HostEvent} {n guard : Nat}

/-- While a hand runs the player to act is in it, has not folded and is not all in. -/
def Ready (t : Table) : Prop := t.stage.running = true → t.liveAt t.toActIdx = true

/-- Dealer and turn are positions, or -1. -/
structure Indexed (t : Table) : Prop where
  dealer : -1 ≤ t.dealerIdx
  toAct : -1 ≤ t.toActIdx

theorem liveAt_iff : t.liveAt idx = true ↔
    ∃ j : Nat, idx = j ∧ ∃ p, t.players[j]? = some p ∧ p.live = true := by
  rw [liveAt, player?]
  constructor
  · intro h
    split at h
    · rename_i hnonneg
      obtain ⟨p, hp, hlive⟩ := (any_eq_true _ _).mp h
      exact ⟨idx.toNat, (Int.toNat_of_nonneg hnonneg).symm, p, hp, hlive⟩
    · cases h
  · rintro ⟨j, rfl, p, hp, hlive⟩
    rw [if_pos (Int.natCast_nonneg j), Int.toNat_natCast, hp]
    exact hlive

/-! ## The searches -/

theorem exists_round (hidx : -1 ≤ idx) (hj : j < n) :
    ∃ k < n, (idx + (k + 1 : Nat)).tmod n = j := by
  have hpos : (0 : Int) < n := by omega
  refine ⟨((j - idx - 1) % n).toNat, ?_, ?_⟩
  · have := Int.emod_lt_of_pos (j - idx - 1) hpos
    omega
  have hnonneg := Int.emod_nonneg (j - idx - 1) hpos.ne'
  rw [Int.tmod_eq_emod_of_nonneg (by omega), Nat.cast_add, Int.toNat_of_nonneg hnonneg]
  have hsum : idx + ((j - idx - 1) % n + ((1 : Nat) : Int)) = (idx + 1) + (j - idx - 1) % n := by
    push_cast
    ring
  rw [hsum, Int.add_emod_emod, show idx + 1 + (j - idx - 1) = (j : Int) by ring]
  exact Int.emod_eq_of_lt (Int.natCast_nonneg j) (Int.ofNat_lt.mpr hj)

theorem liveAt_nextLiveSeat (hidx : -1 ≤ idx) (h : ∃ p ∈ t.players, p.live = true) :
    t.liveAt (t.nextLiveSeat idx) = true := by
  obtain ⟨p, hp, hlive⟩ := h
  obtain ⟨j, hj⟩ := mem_iff_getElem?.mp hp
  obtain ⟨hlt, -⟩ := List.getElem?_eq_some_iff.mp hj
  obtain ⟨k, hk, hround⟩ := exists_round hidx hlt
  rw [nextLiveSeat]
  cases hfind : List.find? t.liveAt ((List.range t.players.length).map fun k =>
      (idx + (k + 1 : Nat)).tmod t.players.length) with
  | some found =>
    have hfound := find?_some hfind
    exact hfound
  | none =>
    refine absurd ?_ (find?_eq_none.mp hfind _
      (mem_map.mpr ⟨k, mem_range.mpr hk, hround⟩))
    exact liveAt_iff.mpr ⟨j, rfl, p, hj, hlive⟩

theorem nextLiveSeat_eq (h : ¬∃ p ∈ t.players, p.live = true) : t.nextLiveSeat idx = -1 := by
  rw [nextLiveSeat, find?_eq_none.mpr]
  · rfl
  · intro found _ hlive
    obtain ⟨j, -, p, hp, hlive⟩ := liveAt_iff.mp hlive
    exact h ⟨p, mem_of_getElem? hp, hlive⟩

theorem neg_one_le_of_liveAt (h : t.liveAt idx = true) : -1 ≤ idx := by
  obtain ⟨j, rfl, -⟩ := liveAt_iff.mp h
  omega

theorem neg_one_le_nextLiveSeat (hidx : -1 ≤ idx) : -1 ≤ t.nextLiveSeat idx := by
  by_cases h : ∃ p ∈ t.players, p.live = true
  · exact neg_one_le_of_liveAt (liveAt_nextLiveSeat hidx h)
  · rw [nextLiveSeat_eq h]

theorem liveAt_seekLive (guard : Nat) (hidx : -1 ≤ idx) (h : ∃ p ∈ t.players, p.live = true) :
    t.liveAt (t.seekLive (guard + 2) idx) = true := by
  have hnext := liveAt_nextLiveSeat hidx h
  rw [seekLive]
  split
  · assumption
  rename_i hdead
  rw [if_neg]
  · rw [seekLive, if_pos hnext]
    exact hnext
  rintro (hneg | heq)
  · obtain ⟨j, hj, -⟩ := liveAt_iff.mp hnext
    omega
  · exact hdead (heq ▸ hnext)

theorem seekLive_eq (h : ¬∃ p ∈ t.players, p.live = true) :
    t.seekLive guard idx = idx := by
  cases guard with
  | zero => rfl
  | succ guard =>
    rw [seekLive, nextLiveSeat_eq h]
    split
    · rfl
    · exact if_pos (.inl (by decide))

/-! ## The end of an action -/

theorem exists_live (h : t.activeInHand.any (!·.allIn) = true) : ∃ p ∈ t.players, p.live = true := by
  obtain ⟨p, hp, hallIn⟩ := any_eq_true.mp h
  obtain ⟨hp, hactive⟩ := mem_filter.mp hp
  exact ⟨p, hp, by rw [Player.live, hactive, hallIn]; rfl⟩

theorem ready_passTurn (hidx : -1 ≤ t.toActIdx) (h : ∃ p ∈ t.players, p.live = true) :
    t.liveAt t.passTurn.toActIdx = true := by
  have hnext := liveAt_nextLiveSeat hidx h
  rw [passTurn, seekNext, if_pos hnext]
  exact hnext

theorem live_clearRoundBet (p : Player) : p.clearRoundBet.live = p.live := by
  rw [Player.clearRoundBet]
  split <;> rfl

theorem neg_one_le_tmod (hidx : -1 ≤ idx) : -1 ≤ idx.tmod n := by
  rcases eq_or_lt_of_le hidx with rfl | hlt
  · rcases n with - | - | n
    · decide
    · decide
    · rw [Int.neg_tmod, Int.tmod_eq_of_lt (by decide) (by omega)]
  · exact (Int.tmod_nonneg _ (by omega)).trans' (by decide)

theorem ready_advanceStreet (hidx : -1 ≤ t.dealerIdx) (h : ∃ p ∈ t.players, p.live = true) :
    t.advanceStreet.liveAt t.advanceStreet.toActIdx = true := by
  rw [advanceStreet]
  generalize htable : dealStreet _ = t₁
  have hplayers : t₁.players = t.players.map (·.clearRoundBet) := by
    rw [← htable, players_dealStreet]
    rfl
  have hdealer : t₁.dealerIdx = t.dealerIdx := by
    rw [← htable]
    unfold dealStreet
    split <;> rfl
  have hlive : ∃ p ∈ t₁.players, p.live = true := by
    obtain ⟨p, hp, hlive⟩ := h
    refine ⟨p.clearRoundBet, ?_, (live_clearRoundBet p).trans hlive⟩
    rw [hplayers]
    exact mem_map_of_mem hp
  refine liveAt_seekLive (t := t₁) (t₁.players.length + 1) ?_ hlive
  rw [hdealer]
  split
  · exact neg_one_le_tmod hidx
  · exact neg_one_le_nextLiveSeat hidx

theorem ready_of_idle (h : t.stage.running = false) : t.Ready :=
  fun hrunning => absurd (h.symm.trans hrunning) (by decide)

theorem Ended.ready (h : Ended t t') : t'.Ready := ready_of_idle (by rw [h.stage]; rfl)

theorem ready_tail (H : t.Indexed) : t.tail.table.Ready := by
  have h := t.tails_tail
  generalize t.tail = r at h
  cases h with
  | awards h => exact (ended_awardUncontested h).ready
  | runsOut | shows => exact (ended_showdown _).ready
  | advances hmany hlive => exact fun _ => ready_advanceStreet H.dealer (exists_live hlive)
  | passes hmany hlive => exact fun _ => ready_passTurn H.toAct (exists_live hlive)

/-! ## The start of a hand -/

theorem inHand_nextInHandIndex (hidx : -1 ≤ idx) (h : ∃ p ∈ t.players, p.inHand = true) :
    ((t.player? (t.nextInHandIndex idx)).any (·.inHand)) = true := by
  obtain ⟨p, hp, hhand⟩ := h
  obtain ⟨j, hj⟩ := mem_iff_getElem?.mp hp
  obtain ⟨hlt, -⟩ := List.getElem?_eq_some_iff.mp hj
  obtain ⟨k, hk, hround⟩ := exists_round hidx hlt
  rw [nextInHandIndex]
  cases hfind : List.find? (fun idx => (t.player? idx).any (·.inHand))
      ((List.range t.players.length).map fun k =>
        (idx + (k + 1 : Nat) + t.players.length).tmod t.players.length) with
  | some found =>
    have hfound := find?_some hfind
    exact hfound
  | none =>
    refine absurd ?_ (find?_eq_none.mp hfind _
      (mem_map.mpr ⟨k, mem_range.mpr hk, rfl⟩))
    rw [Int.tmod_eq_emod_of_nonneg (by omega), Int.add_emod_right,
      ← Int.tmod_eq_emod_of_nonneg (by omega), hround, player?, if_pos (Int.natCast_nonneg j),
      Int.toNat_natCast, hj]
    exact hhand

theorem neg_one_le_nextInHandIndex (hidx : -1 ≤ idx) : -1 ≤ t.nextInHandIndex idx := by
  rw [nextInHandIndex]
  cases hfind : List.find? (fun idx => (t.player? idx).any (·.inHand))
      ((List.range t.players.length).map fun k =>
        (idx + (k + 1 : Nat) + t.players.length).tmod t.players.length) with
  | none => decide
  | some found =>
    obtain ⟨k, -, rfl⟩ := mem_map.mp (mem_of_find?_eq_some hfind)
    exact (Int.tmod_nonneg _ (by omega)).trans' (by decide)

theorem dealerIdx_handed (t : Table) : t.handed.dealerIdx = t.credited.opened.dealerIdx :=
  t.bets_staked.dealerIdx

theorem inHand_handed (t : Table) :
    t.handed.players.map (·.inHand) = t.credited.opened.players.map (·.inHand) := by
  have hdeal : t.handed.players.map (·.inHand) = t.staked.1.players.map (·.inHand) :=
    map_dealHoles (fun _ _ => rfl) _ _
  have hmap := congrArg (List.map fun d : String × Nat × Bool × List Card => d.2.2.1)
    t.bets_staked.dealt
  rw [List.map_map, List.map_map] at hmap
  exact hdeal.trans hmap

theorem any_player? {g : Player → Bool} {l l' : List Player} (h : l'.map g = l.map g) (idx : Nat) :
    l'[idx]?.any g = l[idx]?.any g := by
  have hget := congrArg (·[idx]?) h
  simp only [getElem?_map] at hget
  cases hl : l[idx]? with
  | none =>
    cases hl' : l'[idx]? with
    | none => rfl
    | some p => rw [hl, hl'] at hget; cases hget
  | some q =>
    cases hl' : l'[idx]? with
    | none => rw [hl, hl'] at hget; cases hget
    | some p =>
      rw [hl, hl'] at hget
      exact some.inj hget

theorem active_of_inHand (hp : p ∈ t.begun.players) (h : p.inHand = true) : p.active = true := by
  have hactive := t.active_begun
  have hinHand : t.begun.players.map (·.inHand) = t.credited.players.map (·.ready) := by
    refine t.inHand_handed.trans ?_
    rw [opened, newHand, List.map_map]
    rfl
  have heq := hactive.trans hinHand.symm
  rw [map_inj_left] at heq
  exact (heq p hp).trans h

theorem ready_begun (H : t.Indexed) (hover : ¬t.overAtOnce) :
    t.begun.Ready := by
  intro _
  have hdealer : -1 ≤ t.handed.dealerIdx := by
    rw [dealerIdx_handed]
    exact neg_one_le_nextInHandIndex H.dealer
  have hbb : -1 ≤ t.staked.2 := by
    refine neg_one_le_nextInHandIndex ?_
    rw [(bets_payAntes _).dealerIdx]
    split
    · exact neg_one_le_nextInHandIndex H.dealer
    · exact neg_one_le_nextInHandIndex (neg_one_le_nextInHandIndex H.dealer)
  by_cases hlive : ∃ p ∈ t.handed.players, p.live = true
  · refine liveAt_seekLive (t := t.handed) (t.count + 1) ?_ hlive
    split
    · exact hdealer
    · exact neg_one_le_nextLiveSeat hbb
  refine absurd ?_ hover
  have hidx : t.begun.toActIdx =
      if t.count = 2 then t.handed.dealerIdx else t.handed.nextLiveSeat t.staked.2 :=
    seekLive_eq hlive
  by_cases htwo : t.count = 2
  · right
    rw [hidx, if_pos htwo]
    -- The dealer was dealt in, and cannot act.
    have hready : ∃ p ∈ t.credited.opened.players, p.inHand = true := by
      have hpos : 0 < (t.credited.players.filter (·.ready)).length := by
        rw [← count, htwo]
        decide
      obtain ⟨p, hp⟩ := exists_mem_of_length_pos hpos
      obtain ⟨hp, hready⟩ := mem_filter.mp hp
      exact ⟨p.enterHand, mem_map_of_mem hp, hready⟩
    have hfirst : (t.credited.opened.player? t.credited.opened.dealerIdx).any (·.inHand) = true :=
      inHand_nextInHandIndex (t := t.credited.opened) H.dealer hready
    cases hp : t.begun.player? t.handed.dealerIdx with
    | none => rfl
    | some p =>
      rw [player?] at hp
      split at hp
      · rename_i hnonneg
        have hmem := mem_of_getElem? hp
        have hany := any_player? t.inHand_handed t.handed.dealerIdx.toNat
        rw [show t.handed.players[t.handed.dealerIdx.toNat]? = some p from hp,
          any_some] at hany
        rw [← dealerIdx_handed, player?, if_pos hnonneg] at hfirst
        have hactive := active_of_inHand hmem (hany.trans hfirst)
        rw [all_some]
        by_contra hallIn
        exact hlive ⟨p, hmem, by rw [Player.live, hactive, Bool.eq_false_iff.mpr hallIn]; rfl⟩
      · cases hp
  · left
    rw [hidx, if_neg htwo, nextLiveSeat_eq hlive]
    decide

end Bluetalk.Poker.Table

/-!
## Only the player to act acts

What another peer asks for changes the table only where it is to act and asks for something the
rules allow. An action of no known type is let through, as is a raise to no amount.
-/

namespace Bluetalk.Poker.Table

variable {t t' : Table} {e : HostEvent} {es : List HostEvent}

/-- What the rules allow the player to act -/
def Allows (t : Table) (p : Player) : Action → Prop
  | .fold | .call | .allIn => True
  | .check => t.toCall p = .amount 0
  | .raise raiseTo amount => ∃ q, requestedTarget t.maxBet raiseTo amount = .finite q
  | .unknown => False

/-- An action that another peer sends leaves the table as it is, or the peer is to act in a running
hand and the rules allow it. -/
def Disciplined (t : Table) (e : HostEvent) (t' : Table) : Prop :=
  ∀ fromId tableId a, e = .message fromId tableId (.action a) →
    t' = t ∨ t.stage.running = true ∧
      ∃ p, t.player? t.toActIdx = some p ∧ p.peerId = fromId ∧ t.Allows p a

/-- Whether an action is of a known type, and a raise to an amount or one that is not taken -/
def known (t : Table) (p : Player) : Action → Bool
  | .unknown => false
  | .raise raiseTo amount =>
    (p.currentRoundBet + p.chips).le t.maxBet ||
      match requestedTarget t.maxBet raiseTo amount with
      | .finite _ => true
      | _ => false
  | _ => true

/-- What the player who can act asks for is known. -/
def asksKnown (t : Table) : HostEvent → Bool
  | .message fromId tableId (.action a) =>
    tableId ≠ t.tableId ||
      (t.player? t.toActIdx).all fun p => p.peerId ≠ fromId || !p.live || t.known p a
  | _ => true

theorem allows_of_known {p : Player} {a : Action} (hknown : t.known p a = true)
    (h : t.act p a = some t') : t.Allows p a := by
  cases a with
  | fold | call | allIn => trivial
  | check =>
    rw [act] at h
    split at h
    · rename_i hcall
      exact hcall
    · cases h
  | raise raiseTo amount =>
    rw [act] at h
    split at h
    · cases h
    rename_i hroom
    rw [known, Bool.eq_false_iff.mpr hroom, Bool.false_or] at hknown
    rw [Allows]
    cases htarget : requestedTarget t.maxBet raiseTo amount with
    | finite q => exact ⟨q, rfl⟩
    | nan | negInfinity | infinity => rw [htarget] at hknown; cases hknown
  | unknown => cases hknown

theorem disciplined_step (H : t.Settled) (hknown : t.asksKnown e = true)
    (h : t.step e = some t') : Disciplined t e t' := by
  rintro fromId tableId a rfl
  obtain ⟨r, hr, rfl⟩ := map_eq_some_iff.mp h
  rw [takes] at hr
  split at hr
  · cases hr
  cases hr
  split
  · rename_i htable
    rw [onWire]
    cases happly : t.applyAction fromId a with
    | none => exact .inl rfl
    | some r =>
      obtain ⟨p, t₁, hp, hid, hlive, hact, -⟩ := applyAction_eq_some happly
      refine .inr ⟨H.turned.running hp, p, hp, hid, allows_of_known ?_ hact⟩
      rw [asksKnown, hp, all_some, htable, hid, hlive] at hknown
      simpa using hknown
  · exact .inl rfl

/-- In every run in which the players to act ask for nothing unknown, every action that is sent
changes the table only as the rules allow. -/
theorem everyStep_disciplined (hcreated : t.Created)
    (h : Run step (fun t e => t.asksKnown e = true) t es t') : EveryStep step Disciplined t es :=
  h.everyStep (I := Settled)
    (fun hknown H hstep => ⟨H.step hstep, disciplined_step H hknown hstep⟩) hcreated.settled

/-- The guest checks. -/
theorem everyStep_disciplined_check : ∃ t,
    exec step (openTable 2000) (twoBegin ++ [.message "guest" "table" (.action .check)]) = some t ∧
    EveryStep step Disciplined (openTable 2000)
      (twoBegin ++ [.message "guest" "table" (.action .check)]) := by
  have hexec : (exec step (openTable 2000)
      (twoBegin ++ [.message "guest" "table" (.action .check)])).isSome = true := by
    decide +kernel
  obtain ⟨t, ht⟩ := isSome_iff_exists.mp hexec
  have hknown : allowed step asksKnown (openTable 2000)
      (twoBegin ++ [.message "guest" "table" (.action .check)]) = true := by
    decide +kernel
  exact ⟨t, ht, everyStep_disciplined (created_openTable 2000) (.of_allowed hknown ht)⟩

/-- An action of no known type passes the turn. -/
theorem unknown_passes : ¬ ∀ t es t' e t'', t.Created → FreeRun step t es t' →
    t'.step e = some t'' → Disciplined t' e t'' := by
  intro h
  have hexec : ((exec step (openTable 2000) twoBegin).any fun t =>
      (t.step (.message "guest" "table" (.action .unknown))).any fun t' =>
        t.toActIdx = 1 ∧ t'.toActIdx = 0) = true := by
    decide +kernel
  obtain ⟨t, ht, hexec⟩ := (any_eq_true _ _).mp hexec
  obtain ⟨t', ht', hturn⟩ := (any_eq_true _ _).mp hexec
  obtain ⟨hturn, hturn'⟩ := of_decide_eq_true hturn
  rcases h _ _ t _ t' (created_openTable 2000) (.of_exec ht) ht' _ _ _ rfl with heq | ⟨-, p, -, -, hp⟩
  · rw [heq, hturn] at hturn'
    cases hturn'
  · exact hp

end Bluetalk.Poker.Table
